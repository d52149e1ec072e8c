import ProjectSetup.Import.Removal
import ProjectSetup.Proofs.Import.Header

/-!
# What removal finds

A row is removed if it imports the module, and is kept as it is otherwise. Removal adds nothing, so
a text that it gives back holds no import of the module among its rows.
-/
namespace ProjectSetup

namespace Import

variable {i : Import} {q : Char} {source t rest : Text}

theorem isClause_from {u : Text} (hu : '\n' ∉ u) : isClause (u ++ "from ".toList) = true := by
  have hback : (u ++ "from ".toList).reverse.dropWhile Text.isBlank =
      "from".toList.reverse ++ u.reverse := by
    rw [List.reverse_append]
    rfl
  have hno : '\n' ∉ u.reverse.dropWhile Text.isBlank := fun h =>
    hu (List.mem_reverse.1 ((List.dropWhile_suffix _).subset h))
  rw [isClause, hback, Text.after?_eq_some_iff.2 rfl]
  simp [hno]

theorem clause_cases (i : Import) : i.clause = [] ∨ ∃ u, i.clause = u ++ "from ".toList := by
  obtain ⟨source, binding, names, whole⟩ := i
  cases whole with
  | some w =>
    right
    refine ⟨"* as ".toList ++ w ++ [' '], ?_⟩
    simp only [clause, List.append_assoc]
    rfl
  | none =>
    cases names with
    | nil =>
      cases binding with
      | none => exact .inl rfl
      | some b =>
        right
        refine ⟨b ++ [' '], ?_⟩
        simp only [clause, List.append_assoc]
        rfl
    | cons n ns =>
      right
      have hfrom (t : Text) : ∃ u, t ++ " \x7d from ".toList = u ++ "from ".toList :=
        ⟨t ++ " \x7d ".toList, by rw [List.append_assoc]; rfl⟩
      rw [clause_of_names rfl (List.cons_ne_nil n ns)]
      exact hfrom _

theorem Plain.isClause (hi : i.Plain) : Import.isClause i.clause = true := by
  rcases i.clause_cases with h | ⟨u, hu⟩
  · rw [h]
    rfl
  · rw [hu]
    refine isClause_from fun hmem => ?_
    exact hi.clause_chars '\n' (by rw [hu]; exact List.mem_append_left _ hmem) (by decide)

/-- Behind the word `import` and its blank, the clause begins. -/
theorem Plain.head?_clause (hi : i.Plain) (hq : IsMark q) (x : Text) :
    ∀ c ∈ (i.clause ++ q :: x).head?, Text.isBlank c = false := by
  have hname {b : Text} (hb : Name b) (r : Text) : ∀ c ∈ (b ++ r).head?, Text.isBlank c = false := by
    obtain ⟨c, b', rfl, hc⟩ := hb.exists_cons
    intro c' hc'
    cases hc'
    exact isBlank_of_isBinding hc
  have hmark (c : Char) (hc : Text.isBlank c = false) (r : Text) :
      ∀ c' ∈ (c :: r).head?, Text.isBlank c' = false := by
    intro c' hc'
    cases hc'
    exact hc
  obtain ⟨source, binding, names, whole⟩ := i
  cases whole with
  | some w =>
    simp only [clause, List.append_assoc]
    exact hmark '*' (by decide) _
  | none =>
    cases names with
    | nil =>
      cases binding with
      | none => exact hmark q (by rcases hq with rfl | rfl <;> decide) x
      | some b =>
        simp only [clause, List.append_assoc]
        exact hname (hi.binding b rfl) _
    | cons n ns =>
      rw [clause_of_names rfl (List.cons_ne_nil n ns)]
      cases binding with
      | none => exact hmark '{' (by decide) _
      | some b =>
        simp only [head, List.append_assoc]
        exact hname (hi.binding b rfl) _

/-- What a line imports is decided by the text behind its first quote. -/
theorem Plain.removed?_eq (hi : i.Plain) (hq : IsMark q) (source x : Text) :
    removed? source ("import ".toList ++ (i.clause ++ q :: x)) =
      match Text.after? source x with
      | some (close :: rest) => if isQuote close then afterStatement? rest else none
      | _ => none := by
  have hword : Text.after? "import".toList
      (("import ".toList ++ (i.clause ++ q :: x)).dropWhile Header.isSpace) =
        some (' ' :: (i.clause ++ q :: x)) := by
    rw [Text.after?_eq_some_iff]
    rfl
  have hblank : (' ' :: (i.clause ++ q :: x)).dropWhile Text.isBlank = i.clause ++ q :: x := by
    have hspace : Text.isBlank ' ' = true := by decide
    rw [List.dropWhile_cons_of_pos hspace]
    exact Text.trimStart_eq_self.2 (hi.head?_clause hq x)
  have htail : (i.clause ++ q :: x).dropWhile (fun c => !isQuote c) = q :: x := by
    rw [List.dropWhile_append_of_pos, List.dropWhile_cons_of_neg]
    · rcases hq with rfl | rfl <;> decide
    · intro c hc
      have hno := hi.clause_chars c hc
      simp only [List.mem_cons, not_or] at hno
      simp [isQuote, hno]
  have htake : (i.clause ++ q :: x).take ((i.clause ++ q :: x).length - (q :: x).length) =
      i.clause := by
    rw [List.length_append, Nat.add_sub_cancel, List.take_left]
  have hlength : (i.clause ++ q :: x).length ≠ (' ' :: (i.clause ++ q :: x)).length := by
    simp
  simp only [removed?, hword, Option.bind_eq_bind, Option.bind_some, hblank, if_neg hlength, htail,
    htake, hi.isClause]
  cases Text.after? source x with
  | none => rfl
  | some t => cases t <;> rfl

/-- Behind the first quote of an import, no other module is found that a quote follows. -/
theorem not_quote_of_other (hbare : Bare i.source) (hq : IsMark q) (hsource : Bare source)
    (hne : i.source ≠ source) {x r : Text} {c : Char}
    (h : Text.after? source (i.source ++ q :: x) = some (c :: r)) : isQuote c = false := by
  rw [Text.after?_eq_some_iff] at h
  rcases List.append_eq_append_iff.1 h with ⟨u, hu, hr⟩ | ⟨u, hu, hr⟩
  · cases u with
    | nil => exact absurd (by rw [hu, List.append_nil]) hne
    | cons c' u =>
      cases hr
      exact absurd (by rw [hu]; simp) (hsource.not_mem hq)
  · cases u with
    | nil => exact absurd (by rw [hu, List.append_nil]) hne
    | cons c' u =>
      cases hr
      have hc := hbare c (by rw [hu]; simp)
      simp [isQuote, hc]

theorem without_of_removed (h : removed? source t = some rest) (hlt : rest.length < t.length) :
    without source t = without source rest := by
  cases t with
  | nil => cases hlt
  | cons c r =>
    rw [without]
    split
    · next rest' h' =>
      cases h.symm.trans h'
      rw [dif_pos hlt]
    · next h' => cases h.symm.trans h'

theorem without_of_kept {l : Text} (hl : '\n' ∉ l) (h : removed? source (l ++ '\n' :: rest) = none) :
    without source (l ++ '\n' :: rest) = l ++ '\n' :: without source rest := by
  have hline : ∀ c ∈ l, decide (c ≠ '\n') = true := fun c hc =>
    decide_eq_true fun he : c = '\n' => hl (he ▸ hc)
  have htake : (l ++ '\n' :: rest).takeWhile (· ≠ '\n') = l := by
    rw [List.takeWhile_append_of_pos hline, List.takeWhile_cons_of_neg (by simp), List.append_nil]
  have hdrop : (l ++ '\n' :: rest).dropWhile (· ≠ '\n') = '\n' :: rest := by
    rw [List.dropWhile_append_of_pos hline, List.dropWhile_cons_of_neg (by simp)]
  obtain ⟨c, r, hcons⟩ : ∃ c r, l ++ '\n' :: rest = c :: r :=
    List.exists_cons_of_ne_nil (by simp)
  rw [hcons] at h htake hdrop ⊢
  rw [without]
  split
  · next h' => cases h.symm.trans h'
  · rw [htake]
    split
    · next h' => cases hdrop.symm.trans h'
    · next h' =>
      cases hdrop.symm.trans h'
      rfl

theorem suffix_of_after? {start : Text} (h : Text.after? start t = some rest) : rest <:+ t := by
  rw [Text.after?_eq_some_iff.1 h]
  exact List.suffix_append _ _

theorem suffix_of_afterStatement? (h : afterStatement? t = some rest) : rest <:+ t := by
  have hspace (t : Text) : t.dropWhile Header.isSpace <:+ t := List.dropWhile_suffix _
  simp only [afterStatement?] at h
  split at h
  · cases h
    exact List.nil_suffix
  · next c r hcons =>
    split at h
    · cases h
      refine (List.suffix_cons c _).trans ?_
      -- the line break stands behind a semicolon or not
      split at hcons
      · next s hs =>
        rw [← hcons]
        exact (hspace s).trans ((List.suffix_cons ';' s).trans (hs ▸ hspace t))
      · rw [← hcons]
        exact hspace t
    · cases h

theorem suffix_of_removed? (h : removed? source t = some rest) : rest <:+ t := by
  simp only [removed?, Option.bind_eq_bind, Option.bind_none, Option.bind_eq_some_iff] at h
  obtain ⟨r, hr, h⟩ := h
  have htail : (r.dropWhile Text.isBlank).dropWhile (fun c => !isQuote c) <:+ t :=
    (List.dropWhile_suffix _).trans <| (List.dropWhile_suffix _).trans <|
      (suffix_of_after? hr).trans (List.dropWhile_suffix _)
  split at h
  · cases h
  split at h
  · cases h
  split at h
  · next quote quoted hquoted =>
    rw [hquoted] at htail
    obtain ⟨found, hfound, h⟩ := Option.bind_eq_some_iff.1 h
    split at h
    · next close after =>
      split at h
      · exact (suffix_of_afterStatement? h).trans <| (List.suffix_cons _ _).trans <|
          (suffix_of_after? hfound).trans <| (List.suffix_cons _ _).trans htail
      · cases h
    · cases h
  · cases h

/-- Removal drops characters and adds none. -/
theorem without_sublist (source t : Text) : (without source t).Sublist t := by
  fun_induction without source t with
  | case1 => exact List.Sublist.refl _
  | case2 c r rest h hlt ih => exact ih.trans (suffix_of_removed? h).sublist
  | case3 => exact List.Sublist.refl _
  | case4 c r h ih =>
    conv_rhs => rw [← List.takeWhile_append_dropWhile (l := c :: r) (p := (· ≠ '\n'))]
    refine (List.Sublist.refl _).append ?_
    split
    · exact List.nil_sublist _
    · next b rest hrest =>
      rw [hrest]
      exact (ih b rest hrest).cons_cons b

namespace Row

/-- Whether the row imports the module. -/
def imports (source : Text) : Row → Bool
  | blank => false
  | statement i _ => i.source == source

variable {r : Row}

theorem removed?_text (hr : r.Plain) (hq : IsMark q) (hsource : Bare source) (rest : Text) :
    removed? source (r.text q ++ '\n' :: rest) = if r.imports source then some rest else none := by
  cases r with
  | blank => rfl
  | statement i closed =>
    let stop : Text := if closed then [';'] else []
    have hquote : isQuote q = true := by rcases hq with rfl | rfl <;> rfl
    have hstop : afterStatement? (stop ++ '\n' :: rest) = some rest := by cases closed <;> rfl
    have hline : (statement i closed).text q ++ '\n' :: rest =
        "import ".toList ++ (i.clause ++ q :: (i.source ++ q :: (stop ++ '\n' :: rest))) := by
      rw [text, line_eq]
      simp only [List.append_assoc, List.cons_append, List.nil_append, stop]
    rw [hline, Plain.removed?_eq hr hq]
    by_cases hs : i.source = source
    · have hafter := Text.after?_eq_some_iff.2
        (rfl : i.source ++ q :: (stop ++ '\n' :: rest) = i.source ++ q :: (stop ++ '\n' :: rest))
      rw [← hs, hafter]
      simp only [hquote, if_true, hstop, imports, beq_self_eq_true]
    · have hno : (statement i closed).imports source = false := by simp [imports, hs]
      rw [hno]
      split
      · next close r hafter =>
        have hopen := not_quote_of_other (Plain.source hr) hq hsource hs hafter
        simp [hopen]
      · rfl

/-- A row goes with its line, or stays. -/
theorem without_text (hr : r.Plain) (hq : IsMark q) (hsource : Bare source) (rest : Text) :
    without source (r.text q ++ '\n' :: rest) =
      if r.imports source then without source rest
      else r.text q ++ '\n' :: without source rest := by
  have hremoved := removed?_text hr hq hsource rest
  split at hremoved
  · next h =>
    rw [if_pos h]
    exact without_of_removed hremoved (by simp; omega)
  · next h =>
    rw [if_neg h]
    exact without_of_kept (newline_not_mem_text hq hr) hremoved

variable {rows : List Row}

/-- Rows that import other modules are kept. -/
theorem without_rows (hrows : ∀ r ∈ rows, r.Plain) (hq : IsMark q) (hsource : Bare source)
    (hother : ∀ r ∈ rows, r.imports source = false) (t : Text) :
    without source (Header.joinLines (rows.map (text q)) ++ t) =
      Header.joinLines (rows.map (text q)) ++ without source t := by
  induction rows with
  | nil => rfl
  | cons r rows ih =>
    rw [List.map_cons, Header.joinLines_cons, List.append_assoc, List.cons_append,
      List.append_assoc, List.cons_append,
      without_text (hrows r List.mem_cons_self) hq hsource,
      if_neg (by simp [hother r List.mem_cons_self]),
      ih (fun r hr => hrows r (List.mem_cons_of_mem _ hr))
        fun r hr => hother r (List.mem_cons_of_mem _ hr)]

/-- If removal changes nothing, no row imports the module, and the text behind them is kept. -/
theorem other_of_without_eq (hrows : ∀ r ∈ rows, r.Plain) (hq : IsMark q) (hsource : Bare source)
    (h : without source (Header.joinLines (rows.map (text q)) ++ t) =
      Header.joinLines (rows.map (text q)) ++ t) :
    (∀ r ∈ rows, r.imports source = false) ∧ without source t = t := by
  induction rows with
  | nil => exact ⟨fun r hr => absurd hr List.not_mem_nil, h⟩
  | cons r rows ih =>
    rw [List.map_cons, Header.joinLines_cons, List.append_assoc, List.cons_append,
      without_text (hrows r List.mem_cons_self) hq hsource] at h
    split at h
    · have hlength := (without_sublist source (Header.joinLines (rows.map (text q)) ++ t)).length_le
      rw [h] at hlength
      simp only [List.length_append, List.length_cons] at hlength
      omega
    · next hr =>
      obtain ⟨hother, ht⟩ := ih (fun r hr => hrows r (List.mem_cons_of_mem _ hr))
        (List.cons_injective (List.append_cancel_left h))
      refine ⟨fun r' hr' => ?_, ht⟩
      rcases List.mem_cons.1 hr' with rfl | hr'
      · exact Bool.eq_false_iff.2 hr
      · exact hother r' hr'

/-- A last row that imports the module is removed with its line. -/
theorem without_concat (hrows : ∀ r ∈ rows, r.Plain) (hr : r.Plain) (hq : IsMark q)
    (hsource : Bare source) (hother : ∀ r ∈ rows, r.imports source = false)
    (himports : r.imports source = true) (t : Text) :
    without source (Header.joinLines ((rows ++ [r]).map (text q)) ++ t) =
      Header.joinLines (rows.map (text q)) ++ without source t := by
  have hsplit : Header.joinLines ((rows ++ [r]).map (text q)) ++ t =
      Header.joinLines (rows.map (text q)) ++ (r.text q ++ '\n' :: t) := by
    simp [Header.joinLines]
  rw [hsplit, without_rows hrows hq hsource hother, without_text hr hq hsource, if_pos himports]

end Row

end Import

end ProjectSetup
