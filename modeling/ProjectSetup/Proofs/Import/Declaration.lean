import ProjectSetup.Proofs.Import.RoundTrip
import ProjectSetup.Proofs.Layout.Loss
import ProjectSetup.Proofs.Layout.Verbatim

/-!
# What a removal takes

The removal of a module looks at lines only: it takes each text that starts a line, has the form of
an import of the module and has nothing but a semicolon behind it, also where the line stands inside
a template literal or a comment. A text without such lines is kept as it is, and of any other text
the word `import` at least is lost.
-/
namespace ProjectSetup

open Text (essence)

namespace Import

/-- An import in its parts. -/
structure Declaration where
  indent : Text := []
  /-- The blanks behind the word `import`. -/
  gap : Text := [' ']
  /-- What is bound, with the word `from`. -/
  clause : Text := []
  opening : Char := '\''
  source : Text
  closing : Char := '\''
  /-- What follows the quoted module. -/
  stop : Text := []

/-- The text names what is bound by an import: nothing, or bindings on one line and the word
`from`. -/
def Binds (t : Text) : Prop :=
  t = [] ∨ ∃ bindings gap gap', t = bindings ++ (gap ++ ("from".toList ++ gap')) ∧
    '\n' ∉ bindings ∧ gap.blank = true ∧ gap'.blank = true

/-- The text holds no more than a semicolon among blanks. -/
def Ends (t : Text) : Prop :=
  ∃ gap gap' : Text, gap.all Header.isSpace = true ∧ gap'.all Header.isSpace = true ∧
    (t = gap ∨ t = gap ++ ';' :: gap')

namespace Declaration

def text (d : Declaration) : Text :=
  d.indent ++ ("import".toList ++ (d.gap ++ (d.clause ++
    d.opening :: (d.source ++ d.closing :: d.stop))))

/-- The parts are cut where the blanks and the quotes are. -/
structure Cut (d : Declaration) : Prop where
  indent : d.indent.all Header.isSpace = true
  gap : d.gap.blank = true
  clause : Binds d.clause
  head : ∀ c ∈ d.clause.head?, Text.isBlank c = false
  unquoted : ∀ c ∈ d.clause, isQuote c = false
  opening : isQuote d.opening = true
  closing : isQuote d.closing = true

/-- The form of an import of `source` that is removed: a blank stands behind the word `import`, and
no more than a semicolon behind the module. -/
structure Removable (source : Text) (d : Declaration) : Prop extends Cut d where
  parted : d.gap ≠ []
  source : d.source = source
  stop : Ends d.stop

end Declaration

variable {source t rest : Text} {d : Declaration}

/-- Ahead of `rest` a line ends with the text `t`: `t` is empty or begins with a line break. -/
def EndsLine (rest t : Text) : Prop := t = [] ∧ rest = [] ∨ t = '\n' :: rest

theorem dropWhile_of_all {p : Char → Bool} {s : Text} (h : s.all p = true) (t : Text) :
    (s ++ t).dropWhile p = t.dropWhile p :=
  List.dropWhile_append_of_pos (List.all_eq_true.1 h)

theorem isBlank_of_isQuote {c : Char} (hc : isQuote c = true) : Text.isBlank c = false := by
  simp only [isQuote, Bool.or_eq_true, beq_iff_eq] at hc
  rcases hc with rfl | rfl <;> decide

theorem isClause_eq_true_iff : isClause t = true ↔ Binds t := by
  rw [isClause, Bool.or_eq_true, List.isEmpty_iff, Binds]
  refine or_congr_right ⟨fun h => ?_, ?_⟩
  · split at h
    · next back hafter =>
      rw [Text.after?_eq_some_iff] at hafter
      generalize hblanks : t.reverse.takeWhile Text.isBlank = blanks
      generalize hgap : back.takeWhile Text.isBlank = gap
      generalize hline : back.dropWhile Text.isBlank = line at h
      have hsplit : t.reverse = blanks ++ ("from".toList.reverse ++ (gap ++ line)) := by
        rw [← hgap, ← hline, List.takeWhile_append_dropWhile, ← hafter, ← hblanks,
          List.takeWhile_append_dropWhile]
      refine ⟨line.reverse, gap.reverse, blanks.reverse, ?_, by simpa using h, ?_, ?_⟩
      · rw [← List.reverse_reverse t, hsplit]
        simp
      · rw [Text.blank, List.all_reverse, ← hgap]
        exact List.all_takeWhile
      · rw [Text.blank, List.all_reverse, ← hblanks]
        exact List.all_takeWhile
    · cases h
  · rintro ⟨bindings, gap, gap', rfl, hline, hgap, hgap'⟩
    have hfrom : (bindings ++ (gap ++ ("from".toList ++ gap'))).reverse.dropWhile Text.isBlank =
        "from".toList.reverse ++ (gap.reverse ++ bindings.reverse) := by
      simp only [List.reverse_append, List.append_assoc]
      rw [dropWhile_of_all (by rwa [List.all_reverse])]
      rfl
    rw [hfrom, Text.after?_eq_some_iff.2 rfl]
    simp only
    rw [dropWhile_of_all (by rwa [List.all_reverse])]
    have hno : '\n' ∉ bindings.reverse.dropWhile Text.isBlank := fun hmem =>
      hline (List.mem_reverse.1 ((List.dropWhile_suffix _).subset hmem))
    simpa using hno

theorem dropWhile_of_endsLine (h : EndsLine rest t) : t.dropWhile Header.isSpace = t := by
  rcases h with ⟨rfl, -⟩ | rfl
  · rfl
  · rfl

theorem endsLine_of_eq_some {u : Text}
    (h : (match u with
      | [] => some []
      | c :: r => if c = '\n' then some r else none) = some rest) : EndsLine rest u := by
  split at h
  · cases h
    exact .inl ⟨rfl, rfl⟩
  · split at h
    · next hc =>
      cases h
      exact .inr (by rw [hc])
    · cases h

/-- A text begins with blanks and the semicolon among them, if there is one. -/
theorem exists_ends (t : Text) : ∃ stop, Ends stop ∧
    t = stop ++ match t.dropWhile Header.isSpace with
      | ';' :: r => r.dropWhile Header.isSpace
      | _ => t.dropWhile Header.isSpace := by
  have hsplit (u : Text) : u = u.takeWhile Header.isSpace ++ u.dropWhile Header.isSpace :=
    (List.takeWhile_append_dropWhile).symm
  have hspaces (u : Text) : (u.takeWhile Header.isSpace).all Header.isSpace = true :=
    List.all_takeWhile
  split
  · next r hr =>
    refine ⟨t.takeWhile Header.isSpace ++ ';' :: r.takeWhile Header.isSpace,
      ⟨_, _, hspaces t, hspaces r, .inr rfl⟩, ?_⟩
    conv_lhs => rw [hsplit t, hr, hsplit r]
    simp
  · exact ⟨_, ⟨_, [], hspaces t, rfl, .inl rfl⟩, hsplit t⟩

theorem afterStatement?_eq_some_iff : afterStatement? t = some rest ↔
    ∃ stop u, Ends stop ∧ EndsLine rest u ∧ t = stop ++ u := by
  constructor
  · intro h
    obtain ⟨stop, hstop, ht⟩ := exists_ends t
    exact ⟨stop, _, hstop, endsLine_of_eq_some h, ht⟩
  · rintro ⟨stop, u, ⟨gap, gap', hgap, hgap', hstop⟩, hu, rfl⟩
    rcases hstop with rfl | rfl
    · rw [afterStatement?, dropWhile_of_all hgap, dropWhile_of_endsLine hu]
      rcases hu with ⟨rfl, rfl⟩ | rfl
      · rfl
      · rfl
    · rw [afterStatement?, List.append_assoc, dropWhile_of_all hgap, List.cons_append,
        List.dropWhile_cons_of_neg (by decide)]
      simp only
      rw [dropWhile_of_all hgap', dropWhile_of_endsLine hu]
      rcases hu with ⟨rfl, rfl⟩ | rfl
      · rfl
      · rfl

namespace Declaration

/-- What is found where a declaration stands is decided by the blank behind the word `import` and by
the text behind the module. -/
theorem Cut.removed?_eq (h : d.Cut) (u : Text) : removed? d.source (d.text ++ u) =
    if d.gap = [] then none else afterStatement? (d.stop ++ u) := by
  have hword : Text.after? "import".toList ((d.text ++ u).dropWhile Header.isSpace) =
      some (d.gap ++ (d.clause ++ d.opening :: (d.source ++ d.closing :: (d.stop ++ u)))) := by
    rw [Text.after?_eq_some_iff, text, List.append_assoc, dropWhile_of_all h.indent]
    simp only [List.append_assoc, List.cons_append]
    rfl
  have hmark := isBlank_of_isQuote h.opening
  have hclause (x : Text) : (d.gap ++ (d.clause ++ d.opening :: x)).dropWhile Text.isBlank =
      d.clause ++ d.opening :: x := by
    rw [dropWhile_of_all h.gap]
    refine Text.trimStart_eq_self.2 fun c hc => ?_
    cases hclause : d.clause with
    | nil =>
      rw [hclause] at hc
      cases hc
      exact hmark
    | cons c' clause =>
      rw [hclause] at hc
      exact h.head c (by rw [hclause]; exact hc)
  have htail (x : Text) : (d.clause ++ d.opening :: x).dropWhile (fun c => !isQuote c) =
      d.opening :: x := by
    rw [dropWhile_of_all (List.all_eq_true.2 fun c hc => by rw [h.unquoted c hc]; rfl),
      List.dropWhile_cons_of_neg (by simp [h.opening])]
  have htake (x : Text) : (d.clause ++ d.opening :: x).take
      ((d.clause ++ d.opening :: x).length - (d.opening :: x).length) = d.clause := by
    rw [List.length_append, Nat.add_sub_cancel, List.take_left]
  have hlength (x : Text) : (d.clause ++ d.opening :: x).length =
      (d.gap ++ (d.clause ++ d.opening :: x)).length ↔ d.gap = [] := by
    have hgap (y : Text) : (d.gap ++ y).length = d.gap.length + y.length := List.length_append
    rw [hgap, ← List.length_eq_zero_iff]
    omega
  simp only [removed?, hword, Option.bind_eq_bind, Option.bind_some, hclause, htail, htake, hlength,
    isClause_eq_true_iff.2 h.clause, Text.after?_eq_some_iff.2 rfl, h.closing]
  split
  · rfl
  · rfl

/-- The text of a declaration that is removed is found with the rest of its line. -/
theorem Removable.removed? (h : d.Removable source) (hrest : EndsLine rest t) :
    removed? source (d.text ++ t) = some rest := by
  rw [← h.source, h.removed?_eq, if_neg h.parted]
  exact afterStatement?_eq_some_iff.2 ⟨d.stop, t, h.stop, hrest, rfl⟩

end Declaration

/-- What is found is a declaration, with the rest of its line. -/
theorem exists_removable (h : removed? source t = some rest) :
    ∃ d u, Declaration.Removable source d ∧ EndsLine rest u ∧ t = d.text ++ u := by
  simp only [removed?, Option.bind_eq_bind, Option.bind_none, Option.bind_eq_some_iff] at h
  obtain ⟨r, hr, h⟩ := h
  rw [Text.after?_eq_some_iff] at hr
  generalize hclause : r.dropWhile Text.isBlank = clause at h
  generalize htail : clause.dropWhile (fun c => !isQuote c) = tail at h
  have hgap : r = r.takeWhile Text.isBlank ++ clause := by
    rw [← hclause, List.takeWhile_append_dropWhile]
  have hbound : clause = clause.takeWhile (fun c => !isQuote c) ++ tail := by
    rw [← htail, List.takeWhile_append_dropWhile]
  have htake : clause.take (clause.length - tail.length) =
      clause.takeWhile fun c => !isQuote c := by
    conv_lhs => rw [hbound, List.length_append, Nat.add_sub_cancel, List.take_left]
  rw [htake] at h
  split at h
  · cases h
  next hparted =>
  split at h
  · cases h
  next hbinds =>
  split at h
  · next opening quoted =>
    obtain ⟨found, hfound, h⟩ := Option.bind_eq_some_iff.1 h
    split at h
    · next closing after =>
      split at h
      · next hclosing =>
        rw [Text.after?_eq_some_iff] at hfound
        obtain ⟨stop, u, hstop, hu, rfl⟩ := afterStatement?_eq_some_iff.1 h
        refine ⟨⟨t.takeWhile Header.isSpace, r.takeWhile Text.isBlank,
          clause.takeWhile (fun c => !isQuote c), opening, source, closing, stop⟩, u,
          ⟨⟨List.all_takeWhile, List.all_takeWhile, ?_, ?_, ?_, ?_, hclosing⟩, ?_, rfl, hstop⟩,
          hu, ?_⟩
        · simpa [isClause_eq_true_iff] using hbinds
        · intro c hc
          have htrim : Text.trimStart clause = clause := by
            rw [← hclause]
            exact Text.trimStart_trimStart r
          refine Text.trimStart_eq_self.1 htrim c ?_
          rw [hbound, List.head?_append, Option.mem_def.1 hc]
          rfl
        · intro c hc
          simpa using List.mem_takeWhile_imp hc
        · have hopening := List.head?_dropWhile_not (fun c => !isQuote c) clause
          rw [htail] at hopening
          simpa using hopening
        · intro hnil
          rw [show r.takeWhile Text.isBlank = [] from hnil, List.nil_append] at hgap
          exact hparted (congrArg List.length hgap.symm)
        · conv_lhs => rw [← List.takeWhile_append_dropWhile (p := Header.isSpace) (l := t), hr, hgap,
            hbound, hfound]
          simp [Declaration.text]
      · cases h
    · cases h
  · cases h

/-- The text `x` makes up whole lines of the text `t`. -/
def OnLines (x t : Text) : Prop :=
  ∃ u v rest, (u = [] ∨ ∃ w, u = w ++ ['\n']) ∧ EndsLine rest v ∧ t = u ++ (x ++ v)

theorem Declaration.text_ne_nil (d : Declaration) : d.text ≠ [] := by
  rw [Declaration.text]
  simp

/-- A declaration holds more than loose characters. -/
theorem Declaration.essence_pos (d : Declaration) : 0 < (essence d.text).length := by
  have hmem : 'i' ∈ essence d.text := by
    rw [essence, List.mem_filter, Declaration.text]
    exact ⟨by simp, by decide⟩
  exact List.length_pos_of_mem hmem

theorem length_essence_lt_of_removed? (h : removed? source t = some rest) :
    (essence rest).length < (essence t).length := by
  obtain ⟨d, u, -, hu, rfl⟩ := exists_removable h
  have hrest : (essence rest).Sublist (essence u) := by
    rcases hu with ⟨rfl, rfl⟩ | rfl
    · exact List.Sublist.refl _
    · exact (List.sublist_cons_self '\n' rest).filter _
  have hpos := d.essence_pos
  have hle := hrest.length_le
  rw [Text.essence_append, List.length_append]
  omega

theorem length_lt_of_removed? (h : removed? source t = some rest) : rest.length < t.length := by
  have hsuffix := suffix_of_removed? h
  refine Nat.lt_of_le_of_ne hsuffix.length_le fun hlength => ?_
  have hlt := length_essence_lt_of_removed? h
  rw [hsuffix.eq_of_length hlength] at hlt
  exact Nat.lt_irrefl _ hlt

theorem length_essence_without_le (source t : Text) :
    (essence (without source t)).length ≤ (essence t).length :=
  ((without_sublist source t).filter _).length_le

/-- The lines of a text are its first lines, and lines of what follows its first line. -/
theorem OnLines.cases {x l t : Text} (hl : '\n' ∉ l) (h : OnLines x (l ++ '\n' :: t)) :
    (∃ v rest, EndsLine rest v ∧ l ++ '\n' :: t = x ++ v) ∨ OnLines x t := by
  obtain ⟨u, v, rest, rfl | ⟨w, rfl⟩, hv, h⟩ := h
  · exact .inl ⟨v, rest, hv, h⟩
  · right
    rw [List.append_assoc] at h
    rcases List.append_eq_append_iff.1 h with ⟨z, -, hz⟩ | ⟨z, rfl, hz⟩
    · cases z with
      | nil => exact ⟨[], v, rest, .inl rfl, hv, by simpa using hz⟩
      | cons c z =>
        rw [List.cons_append, List.cons.injEq] at hz
        exact ⟨z ++ ['\n'], v, rest, .inr ⟨z, rfl⟩, hv, by simp [hz.2]⟩
    · cases z with
      | nil => exact ⟨[], v, rest, .inl rfl, hv, by simpa using hz.symm⟩
      | cons c z =>
        rw [List.singleton_append, List.cons_append, List.cons.injEq] at hz
        exact absurd (by rw [← hz.1]; simp) hl

theorem OnLines.below {x t : Text} (l : Text) (h : OnLines x t) : OnLines x (l ++ '\n' :: t) := by
  obtain ⟨u, v, rest, hu, hv, rfl⟩ := h
  refine ⟨l ++ '\n' :: u, v, rest, .inr ?_, hv, by simp⟩
  rcases hu with rfl | ⟨w, rfl⟩
  · exact ⟨l, rfl⟩
  · exact ⟨l ++ '\n' :: w, by simp⟩

theorem without_nil (source : Text) : without source [] = [] := by
  rw [without]

theorem without_of_last {l : Text} (hl : '\n' ∉ l) (h : removed? source l = none) :
    without source l = l := by
  have hline : ∀ c ∈ l, decide (c ≠ '\n') = true := fun c hc =>
    decide_eq_true fun he : c = '\n' => hl (he ▸ hc)
  have htake : l.takeWhile (· ≠ '\n') = l := List.takeWhile_eq_self_iff.2 hline
  have hdrop : l.dropWhile (· ≠ '\n') = [] := List.dropWhile_eq_nil_iff.2 hline
  cases l with
  | nil => exact without_nil source
  | cons c r =>
    rw [without]
    split
    · next h' => cases h.symm.trans h'
    · rw [htake]
      split
      · exact List.append_nil _
      · next h' => cases hdrop.symm.trans h'

/-- Removal goes over a text from the beginning of a line to the next one: it finds an import, or
keeps the line. -/
theorem without_induction (source : Text) {motive : Text → Prop} (nil : motive [])
    (removed : ∀ t rest, removed? source t = some rest → motive rest → motive t)
    (last : ∀ l, '\n' ∉ l → removed? source l = none → motive l)
    (kept : ∀ l t, '\n' ∉ l → removed? source (l ++ '\n' :: t) = none → motive t →
      motive (l ++ '\n' :: t)) (t : Text) : motive t := by
  fun_induction without source t with
  | case1 => exact nil
  | case2 c r rest h hlt ih => exact removed _ rest h ih
  | case3 c r rest h hlt => exact absurd (length_lt_of_removed? h) hlt
  | case4 c r h ih =>
    have hsplit : (c :: r) = (c :: r).takeWhile (· ≠ '\n') ++ (c :: r).dropWhile (· ≠ '\n') :=
      (List.takeWhile_append_dropWhile).symm
    have hline : '\n' ∉ (c :: r).takeWhile (· ≠ '\n') := fun hmem => by
      simpa using List.mem_takeWhile_imp hmem
    cases hrest : (c :: r).dropWhile (· ≠ '\n') with
    | nil =>
      rw [hrest, List.append_nil] at hsplit
      exact last _ (hsplit ▸ hline) h
    | cons b rest =>
      have hb : b = '\n' := by
        have hhead := List.head?_dropWhile_not (· ≠ '\n') (c :: r)
        rw [hrest] at hhead
        simpa using hhead
      rw [hrest, hb] at hsplit
      rw [hsplit] at h ⊢
      exact kept _ rest hline h (ih b rest hrest)

/-- A text that holds no declaration to remove among its lines is kept, and any other text loses
some of its essence. -/
theorem without_cases (source t : Text) :
    (without source t = t ∧ ∀ d, Declaration.Removable source d → ¬ OnLines d.text t) ∨
      ((essence (without source t)).length < (essence t).length ∧
        ∃ d, Declaration.Removable source d ∧ OnLines d.text t) := by
  have hfirst {t : Text} (h : removed? source t = none) {d : Declaration}
      (hd : d.Removable source) (v rest : Text) (hv : EndsLine rest v) : t ≠ d.text ++ v := by
    rintro rfl
    rw [hd.removed? hv] at h
    cases h
  induction t using without_induction source with
  | nil =>
    refine .inl ⟨without_nil source, ?_⟩
    rintro d - ⟨u, v, rest, -, -, h⟩
    simp [d.text_ne_nil] at h
  | removed t rest h ih =>
    obtain ⟨d, u, hd, hu, ht⟩ := exists_removable h
    refine .inr ⟨?_, d, hd, [], u, rest, .inl rfl, hu, ht⟩
    rw [without_of_removed h (length_lt_of_removed? h)]
    exact (length_essence_without_le source rest).trans_lt (length_essence_lt_of_removed? h)
  | last l hl h =>
    refine .inl ⟨without_of_last hl h, ?_⟩
    rintro d hd ⟨u, v, rest, rfl | ⟨w, rfl⟩, hv, ht⟩
    · exact hfirst h hd v rest hv ht
    · exact hl (by rw [ht]; simp)
  | kept l t hl h ih =>
    rw [without_of_kept hl h]
    rcases ih with ⟨hkept, hnone⟩ | ⟨hlt, d, hd, hlines⟩
    · refine .inl ⟨by rw [hkept], fun d hd hlines => ?_⟩
      rcases hlines.cases hl with ⟨v, rest, hv, ht⟩ | hlines
      · exact hfirst h hd v rest hv ht
      · exact hnone d hd hlines
    · refine .inr ⟨?_, d, hd, hlines.below l⟩
      simp only [Text.essence_append, List.length_append]
      have hbreak (x : Text) : essence ('\n' :: x) = essence x := rfl
      rw [hbreak, hbreak]
      omega

theorem without_eq_self_iff : without source t = t ↔
    ∀ d, Declaration.Removable source d → ¬ OnLines d.text t := by
  rcases without_cases source t with ⟨hkept, hnone⟩ | ⟨hlt, d, hd, hlines⟩
  · exact iff_of_true hkept hnone
  · refine iff_of_false (fun hkept => ?_) fun hnone => hnone d hd hlines
    rw [hkept] at hlt
    exact Nat.lt_irrefl _ hlt

variable {path : String} {o : StyleOverrides} {c f : Text}

/-- A removal gives the normal form of the single-line text if no line of this text, be it inside a
literal, is an import of the module; and only then, unless the layout loses text. -/
theorem strip_untouched_iff (hflat : flatten path o c = .ok f) :
    ((∀ d, Declaration.Removable source d → ¬ OnLines d.text f) →
      strip path o source c = settle path o f) ∧
    ∀ y, settle path o f = .ok y → essence y = essence f →
      (strip path o source c = .ok y ↔
        ∀ d, Declaration.Removable source d → ¬ OnLines d.text f) := by
  have hkeep (h : ∀ d, Declaration.Removable source d → ¬ OnLines d.text f) :
      strip path o source c = settle path o f := by
    rw [strip_eq hflat, without_eq_self_iff.2 h]
  refine ⟨hkeep, fun y hsettled hessence => ⟨fun hstrip => ?_, fun h => hsettled ▸ hkeep h⟩⟩
  rcases without_cases source f with ⟨-, hnone⟩ | ⟨hlt, -⟩
  · exact hnone
  · rw [strip_eq hflat, settle, mapError_eq_ok_iff] at hstrip
    have hle := (normalize_loses_end hstrip).length_le
    rw [hessence] at hle
    omega

/-- Imports in a comment and in a string do not start a line. -/
theorem strip_untouched_comment :
    let c := "// import './x'\nconst s = \"import './x'\"\n".toList
    flatten "a.js" {} c = .ok c ∧ strip "a.js" {} "./x".toList c = settle "a.js" {} c := by
  intro c
  have hflat : flatten "a.js" {} c = .ok c := by decide +kernel
  have hkept : without "./x".toList c = c := by decide +kernel
  exact ⟨hflat, (strip_untouched_iff hflat).1 (without_eq_self_iff.1 hkept)⟩

/-- A line of a template literal is removed, although no import stands outside of it. -/
theorem strip_touches_template :
    let c := "const t = \x60\nimport './x'\n\x60\n".toList
    flatten "a.js" {} c = .ok c ∧ settle "a.js" {} c = .ok c ∧
      Draft.literals '\'' c = ["\nimport './x'\n\x60".toList] ∧
      c = "const t = \x60".toList ++ ("\nimport './x'\n\x60".toList ++ ['\n']) ∧
      ¬ "import".toList <:+: "const t = \x60".toList ∧
      strip "a.js" {} "./x".toList c = .ok "const t = \x60\n\x60\n".toList ∧
      strip "a.js" {} "./x".toList c ≠ settle "a.js" {} c := by
  decide +kernel

end Import

end ProjectSetup
