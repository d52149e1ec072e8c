import ProjectSetup.Proofs.Import.Declaration
import ProjectSetup.Proofs.Import.Separate

/-!
# Completeness of removal

A removal is complete up to the form that it looks for: an import of the module is left on a line
where no blank stands behind the word `import`, or more than a semicolon behind the module. Lines of
their own are removed or kept one by one, and neither layout makes another import of what is left.
-/
namespace ProjectSetup

open Text (essence)

/-- Among the lines of `f`, the line `l` stands outside brackets and literals. -/
def Draft.StatementLine (q : Char) (l f : Text) : Prop :=
  ∃ above below, Text.splitOn '\n' f = above ++ l :: below ∧
    Complete q (Header.joinLines above)

namespace Import

variable {source l s s' t u u' rest rest' : Text} {d : Declaration}

theorem Ends.unbroken (h : Ends t) : '\n' ∉ t := by
  have hspace {gap : Text} (h : gap.all Header.isSpace = true) : '\n' ∉ gap := fun hmem =>
    absurd (List.all_eq_true.1 h _ hmem) (by decide)
  obtain ⟨gap, gap', hgap, hgap', rfl | rfl⟩ := h
  · exact hspace hgap
  · simp [hspace hgap, hspace hgap']

/-- A text begins with one line only. -/
theorem line_eq_of_endsLine (hs : '\n' ∉ s) (hs' : '\n' ∉ s') (hu : EndsLine rest u)
    (hu' : EndsLine rest' u') (h : s ++ u = s' ++ u') : s = s' ∧ rest = rest' := by
  rcases hu with ⟨rfl, rfl⟩ | rfl
  · rcases hu' with ⟨rfl, rfl⟩ | rfl
    · exact ⟨by simpa using h, rfl⟩
    · exact absurd (by rw [← List.append_nil s, h]; simp) hs
  · rcases hu' with ⟨rfl, rfl⟩ | rfl
    · exact absurd (by rw [← List.append_nil s', ← h]; simp) hs'
    · exact Lines.line_eq hs hs' h

namespace Declaration

theorem text_eq (d : Declaration) : d.text =
    (d.indent ++ "import".toList ++ (d.gap ++ d.clause)) ++
      d.opening :: (d.source ++ d.closing :: d.stop) := by
  simp only [text, List.append_assoc]

theorem Cut.unquoted_front (h : d.Cut) :
    ∀ c ∈ d.indent ++ "import".toList ++ (d.gap ++ d.clause), isQuote c = false := by
  have hblank {c : Char} (hc : Text.isBlank c = true) : isQuote c = false := by
    cases hq : isQuote c with
    | false => rfl
    | true =>
      rw [isBlank_of_isQuote hq] at hc
      cases hc
  intro c hc
  simp only [List.mem_append] at hc
  rcases hc with (hc | hc) | hc | hc
  · exact hblank (StaticImport.isBlank_of_isSpace (List.all_eq_true.1 h.indent c hc))
  · exact (by decide : ∀ c ∈ "import".toList, isQuote c = false) c hc
  · exact hblank (List.all_eq_true.1 h.gap c hc)
  · exact h.unquoted c hc

/-- A declaration that is removed begins with a line that begins with the word `import`. -/
theorem Removable.isImport (hd : d.Removable source) (h : l ++ '\n' :: t = d.text ++ u) :
    Header.isImport l = true := by
  have hword : '\n' ∉ d.indent ++ "import".toList := by
    have hindent : '\n' ∉ d.indent := fun hmem =>
      absurd (List.all_eq_true.1 hd.indent _ hmem) (by decide)
    simp [hindent]
  obtain ⟨w, hw⟩ : ∃ w, l = d.indent ++ "import".toList ++ w := by
    rw [text_eq, List.append_assoc, List.append_assoc _ (d.gap ++ d.clause)] at h
    rcases List.append_eq_append_iff.1 h with ⟨w, hw, hrest⟩ | ⟨w, hw, -⟩
    · cases w with
      | nil => exact ⟨[], by rw [List.append_nil] at hw ⊢; exact hw.symm⟩
      | cons c w =>
        rw [List.cons_append, List.cons.injEq] at hrest
        exact absurd (by rw [hw, ← hrest.1]; simp) hword
    · exact ⟨w, hw⟩
  obtain ⟨g, gap, hgap⟩ := List.exists_cons_of_ne_nil hd.parted
  have hblank : Text.isBlank g = true :=
    List.all_eq_true.1 hd.gap g (by rw [hgap]; exact List.mem_cons_self)
  have hnext : w.head?.any Text.isWord = false := by
    refine (Option.any_eq_false _ _).2 fun c hc => ?_
    rw [text_eq, hw, hgap] at h
    simp only [List.append_assoc, List.append_cancel_left_eq] at h
    cases w with
    | nil => cases hc
    | cons c' w =>
      cases hc
      rw [List.cons_append, List.cons_append, List.cons.injEq] at h
      rw [h.1]
      cases hg : Text.isWord g with
      | false => rfl
      | true =>
        have hnot := isBlank_of_isBinding (c := g) (by simp [Lines.NamedImport.isBinding, hg])
        rw [hnot] at hblank
        cases hblank
  have hafter : Text.after? "import".toList (l.dropWhile Header.isSpace) = some w := by
    rw [Text.after?_eq_some_iff, hw, List.append_assoc, dropWhile_of_all hd.indent]
    rfl
  rw [Header.isImport, hafter]
  exact congrArg not hnext

end Declaration

/-- On a line that holds a quote if it begins with the word `import`, it is decided whether the line
is removed. -/
theorem removed?_line (hl : '\n' ∉ l)
    (hquoted : Header.isImport l = true → ∃ c ∈ l, isQuote c = true) (hsource : '\n' ∉ source)
    (t : Text) : removed? source (l ++ '\n' :: t) =
      if (removed? source l).isSome then some t else none := by
  have hfound {r : Text} (h : removed? source (l ++ '\n' :: t) = some r) :
      removed? source l = some [] ∧ r = t := by
    obtain ⟨d, u, hd, hu, htext⟩ := exists_removable h
    obtain ⟨c, hc, hquote⟩ := hquoted (hd.isImport htext)
    -- the line holds the first quote, and no line break stands between it and the last one
    have hfront : '\n' ∉ d.indent ++ "import".toList ++ (d.gap ++ d.clause) := by
      have hbare := hd.unquoted_front
      rw [d.text_eq, List.append_assoc, List.cons_append] at htext
      generalize d.indent ++ "import".toList ++ (d.gap ++ d.clause) = front at hbare htext ⊢
      rcases List.append_eq_append_iff.1 htext with ⟨w, rfl, -⟩ | ⟨w, rfl, -⟩
      · have hopen := hbare c (List.mem_append_left w hc)
        rw [hquote] at hopen
        cases hopen
      · exact fun hmem => hl (List.mem_append_left w hmem)
    have hunbroken : '\n' ∉ d.text := by
      have hmark {c : Char} (hc : isQuote c = true) : '\n' ≠ c := by
        rintro rfl
        cases hc
      rw [d.text_eq, List.mem_append, not_or]
      refine ⟨hfront, ?_⟩
      simp [hmark hd.opening, hmark hd.closing, hd.source, hsource, hd.stop.unbroken]
    obtain ⟨rfl, rfl⟩ := line_eq_of_endsLine hl hunbroken (.inr rfl) hu htext
    refine ⟨?_, rfl⟩
    have hend : EndsLine [] [] := .inl ⟨rfl, rfl⟩
    rw [← hd.removed? hend, List.append_nil]
  cases h : removed? source l with
  | none =>
    cases hnext : removed? source (l ++ '\n' :: t) with
    | none => rfl
    | some r =>
      rw [(hfound hnext).1] at h
      cases h
  | some r =>
    obtain ⟨d, u, hd, hu, rfl⟩ := exists_removable h
    rcases hu with ⟨rfl, rfl⟩ | rfl
    · rw [List.append_nil]
      exact hd.removed? (.inr rfl)
    · exact absurd (by simp) hl

/-- Lines of their own are removed or kept one by one. -/
theorem without_joinLines {style : Style} {ls : List Text}
    (hls : ∀ l ∈ ls, Lines.Separate style l) (hsource : '\n' ∉ source) (t : Text) :
    without source (Header.joinLines ls ++ t) =
      Header.joinLines (ls.filter fun l => (removed? source l).isNone) ++ without source t := by
  induction ls with
  | nil => rfl
  | cons l ls ih =>
    have hl := hls l List.mem_cons_self
    have hrest := ih fun k hk => hls k (List.mem_cons_of_mem l hk)
    have hline := removed?_line hl.unbroken hl.quoted hsource (Header.joinLines ls ++ t)
    rw [Header.joinLines_cons, List.append_assoc, List.cons_append, List.filter_cons]
    cases h : removed? source l with
    | none =>
      rw [h] at hline
      rw [without_of_kept hl.unbroken hline, hrest, Option.isNone_none, if_pos rfl,
        Header.joinLines_cons, List.append_assoc, List.cons_append]
    | some r =>
      rw [h] at hline
      rw [without_of_removed hline (length_lt_of_removed? hline), hrest]
      rfl

/-- No line that is left begins an import to remove. -/
theorem removed?_of_mem_without (source t : Text) :
    ∀ l ∈ Text.splitOn '\n' (without source t), l ≠ [] →
      ∃ u rest, EndsLine rest u ∧ removed? source (l ++ u) = none := by
  induction t using without_induction source with
  | nil =>
    intro l hl hne
    rw [without_nil] at hl
    exact absurd (List.mem_singleton.1 hl) hne
  | removed t rest h ih =>
    rwa [without_of_removed h (length_lt_of_removed? h)]
  | last l hl h =>
    intro k hk hne
    rw [without_of_last hl h, Text.splitOn_of_not_mem hl, List.mem_singleton] at hk
    exact ⟨[], [], .inl ⟨rfl, rfl⟩, by rwa [hk, List.append_nil]⟩
  | kept l t hl h ih =>
    intro k hk hne
    rw [without_of_kept hl h, Text.splitOn_append_cons, Text.splitOn_of_not_mem hl] at hk
    rcases List.mem_append.1 hk with hk | hk
    · exact ⟨'\n' :: t, t, .inr rfl, by rwa [List.mem_singleton.1 hk]⟩
    · exact ih k hk hne

/-- A static import of `source` on one line, in any spacing: the word `import`, bindings and the
word `from` or none, the quoted module, and anything behind it. No name that is bound is a
string. -/
structure Declaration.Static (source : Text) (d : Declaration) : Prop extends Cut d where
  source : d.source = source
  closing_eq : d.closing = d.opening
  literal : Literal.string? d.opening (d.source ++ d.opening :: d.stop) = some (d.source, d.stop)
  word : Header.isImport d.text = true
  unbroken : '\n' ∉ d.text

namespace Declaration.Static

/-- A module in quotes behind the word `import`, whatever follows on the line. -/
theorem of_bare (hsource : Bare source) {stop : Text} (hstop : '\n' ∉ stop) :
    Declaration.Static source { source, stop } where
  indent := rfl
  gap := rfl
  clause := .inl rfl
  head := fun _ hc => by cases hc
  unquoted := fun _ hc => by cases hc
  opening := rfl
  closing := rfl
  source := rfl
  closing_eq := rfl
  literal := Literal.string?_bare hsource (.inl rfl) stop
  word := rfl
  unbroken := by
    have hbreak : '\n' ∉ source := fun h => (hsource _ h).2.2.2 rfl
    simp [Declaration.text, hbreak, hstop]

theorem unbroken_source (h : d.Static source) : '\n' ∉ source := by
  have hunbroken := h.unbroken
  rw [text_eq, h.source] at hunbroken
  simp only [List.mem_append, List.mem_cons, not_or] at hunbroken
  exact hunbroken.2.2.1

theorem unbroken_stop (h : d.Static source) : '\n' ∉ d.stop := by
  have hunbroken := h.unbroken
  rw [text_eq] at hunbroken
  simp only [List.mem_append, List.mem_cons, not_or] at hunbroken
  exact hunbroken.2.2.2.2

theorem source_isInfix (h : d.Static source) : source <:+: d.text := by
  rw [text_eq, h.source, List.append_cons, ← List.append_assoc]
  exact List.infix_append _ _ _

/-- What is left of a module stands where no blank follows the word `import`, or more than a
semicolon the module. -/
theorem removed?_eq_none_iff (h : d.Static source) (hu : EndsLine rest u) :
    removed? source (d.text ++ u) = none ↔ d.gap = [] ∨ ¬ Ends d.stop := by
  rw [← h.source, h.removed?_eq]
  split
  · next hgap => exact iff_of_true rfl (.inl hgap)
  · next hgap =>
    rw [or_iff_right hgap, Option.eq_none_iff_forall_ne_some]
    constructor
    · exact fun hnone hends =>
        hnone rest (afterStatement?_eq_some_iff.2 ⟨d.stop, u, hends, hu, rfl⟩)
    · intro hnot r hr
      obtain ⟨stop, u', hends, hu', hstop⟩ := afterStatement?_eq_some_iff.1 hr
      obtain ⟨rfl, -⟩ := line_eq_of_endsLine h.unbroken_stop hends.unbroken hu hu' hstop
      exact hnot hends

end Declaration.Static

variable {path : String} {o : StyleOverrides} {c f f' r : Text}

/-- In a file that begins with lines of their own, a line that holds the module is left at statement
level exactly if it is one of these lines and removal does not find it, unless a line below them
holds the module as well. -/
theorem statementLine_strip_iff (hpath : isScript path = true) {ls : List Text} {body : Text}
    (hls : ∀ l ∈ ls, Lines.Separate o.resolve l)
    (hbody : ¬ essence source <:+: essence (without source body))
    (hflat : flatten path o c = .ok (Header.joinLines ls ++ body))
    (hstrip : strip path o source c = .ok r) (hagain : flatten path o r = .ok f')
    (hsource : '\n' ∉ source) (hne : l ≠ []) (hmodule : source <:+: l) :
    Draft.StatementLine o.resolve.quote l f' ↔ l ∈ ls ∧ removed? source l = none := by
  have hleft : ∀ l ∈ ls.filter fun l => (removed? source l).isNone,
      Lines.Separate o.resolve l := fun l hl => hls l (List.mem_of_mem_filter hl)
  rw [strip_eq hflat, settle_eq_ok_iff hpath, without_joinLines hls hsource] at hstrip
  rw [flatten_eq_ok_iff hpath] at hagain
  obtain ⟨ks, u, rfl, hsub, hmem, hu⟩ := Lines.exists_laid_twice hleft hstrip hagain
  have hks : ∀ k ∈ ks, Lines.Separate o.resolve k := fun k hk => hleft k (hsub.subset hk)
  rw [Draft.StatementLine, Lines.splitOn_joinLines fun k hk => (hks k hk).unbroken]
  constructor
  · rintro ⟨above, below, hcut, -⟩
    have hline : l ∈ ks ++ Text.splitOn '\n' u := by
      rw [hcut]
      exact List.mem_append_right _ List.mem_cons_self
    rcases List.mem_append.1 hline with hline | hline
    · simpa using List.mem_filter.1 (hsub.subset hline)
    · have hbelow := (Text.essence_isInfix_of_mem_splitOn hline).trans hu.isInfix
      exact absurd ((hmodule.filter _).trans hbelow) hbody
  · rintro ⟨hline, hnone⟩
    have hkept : (removed? source l).isNone = true := by
      rw [hnone]
      rfl
    obtain ⟨above, below, rfl⟩ := List.append_of_mem
      (hmem l (List.mem_filter.2 ⟨hline, hkept⟩) hne)
    refine ⟨above, below ++ Text.splitOn '\n' u, by rw [List.append_assoc]; rfl, ?_⟩
    exact Draft.complete_iff.2 (Draft.completeOn_lines Draft.atLine_empty fun k hk =>
      (hks k (List.mem_append_left _ hk)).alone)

/-- Where the layout makes no new lines, an import of the module is left only without a blank behind
the word `import`, or with more than a semicolon behind the module. In a file that begins with lines
of their own, the imports that are left at statement level are exactly those of this form among
these lines, if no line below them holds the module. -/
theorem strip_complete_iff (hpath : isScript path = true) (hflat : flatten path o c = .ok f)
    (hstrip : strip path o source c = .ok r) (hagain : flatten path o r = .ok f') :
    (Text.splitOn '\n' f' ⊆ Text.splitOn '\n' (without source f) →
      ∀ d, Declaration.Static source d → d.text ∈ Text.splitOn '\n' f' →
        d.gap = [] ∨ ¬ Ends d.stop) ∧
    ∀ ls body, f = Header.joinLines ls ++ body → (∀ l ∈ ls, Lines.Separate o.resolve l) →
      ¬ essence source <:+: essence (without source body) →
        ∀ d, Declaration.Static source d →
          (Draft.StatementLine o.resolve.quote d.text f' ↔
            d.text ∈ ls ∧ (d.gap = [] ∨ ¬ Ends d.stop)) := by
  refine ⟨fun hlines d hd hmem => ?_, fun ls body hf hls hbody d hd => ?_⟩
  · obtain ⟨u, rest, hu, hnone⟩ := removed?_of_mem_without source f _ (hlines hmem) d.text_ne_nil
    exact (hd.removed?_eq_none_iff hu).1 hnone
  · have hend : EndsLine [] [] := .inl ⟨rfl, rfl⟩
    have hform := hd.removed?_eq_none_iff hend
    rw [List.append_nil] at hform
    rw [statementLine_strip_iff hpath hls hbody (hf ▸ hflat) hstrip hagain hd.unbroken_source
      d.text_ne_nil hd.source_isInfix, hform]

/-- The import goes from below imports of other modules, one of them with a comment behind it. -/
theorem strip_complete_below_note :
    let c := "import'./y'\nimport b from 'b' // note\nimport './x'\nrun()\n".toList
    let r := "import'./y'\nimport b from 'b' // note\nrun()\n".toList
    flatten "a.js" {} c = .ok c ∧ strip "a.js" {} "./x".toList c = .ok r ∧
      flatten "a.js" {} r = .ok r ∧
      ∀ d, Declaration.Static "./x".toList d → ¬ Draft.StatementLine '\'' d.text r := by
  intro c r
  let o : StyleOverrides := {}
  have hflat : flatten "a.js" o c = .ok c := by decide +kernel
  have hstrip : strip "a.js" o "./x".toList c = .ok r := by decide +kernel
  have hagain : flatten "a.js" o r = .ok r := by decide +kernel
  have hpacked : Lines.Separate o.resolve "import'./y'".toList :=
    separate_packed (q := '\'') rfl (by decide : Bare "./y".toList) (by decide)
  have hb : (ofDefault ['b'] ['b']).Plain := plain_ofDefault ⟨by decide, by decide⟩ (by decide)
  have hnoted : Lines.Separate o.resolve
      ((ofDefault ['b'] ['b']).line '\'' ++ ([' '] ++ '/' :: '/' :: " note".toList)) :=
    hb.separate_note (by simp [Header.isSpace]) (by decide) rfl (by decide) (by decide) (by decide)
  have hplain : Lines.Separate o.resolve "import './x'".toList :=
    Row.separate (i := sideEffect "./x".toList) (plain_sideEffect (by decide)) (by decide)
  have hlines : ∀ l ∈ ["import'./y'".toList, "import b from 'b' // note".toList,
      "import './x'".toList], Lines.Separate o.resolve l := by
    intro l hl
    simp only [List.mem_cons, List.not_mem_nil, or_false] at hl
    rcases hl with rfl | rfl | rfl
    · exact hpacked
    · exact hnoted
    · exact hplain
  refine ⟨hflat, hstrip, hagain, fun d hd hline => ?_⟩
  obtain ⟨hmem, hform⟩ := ((strip_complete_iff (by decide) hflat hstrip hagain).2 _
    "run()\n".toList rfl hlines (by decide +kernel) d hd).1 hline
  have hmodule := hd.source_isInfix
  have hnone := (hd.removed?_eq_none_iff (.inl ⟨rfl, rfl⟩)).2 hform
  rw [List.append_nil] at hnone
  simp only [List.mem_cons, List.not_mem_nil, or_false] at hmem
  rcases hmem with h | h | h <;> rw [h] at hmodule hnone
  · exact absurd hmodule (by decide +kernel)
  · exact absurd hmodule (by decide +kernel)
  · exact absurd hnone (by decide +kernel)

/-- An import with a comment behind it is left. -/
theorem strip_leaves_noted_import :
    let c := "import './x' // styles\nrun()\n".toList
    let d : Declaration := { source := "./x".toList, stop := " // styles".toList }
    flatten "a.js" {} c = .ok c ∧ strip "a.js" {} "./x".toList c = .ok c ∧
      d.Static "./x".toList ∧ Draft.StatementLine '\'' d.text c := by
  intro c d
  have hstatic : d.Static "./x".toList := Declaration.Static.of_bare (by decide) (by decide)
  refine ⟨by decide +kernel, by decide +kernel, hstatic, [], ["run()".toList, []],
    by decide +kernel, ?_⟩
  exact Draft.complete_iff.2 (Draft.completeOn_lines Draft.atLine_empty (by simp))

end Import

end ProjectSetup
