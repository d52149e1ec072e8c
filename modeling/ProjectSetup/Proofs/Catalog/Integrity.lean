import Mathlib.Data.List.Nodup
import ProjectSetup.Proofs.Catalog.Reachability
import ProjectSetup.Proofs.Catalog.Selection

/-!
# Integrity

The checks of a catalog run in order and stop at the first fault. Together they accept exactly the
catalogs that are well formed. The checks for exclusions look at the raw result of the search for
dependencies, and start it at the index that an extension takes itself to have.
-/
namespace ProjectSetup.Catalog

/-- What every catalog in use has to satisfy. -/
structure WellFormed (c : Catalog) : Prop where
  /-- Every reference points into the catalog. -/
  defined : ∀ e ∈ c.extensions, (∀ b ∈ e.dependsOn, b < c.size) ∧ ∀ b ∈ e.exclusiveTo, b < c.size
  /-- Every index is a position. -/
  placed : ∀ i e, c.get? i = some e → e.index = i
  /-- No two extensions have the same name. -/
  named : (c.extensions.map fun e => nameKey e.name).Nodup
  /-- No extension needs what it excludes. -/
  needed : ∀ a b, c.Reaches a b → ¬ c.Excludes a b
  /-- No extension needs two others of which one excludes the other. -/
  jointly : ∀ a x y, c.Reaches a x → c.Reaches a y → x ≠ y → ¬ c.Excludes x y

theorem duplicateName?_eq_none {seen : List Text} {es : List Extension} :
    duplicateName? seen es = none ↔
      (es.map fun e => nameKey e.name).Nodup ∧ ∀ e ∈ es, nameKey e.name ∉ seen := by
  induction es generalizing seen with
  | nil => simp [duplicateName?]
  | cons e es ih =>
    rw [duplicateName?]
    by_cases he : nameKey e.name ∈ seen
    · rw [if_pos (by simpa using he)]
      simp [he]
    · rw [if_neg (by simpa using he), ih, List.map_cons, List.nodup_cons, List.forall_mem_cons]
      constructor
      · rintro ⟨hn, hs⟩
        refine ⟨⟨?_, hn⟩, he, fun x hx hseen => hs x hx (List.mem_cons_of_mem _ hseen)⟩
        intro hm
        obtain ⟨x, hx, hxe⟩ := List.mem_map.1 hm
        exact hs x hx (List.mem_cons.2 (.inl hxe))
      · rintro ⟨⟨hm, hn⟩, -, hs⟩
        refine ⟨hn, fun x hx hseen => ?_⟩
        rcases List.mem_cons.1 hseen with hxe | hxs
        · exact hm (List.mem_map.2 ⟨x, hx, hxe⟩)
        · exact hs x hx hxs

theorem undefinedReference?_eq_none {c : Catalog} {e : Extension} :
    c.undefinedReference? e = none ↔
      (∀ b ∈ e.dependsOn, b < c.size) ∧ ∀ b ∈ e.exclusiveTo, b < c.size := by
  simp [undefinedReference?, Option.or_eq_none_iff, get?_eq_none]

theorem indexMismatch?_eq_none {position : Nat} {es : List Extension} :
    indexMismatch? position es = none ↔ ∀ i e, es[i]? = some e → e.index = position + i := by
  induction es generalizing position with
  | nil => simp [indexMismatch?]
  | cons e es ih =>
    by_cases he : e.index = position
    · simp only [indexMismatch?, he, if_true, ih]
      constructor
      · intro h i x hx
        cases i with
        | zero =>
          cases hx
          exact he
        | succ i =>
          have := h i x (by simpa using hx)
          omega
      · intro h i x hx
        have := h (i + 1) x (by simpa using hx)
        omega
    · simp only [indexMismatch?, he, if_false, reduceCtorEq, false_iff]
      intro h
      exact he (h 0 e rfl)

/-- The check of one extension starts from the index that it carries. -/
theorem exclusiveDependency?_eq_none {c : Catalog} {e : Extension} :
    c.exclusiveDependency? e = none ↔
      (∀ b ∈ e.exclusiveTo, ¬ c.Reaches e.index b) ∧
        ∀ x y, c.Reaches e.index x → c.Reaches e.index y → x ≠ y → ¬ c.Excludes x y := by
  have hfirst : e.exclusiveTo.find? (c.deepDependencies e.index).contains = none ↔
      ∀ b ∈ e.exclusiveTo, ¬ c.Reaches e.index b := by
    simp [List.find?_eq_none, mem_deepDependencies]
  rw [exclusiveDependency?]
  cases hf : e.exclusiveTo.find? (c.deepDependencies e.index).contains with
  | some b =>
    simp only [reduceCtorEq, false_iff, not_and]
    intro h
    rw [hfirst.2 h] at hf
    cases hf
  | none =>
    refine Iff.trans ?_ (and_iff_right (hfirst.1 hf)).symm
    simp only [List.findSome?_eq_none_iff, mem_deepDependencies]
    refine forall_congr' fun x => ?_
    cases hx : c.get? x with
    | none => simp [Excludes, hx]
    | some first =>
      simp only [Option.bind_some, Option.map_eq_none_iff, List.find?_eq_none,
        mem_deepDependencies, Excludes, hx, Option.some.injEq, exists_eq_left', Bool.and_eq_true,
        bne_iff_ne, List.contains_eq_mem, decide_eq_true_eq, not_and]
      exact ⟨fun h y hxr hyr => h hxr y hyr, fun h hxr y hyr => h y hxr hyr⟩

/-- The checks find no fault, each of them in its own terms. -/
theorem integrityFault?_eq_none {c : Catalog} :
    c.integrityFault? = none ↔
      (∀ e ∈ c.extensions,
        (∀ b ∈ e.dependsOn, b < c.size) ∧ ∀ b ∈ e.exclusiveTo, b < c.size) ∧
      (∀ i e, c.get? i = some e → e.index = i) ∧
      (c.extensions.map fun e => nameKey e.name).Nodup ∧
      ∀ e ∈ c.extensions, (∀ b ∈ e.exclusiveTo, ¬ c.Reaches e.index b) ∧
        ∀ x y, c.Reaches e.index x → c.Reaches e.index y → x ≠ y → ¬ c.Excludes x y := by
  simp only [integrityFault?, consistencyFault?, Option.or_eq_none_iff, referencesFault?,
    indexesFault?, namesFault?, exclusionsFault?, List.findSome?_eq_none_iff,
    undefinedReference?_eq_none, indexMismatch?_eq_none, duplicateName?_eq_none,
    exclusiveDependency?_eq_none, get?, Nat.zero_add, List.not_mem_nil, not_false_eq_true,
    implies_true, and_true]

theorem wellFormed_of_integrityFault? {c : Catalog} (h : c.integrityFault? = none) :
    c.WellFormed := by
  obtain ⟨hdefined, hplaced, hnamed, hex⟩ := integrityFault?_eq_none.1 h
  have hmem : ∀ i e, c.get? i = some e → e ∈ c.extensions := fun i e he => List.mem_of_getElem? he
  refine ⟨hdefined, hplaced, hnamed, ?_, ?_⟩
  · rintro a b hab ⟨e, he, hb⟩
    have h := (hex e (hmem a e he)).1 b hb
    rw [hplaced a e he] at h
    exact h hab
  · intro a x y hx hy hxy
    obtain ⟨d, ⟨e, he, -⟩, -⟩ := Relation.TransGen.head'_iff.1 hx
    have h := (hex e (hmem a e he)).2 x y
    rw [hplaced a e he] at h
    exact h hx hy hxy

theorem WellFormed.integrityFault? {c : Catalog} (h : c.WellFormed) :
    c.integrityFault? = none := by
  refine integrityFault?_eq_none.2 ⟨h.defined, h.placed, h.named, fun e he => ?_⟩
  obtain ⟨i, hi⟩ := List.mem_iff_getElem?.1 he
  rw [h.placed i e hi]
  exact ⟨fun b hb hr => h.needed i b hr ⟨e, hi, hb⟩, h.jointly i⟩

/-- A catalog passes all checks iff it is well formed. -/
theorem integrityFault?_eq_none_iff (c : Catalog) : c.integrityFault? = none ↔ c.WellFormed :=
  ⟨wellFormed_of_integrityFault?, WellFormed.integrityFault?⟩

end ProjectSetup.Catalog
