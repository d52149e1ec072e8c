import ProjectSetup.Proofs.Catalog.Integrity
import ProjectSetup.Proofs.Catalog.Order

/-!
# Selectability

An extension can be selected together with all that it depends on unless one of its dependencies
excludes it. The checks of a catalog see what an extension itself excludes among its dependencies
and what these exclude among each other, but not that a dependency excludes what depends on it.
-/
namespace ProjectSetup.Catalog

instance (c : Catalog) (a b : Nat) : Decidable (c.Excludes a b) :=
  decidable_of_iff ((c.get? a).any (·.exclusiveTo.contains b) = true)
    (by simp [Excludes, Option.any_eq_true])

/-- References of a well-formed catalog never lead out of it. -/
theorem WellFormed.lt_size_of_reaches {c : Catalog} (wf : c.WellFormed) {a b : Nat}
    (h : c.Reaches a b) : b < c.size := by
  obtain ⟨d, -, e, he, hb⟩ := Relation.TransGen.tail'_iff.1 h
  exact (wf.defined e (List.mem_of_getElem? he)).1 b hb

/-- The only conflict that a well-formed catalog leaves in an extension and its dependencies is that
one of these excludes the extension. -/
theorem WellFormed.admissible_iff {c : Catalog} (wf : c.WellFormed) {id : Nat} (hid : id < c.size) :
    (c.Admissible fun a => a = id ∨ c.Reaches id a) ↔
      ∀ b, c.Reaches id b → ¬ c.Excludes b id := by
  constructor
  · intro h b hb hx
    by_cases hself : b = id
    · subst hself
      exact wf.needed b b hb hx
    · exact h.compatible b id (.inr hb) (.inl rfl) hself hx
  · intro h
    refine ⟨?_, ?_, ?_⟩
    · rintro a (rfl | ha)
      · exact hid
      · exact wf.lt_size_of_reaches ha
    · rintro a b (rfl | ha) hab
      · exact .inr (.single hab)
      · exact .inr (ha.tail hab)
    -- of the pairs with the extension itself, the checks see only those in which it excludes
    · rintro a b (rfl | ha) (rfl | hb) hab
      · exact absurd rfl hab
      · exact wf.needed a b hb
      · exact h a ha
      · exact wf.jointly id a b ha hb hab

/-- In an accepted catalog an extension, selected with all that it depends on in catalog order, is
a valid selection iff none of its dependencies excludes it. -/
theorem checkSelection_with_dependencies_iff {c : Catalog} (accepted : c.integrityFault? = none)
    {e : Extension} (he : e ∈ c.extensions) :
    c.checkSelection (ordered (e.index :: c.deepDependencies e.index)) = .valid ↔
      ∀ b ∈ c.deepDependencies e.index, ¬ c.Excludes b e.index := by
  have wf := wellFormed_of_integrityFault? accepted
  obtain ⟨id, hid⟩ := List.mem_iff_getElem?.1 he
  rw [wf.placed id e hid, checkSelection_eq_valid_iff_admissible]
  simp only [mem_ordered, List.mem_cons, mem_deepDependencies]
  exact wf.admissible_iff (lt_size_of_get? hid)

/-- Two extensions that need each other can be selected, though both exclude a third. -/
theorem checkSelection_with_dependencies_on_cycle :
    let c : Catalog := ⟨[⟨0, "A", .library, [1], [2]⟩, ⟨1, "B", .library, [0], [2]⟩,
      ⟨2, "C", .library, [], []⟩]⟩
    c.integrityFault? = none ∧ ⟨1, "B", .library, [0], [2]⟩ ∈ c.extensions ∧
      c.checkSelection (ordered (1 :: c.deepDependencies 1)) = .valid := by
  intro c
  have accepted : c.integrityFault? = none := by decide +kernel
  have he : ⟨1, "B", .library, [0], [2]⟩ ∈ c.extensions := by decide
  have hnone : ∀ b ∈ c.deepDependencies 1, ¬ c.Excludes b 1 := by decide +kernel
  exact ⟨accepted, he, (checkSelection_with_dependencies_iff accepted he).2 hnone⟩

/-- A dependency that excludes what depends on it passes the checks of the catalog, and then the
extension cannot be selected at all. -/
theorem checkSelection_with_excluding_dependency :
    let c : Catalog := ⟨[⟨0, "A", .library, [], [1]⟩, ⟨1, "B", .library, [0], []⟩]⟩
    c.integrityFault? = none ∧ ⟨1, "B", .library, [0], []⟩ ∈ c.extensions ∧
      c.checkSelection (ordered (1 :: c.deepDependencies 1)) =
        .invalid ["A cannot be combined with B"] := by
  intro c
  have known : ∀ a ∈ 1 :: c.deepDependencies 1, a < c.size := by decide +kernel
  have hboth : c.ids.filter ((1 :: c.deepDependencies 1).contains ·) = [0, 1] := by decide +kernel
  refine ⟨by decide +kernel, by decide, ?_⟩
  rw [ordered_eq_filter_ids known, hboth]
  rfl

end ProjectSetup.Catalog
