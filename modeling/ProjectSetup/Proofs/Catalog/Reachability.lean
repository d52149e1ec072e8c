import Mathlib.Logic.Relation
import ProjectSetup.Catalog.Dependency

/-!
# Reachability

The search for dependencies cuts every way that comes back to itself. It still finds everything
that can be reached along dependencies, on cyclic catalogs too: a way that visits an extension
twice can start anew from its last visit.
-/
namespace ProjectSetup.Catalog

/-- A way of one or more dependencies leads from `a` to `b`. -/
def Reaches (c : Catalog) : Nat → Nat → Prop := Relation.TransGen c.DependsOn

/-- A dependency of an extension that is not on a path. -/
def DependsOff (c : Catalog) (path : List Nat) (a b : Nat) : Prop := a ∉ path ∧ c.DependsOn a b

@[simp] theorem dependsOff_nil (c : Catalog) : c.DependsOff [] = c.DependsOn := by
  funext a b
  simp [DependsOff]

theorem dependsOff_of_cons {c : Catalog} {path : List Nat} {id a b : Nat}
    (h : c.DependsOff (id :: path) a b) : c.DependsOff path a b :=
  ⟨fun ha => h.1 (List.mem_cons_of_mem id ha), h.2⟩

/-- A way either never leaves `id`, or goes on to its end after leaving `id` for the last time. -/
theorem last_visit {c : Catalog} {path : List Nat} {a b : Nat} (id : Nat)
    (h : Relation.TransGen (c.DependsOff path) a b) :
    Relation.TransGen (c.DependsOff (id :: path)) a b ∨ c.DependsOff path id b ∨
      ∃ d, c.DependsOff path id d ∧ Relation.TransGen (c.DependsOff (id :: path)) d b := by
  induction h using Relation.TransGen.head_induction_on with
  | @single a hab =>
    by_cases ha : a = id
    · subst ha
      exact .inr (.inl hab)
    · exact .inl (.single ⟨by simp [ha, hab.1], hab.2⟩)
  | @head a d had _ ih =>
    rcases ih with hd | hid
    · by_cases ha : a = id
      · subst ha
        exact .inr (.inr ⟨d, had, hd⟩)
      · exact .inl (.head ⟨by simp [ha, had.1], had.2⟩ hd)
    · exact .inr hid

/-- No way leaves an extension on the path. -/
theorem not_transGen_of_mem {c : Catalog} {path : List Nat} {a b : Nat} (ha : a ∈ path) :
    ¬ Relation.TransGen (c.DependsOff path) a b := by
  intro h
  obtain ⟨d, had, -⟩ := Relation.TransGen.head'_iff.1 h
  exact had.1 ha

/-- A way off a path takes a first dependency and never comes back to its start. -/
theorem transGen_dependsOff_iff {c : Catalog} {path : List Nat} {id b : Nat} :
    Relation.TransGen (c.DependsOff path) id b ↔
      ∃ d, c.DependsOff path id d ∧
        (b = d ∨ Relation.TransGen (c.DependsOff (id :: path)) d b) := by
  constructor
  · intro h
    rcases last_visit id h with hcut | hb | ⟨d, hd, hcut⟩
    · exact absurd hcut (not_transGen_of_mem List.mem_cons_self)
    · exact ⟨b, hb, .inl rfl⟩
    · exact ⟨d, hd, .inr hcut⟩
  · rintro ⟨d, hd, rfl | hcut⟩
    · exact .single hd
    · exact .head hd (Relation.TransGen.mono (fun _ _ => dependsOff_of_cons) _ _ hcut)

theorem deepFrom_of_mem {c : Catalog} {path : List Nat} {id : Nat} (hp : id ∈ path) :
    c.deepFrom path id = [] := by
  rw [deepFrom, dif_pos hp]

theorem deepFrom_of_none {c : Catalog} {id : Nat} (path : List Nat) (he : c.get? id = none) :
    c.deepFrom path id = [] := by
  rw [deepFrom]
  split
  · rfl
  · split
    · rfl
    · next e he' => rw [he] at he'; cases he'

theorem deepFrom_of_get? {c : Catalog} {path : List Nat} {id : Nat} {e : Extension}
    (hp : id ∉ path) (he : c.get? id = some e) :
    c.deepFrom path id = e.dependsOn.flatMap fun d => d :: c.deepFrom (id :: path) d := by
  rw [deepFrom, dif_neg hp]
  split
  · next he' => rw [he] at he'; cases he'
  · next e' he' =>
    rw [he] at he'
    cases he'
    rfl

/-- The search off a path finds the ends of all ways off that path. -/
theorem mem_deepFrom (c : Catalog) (path : List Nat) (id b : Nat) :
    b ∈ c.deepFrom path id ↔ Relation.TransGen (c.DependsOff path) id b := by
  induction path, id using deepFrom.induct c with
  | case1 path id hp =>
    rw [deepFrom_of_mem hp]
    simpa using not_transGen_of_mem hp
  | case2 path id hp he =>
    have hno : ∀ d, ¬ c.DependsOff path id d := by
      rintro d ⟨-, e, he', -⟩
      rw [he] at he'
      cases he'
    rw [deepFrom_of_none path he, transGen_dependsOff_iff]
    simp [hno]
  | case3 path id hp e he ih =>
    have hd : ∀ d, c.DependsOff path id d ↔ d ∈ e.dependsOn := by
      intro d
      simp [DependsOff, DependsOn, hp, he]
    rw [deepFrom_of_get? hp he, transGen_dependsOff_iff]
    simp only [hd, List.mem_flatMap, List.mem_cons, ih]

/-- The search finds exactly what can be reached. -/
theorem mem_deepDependencies (c : Catalog) (id b : Nat) :
    b ∈ c.deepDependencies id ↔ c.Reaches id b := by
  rw [deepDependencies, mem_deepFrom, dependsOff_nil, Reaches]

end ProjectSetup.Catalog
