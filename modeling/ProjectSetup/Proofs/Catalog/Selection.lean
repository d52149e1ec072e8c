import Mathlib.Data.List.Pairwise
import ProjectSetup.Catalog.Dependency
import ProjectSetup.Catalog.Selection

/-!
# Valid selections

The check of a selection walks a list, reports in its order and compares each member with later
ones only. It accepts exactly the lists whose ids form an admissible set, so order and repeats of a
selection do not matter. Nothing is asked of the catalog: ids may dangle and indexes may be wrong.
-/
namespace ProjectSetup.Catalog

/-- The extension `a` names `b` among those that cannot be selected with it. -/
def Excludes (c : Catalog) (a b : Nat) : Prop := ∃ e, c.get? a = some e ∧ b ∈ e.exclusiveTo

/-- A set of ids that can be selected together. -/
structure Admissible (c : Catalog) (chosen : Nat → Prop) : Prop where
  known : ∀ a, chosen a → a < c.size
  closed : ∀ a b, chosen a → c.DependsOn a b → chosen b
  compatible : ∀ a b, chosen a → chosen b → a ≠ b → ¬ c.Excludes a b

theorem get?_eq_none {c : Catalog} {id : Nat} : c.get? id = none ↔ ¬ id < c.size := by
  simp [get?, size]

theorem exclusive_iff (c : Catalog) (a b : Nat) :
    c.exclusive a b = true ↔ c.Excludes a b ∨ c.Excludes b a := by
  simp [exclusive, Excludes, Option.any_eq_true]

theorem mem_addNew [BEq α] [LawfulBEq α] (xs : List α) (x y : α) :
    y ∈ addNew xs x ↔ y ∈ xs ∨ y = x := by
  unfold addNew
  split
  · next h =>
    have hx : x ∈ xs := by simpa using h
    constructor
    · exact .inl
    · rintro (hy | rfl)
      · exact hy
      · exact hx
  · simp

theorem mem_foldl_addNew [BEq α] [LawfulBEq α] (new old : List α) (x : α) :
    x ∈ new.foldl addNew old ↔ x ∈ old ∨ x ∈ new := by
  induction new generalizing old with
  | nil => simp
  | cons y new ih => rw [List.foldl_cons, ih, mem_addNew, List.mem_cons, or_assoc]

theorem ofErrors_eq_valid {errors : List String} :
    Verdict.ofErrors errors = .valid ↔ errors = [] := by
  cases errors <;> simp [Verdict.ofErrors]

/-- Nothing is wrong with the dependencies of a member iff it is known and they are all selected. -/
theorem dependencyComplaint?_eq_none {c : Catalog} {selection : List Nat} {id : Nat} :
    c.dependencyComplaint? selection id = none ↔
      id < c.size ∧ ∀ b, c.DependsOn id b → b ∈ selection := by
  cases he : c.get? id with
  | none => simp [dependencyComplaint?, he, get?_eq_none.1 he]
  | some e =>
    have hlt := lt_size_of_get? he
    have hd : ∀ b, c.DependsOn id b ↔ b ∈ e.dependsOn := by
      intro b
      simp [DependsOn, he]
    simp only [dependencyComplaint?, he, hlt, hd, true_and]
    split
    · next hf => simpa using hf
    · next hf =>
      simp only [reduceCtorEq, false_iff]
      intro hall
      exact hf (by simpa using hall)

theorem dependencyComplaints_eq_nil {c : Catalog} {selection : List Nat} :
    c.dependencyComplaints selection = [] ↔
      ∀ a ∈ selection, a < c.size ∧ ∀ b, c.DependsOn a b → b ∈ selection := by
  simp only [dependencyComplaints, List.filterMap_eq_nil_iff, dependencyComplaint?_eq_none]

/-- Two members of a selection may stand side by side. -/
def Compatible (c : Catalog) (a b : Nat) : Prop := a = b ∨ c.exclusive a b = false

instance (c : Catalog) : Std.Symm c.Compatible where
  symm a b h := by
    rcases h with rfl | h
    · exact .inl rfl
    · refine .inr ?_
      rw [Bool.eq_false_iff, ne_eq, exclusive_iff] at h ⊢
      exact fun hba => h hba.symm

/-- Nothing excludes a member among the later ones iff it is known and goes with each of them. -/
theorem exclusivityComplaint?_eq_none {c : Catalog} {id : Nat} {later : List Nat} :
    c.exclusivityComplaint? id later = none ↔ id < c.size ∧ ∀ b ∈ later, c.Compatible id b := by
  cases he : c.get? id with
  | none => simp [exclusivityComplaint?, he, get?_eq_none.1 he]
  | some e =>
    have hlt := lt_size_of_get? he
    have hc : (later.filter fun b => b != id && c.exclusive id b) = [] ↔
        ∀ b ∈ later, c.Compatible id b := by
      rw [List.filter_eq_nil_iff]
      refine forall₂_congr fun b _ => ?_
      by_cases hb : b = id
      · simp [Compatible, hb]
      · simp [Compatible, hb, Ne.symm hb]
    simp only [exclusivityComplaint?, he, hlt, true_and, ← hc]
    split
    · next hf => simpa using hf
    · next hf => simpa using hf

/-- The walk compares each pair of members once, the later with the earlier. -/
theorem exclusivityComplaints_eq_nil {c : Catalog} {selection : List Nat} :
    c.exclusivityComplaints selection = [] ↔
      (∀ a ∈ selection, a < c.size) ∧ selection.Pairwise c.Compatible := by
  induction selection with
  | nil => simp [exclusivityComplaints]
  | cons id later ih =>
    rw [exclusivityComplaints, List.append_eq_nil_iff, Option.toList_eq_nil_iff,
      exclusivityComplaint?_eq_none, ih, List.forall_mem_cons, List.pairwise_cons]
    constructor
    · rintro ⟨⟨hid, hc⟩, hlater, hp⟩
      exact ⟨⟨hid, hlater⟩, hc, hp⟩
    · rintro ⟨⟨hid, hlater⟩, hc, hp⟩
      exact ⟨⟨hid, hc⟩, hlater, hp⟩

/-- Looking at later members is enough, since either side of a pair may name the other. -/
theorem pairwise_compatible_iff {c : Catalog} {selection : List Nat} :
    selection.Pairwise c.Compatible ↔
      ∀ a ∈ selection, ∀ b ∈ selection, a ≠ b → ¬ c.Excludes a b := by
  constructor
  · intro h a ha b hb hab hx
    have hc := h.forall_of_forall (fun _ _ => .inl rfl) ha hb
    rcases hc with he | hf
    · exact hab he
    · exact Bool.eq_false_iff.1 hf ((exclusive_iff c a b).2 (.inl hx))
  · intro h
    refine List.pairwise_of_forall_mem_list fun a ha b hb => ?_
    by_cases hab : a = b
    · exact .inl hab
    · refine .inr (Bool.eq_false_iff.2 fun hx => ?_)
      rcases (exclusive_iff c a b).1 hx with hx | hx
      · exact h a ha b hb hab hx
      · exact h b hb a ha (Ne.symm hab) hx

theorem checkSelection_eq_valid {c : Catalog} {selection : List Nat} :
    c.checkSelection selection = .valid ↔
      c.dependencyComplaints selection = [] ∧ c.exclusivityComplaints selection = [] := by
  have hnil (es : List String) : es.foldl addNew [] = [] ↔ es = [] := by
    simp only [List.eq_nil_iff_forall_not_mem, mem_foldl_addNew, List.not_mem_nil, false_or]
  simp only [checkSelection, ofErrors_eq_valid, hnil, Verdict.and, Verdict.errors_ofErrors,
    checkDependencies, checkExclusivities, List.append_eq_nil_iff, List.map_eq_nil_iff]

theorem checkSelection_eq_valid_iff_admissible (c : Catalog) (selection : List Nat) :
    c.checkSelection selection = .valid ↔ c.Admissible (· ∈ selection) := by
  rw [checkSelection_eq_valid, dependencyComplaints_eq_nil, exclusivityComplaints_eq_nil,
    pairwise_compatible_iff]
  constructor
  · rintro ⟨hd, -, hx⟩
    exact ⟨fun a ha => (hd a ha).1, fun a b ha hab => (hd a ha).2 b hab,
      fun a b ha hb => hx a ha b hb⟩
  · intro h
    exact ⟨fun a ha => ⟨h.known a ha, fun b hab => h.closed a b ha hab⟩, h.known,
      fun a ha b hb => h.compatible a b ha hb⟩

/-- A selection passes the check iff its ids can be selected together, and so two selections of
the same ids pass it or fail it together. -/
theorem checkSelection_valid_iff (c : Catalog) :
    (∀ selection, c.checkSelection selection = .valid ↔ c.Admissible (· ∈ selection)) ∧
      ∀ first second : List Nat, (∀ a, a ∈ first ↔ a ∈ second) →
        (c.checkSelection first = .valid ↔ c.checkSelection second = .valid) := by
  refine ⟨checkSelection_eq_valid_iff_admissible c, fun first second hsame => ?_⟩
  rw [checkSelection_eq_valid_iff_admissible, checkSelection_eq_valid_iff_admissible]
  simp only [hsame]

end ProjectSetup.Catalog
