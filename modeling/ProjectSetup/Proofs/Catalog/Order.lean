import Mathlib.Data.List.Sort
import ProjectSetup.Proofs.Catalog.Selection

/-!
# Catalog order

A selection in catalog order is sorted before its repeats are taken out. The result ascends
strictly and has the members of the selection, so it says nothing about how the selection was
written.
-/
namespace ProjectSetup.Catalog

/-- Repeats are taken out of an ascending list from left to right: what was kept stays below what
is still to come. -/
theorem pairwise_lt_foldl_addNew {new old : List Nat} (hnew : new.Pairwise (· ≤ ·))
    (hold : old.Pairwise (· < ·)) (hle : ∀ a ∈ old, ∀ b ∈ new, a ≤ b) :
    (new.foldl addNew old).Pairwise (· < ·) := by
  induction new generalizing old with
  | nil => exact hold
  | cons x new ih =>
    obtain ⟨hx, hnew⟩ := List.pairwise_cons.1 hnew
    have hlater : ∀ a ∈ old, ∀ b ∈ new, a ≤ b :=
      fun a ha b hb => hle a ha b (List.mem_cons_of_mem x hb)
    rw [List.foldl_cons]
    by_cases hmem : x ∈ old
    · rw [addNew, if_pos (by simpa using hmem)]
      exact ih hnew hold hlater
    · rw [addNew, if_neg (by simpa using hmem)]
      refine ih hnew ?_ ?_
      · refine List.pairwise_append.2 ⟨hold, List.pairwise_singleton _ x, fun a ha b hb => ?_⟩
        obtain rfl := List.mem_singleton.1 hb
        have hab := hle a ha b List.mem_cons_self
        have hne : a ≠ b := fun h => hmem (h ▸ ha)
        omega
      · intro a ha b hb
        rcases List.mem_append.1 ha with ha | ha
        · exact hlater a ha b hb
        · rw [List.mem_singleton.1 ha]
          exact hx b hb

theorem pairwise_lt_ordered (selection : List Nat) : (ordered selection).Pairwise (· < ·) := by
  have hsorted : (selection.mergeSort fun a b => decide (a ≤ b)).Pairwise
      fun a b => decide (a ≤ b) = true :=
    List.pairwise_mergeSort (fun a b c => by simpa using Nat.le_trans)
      (fun a b => by simpa using Nat.le_total a b) selection
  exact pairwise_lt_foldl_addNew (by simpa using hsorted) .nil (by simp)

theorem mem_ordered (selection : List Nat) (a : Nat) : a ∈ ordered selection ↔ a ∈ selection := by
  simp [ordered, mem_foldl_addNew]

/-- Selections of the same ids are the same in catalog order. -/
theorem ordered_eq_of_same_ids {first second : List Nat} (same : ∀ a, a ∈ first ↔ a ∈ second) :
    ordered first = ordered second :=
  (pairwise_lt_ordered first).eq_of_mem_iff (pairwise_lt_ordered second)
    fun a => by rw [mem_ordered, mem_ordered, same]

/-- The ids of a catalog in which a selection is kept are the selection in catalog order. -/
theorem ordered_eq_filter_ids {c : Catalog} {selection : List Nat}
    (known : ∀ a ∈ selection, a < c.size) :
    ordered selection = c.ids.filter (selection.contains ·) := by
  have hids : (c.ids.filter (selection.contains ·)).Pairwise (· < ·) :=
    List.pairwise_lt_range.filter _
  refine (pairwise_lt_ordered selection).eq_of_mem_iff hids fun a => ?_
  rw [mem_ordered, List.mem_filter, ids, List.mem_range, List.contains_iff_mem]
  exact ⟨fun ha => ⟨known a ha, ha⟩, fun h => h.2⟩

end ProjectSetup.Catalog
