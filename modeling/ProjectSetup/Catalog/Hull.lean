import ProjectSetup.Catalog.Basic

/-!
# Hulls

The dependencies among a list of extensions as a square of truth values, and its transitive hull:
a cell is set if a way of set cells leads from its row to its column. The hull takes one extension
after another as a stop on the way.
-/
namespace ProjectSetup

/-- A cell for each row and column. -/
abbrev Matrix := List (List Bool)

namespace Matrix

def cell (m : Matrix) (i j : Nat) : Bool := (m.getD i []).getD j false

/-- Every way through the stop `k` becomes a direct one. -/
def through (m : Matrix) (k : Nat) : Matrix :=
  m.map fun row =>
    if row.getD k false then row.mapIdx fun j x => x || (decide (j < m.length) && m.cell k j)
    else row

@[simp] theorem length_through (m : Matrix) (k : Nat) : (m.through k).length = m.length := by
  simp [through]

/-- A stop connects two cells of a square if it is reached from the one and leads to the other. -/
theorem cell_through {m : Matrix} (square : ∀ row ∈ m, row.length = m.length) {i j : Nat}
    (hi : i < m.length) (hj : j < m.length) (k : Nat) :
    (m.through k).cell i j = (m.cell i j || (m.cell i k && m.cell k j)) := by
  have hrow : m[i].length = m.length := square _ (List.getElem_mem hi)
  have hcell (n : Nat) : m.cell i n = m[i].getD n false := by
    simp [cell, List.getD_eq_getElem?_getD, List.getElem?_eq_getElem hi]
  have hthrough : (m.through k).cell i j =
      (if m[i].getD k false then m[i].mapIdx fun j x => x || (decide (j < m.length) && m.cell k j)
        else m[i]).getD j false := by
    simp [cell, through, List.getD_eq_getElem?_getD, List.getElem?_eq_getElem hi]
  rw [hthrough, hcell, hcell]
  by_cases hk : m[i].getD k false = true
  · rw [if_pos hk, hk]
    have hj' : j < m[i].length := by omega
    simp [List.getD_eq_getElem?_getD, List.getElem?_eq_getElem hj', hj]
  · rw [if_neg hk, Bool.eq_false_iff.2 hk, Bool.false_and, Bool.or_false]

/-- The transitive hull. -/
def hull (m : Matrix) : Matrix := (List.range m.length).foldl through m

/-- The members of `ordered` whose cells in a row are set. -/
def reachable (m : Matrix) (ordered : List Nat) (row : Nat) : List Nat :=
  (((m.getD row []).zip ordered).filter (·.1)).map (·.2)

end Matrix

namespace Catalog

/-- The direct dependencies among the members of `ordered`. -/
def adjacency (c : Catalog) (ordered : List Nat) : Matrix :=
  ordered.map fun a => ordered.map fun b => ((c.get? a).elim [] (·.dependsOn)).contains b

end Catalog

end ProjectSetup
