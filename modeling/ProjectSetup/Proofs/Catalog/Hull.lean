import ProjectSetup.Catalog.Hull
import ProjectSetup.Proofs.Catalog.Integrity

/-!
# The hull and the search

The hull of a square of truth values has a cell set exactly where a way of set cells leads. For the
dependencies among a list of extensions that leaves no dependency out, this is what the search for
dependencies finds from each row.
-/
namespace ProjectSetup

namespace Matrix

/-- The cell of the row `i` and the column `j` is set. -/
def Joins (m : Matrix) (i j : Nat) : Prop := m.cell i j = true

/-- There are as many cells in each row as there are rows. -/
def Square (m : Matrix) : Prop := ∀ row ∈ m, row.length = m.length

theorem joins_iff (m : Matrix) (i j : Nat) :
    m.Joins i j ↔ ∃ row, m[i]? = some row ∧ row[j]? = some true := by
  cases hi : m[i]? with
  | none => simp [Joins, cell, List.getD_eq_getElem?_getD, hi]
  | some row =>
    cases hj : row[j]? with
    | none => simp [Joins, cell, List.getD_eq_getElem?_getD, hi, hj]
    | some x => simp [Joins, cell, List.getD_eq_getElem?_getD, hi, hj]

/-- Set cells lie inside the square. -/
theorem Square.lt_of_joins {m : Matrix} (square : m.Square) {i j : Nat} (h : m.Joins i j) :
    i < m.length ∧ j < m.length := by
  obtain ⟨row, hi, hj⟩ := (joins_iff m i j).1 h
  have hrow := square row (List.mem_of_getElem? hi)
  have hcell := (List.getElem?_eq_some_iff.1 hj).1
  exact ⟨(List.getElem?_eq_some_iff.1 hi).1, by omega⟩

theorem Square.through {m : Matrix} (square : m.Square) (k : Nat) : (m.through k).Square := by
  intro row hrow
  obtain ⟨old, hold, rfl⟩ := List.mem_map.1 hrow
  rw [length_through, ← square old hold]
  split
  · exact List.length_mapIdx
  · rfl

/-- One stop more joins what it is between. -/
theorem joins_through {m : Matrix} (square : m.Square) (k i j : Nat) :
    (m.through k).Joins i j ↔ m.Joins i j ∨ m.Joins i k ∧ m.Joins k j := by
  by_cases hin : i < m.length ∧ j < m.length
  · simp [Joins, cell_through square hin.1 hin.2]
  · constructor
    · intro h
      exact absurd (by simpa using (square.through k).lt_of_joins h) hin
    · rintro (h | ⟨hi, hj⟩)
      · exact absurd (square.lt_of_joins h) hin
      · exact absurd ⟨(square.lt_of_joins hi).1, (square.lt_of_joins hj).2⟩ hin

/-- A way along set cells all of whose stops lie below `k`. -/
inductive Way (m : Matrix) (k : Nat) : Nat → Nat → Prop
  | direct {i j : Nat} : m.Joins i j → Way m k i j
  | stop {i s j : Nat} : s < k → Way m k i s → Way m k s j → Way m k i j

theorem way_zero_iff {m : Matrix} {i j : Nat} : m.Way 0 i j ↔ m.Joins i j := by
  constructor
  · intro h
    cases h with
    | direct h => exact h
    | stop hs _ _ => exact absurd hs (Nat.not_lt_zero _)
  · exact .direct

theorem Way.mono {m : Matrix} {k l i j : Nat} (hkl : k ≤ l) (h : m.Way k i j) : m.Way l i j := by
  induction h with
  | direct h => exact .direct h
  | stop hs _ _ ih₁ ih₂ => exact .stop (by omega) ih₁ ih₂

/-- A way over the stop `k` can be cut where it comes to that stop first and leaves it last. -/
theorem way_succ_iff {m : Matrix} {k i j : Nat} :
    m.Way (k + 1) i j ↔ m.Way k i j ∨ m.Way k i k ∧ m.Way k k j := by
  constructor
  · intro h
    induction h with
    | direct h => exact .inl (.direct h)
    | @stop i s j hs _ _ ih₁ ih₂ =>
      by_cases hk : s = k
      -- whatever is known of the two halves, one leads to the new stop and the other away from it
      · subst hk
        have hto : m.Way s i s := ih₁.elim id (·.1)
        have hfrom : m.Way s s j := ih₂.elim id (·.2)
        exact .inr ⟨hto, hfrom⟩
      · have hlt : s < k := by omega
        rcases ih₁ with his | ⟨hik, hks⟩
        · rcases ih₂ with hsj | ⟨hsk, hkj⟩
          · exact .inl (.stop hlt his hsj)
          · exact .inr ⟨.stop hlt his hsk, hkj⟩
        · rcases ih₂ with hsj | ⟨-, hkj⟩
          · exact .inr ⟨hik, .stop hlt hks hsj⟩
          · exact .inr ⟨hik, hkj⟩
  · rintro (h | ⟨hik, hkj⟩)
    · exact h.mono (Nat.le_succ k)
    · exact .stop (Nat.lt_succ_self k) (hik.mono (Nat.le_succ k)) (hkj.mono (Nat.le_succ k))

/-- After `k` stops the cells are set exactly where a way over these stops leads. -/
theorem foldl_through {m : Matrix} (square : m.Square) (k : Nat) :
    ((List.range k).foldl through m).Square ∧
      ((List.range k).foldl through m).length = m.length ∧
      ∀ i j, ((List.range k).foldl through m).Joins i j ↔ m.Way k i j := by
  induction k with
  | zero => exact ⟨square, rfl, fun i j => way_zero_iff.symm⟩
  | succ k ih =>
    obtain ⟨hsquare, hlength, hjoins⟩ := ih
    rw [List.range_succ, List.foldl_append, List.foldl_cons, List.foldl_nil]
    refine ⟨hsquare.through k, by rw [length_through, hlength], fun i j => ?_⟩
    rw [joins_through hsquare, hjoins, hjoins, hjoins, way_succ_iff]

/-- Where every row may be a stop, the ways are those of the set cells in any number. -/
theorem Square.way_iff {m : Matrix} (square : m.Square) {i j : Nat} :
    m.Way m.length i j ↔ Relation.TransGen m.Joins i j := by
  constructor
  · intro h
    induction h with
    | direct h => exact .single h
    | stop _ _ _ ih₁ ih₂ => exact ih₁.trans ih₂
  · intro h
    induction h with
    | single h => exact .direct h
    | tail _ h ih => exact .stop (square.lt_of_joins h).1 ih (.direct h)

/-- The hull joins exactly what a way of set cells joins. -/
theorem joins_hull {m : Matrix} (square : m.Square) (i j : Nat) :
    m.hull.Joins i j ↔ Relation.TransGen m.Joins i j := by
  rw [Matrix.hull, (foldl_through square m.length).2.2, square.way_iff]

/-- A row reaches the members of the list whose columns it is joined with. -/
theorem mem_reachable (m : Matrix) (ordered : List Nat) (row b : Nat) :
    b ∈ m.reachable ordered row ↔ ∃ j, ordered[j]? = some b ∧ m.Joins row j := by
  have hrow (j : Nat) : m.Joins row j ↔ (m.getD row [])[j]? = some true := by
    rw [joins_iff, List.getD_eq_getElem?_getD]
    cases m[row]? with
    | none => simp
    | some cells => simp
  simp only [hrow]
  constructor
  · intro h
    obtain ⟨⟨x, b'⟩, hpair, rfl⟩ := List.mem_map.1 h
    obtain ⟨hzip, hx⟩ := List.mem_filter.1 hpair
    obtain ⟨j, hj⟩ := List.mem_iff_getElem?.1 hzip
    obtain ⟨hcell, hid⟩ := List.getElem?_zip_eq_some.1 hj
    rw [show x = true from hx] at hcell
    exact ⟨j, hid, hcell⟩
  · rintro ⟨j, hid, hcell⟩
    have hzip : (true, b) ∈ (m.getD row []).zip ordered :=
      List.mem_of_getElem? (List.getElem?_zip_eq_some.2 ⟨hcell, hid⟩)
    exact List.mem_map.2 ⟨(true, b), List.mem_filter.2 ⟨hzip, rfl⟩, rfl⟩

end Matrix

namespace Catalog

/-- No dependency leads from a member of the list to an id that is not in it. -/
def ClosedUnderDependencies (c : Catalog) (ordered : List Nat) : Prop :=
  ∀ a ∈ ordered, ∀ b, c.DependsOn a b → b ∈ ordered

theorem dependsOn_iff (c : Catalog) (a b : Nat) :
    c.DependsOn a b ↔ b ∈ (c.get? a).elim [] (·.dependsOn) := by
  cases he : c.get? a with
  | none => simp [DependsOn, he]
  | some e => simp [DependsOn, he]

instance (c : Catalog) (ordered : List Nat) : Decidable (c.ClosedUnderDependencies ordered) :=
  decidable_of_iff (∀ a ∈ ordered, ∀ b ∈ (c.get? a).elim [] (·.dependsOn), b ∈ ordered)
    (by simp only [ClosedUnderDependencies, dependsOn_iff])

theorem square_adjacency (c : Catalog) (ordered : List Nat) : (c.adjacency ordered).Square := by
  intro row hrow
  obtain ⟨a, -, rfl⟩ := List.mem_map.1 hrow
  simp [adjacency]

theorem joins_adjacency (c : Catalog) (ordered : List Nat) (i j : Nat) :
    (c.adjacency ordered).Joins i j ↔
      ∃ a b, ordered[i]? = some a ∧ ordered[j]? = some b ∧ c.DependsOn a b := by
  have hdepends (a b : Nat) :
      ((c.get? a).elim [] (·.dependsOn)).contains b = true ↔ c.DependsOn a b := by
    rw [dependsOn_iff, List.contains_iff_mem]
  rw [Matrix.joins_iff]
  simp only [adjacency, List.getElem?_map, Option.map_eq_some_iff]
  constructor
  · rintro ⟨row, ⟨a, ha, rfl⟩, hj⟩
    obtain ⟨b, hb, hab⟩ := Option.map_eq_some_iff.1 (List.getElem?_map ▸ hj)
    exact ⟨a, b, ha, hb, (hdepends a b).1 hab⟩
  · rintro ⟨a, b, ha, hb, hab⟩
    refine ⟨_, ⟨a, ha, rfl⟩, ?_⟩
    rw [List.getElem?_map, hb, Option.map_some, (hdepends a b).2 hab]

/-- Ways between rows are ways between the extensions that stand there. -/
theorem reaches_of_transGen {c : Catalog} {ordered : List Nat} {i j : Nat}
    (h : Relation.TransGen (c.adjacency ordered).Joins i j) :
    ∃ a b, ordered[i]? = some a ∧ ordered[j]? = some b ∧ c.Reaches a b := by
  induction h with
  | single h =>
    obtain ⟨a, b, ha, hb, hab⟩ := (joins_adjacency c ordered _ _).1 h
    exact ⟨a, b, ha, hb, .single hab⟩
  | tail _ h ih =>
    obtain ⟨a, s, ha, hs, has⟩ := ih
    obtain ⟨s', b, hs', hb, hsb⟩ := (joins_adjacency c ordered _ _).1 h
    have hss' : s = s' := Option.some.inj (hs.symm.trans hs')
    subst hss'
    exact ⟨a, b, ha, hb, has.tail hsb⟩

/-- A way that never leaves the list goes from row to row, whichever rows its start has. -/
theorem transGen_of_reaches {c : Catalog} {ordered : List Nat}
    (closed : c.ClosedUnderDependencies ordered) {i a b : Nat} (ha : ordered[i]? = some a)
    (h : c.Reaches a b) :
    ∃ j, ordered[j]? = some b ∧ Relation.TransGen (c.adjacency ordered).Joins i j := by
  -- an id may stand in several rows: each step of the way goes on to any row of its end
  have hrow {s d : Nat} (hs : s ∈ ordered) (hd : c.DependsOn s d) : ∃ j, ordered[j]? = some d :=
    List.mem_iff_getElem?.1 (closed s hs d hd)
  induction h with
  | single hab =>
    obtain ⟨j, hj⟩ := hrow (List.mem_of_getElem? ha) hab
    exact ⟨j, hj, .single ((joins_adjacency c ordered i j).2 ⟨_, _, ha, hj, hab⟩)⟩
  | @tail s d _ hsd ih =>
    obtain ⟨k, hk, hway⟩ := ih
    obtain ⟨j, hj⟩ := hrow (List.mem_of_getElem? hk) hsd
    exact ⟨j, hj, hway.tail ((joins_adjacency c ordered k j).2 ⟨_, _, hk, hj, hsd⟩)⟩

theorem mem_reachable_hull {c : Catalog} {ordered : List Nat}
    (closed : c.ClosedUnderDependencies ordered) {row a : Nat} (ha : ordered[row]? = some a)
    (b : Nat) :
    b ∈ (c.adjacency ordered).hull.reachable ordered row ↔ b ∈ c.deepDependencies a := by
  rw [Matrix.mem_reachable, mem_deepDependencies]
  simp only [Matrix.joins_hull (square_adjacency c ordered)]
  constructor
  · rintro ⟨j, hj, hway⟩
    obtain ⟨a', b', ha', hb', hab⟩ := reaches_of_transGen hway
    cases ha.symm.trans ha'
    cases hj.symm.trans hb'
    exact hab
  · exact transGen_of_reaches closed ha

/-- Where all references are defined, the ids of the catalog leave no dependency out. -/
theorem closedUnderDependencies_ids {c : Catalog} (defined : c.referencesFault? = none) :
    c.ClosedUnderDependencies c.ids := by
  rintro a - b ⟨e, he, hb⟩
  have hfault := List.findSome?_eq_none_iff.1 defined e (List.mem_of_getElem? he)
  have hsize := (undefinedReference?_eq_none.1 hfault).1 b hb
  exact List.mem_range.2 hsize

/-- The hull and the search agree: in a list that leaves no dependency out, each row reaches in the
hull what the search finds from the extension in that row. The ids of a catalog are such a list if
all its references are defined. -/
theorem hull_agrees_with_search (c : Catalog) :
    (∀ ordered, c.ClosedUnderDependencies ordered →
      ∀ row (_ : row < ordered.length) b,
        b ∈ (c.adjacency ordered).hull.reachable ordered row ↔
          b ∈ c.deepDependencies ordered[row]) ∧
    (c.referencesFault? = none → c.ClosedUnderDependencies c.ids) :=
  ⟨fun _ closed _ hrow => mem_reachable_hull closed (List.getElem?_eq_getElem hrow),
    closedUnderDependencies_ids⟩

/-- Two extensions that need each other, one of them listed twice, and a third that one needs. -/
theorem hull_agrees_with_search_on_cycle :
    let c : Catalog := ⟨[⟨0, "A", .library, [1, 1], []⟩, ⟨1, "B", .library, [0, 2], []⟩,
      ⟨2, "C", .library, [], []⟩]⟩
    c.ClosedUnderDependencies [1, 0, 1, 2] ∧ c.referencesFault? = none ∧
      (∀ b ∈ [0, 1, 2], b ∈ c.deepDependencies 1) ∧ c.ClosedUnderDependencies c.ids := by
  intro c
  have closed : c.ClosedUnderDependencies [1, 0, 1, 2] := by decide
  have defined : c.referencesFault? = none := by decide
  refine ⟨closed, defined, fun b hb => ?_, (hull_agrees_with_search c).2 defined⟩
  refine ((hull_agrees_with_search c).1 _ closed 0 (by decide) b).1 ?_
  revert b
  decide

end Catalog

end ProjectSetup
