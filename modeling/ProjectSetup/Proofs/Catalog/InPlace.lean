import ProjectSetup.Proofs.Catalog.Hull

/-!
# The hull in place

The hull can be taken in place, cell by cell: round `k` visits the rows one after another and sets
in each row that reaches `k` the columns that `k` reaches, in the matrix as the visits before have
left it. The row `k` does not change in its own round, so that the round makes every way through `k`
direct. After all rounds a cell is set exactly if a path of set cells leads from its row to its
column, and a cell of the diagonal exactly if its row lies on a cycle.
-/
namespace ProjectSetup.Matrix

variable {m : Matrix} {i j k : Nat}

/-- Set the cell of the row `i` and the column `j`. -/
def mark (m : Matrix) (i j : Nat) : Matrix := m.modify i (·.set j true)

@[simp] theorem length_mark (m : Matrix) (i j : Nat) : (m.mark i j).length = m.length :=
  List.length_modify ..

theorem Square.mark (square : m.Square) (i j : Nat) : (m.mark i j).Square := by
  intro row hrow
  obtain ⟨n, hn⟩ := List.mem_iff_getElem?.1 hrow
  rw [Matrix.mark, List.getElem?_modify, Option.map_eq_map, Option.map_eq_some_iff] at hn
  obtain ⟨old, hold, rfl⟩ := hn
  rw [length_mark, ← square old (List.mem_of_getElem? hold)]
  split
  · exact List.length_set
  · rfl

theorem joins_mark (square : m.Square) (hi : i < m.length) (hj : j < m.length) (a b : Nat) :
    (m.mark i j).Joins a b ↔ m.Joins a b ∨ a = i ∧ b = j := by
  simp only [joins_iff, mark, List.getElem?_modify]
  by_cases ha : a = i
  · subst ha
    have hrow : j < m[a].length := by rwa [square _ (List.getElem_mem hi)]
    by_cases hb : b = j
    · subst hb
      simp [List.getElem?_eq_getElem hi, hrow]
    · simp [List.getElem?_eq_getElem hi, List.getElem?_set_ne (Ne.symm hb), hb]
  · simp [ha, Ne.symm ha]

/-- Two squares of one size with the same cells set are the same. -/
theorem Square.eq_of_joins {m' : Matrix} (square : m.Square) (square' : m'.Square)
    (hlength : m.length = m'.length) (h : ∀ i j, m.Joins i j ↔ m'.Joins i j) : m = m' := by
  refine List.ext_getElem hlength fun i hi hi' => ?_
  have hrow := square _ (List.getElem_mem hi)
  have hrow' := square' _ (List.getElem_mem hi')
  refine List.ext_getElem (by omega) fun j hj hj' => ?_
  have hcell := h i j
  simp only [joins_iff, List.getElem?_eq_getElem hi, List.getElem?_eq_getElem hi',
    Option.some.injEq, exists_eq_left', List.getElem?_eq_getElem hj,
    List.getElem?_eq_getElem hj'] at hcell
  exact Bool.eq_iff_iff.2 hcell

/-- Set in the row `i` each column that is set in the row `k`, one column after another. -/
def visitColumns (m : Matrix) (k i : Nat) : Matrix :=
  (List.range m.length).foldl (fun m j => if m.cell k j then m.mark i j else m) m

/-- Visit the row `i` in the round of `k`. -/
def visit (k : Nat) (m : Matrix) (i : Nat) : Matrix :=
  if m.cell i k then m.visitColumns k i else m

/-- The round of `k`. -/
def sweep (m : Matrix) (k : Nat) : Matrix := (List.range m.length).foldl (visit k) m

/-- The hull, each round in the matrix that the rounds before have left. -/
def hullInPlace (m : Matrix) : Matrix := (List.range m.length).foldl sweep m

/-- Behind `n` columns: the cells of the row `k` that are read stay as they were, also where `k` is
the row that is visited. -/
theorem foldl_columns (square : m.Square) (hi : i < m.length) (k : Nat) {n : Nat}
    (hn : n ≤ m.length) :
    ((List.range n).foldl (fun m j => if m.cell k j then m.mark i j else m) m).Square ∧
      ((List.range n).foldl (fun m j => if m.cell k j then m.mark i j else m) m).length =
        m.length ∧
      ∀ a b, ((List.range n).foldl (fun m j => if m.cell k j then m.mark i j else m) m).Joins a b ↔
        m.Joins a b ∨ a = i ∧ b < n ∧ m.Joins k b := by
  induction n with
  | zero => exact ⟨square, rfl, by simp⟩
  | succ n ih =>
    obtain ⟨hsquare, hlength, hjoins⟩ := ih (by omega)
    rw [List.range_succ, List.foldl_append, List.foldl_cons, List.foldl_nil]
    generalize (List.range n).foldl (fun m j => if m.cell k j then m.mark i j else m) m = m' at *
    have hread : m'.Joins k n ↔ m.Joins k n := by
      rw [hjoins]
      simp
    by_cases hcell : m'.cell k n = true
    · rw [if_pos hcell]
      have hset : m.Joins k n := hread.1 hcell
      refine ⟨hsquare.mark i n, by rw [length_mark, hlength], fun a b => ?_⟩
      rw [joins_mark hsquare (by omega) (by omega), hjoins, or_assoc]
      refine or_congr_right ?_
      constructor
      · rintro (⟨ha, hb, hkb⟩ | ⟨ha, rfl⟩)
        · exact ⟨ha, by omega, hkb⟩
        · exact ⟨ha, by omega, hset⟩
      · rintro ⟨ha, hb, hkb⟩
        rcases Nat.lt_succ_iff_lt_or_eq.1 hb with hb | rfl
        · exact .inl ⟨ha, hb, hkb⟩
        · exact .inr ⟨ha, rfl⟩
    · rw [if_neg hcell]
      have hopen : ¬ m.Joins k n := fun h => hcell (hread.2 h)
      refine ⟨hsquare, hlength, fun a b => ?_⟩
      rw [hjoins]
      refine or_congr_right (and_congr_right fun _ => and_congr_left fun hkb => ?_)
      have hb : b ≠ n := fun he => hopen (he ▸ hkb)
      omega

theorem joins_visit (square : m.Square) (hi : i < m.length) (k : Nat) :
    (visit k m i).Square ∧ (visit k m i).length = m.length ∧
      ∀ a b, (visit k m i).Joins a b ↔ m.Joins a b ∨ a = i ∧ m.Joins i k ∧ m.Joins k b := by
  rw [visit]
  split
  · next hcell =>
    have hset : m.Joins i k := hcell
    obtain ⟨hsquare, hlength, hjoins⟩ := foldl_columns square hi k (Nat.le_refl m.length)
    refine ⟨hsquare, hlength, fun a b => (hjoins a b).trans (or_congr_right ?_)⟩
    exact and_congr_right fun _ =>
      ⟨fun h => ⟨hset, h.2⟩, fun h => ⟨(square.lt_of_joins h.2).2, h.2⟩⟩
  · next hcell =>
    have hopen : ¬ m.Joins i k := hcell
    exact ⟨square, rfl, fun a b => by simp [hopen]⟩

/-- Behind `n` rows. The row `k` itself gains nothing: it reaches through `k` what it reaches. -/
theorem foldl_visit (square : m.Square) (k : Nat) {n : Nat} (hn : n ≤ m.length) :
    ((List.range n).foldl (visit k) m).Square ∧
      ((List.range n).foldl (visit k) m).length = m.length ∧
      ∀ a b, ((List.range n).foldl (visit k) m).Joins a b ↔
        m.Joins a b ∨ a < n ∧ m.Joins a k ∧ m.Joins k b := by
  induction n with
  | zero => exact ⟨square, rfl, by simp⟩
  | succ n ih =>
    obtain ⟨hsquare, hlength, hjoins⟩ := ih (by omega)
    rw [List.range_succ, List.foldl_append, List.foldl_cons, List.foldl_nil]
    generalize (List.range n).foldl (visit k) m = m' at *
    have hstable (b : Nat) : m'.Joins k b ↔ m.Joins k b := by
      rw [hjoins]
      exact ⟨fun h => h.elim id (·.2.2), .inl⟩
    have hrow : m'.Joins n k ↔ m.Joins n k := by
      rw [hjoins]
      simp
    obtain ⟨hsquare', hlength', hjoins'⟩ := joins_visit hsquare (by omega : n < m'.length) k
    refine ⟨hsquare', hlength'.trans hlength, fun a b => ?_⟩
    rw [hjoins', hjoins, hstable, hrow, or_assoc]
    refine or_congr_right ?_
    constructor
    · rintro (⟨ha, h⟩ | ⟨rfl, h⟩)
      · exact ⟨by omega, h⟩
      · exact ⟨by omega, h⟩
    · rintro ⟨ha, h⟩
      rcases Nat.lt_succ_iff_lt_or_eq.1 ha with ha | rfl
      · exact .inl ⟨ha, h⟩
      · exact .inr ⟨rfl, h⟩

/-- A round makes every way through its stop a direct one. -/
theorem Square.sweep_eq (square : m.Square) (k : Nat) : m.sweep k = m.through k := by
  obtain ⟨hsquare, hlength, hjoins⟩ := foldl_visit square k (Nat.le_refl m.length)
  refine hsquare.eq_of_joins (square.through k) (by rw [hlength, length_through]) fun a b => ?_
  rw [hjoins, joins_through square]
  exact or_congr_right ⟨And.right, fun h => ⟨(square.lt_of_joins h.1).1, h⟩⟩

theorem Square.hullInPlace_eq (square : m.Square) : m.hullInPlace = m.hull := by
  rw [hullInPlace, hull]
  generalize List.range m.length = ks
  induction ks generalizing m with
  | nil => rfl
  | cons k ks ih => rw [List.foldl_cons, List.foldl_cons, square.sweep_eq, ih (square.through k)]

/-- A path of one or more set cells from `i` to `j` that goes over `stops`. -/
def Path (m : Matrix) (i : Nat) (stops : List Nat) (j : Nat) : Prop :=
  (i :: (stops ++ [j])).IsChain m.Joins

@[simp] theorem path_nil : m.Path i [] j ↔ m.Joins i j := by
  simp [Path]

@[simp] theorem path_cons {s : Nat} {stops : List Nat} :
    m.Path i (s :: stops) j ↔ m.Joins i s ∧ m.Path s stops j := by
  simp [Path]

theorem exists_path_iff : (∃ stops, m.Path i stops j) ↔ Relation.TransGen m.Joins i j := by
  constructor
  · rintro ⟨stops, h⟩
    induction stops generalizing i with
    | nil => exact .single (path_nil.1 h)
    | cons s stops ih => exact .head (path_cons.1 h).1 (ih (path_cons.1 h).2)
  · intro h
    induction h using Relation.TransGen.head_induction_on with
    | single h => exact ⟨[], path_nil.2 h⟩
    | @head i s h _ ih =>
      obtain ⟨stops, hstops⟩ := ih
      exact ⟨s :: stops, path_cons.2 ⟨h, hstops⟩⟩

theorem Path.of_append {xs ys : List Nat} {s : Nat} (h : m.Path i (xs ++ s :: ys) j) :
    m.Path s ys j := by
  induction xs generalizing i with
  | nil => exact (path_cons.1 h).2
  | cons x xs ih => exact ih (path_cons.1 h).2

/-- A path that leaves a row twice can go on from where it leaves the row last. -/
theorem Path.exists_nodup {stops : List Nat} (h : m.Path i stops j) :
    ∃ stops', m.Path i stops' j ∧ (i :: stops').Nodup := by
  induction stops generalizing i with
  | nil => exact ⟨[], h, List.nodup_singleton i⟩
  | cons s stops ih =>
    obtain ⟨his, hrest⟩ := path_cons.1 h
    obtain ⟨stops', hpath, hnodup⟩ := ih hrest
    by_cases hi : i ∈ s :: stops'
    · obtain ⟨xs, ys, hsplit⟩ := List.append_of_mem hi
      have hfull : m.Path i (s :: stops') j := path_cons.2 ⟨his, hpath⟩
      rw [hsplit] at hfull hnodup
      exact ⟨ys, hfull.of_append, (List.nodup_append.1 hnodup).2.1⟩
    · exact ⟨s :: stops', path_cons.2 ⟨his, hpath⟩, List.nodup_cons.2 ⟨hi, hnodup⟩⟩

/-- The hull of a square is a square of the same size, in place or not. Its cells are set exactly
where a path of set cells leads, and those of the diagonal exactly for the rows on a cycle. -/
theorem hull_exact (square : m.Square) :
    m.hull.Square ∧ m.hull.length = m.length ∧ m.hullInPlace = m.hull ∧
      (∀ i j, m.hull.Joins i j ↔ ∃ stops, m.Path i stops j) ∧
      ∀ i, m.hull.Joins i i ↔ ∃ stops, m.Path i stops i ∧ (i :: stops).Nodup := by
  obtain ⟨hsquare, hlength, -⟩ := foldl_through square m.length
  have hpath (i j : Nat) : m.hull.Joins i j ↔ ∃ stops, m.Path i stops j := by
    rw [joins_hull square, exists_path_iff]
  refine ⟨hsquare, hlength, square.hullInPlace_eq, hpath, fun i => (hpath i i).trans ⟨?_, ?_⟩⟩
  · rintro ⟨stops, h⟩
    exact h.exists_nodup
  · rintro ⟨stops, h, -⟩
    exact ⟨stops, h⟩

/-- Two rows on a cycle, and a third that reaches them and lies on none. -/
theorem hull_exact_on_cycle :
    let m : Matrix := [[false, true, false], [true, false, false], [true, false, false]]
    m.Square ∧ m.hullInPlace = m.hull ∧ m.hull.Joins 2 1 ∧ m.hull.Joins 0 0 ∧
      ¬ m.hull.Joins 2 2 := by
  intro m
  have square : m.Square := by
    simp [Square, m]
  obtain ⟨-, -, hplace, hpath, hcycle⟩ := hull_exact square
  have hzero : m.hull.Joins 0 0 := (hcycle 0).2 ⟨[1], by simp [Joins, cell, m], by decide⟩
  have htwo : m.hull.Joins 2 1 := (hpath 2 1).2 ⟨[0], by simp [Joins, cell, m]⟩
  exact ⟨square, hplace, htwo, hzero, Bool.eq_false_iff.1 (by decide)⟩

end ProjectSetup.Matrix
