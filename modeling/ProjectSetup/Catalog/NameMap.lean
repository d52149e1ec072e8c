import ProjectSetup.Text.Lower

/-!
# Maps of names

Names are found by their lower case in a map to positions. A map is made of a list of names in one
of two ways: from the last name to the first, each of them taking the place of an equal one, or from
the first to the last, each of them yielding to an equal one. Both give the first position of a
name.
-/
namespace ProjectSetup

/-- The form of a name in which names are compared. -/
def nameKey (name : String) : Text := Text.lower name.toList

structure NameMap where
  get? : Text → Option Nat

namespace NameMap

def empty : NameMap := ⟨fun _ => none⟩

/-- The map with a position in place of what the key had. -/
def insert (m : NameMap) (key : Text) (position : Nat) : NameMap :=
  ⟨fun k => if k = key then some position else m.get? k⟩

/-- The map with a position for the key, if it had none. -/
def orInsert (m : NameMap) (key : Text) (position : Nat) : NameMap :=
  ⟨fun k => if k = key then (m.get? k).or (some position) else m.get? k⟩

/-- The map that is collected from the last name to the first. -/
def collect (names : List String) : NameMap :=
  names.zipIdx.reverse.foldl (fun m (name, i) => m.insert (nameKey name) i) empty

/-- The map that is filled from the first name to the last. -/
def fill (names : List String) : NameMap :=
  names.zipIdx.foldl (fun m (name, i) => m.orInsert (nameKey name) i) empty

theorem insert_same (m : NameMap) (key : Text) (i : Nat) : (m.insert key i).get? key = some i :=
  if_pos rfl

theorem insert_other (m : NameMap) {k key : Text} (i : Nat) (h : k ≠ key) :
    (m.insert key i).get? k = m.get? k := if_neg h

theorem orInsert_same (m : NameMap) (key : Text) (i : Nat) :
    (m.orInsert key i).get? key = (m.get? key).or (some i) := if_pos rfl

theorem orInsert_other (m : NameMap) {k key : Text} (i : Nat) (h : k ≠ key) :
    (m.orInsert key i).get? k = m.get? k := if_neg h

theorem get?_collect (names : List String) (key : Text) :
    (collect names).get? key = names.findIdx? fun name => nameKey name == key := by
  -- behind the names ahead of them, the names are numbered from their number on
  have hfrom (n : Nat) :
      ((names.zipIdx n).foldr (fun x m => insert m (nameKey x.1) x.2) empty).get? key =
        (names.findIdx? fun name => nameKey name == key).map (· + n) := by
    induction names generalizing n with
    | nil => rfl
    | cons name names ih =>
      rw [List.zipIdx_cons, List.foldr_cons, List.findIdx?_cons]
      by_cases h : key = nameKey name
      · rw [← h, insert_same, beq_self_eq_true, if_pos rfl, Option.map_some, Nat.zero_add]
      · rw [insert_other _ _ h, ih, if_neg (by simpa using Ne.symm h), Option.map_map]
        exact congrArg (Option.map · _) (funext fun i => by rw [Function.comp_apply]; omega)
  rw [collect, List.foldl_reverse]
  exact (hfrom 0).trans Option.map_id'

theorem get?_fill (names : List String) (key : Text) :
    (fill names).get? key = names.findIdx? fun name => nameKey name == key := by
  have hfrom (m : NameMap) (n : Nat) :
      ((names.zipIdx n).foldl (fun m x => orInsert m (nameKey x.1) x.2) m).get? key =
        (m.get? key).or ((names.findIdx? fun name => nameKey name == key).map (· + n)) := by
    induction names generalizing m n with
    | nil => exact Option.or_none.symm
    | cons name names ih =>
      rw [List.zipIdx_cons, List.foldl_cons, ih, List.findIdx?_cons]
      by_cases h : key = nameKey name
      · rw [← h, orInsert_same, beq_self_eq_true, if_pos rfl, Option.map_some, Nat.zero_add,
          Option.or_assoc, Option.some_or]
      · rw [orInsert_other _ _ h, if_neg (by simpa using Ne.symm h), Option.map_map]
        exact congrArg (fun f => (m.get? key).or (Option.map f _))
          (funext fun i => by rw [Function.comp_apply]; omega)
  exact (hfrom empty 0).trans (Option.none_or.trans Option.map_id')

end NameMap

end ProjectSetup
