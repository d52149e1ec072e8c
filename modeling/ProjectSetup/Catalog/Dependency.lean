import ProjectSetup.Catalog.Basic

/-!
# Dependencies

What an extension depends on, directly and through others, and the checks that a catalog has to
pass. The search goes along every path that does not come back to itself, so it ends on cycles too.
-/
namespace ProjectSetup.Catalog

/-- The extension `a` names `b` among its dependencies. -/
def DependsOn (c : Catalog) (a b : Nat) : Prop := ∃ e, c.get? a = some e ∧ b ∈ e.dependsOn

/-- The ids of the catalog that are not on a path. -/
def unvisited (c : Catalog) (path : List Nat) : Nat := c.ids.countP fun i => !path.contains i

theorem unvisited_lt {c : Catalog} {path : List Nat} {id : Nat} (hp : id ∉ path)
    (hid : id < c.size) : c.unvisited (id :: path) < c.unvisited path := by
  have key (l : List Nat) : l.countP (fun i => !(id :: path).contains i) + l.count id ≤
      l.countP (fun i => !path.contains i) := by
    induction l with
    | nil => simp
    | cons a l ih =>
      simp only [List.countP_cons, List.count_cons, List.contains_cons, Bool.not_or] at ih ⊢
      by_cases h : a = id
      · subst h; simp [hp] at ih ⊢; omega
      · simp [h] at ih ⊢; omega
  have hc : 0 < c.ids.count id := List.count_pos_iff.2 (List.mem_range.2 hid)
  have := key c.ids
  simp only [unvisited]
  omega

theorem lt_size_of_get? {c : Catalog} {id : Nat} {e : Extension} (h : c.get? id = some e) :
    id < c.size := (List.getElem?_eq_some_iff.1 h).1

/-- The ends of the ways along dependencies from `id` on that avoid `path`. -/
def deepFrom (c : Catalog) (path : List Nat) (id : Nat) : List Nat :=
  if _hp : id ∈ path then []
  else match _he : c.get? id with
    | none => []
    | some e => e.dependsOn.flatMap fun d => d :: c.deepFrom (id :: path) d
termination_by c.unvisited path
decreasing_by exact unvisited_lt _hp (lt_size_of_get? _he)

/-- Everything that an extension depends on, once for each way that leads there. -/
def deepDependencies (c : Catalog) (id : Nat) : List Nat := c.deepFrom [] id

/-- The first extension that has a name of one before it. -/
def duplicateName? (seen : List Text) : List Extension → Option CatalogFault
  | [] => none
  | e :: es =>
    if seen.contains (nameKey e.name) then some (.duplicateName e.name)
    else duplicateName? (nameKey e.name :: seen) es

/-- The first reference of an extension to a position outside the catalog. -/
def undefinedReference? (c : Catalog) (e : Extension) : Option CatalogFault :=
  let outside (r : Relation) (ids : List Nat) : Option CatalogFault :=
    (ids.find? fun i => (c.get? i).isNone).map (.undefinedReference e.name r)
  (outside .dependency e.dependsOn).or (outside .exclusivity e.exclusiveTo)

/-- The first extension whose index is not its position. -/
def indexMismatch? (position : Nat) : List Extension → Option CatalogFault
  | [] => none
  | e :: es =>
    if e.index = position then indexMismatch? (position + 1) es
    else some (.indexMismatch e.name e.index position)

/-- A dependency of `e` that it excludes, or two dependencies that exclude each other. -/
def exclusiveDependency? (c : Catalog) (e : Extension) : Option CatalogFault :=
  let deep := c.deepDependencies e.index
  match e.exclusiveTo.find? deep.contains with
  | some d => some (.exclusiveDependency e.name (c.nameOf d))
  | none => deep.findSome? fun a =>
    (c.get? a).bind fun first =>
      (deep.find? fun b => a != b && first.exclusiveTo.contains b).map fun b =>
        .exclusiveDependencies e.name first.name (c.nameOf b)

/-- Names are unique. -/
def namesFault? (c : Catalog) : Option CatalogFault := duplicateName? [] c.extensions

/-- Every reference points into the catalog. -/
def referencesFault? (c : Catalog) : Option CatalogFault :=
  c.extensions.findSome? c.undefinedReference?

/-- Every index is a position. -/
def indexesFault? (c : Catalog) : Option CatalogFault := indexMismatch? 0 c.extensions

/-- No extension depends on something that it or another dependency excludes. -/
def exclusionsFault? (c : Catalog) : Option CatalogFault :=
  c.extensions.findSome? c.exclusiveDependency?

/-- The checks of a catalog that was linked. -/
def consistencyFault? (c : Catalog) : Option CatalogFault :=
  c.namesFault?.or c.exclusionsFault?

/-- The checks of a catalog of any origin. -/
def integrityFault? (c : Catalog) : Option CatalogFault :=
  c.referencesFault?.or (c.indexesFault?.or c.consistencyFault?)

end ProjectSetup.Catalog
