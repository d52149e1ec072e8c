import ProjectSetup.Proofs.Catalog.Lookup
import ProjectSetup.Proofs.Text.Trimmed

/-!
# Extensions by their names

A list of names is trimmed name by name before it is resolved, while the checks of a catalog compare
names as they are written. So they keep apart two names of which one is the other with a blank
before it, and of those only the trimmed one can be written. Where the listed extensions have
trimmed names, their names resolve to them.
-/
namespace ProjectSetup.Catalog

variable {c : Catalog} {names : List String} {ids : List Nat} {id : Nat} {e : Extension}

/-- A name in the form in which it is resolved. -/
def trimName (name : String) : String := String.ofList (Text.trim name.toList)

theorem trimName_eq_self {name : String} (h : Text.Trimmed name.toList) : trimName name = name := by
  rw [trimName, Text.trim_eq_self_iff.2 h, String.ofList_toList]

/-- The name is that of the extension with the given index. -/
def Means (c : Catalog) (name : String) (id : Nat) : Prop :=
  ∃ e, c.find? (trimName name) = some e ∧ e.index = id

theorem foldl_addNew_eq_append [BEq α] [LawfulBEq α] (new old : List α) :
    new.foldl addNew old = old ++ (new.filter (!old.contains ·)).eraseDups := by
  induction new generalizing old with
  | nil => simp
  | cons x new ih =>
    rw [List.foldl_cons, ih, addNew]
    split
    · next hx => rw [List.filter_cons_of_neg (by simpa using hx)]
    · next hx =>
      rw [List.filter_cons_of_pos (by simpa using hx), List.eraseDups_cons, List.filter_filter,
        List.append_assoc, List.singleton_append]
      -- a member is new after `x` iff it was new before and is not `x`
      have hnew : (fun y => !(old ++ [x]).contains y) = fun y => !(y == x) && !old.contains y := by
        funext y
        rw [Bool.eq_iff_iff]
        simp [and_comm]
      rw [hnew]

theorem foldl_addNew_nil [BEq α] [LawfulBEq α] (xs : List α) :
    xs.foldl addNew [] = xs.eraseDups := by
  rw [foldl_addNew_eq_append, List.nil_append]
  simp

theorem found_of_means (h : List.Forall₂ c.Means names ids) :
    ((names.map trimName).filter fun n => (c.find? n).isNone) = [] ∧
      ((names.map trimName).filterMap c.find?).map (·.index) = ids := by
  induction h with
  | nil => exact ⟨rfl, rfl⟩
  | cons hn _ ih =>
    obtain ⟨e, he, rfl⟩ := hn
    rw [List.map_cons, List.filter_cons_of_neg (by simp [he]), List.filterMap_cons_some he,
      List.map_cons, ih.2]
    exact ⟨ih.1, rfl⟩

theorem resolve_of_means (h : List.Forall₂ c.Means names ids) :
    c.resolve names = .ok ids.eraseDups := by
  obtain ⟨hnone, hids⟩ := found_of_means h
  rw [resolve, show names.map (fun n => String.ofList (Text.trim n.toList)) =
    names.map trimName from rfl, hnone, hids, foldl_addNew_nil]

theorem means_of_resolve {out : List Nat} (h : c.resolve names = .ok out) (hid : id ∈ out) :
    ∃ n ∈ names, c.Means n id := by
  simp only [resolve] at h
  split at h
  · cases h
    rw [foldl_addNew_nil, List.mem_eraseDups] at hid
    obtain ⟨e, he, rfl⟩ := List.mem_map.1 hid
    obtain ⟨t, ht, hfound⟩ := List.mem_filterMap.1 he
    obtain ⟨n, hn, rfl⟩ := List.mem_map.1 ht
    exact ⟨n, hn, e, hfound, rfl⟩
  · cases h

namespace WellFormed

theorem nameOf_index (wf : c.WellFormed) (he : e ∈ c.extensions) : c.nameOf e.index = e.name := by
  obtain ⟨i, hi⟩ := List.mem_iff_getElem?.1 he
  have hget : c.get? e.index = some e := by rwa [wf.placed i e hi]
  rw [nameOf, hget]

/-- A trimmed name means the extension that has it. -/
theorem means_nameOf (wf : c.WellFormed) (hid : id < c.size)
    (trimmed : Text.Trimmed (c.nameOf id).toList) : c.Means (c.nameOf id) id := by
  have hget : c.get? id = some c.extensions[id] := List.getElem?_eq_getElem hid
  refine ⟨_, ?_, wf.placed id _ hget⟩
  rw [trimName_eq_self trimmed, nameOf, hget]
  exact find?_name wf.namesFault? (List.getElem_mem hid)

/-- Only an extension with a trimmed name can be meant. -/
theorem trimmed_of_means (wf : c.WellFormed) {name : String} (h : c.Means name id) :
    Text.Trimmed (c.nameOf id).toList := by
  obtain ⟨e, he, rfl⟩ := h
  rw [wf.nameOf_index (mem_of_find? he), ← Text.trimmed_lower]
  have hkey : Text.lower e.name.toList = Text.lower (trimName name).toList := nameKey_of_find? he
  rw [hkey, Text.trimmed_lower, trimName, String.toList_ofList]
  exact Text.trimmed_trim _

end WellFormed

/-- The names of listed extensions resolve to just these, in the order of first mention and without
repeats, iff no blank stands at an end of one of the names. -/
theorem resolve_names_eq_iff {c : Catalog} (accepted : c.integrityFault? = none) {ids : List Nat}
    (known : ∀ id ∈ ids, id < c.size) :
    c.resolve (ids.map c.nameOf) = .ok ids.eraseDups ↔
      ∀ id ∈ ids, Text.Trimmed (c.nameOf id).toList := by
  have wf := wellFormed_of_integrityFault? accepted
  constructor
  · intro h id hid
    obtain ⟨n, -, hn⟩ := means_of_resolve h (List.mem_eraseDups.2 hid)
    exact wf.trimmed_of_means hn
  · intro trimmed
    refine resolve_of_means ?_
    rw [List.forall₂_map_left_iff, List.forall₂_same]
    exact fun id hid => wf.means_nameOf (known id hid) (trimmed id hid)

/-- An extension with blanks around its name does no harm to the others. A final sigma and a dotted
capital I are found by their names. -/
theorem resolve_names_eq_beside_padded :
    let c : Catalog := ⟨[⟨0, "ΟΣ", .library, [], []⟩, ⟨1, " Less ", .library, [], []⟩,
      ⟨2, "İ x", .library, [], []⟩]⟩
    c.integrityFault? = none ∧ c.resolve ([2, 0, 2].map c.nameOf) = .ok [2, 0] := by
  intro c
  have accepted : c.integrityFault? = none := by decide +kernel
  have known : ∀ id ∈ [2, 0, 2], id < c.size := by decide
  have trimmed : ∀ id ∈ [2, 0, 2], Text.Trimmed (c.nameOf id).toList := by decide +kernel
  have hids : [2, 0, 2].eraseDups = [2, 0] := by decide
  refine ⟨accepted, ?_⟩
  rw [(resolve_names_eq_iff accepted known).2 trimmed, hids]

/-- Two names that differ by a blank pass the checks, and both resolve to the first extension. -/
theorem resolve_padded_name :
    let c : Catalog := ⟨[⟨0, "A", .library, [], []⟩, ⟨1, " A", .library, [], []⟩]⟩
    c.integrityFault? = none ∧ (∀ id ∈ [1], id < c.size) ∧
      c.resolve ([1].map c.nameOf) = .ok [0] ∧ [0] ≠ [1].eraseDups :=
  ⟨by decide +kernel, by decide, by decide +kernel, by decide⟩

end ProjectSetup.Catalog
