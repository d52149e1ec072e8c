import Mathlib.Data.List.Forall2
import Mathlib.Data.List.Nodup
import ProjectSetup.Catalog.Definition
import ProjectSetup.Proofs.Catalog.Integrity

/-!
# Linking

A manifest is linked exactly if every name that it refers to is the name of a definition, in
whatever case. Each definition becomes the extension at its position, and a name means the first
definition that has it. Groups add to what the definitions exclude, and each member of a group comes
to exclude the other members that it did not exclude before.
-/
namespace ProjectSetup

namespace Manifest

/-- The name means the definition at position `i`: the first one that has the name. -/
def Means (m : Manifest) (name : String) (i : Nat) : Prop :=
  (∃ d, m.definitions[i]? = some d ∧ nameKey d.name = nameKey name) ∧
    ∀ j < i, ∀ d, m.definitions[j]? = some d → nameKey d.name ≠ nameKey name

/-- Some definition has the name. -/
def Defines (m : Manifest) (name : String) : Prop :=
  ∃ d ∈ m.definitions, nameKey d.name = nameKey name

/-- Every name that the manifest refers to is defined. -/
structure Closed (m : Manifest) : Prop where
  dependencies : ∀ d ∈ m.definitions, ∀ n ∈ d.dependsOn, m.Defines n
  exclusions : ∀ d ∈ m.definitions, ∀ n ∈ d.exclusiveTo, m.Defines n
  groups : ∀ g ∈ m.groups, ∀ n ∈ g, m.Defines n

variable {m : Manifest}

theorem Means.unique {name : String} {i j : Nat} (hi : m.Means name i) (hj : m.Means name j) :
    i = j := by
  obtain ⟨⟨d, hd, hdk⟩, hfirst⟩ := hi
  obtain ⟨⟨e, he, hek⟩, hfirst'⟩ := hj
  rcases Nat.lt_trichotomy i j with h | h | h
  · exact absurd hdk (hfirst' i h d hd)
  · exact h
  · exact absurd hek (hfirst j h e he)

theorem position?_eq_some_iff {name : String} {i : Nat} :
    m.position? name = some i ↔ m.Means name i := by
  rw [position?_eq, List.findIdx?_eq_some_iff_getElem, Means]
  constructor
  · rintro ⟨h, hi, hfirst⟩
    refine ⟨⟨m.definitions[i], List.getElem?_eq_getElem h, beq_iff_eq.1 hi⟩, ?_⟩
    intro j hj d hd
    obtain ⟨hlt, rfl⟩ := List.getElem?_eq_some_iff.1 hd
    exact fun he => hfirst j hj (beq_iff_eq.2 he)
  · rintro ⟨⟨d, hd, hdk⟩, hfirst⟩
    obtain ⟨hlt, rfl⟩ := List.getElem?_eq_some_iff.1 hd
    refine ⟨hlt, beq_iff_eq.2 hdk, fun j hj he => ?_⟩
    exact hfirst j hj _ (List.getElem?_eq_getElem (by omega)) (beq_iff_eq.1 he)

theorem exists_means_iff {name : String} : (∃ i, m.Means name i) ↔ m.Defines name := by
  simp only [← position?_eq_some_iff, ← Option.isSome_iff_exists, position?_eq, List.findIdx?_isSome,
    List.any_eq_true, beq_iff_eq, Defines]

theorem resolve_eq_ok_iff {owner name : String} {i : Nat} :
    m.resolve owner name = .ok i ↔ m.Means name i := by
  rw [← position?_eq_some_iff, resolve]
  cases m.position? name <;> simp

/-- A list is mapped if each of its members is. -/
theorem mapM_eq_ok_iff {α β ε : Type} {f : α → Except ε β} {xs : List α} {ys : List β} :
    xs.mapM f = .ok ys ↔ List.Forall₂ (fun x y => f x = .ok y) xs ys := by
  induction xs generalizing ys with
  | nil => cases ys <;> simp [pure, Except.pure]
  | cons x xs ih =>
    rw [List.mapM_cons]
    cases hx : f x with
    | error e => cases ys <;> simp [bind, Except.bind, hx]
    | ok y =>
      cases hxs : xs.mapM f with
      | error e => cases ys <;> simp [bind, Except.bind, ← ih, hxs]
      | ok zs => cases ys <;> simp [bind, Except.bind, pure, Except.pure, ← ih, hxs, hx]

theorem mapM_resolve_eq_ok_iff (owner : String → String) {names : List String} {ids : List Nat} :
    names.mapM (fun n => m.resolve (owner n) n) = .ok ids ↔ List.Forall₂ m.Means names ids := by
  simp only [mapM_eq_ok_iff, resolve_eq_ok_iff]

theorem exists_forall₂_means_iff {names : List String} :
    (∃ ids, List.Forall₂ m.Means names ids) ↔ ∀ n ∈ names, m.Defines n := by
  induction names with
  | nil => simp
  | cons n names ih =>
    rw [List.forall_mem_cons, ← ih, ← exists_means_iff]
    constructor
    · rintro ⟨_, h⟩
      cases h with
      | cons hn h => exact ⟨⟨_, hn⟩, ⟨_, h⟩⟩
    · rintro ⟨⟨i, hi⟩, ⟨ids, h⟩⟩
      exact ⟨i :: ids, .cons hi h⟩

/-- The positions that names mean are those that one of them means. -/
theorem mem_of_forall₂_means {names : List String} {ids : List Nat}
    (h : List.Forall₂ m.Means names ids) (i : Nat) : i ∈ ids ↔ ∃ n ∈ names, m.Means n i := by
  induction h with
  | nil => simp
  | @cons n j names ids hn _ ih =>
    have hj : m.Means n i ↔ i = j := ⟨fun hi => hi.unique hn, fun hi => hi ▸ hn⟩
    simp only [List.mem_cons, ih, exists_eq_or_imp, hj]

/-- The extension that a definition describes at position `i`, before any group is looked at. -/
structure Describes (m : Manifest) (i : Nat) (d : Definition) (e : Extension) : Prop where
  index : e.index = i
  name : e.name = d.name
  category : e.category = d.category
  dependsOn : List.Forall₂ m.Means d.dependsOn e.dependsOn
  exclusiveTo : List.Forall₂ m.Means d.exclusiveTo e.exclusiveTo

theorem linkOne_eq_ok_iff {i : Nat} {d : Definition} {e : Extension} :
    m.linkOne i d = .ok e ↔ m.Describes i d e := by
  constructor
  · intro h
    rw [linkOne] at h
    cases hdep : d.dependsOn.mapM (m.resolve d.name) with
    | error f => rw [hdep] at h; cases h
    | ok deps =>
      cases hex : d.exclusiveTo.mapM (m.resolve d.name) with
      | error f => rw [hdep, hex] at h; cases h
      | ok exs =>
        rw [hdep, hex] at h
        cases h
        exact ⟨rfl, rfl, rfl, (mapM_resolve_eq_ok_iff _).1 hdep,
          (mapM_resolve_eq_ok_iff _).1 hex⟩
  · rintro ⟨rfl, hname, hcat, hdep, hex⟩
    have hdep := (mapM_resolve_eq_ok_iff fun _ => d.name).2 hdep
    have hex := (mapM_resolve_eq_ok_iff fun _ => d.name).2 hex
    rw [linkOne, hdep, hex, ← hname, ← hcat]
    rfl

theorem exists_describes_iff {i : Nat} {d : Definition} :
    (∃ e, m.Describes i d e) ↔
      (∀ n ∈ d.dependsOn, m.Defines n) ∧ ∀ n ∈ d.exclusiveTo, m.Defines n := by
  rw [← exists_forall₂_means_iff, ← exists_forall₂_means_iff]
  constructor
  · rintro ⟨e, he⟩
    exact ⟨⟨_, he.dependsOn⟩, ⟨_, he.exclusiveTo⟩⟩
  · rintro ⟨⟨deps, hdep⟩, ⟨exs, hex⟩⟩
    exact ⟨⟨i, d.name, d.category, deps, exs⟩, rfl, rfl, rfl, hdep, hex⟩

/-- Linking goes through the definitions and counts their positions. -/
theorem linkFrom_eq_ok_iff {k : Nat} {ds : List Definition} {es : List Extension} :
    m.linkFrom k ds = .ok es ↔
      es.length = ds.length ∧
        ∀ i d e, ds[i]? = some d → es[i]? = some e → m.Describes (k + i) d e := by
  induction ds generalizing k es with
  | nil => cases es <;> simp [linkFrom]
  | cons d ds ih =>
    have hstep : m.linkFrom k (d :: ds) = .ok es ↔
        ∃ e rest, es = e :: rest ∧ m.linkOne k d = .ok e ∧ m.linkFrom (k + 1) ds = .ok rest := by
      rw [linkFrom]
      cases m.linkOne k d with
      | error f => simp [bind, Except.bind]
      | ok e =>
        cases m.linkFrom (k + 1) ds with
        | error f => simp [bind, Except.bind]
        | ok rest => simp [bind, Except.bind, pure, Except.pure, eq_comm]
    rw [hstep]
    constructor
    · rintro ⟨e, rest, rfl, he, hrest⟩
      obtain ⟨hlen, hall⟩ := ih.1 hrest
      refine ⟨by simp [hlen], fun i d' e' hd he' => ?_⟩
      cases i with
      | zero =>
        cases hd
        cases he'
        exact linkOne_eq_ok_iff.1 he
      | succ i =>
        rw [show k + (i + 1) = k + 1 + i by omega]
        exact hall i d' e' (by simpa using hd) (by simpa using he')
    · rintro ⟨hlen, hall⟩
      cases es with
      | nil => simp at hlen
      | cons e rest =>
        refine ⟨e, rest, rfl, linkOne_eq_ok_iff.2 (hall 0 d e rfl rfl), ih.2 ⟨?_, ?_⟩⟩
        · simpa using hlen
        · intro i d' e' hd he'
          rw [show k + 1 + i = k + (i + 1) by omega]
          exact hall (i + 1) d' e' (by simpa using hd) (by simpa using he')

theorem exists_linkFrom_iff {k : Nat} {ds : List Definition} :
    (∃ es, m.linkFrom k ds = .ok es) ↔
      ∀ d ∈ ds, (∀ n ∈ d.dependsOn, m.Defines n) ∧ ∀ n ∈ d.exclusiveTo, m.Defines n := by
  induction ds generalizing k with
  | nil => simp [linkFrom]
  | cons d ds ih =>
    rw [List.forall_mem_cons, ← exists_describes_iff (i := k), ← ih (k := k + 1), linkFrom]
    simp only [← linkOne_eq_ok_iff]
    cases m.linkOne k d with
    | error f => simp [bind, Except.bind]
    | ok e =>
      cases m.linkFrom (k + 1) ds with
      | error f => simp [bind, Except.bind]
      | ok rest => simp [bind, Except.bind, pure, Except.pure]

/-- `new` is `old` and behind it, each of them once, the members of `others` that `old` lacks. -/
def Grows (old new : List Nat) (others : Nat → Prop) : Prop :=
  ∃ added, new = old ++ added ∧ added.Nodup ∧ ∀ a, a ∈ added ↔ others a ∧ a ∉ old

theorem Grows.mem_iff {old new : List Nat} {others : Nat → Prop} (h : Grows old new others)
    (a : Nat) : a ∈ new ↔ a ∈ old ∨ others a := by
  obtain ⟨added, rfl, -, hadded⟩ := h
  rw [List.mem_append, hadded]
  by_cases ha : a ∈ old <;> simp [ha]

theorem Grows.refl (old : List Nat) : Grows old old fun _ => False := ⟨[], by simp⟩

theorem Grows.congr {old new : List Nat} {others others' : Nat → Prop} (h : Grows old new others)
    (he : ∀ a, others a ↔ others' a) : Grows old new others' := by
  obtain ⟨added, hnew, hn, hadded⟩ := h
  exact ⟨added, hnew, hn, fun a => by rw [hadded, he]⟩

theorem Grows.trans {old mid new : List Nat} {p q : Nat → Prop} (h : Grows old mid p)
    (h' : Grows mid new q) : Grows old new fun a => p a ∨ q a := by
  have hmid := h.mem_iff
  obtain ⟨first, rfl, hn, hfirst⟩ := h
  obtain ⟨second, rfl, hn', hsecond⟩ := h'
  refine ⟨first ++ second, by rw [List.append_assoc], ?_, fun a => ?_⟩
  · refine List.nodup_append.2 ⟨hn, hn', fun a ha b hb hab => ?_⟩
    subst hab
    exact ((hsecond a).1 hb).2 (List.mem_append_right old ha)
  · rw [List.mem_append, hfirst, hsecond, hmid]
    by_cases hp : p a <;> by_cases ha : a ∈ old <;> simp [hp, ha]

theorem grows_foldl_addNew (new old : List Nat) :
    Grows old (new.foldl Catalog.addNew old) (· ∈ new) := by
  induction new generalizing old with
  | nil => exact (Grows.refl old).congr (by simp)
  | cons x new ih =>
    have hfirst : Grows old (Catalog.addNew old x) (· = x) := by
      by_cases hx : x ∈ old
      · rw [Catalog.addNew, if_pos (by simpa using hx)]
        exact ⟨[], by simp, .nil, fun a => by simp; rintro rfl; exact hx⟩
      · rw [Catalog.addNew, if_neg (by simpa using hx)]
        refine ⟨[x], rfl, List.nodup_singleton x, fun a => ?_⟩
        rw [List.mem_singleton]
        exact ⟨fun h => ⟨h, h ▸ hx⟩, fun h => h.1⟩
    rw [List.foldl_cons]
    exact (hfirst.trans (ih _)).congr fun a => List.mem_cons.symm

theorem grows_exclude (members : List Nat) (self : Nat) (e : Extension) :
    Grows e.exclusiveTo (exclude members self e).exclusiveTo
      fun a => a ∈ members ∧ a ≠ self :=
  (grows_foldl_addNew _ _).congr fun a => by simp

/-- A member that a group names twice is treated once. -/
theorem exclude_exclude (members : List Nat) (self : Nat) (e : Extension) :
    exclude members self (exclude members self e) = exclude members self e := by
  obtain ⟨added, hnew, -, hadded⟩ := grows_exclude members self (exclude members self e)
  have hnone : added = [] := by
    rw [List.eq_nil_iff_forall_not_mem]
    intro a ha
    obtain ⟨hother, hnot⟩ := (hadded a).1 ha
    exact hnot (((grows_exclude members self e).mem_iff a).2 (.inr hother))
  rw [hnone, List.append_nil] at hnew
  rw [exclude, Extension.mk.injEq]
  exact ⟨rfl, rfl, rfl, rfl, hnew⟩

theorem getElem?_foldl_exclude (members ids : List Nat) (es : List Extension) (x : Nat) :
    (ids.foldl (fun es i => es.modify i (exclude members i)) es)[x]? =
      es[x]?.map fun e => if x ∈ ids then exclude members x e else e := by
  induction ids generalizing es with
  | nil => simp
  | cons i ids ih =>
    rw [List.foldl_cons, ih, List.getElem?_modify]
    cases es[x]? with
    | none => rfl
    | some e =>
      by_cases hi : i = x
      · subst hi
        by_cases hx : i ∈ ids <;> simp [hx, exclude_exclude]
      · simp [hi, Ne.symm hi]

theorem length_group (members : List Nat) (es : List Extension) :
    (group members es).length = es.length := by
  have hfold (ids : List Nat) :
      (ids.foldl (fun es i => es.modify i (exclude members i)) es).length = es.length := by
    induction ids generalizing es with
    | nil => rfl
    | cons i ids ih => rw [List.foldl_cons, ih, List.length_modify]
  exact hfold members

/-- Some name of the group means `x`, and some name of it means `y`. -/
def Together (m : Manifest) (g : List String) (x y : Nat) : Prop :=
  x ≠ y ∧ (∃ n ∈ g, m.Means n x) ∧ ∃ n ∈ g, m.Means n y

/-- An extension that differs from `e` by what it excludes, if at all. It excludes the `others`
too. -/
def Widens (e e' : Extension) (others : Nat → Prop) : Prop :=
  e' = { e with exclusiveTo := e'.exclusiveTo } ∧ Grows e.exclusiveTo e'.exclusiveTo others

theorem widens_group {g : List String} {members : List Nat}
    (h : List.Forall₂ m.Means g members) {es : List Extension} {x : Nat} {e : Extension}
    (he : es[x]? = some e) :
    ∃ e', (group members es)[x]? = some e' ∧ Widens e e' (m.Together g x) := by
  have hmem := mem_of_forall₂_means h
  rw [group, getElem?_foldl_exclude, he]
  by_cases hx : x ∈ members
  · refine ⟨exclude members x e, by simp [hx], rfl, (grows_exclude members x e).congr fun a => ?_⟩
    simp only [Together, hmem, (hmem x).1 hx, true_and, ne_eq, and_comm, eq_comm]
  · refine ⟨e, by simp [hx], rfl, (Grows.refl e.exclusiveTo).congr fun a => ?_⟩
    rw [false_iff]
    rintro ⟨-, hself, -⟩
    exact hx ((hmem x).2 hself)

theorem linkGroups_cons_eq_ok_iff {g : List String} {gs : List (List String)}
    {es es' : List Extension} :
    m.linkGroups es (g :: gs) = .ok es' ↔
      ∃ members, List.Forall₂ m.Means g members ∧ m.linkGroups (group members es) gs = .ok es' := by
  simp only [← mapM_resolve_eq_ok_iff id, id]
  rw [linkGroups]
  cases g.mapM fun n => m.resolve n n with
  | error f => simp [bind, Except.bind]
  | ok members => simp [bind, Except.bind]

theorem widens_linkGroups {gs : List (List String)} {es es' : List Extension}
    (h : m.linkGroups es gs = .ok es') :
    es'.length = es.length ∧ ∀ x e, es[x]? = some e →
      ∃ e', es'[x]? = some e' ∧ Widens e e' fun y => ∃ g ∈ gs, m.Together g x y := by
  induction gs generalizing es with
  | nil =>
    cases h
    exact ⟨rfl, fun x e he => ⟨e, he, rfl, (Grows.refl _).congr (by simp)⟩⟩
  | cons g gs ih =>
    obtain ⟨members, hmembers, hrest⟩ := linkGroups_cons_eq_ok_iff.1 h
    obtain ⟨hlen, hall⟩ := ih hrest
    refine ⟨hlen.trans (length_group members es), fun x e he => ?_⟩
    obtain ⟨e₁, he₁, hsame, hgrows⟩ := widens_group hmembers he
    obtain ⟨e', he', hsame', hgrows'⟩ := hall x e₁ he₁
    refine ⟨e', he', ?_, (hgrows.trans hgrows').congr fun y => ?_⟩
    · rw [hsame', hsame]
    · simp only [List.mem_cons, exists_eq_or_imp]

theorem exists_linkGroups_iff {gs : List (List String)} (es : List Extension) :
    (∃ es', m.linkGroups es gs = .ok es') ↔ ∀ g ∈ gs, ∀ n ∈ g, m.Defines n := by
  induction gs generalizing es with
  | nil => simp [linkGroups]
  | cons g gs ih =>
    rw [List.forall_mem_cons, ← exists_forall₂_means_iff]
    simp only [linkGroups_cons_eq_ok_iff]
    constructor
    · rintro ⟨es', members, hmembers, hrest⟩
      exact ⟨⟨members, hmembers⟩, (ih _).1 ⟨es', hrest⟩⟩
    · rintro ⟨⟨members, hmembers⟩, hgs⟩
      obtain ⟨es', hrest⟩ := (ih _).2 hgs
      exact ⟨es', members, hmembers, hrest⟩

/-- The extension that a definition at position `i` has become when every group is linked. -/
structure Becomes (m : Manifest) (i : Nat) (d : Definition) (e : Extension) : Prop where
  index : e.index = i
  name : e.name = d.name
  category : e.category = d.category
  dependsOn : List.Forall₂ m.Means d.dependsOn e.dependsOn
  exclusiveTo : ∃ declared, List.Forall₂ m.Means d.exclusiveTo declared ∧
    Grows declared e.exclusiveTo fun y => ∃ g ∈ m.groups, m.Together g i y

theorem Describes.becomes {i : Nat} {d : Definition} {e e' : Extension} (h : m.Describes i d e)
    (hw : Widens e e' fun y => ∃ g ∈ m.groups, m.Together g i y) : m.Becomes i d e' := by
  obtain ⟨hsame, hgrows⟩ := hw
  rw [hsame]
  exact ⟨h.index, h.name, h.category, h.dependsOn, e.exclusiveTo, h.exclusiveTo, hgrows⟩

theorem link_eq_ok_iff {c : Catalog} :
    m.link = .ok c ↔ ∃ es, m.linkFrom 0 m.definitions = .ok es ∧
      m.linkGroups es m.groups = .ok c.extensions := by
  obtain ⟨extensions⟩ := c
  rw [link]
  cases m.linkFrom 0 m.definitions with
  | error f => simp [bind, Except.bind]
  | ok es =>
    cases h : m.linkGroups es m.groups with
    | error f => simp [bind, Except.bind, h]
    | ok es' => simp [bind, Except.bind, pure, Except.pure, h]

theorem exists_link_iff : (∃ c, m.link = .ok c) ↔ m.Closed := by
  constructor
  · rintro ⟨c, hc⟩
    obtain ⟨es, hes, hgroups⟩ := link_eq_ok_iff.1 hc
    have hdefs := exists_linkFrom_iff.1 ⟨es, hes⟩
    exact ⟨fun d hd => (hdefs d hd).1, fun d hd => (hdefs d hd).2,
      (exists_linkGroups_iff es).1 ⟨_, hgroups⟩⟩
  · intro h
    obtain ⟨es, hes⟩ := (exists_linkFrom_iff (m := m) (k := 0)).2
      fun d hd => ⟨h.dependencies d hd, h.exclusions d hd⟩
    obtain ⟨es', hes'⟩ := (exists_linkGroups_iff es).2 h.groups
    exact ⟨⟨es'⟩, link_eq_ok_iff.2 ⟨es, hes, hes'⟩⟩

theorem becomes_of_link {c : Catalog} (h : m.link = .ok c) :
    c.size = m.definitions.length ∧
      ∀ i d, m.definitions[i]? = some d → ∃ e, c.get? i = some e ∧ m.Becomes i d e := by
  obtain ⟨es, hes, hgroups⟩ := link_eq_ok_iff.1 h
  obtain ⟨hlen, hall⟩ := linkFrom_eq_ok_iff.1 hes
  obtain ⟨hlen', hwiden⟩ := widens_linkGroups hgroups
  refine ⟨hlen'.trans hlen, fun i d hd => ?_⟩
  have hlt : i < es.length := hlen ▸ (List.getElem?_eq_some_iff.1 hd).1
  have he := List.getElem?_eq_getElem hlt
  obtain ⟨e', he', hw⟩ := hwiden i _ he
  have hdesc := hall i d _ hd he
  rw [Nat.zero_add] at hdesc
  exact ⟨e', he', hdesc.becomes hw⟩

/-- Every extension of a linked catalog comes from the definition at its position. -/
theorem exists_definition {c : Catalog} (h : m.link = .ok c) {i : Nat} {e : Extension}
    (he : c.get? i = some e) : ∃ d, m.definitions[i]? = some d ∧ m.Becomes i d e := by
  obtain ⟨hsize, hall⟩ := becomes_of_link h
  have hlt : i < m.definitions.length := hsize ▸ Catalog.lt_size_of_get? he
  have hd := List.getElem?_eq_getElem hlt
  obtain ⟨e', he', hb⟩ := hall i _ hd
  rw [he] at he'
  cases he'
  exact ⟨_, hd, hb⟩

theorem Means.lt_size {c : Catalog} (h : m.link = .ok c) {name : String} {i : Nat}
    (hi : m.Means name i) : i < c.size := by
  obtain ⟨⟨d, hd, -⟩, -⟩ := hi
  rw [(becomes_of_link h).1]
  exact (List.getElem?_eq_some_iff.1 hd).1

/-- A catalog finds names where its manifest does, since it holds the names in the same order. -/
theorem means_iff_find? {c : Catalog} (h : m.link = .ok c) (name : String) (i : Nat) :
    m.Means name i ↔ ∃ e, c.find? name = some e ∧ c.get? i = some e := by
  have hfind : ∀ j e, m.Means name j → c.get? j = some e → c.find? name = some e := by
    intro j e hj he
    obtain ⟨⟨d, hd, hdk⟩, hfirst⟩ := hj
    obtain ⟨d', hd', hb⟩ := exists_definition h he
    rw [hd] at hd'
    cases hd'
    obtain ⟨hlt, hget⟩ := List.getElem?_eq_some_iff.1 he
    rw [Catalog.find?_eq]
    refine List.find?_eq_some_iff_getElem.2 ⟨by rw [hb.name, hdk, beq_self_eq_true], j, hlt, hget, ?_⟩
    intro k hk
    have hkget : c.get? k = some c.extensions[k] := List.getElem?_eq_getElem (by omega)
    obtain ⟨d', hd', hb'⟩ := exists_definition h hkget
    rw [hb'.name, Bool.not_eq_true', beq_eq_false_iff_ne]
    exact hfirst k hk d' hd'
  constructor
  · intro hi
    have he := List.getElem?_eq_getElem (hi.lt_size h)
    exact ⟨_, hfind i _ hi he, he⟩
  · rintro ⟨e, hf, he⟩
    have hkey : nameKey e.name = nameKey name := by
      rw [Catalog.find?_eq] at hf
      simpa using List.find?_some hf
    obtain ⟨d, hd, hb⟩ := exists_definition h he
    obtain ⟨j, hj⟩ := exists_means_iff.2 ⟨d, List.mem_of_getElem? hd, hb.name ▸ hkey⟩
    have hj' := List.getElem?_eq_getElem (hj.lt_size h)
    have hsame := hfind j _ hj hj'
    rw [hf] at hsame
    cases hsame
    obtain ⟨d', -, hb'⟩ := exists_definition h hj'
    rwa [← hb.index, hb'.index]

theorem excludes_iff {c : Catalog} (h : m.link = .ok c) (x y : Nat) :
    c.Excludes x y ↔
      (∃ d, m.definitions[x]? = some d ∧ ∃ n ∈ d.exclusiveTo, m.Means n y) ∨
        ∃ g ∈ m.groups, m.Together g x y := by
  constructor
  · rintro ⟨e, he, hy⟩
    obtain ⟨d, hd, hb⟩ := exists_definition h he
    obtain ⟨declared, hdeclared, hgrows⟩ := hb.exclusiveTo
    rcases (hgrows.mem_iff y).1 hy with hy | hy
    · exact .inl ⟨d, hd, (mem_of_forall₂_means hdeclared y).1 hy⟩
    · exact .inr hy
  · intro hxy
    have hx : ∃ d, m.definitions[x]? = some d := by
      rcases hxy with ⟨d, hd, -⟩ | ⟨g, -, -, ⟨n, -, ⟨d, hd, -⟩, -⟩, -⟩
      · exact ⟨d, hd⟩
      · exact ⟨d, hd⟩
    obtain ⟨d, hd⟩ := hx
    obtain ⟨e, he, hb⟩ := (becomes_of_link h).2 x d hd
    obtain ⟨declared, hdeclared, hgrows⟩ := hb.exclusiveTo
    refine ⟨e, he, (hgrows.mem_iff y).2 ?_⟩
    rcases hxy with ⟨d', hd', hy⟩ | hy
    · rw [hd] at hd'
      cases hd'
      exact .inl ((mem_of_forall₂_means hdeclared y).2 hy)
    · exact .inr hy

theorem referencesFault?_eq_none_of_link {c : Catalog} (h : m.link = .ok c) :
    c.referencesFault? = none := by
  refine List.findSome?_eq_none_iff.2 fun e he => Catalog.undefinedReference?_eq_none.2 ?_
  obtain ⟨i, hi⟩ := List.mem_iff_getElem?.1 he
  obtain ⟨d, -, hb⟩ := exists_definition h hi
  constructor
  · intro b hbm
    obtain ⟨n, -, hn⟩ := (mem_of_forall₂_means hb.dependsOn b).1 hbm
    exact hn.lt_size h
  · intro b hbm
    rcases (excludes_iff h i b).1 ⟨e, hi, hbm⟩ with ⟨d, -, n, -, hn⟩ | ⟨g, -, -, -, n, -, hn⟩
    · exact hn.lt_size h
    · exact hn.lt_size h

theorem indexesFault?_eq_none_of_link {c : Catalog} (h : m.link = .ok c) :
    c.indexesFault? = none := by
  refine Catalog.indexMismatch?_eq_none.2 fun i e he => ?_
  obtain ⟨d, -, hb⟩ := exists_definition h he
  rw [Nat.zero_add, hb.index]

/-- What the catalog of a manifest holds. -/
structure Linked (m : Manifest) (c : Catalog) : Prop where
  size : c.size = m.definitions.length
  /-- The extension at a position is that of the definition there, and each of its dependencies is
  the position that the name in its place means. -/
  described : ∀ i d, m.definitions[i]? = some d → ∃ e, c.get? i = some e ∧ e.index = i ∧
    e.name = d.name ∧ e.category = d.category ∧ List.Forall₂ m.Means d.dependsOn e.dependsOn
  /-- An extension excludes what its definition names and what some group holds with it. -/
  excludes : ∀ x y, c.Excludes x y ↔
    (∃ d, m.definitions[x]? = some d ∧ ∃ n ∈ d.exclusiveTo, m.Means n y) ∨
      ∃ g ∈ m.groups, m.Together g x y
  /-- What groups add comes behind what the definition names. None of it was there before, none of
  it comes twice, and no extension is made to exclude itself. -/
  added : ∀ i d e, m.definitions[i]? = some d → c.get? i = some e →
    ∃ declared added, List.Forall₂ m.Means d.exclusiveTo declared ∧
      e.exclusiveTo = declared ++ added ∧ added.Nodup ∧ i ∉ added ∧ ∀ a ∈ added, a ∉ declared
  /-- The catalog finds a name at the position that the name means. -/
  found : ∀ name i, m.Means name i ↔ ∃ e, c.find? name = some e ∧ c.get? i = some e
  references : c.referencesFault? = none
  indexes : c.indexesFault? = none

theorem linked_of_link {c : Catalog} (h : m.link = .ok c) : m.Linked c where
  size := (becomes_of_link h).1
  described i d hd := by
    obtain ⟨e, he, hb⟩ := (becomes_of_link h).2 i d hd
    exact ⟨e, he, hb.index, hb.name, hb.category, hb.dependsOn⟩
  excludes := excludes_iff h
  added i d e hd he := by
    obtain ⟨d', hd', hb⟩ := exists_definition h he
    rw [hd] at hd'
    cases hd'
    obtain ⟨declared, hdeclared, added, hnew, hn, hadded⟩ := hb.exclusiveTo
    refine ⟨declared, added, hdeclared, hnew, hn, fun hi => ?_, fun a ha => ((hadded a).1 ha).2⟩
    obtain ⟨⟨g, -, hne, -⟩, -⟩ := (hadded i).1 hi
    exact hne rfl
  found := means_iff_find? h
  references := referencesFault?_eq_none_of_link h
  indexes := indexesFault?_eq_none_of_link h

/-- A manifest is linked iff every name in it is defined, and then its catalog holds what its
definitions and its groups say. -/
theorem link_exact (m : Manifest) :
    ((∃ c, m.link = .ok c) ↔ m.Closed) ∧ ∀ c, m.link = .ok c → m.Linked c :=
  ⟨exists_link_iff, fun _ => linked_of_link⟩

/-- Two definitions of one name, and two groups that overlap and repeat a member. -/
theorem link_exact_overlapping_groups :
    let m : Manifest := ⟨[⟨"A", .library, ["c", "B"], ["b"]⟩, ⟨"B", .library, [], []⟩,
      ⟨"b", .linter, [], []⟩, ⟨"C", .library, [], []⟩], [["a", "B", "A"], ["C", "b", "a"]]⟩
    let c : Catalog := ⟨[⟨0, "A", .library, [3, 1], [1, 3]⟩, ⟨1, "B", .library, [], [0, 3]⟩,
      ⟨2, "b", .linter, [], []⟩, ⟨3, "C", .library, [], [1, 0]⟩]⟩
    m.link = .ok c ∧ m.Closed ∧ m.Linked c := by
  intro m c
  have h : m.link = .ok c := by decide +kernel
  exact ⟨h, (link_exact m).1.1 ⟨c, h⟩, (link_exact m).2 c h⟩

end Manifest

end ProjectSetup
