import Mathlib.Data.Set.Card
import ProjectSetup.Proofs.Catalog.Reachability

/-!
# How often a dependency is found

The search finds an extension once for each trail that leads to it: a sequence of entries of lists
of dependencies in which no extension is left twice. An extension that names another one twice has
two entries for it. The search needs no more calls inside each other than there are extensions, and
one more for a reference that leads out of the catalog.
-/
namespace ProjectSetup.Catalog

/-- An entry of a list of dependencies: whose list it is, and the place in it. -/
structure Entry where
  source : Nat
  place : Nat
  deriving DecidableEq, Repr

/-- The id that stands at an entry. -/
def target? (c : Catalog) (x : Entry) : Option Nat :=
  (c.get? x.source).bind (·.dependsOn[x.place]?)

/-- The entries lead from `a` to `b`, each from where the one before has led. -/
inductive Leads (c : Catalog) : Nat → List Entry → Nat → Prop
  | last {x : Entry} {b : Nat} : c.target? x = some b → Leads c x.source [x] b
  | step {x : Entry} {d b : Nat} {xs : List Entry} :
      c.target? x = some d → Leads c d xs b → Leads c x.source (x :: xs) b

variable {c : Catalog} {path : List Nat} {id a b : Nat} {xs : List Entry}

theorem leads_cons_iff {x : Entry} : c.Leads a (x :: xs) b ↔
    a = x.source ∧ ∃ d, c.target? x = some d ∧ (xs = [] ∧ d = b ∨ c.Leads d xs b) := by
  constructor
  · intro h
    cases h with
    | last hx => exact ⟨rfl, b, hx, .inl ⟨rfl, rfl⟩⟩
    | step hx hxs => exact ⟨rfl, _, hx, .inr hxs⟩
  · rintro ⟨rfl, d, hx, ⟨rfl, rfl⟩ | hxs⟩
    · exact .last hx
    · exact .step hx hxs

theorem not_leads_nil : ¬ c.Leads a [] b := by
  intro h
  cases h

/-- No extension is left twice, and none that is on the path is left at all. -/
structure Avoids (path : List Nat) (xs : List Entry) : Prop where
  nodup : (xs.map Entry.source).Nodup
  off : ∀ x ∈ xs, x.source ∉ path

theorem avoids_nil (path : List Nat) : Avoids path [] := ⟨List.nodup_nil, by simp⟩

theorem avoids_cons_iff {x : Entry} :
    Avoids path (x :: xs) ↔ x.source ∉ path ∧ Avoids (x.source :: path) xs := by
  constructor
  · intro h
    obtain ⟨hx, hxs⟩ := List.nodup_cons.1 h.nodup
    refine ⟨h.off x List.mem_cons_self, hxs, fun y hy hmem => ?_⟩
    rcases List.mem_cons.1 hmem with he | hmem
    · exact hx (he ▸ List.mem_map_of_mem hy)
    · exact h.off y (List.mem_cons_of_mem x hy) hmem
  · rintro ⟨hx, hxs⟩
    refine ⟨List.nodup_cons.2 ⟨fun hmem => ?_, hxs.nodup⟩, fun y hy hmem => ?_⟩
    · obtain ⟨y, hy, he⟩ := List.mem_map.1 hmem
      exact hxs.off y hy (he ▸ List.mem_cons_self)
    · rcases List.mem_cons.1 hy with rfl | hy
      · exact hx hmem
      · exact hxs.off y hy (List.mem_cons_of_mem _ hmem)

/-- The trails that the search takes from `id` on, each with its end. -/
def trailsFrom (c : Catalog) (path : List Nat) (id : Nat) : List (List Entry × Nat) :=
  if _hp : id ∈ path then []
  else match _he : c.get? id with
    | none => []
    | some e => e.dependsOn.zipIdx.flatMap fun (d, place) =>
        ([⟨id, place⟩], d) ::
          (c.trailsFrom (id :: path) d).map fun (xs, b) => (⟨id, place⟩ :: xs, b)
termination_by c.unvisited path
decreasing_by exact unvisited_lt _hp (lt_size_of_get? _he)

theorem trailsFrom_of_mem (hp : id ∈ path) : c.trailsFrom path id = [] := by
  rw [trailsFrom, dif_pos hp]

theorem trailsFrom_of_none (path : List Nat) (he : c.get? id = none) :
    c.trailsFrom path id = [] := by
  rw [trailsFrom]
  split
  · rfl
  · split
    · rfl
    · next e he' => rw [he] at he'; cases he'

theorem trailsFrom_of_get? {e : Extension} (hp : id ∉ path) (he : c.get? id = some e) :
    c.trailsFrom path id = e.dependsOn.zipIdx.flatMap fun (d, place) =>
      ([⟨id, place⟩], d) ::
        (c.trailsFrom (id :: path) d).map fun (xs, b) => (⟨id, place⟩ :: xs, b) := by
  rw [trailsFrom, dif_neg hp]
  split
  · next he' => rw [he] at he'; cases he'
  · next e' he' =>
    rw [he] at he'
    cases he'
    rfl

/-- What the search finds is the ends of its trails. -/
theorem map_snd_trailsFrom (c : Catalog) (path : List Nat) (id : Nat) :
    (c.trailsFrom path id).map Prod.snd = c.deepFrom path id := by
  induction path, id using deepFrom.induct c with
  | case1 path id hp => rw [trailsFrom_of_mem hp, deepFrom_of_mem hp, List.map_nil]
  | case2 path id hp he => rw [trailsFrom_of_none path he, deepFrom_of_none path he, List.map_nil]
  | case3 path id hp e he ih =>
    rw [trailsFrom_of_get? hp he, deepFrom_of_get? hp he, List.map_flatMap]
    conv_rhs => rw [← List.zipIdx_map_fst 0 e.dependsOn, List.flatMap_map]
    refine List.flatMap_congr fun x _ => ?_
    obtain ⟨d, place⟩ := x
    rw [List.map_cons, List.map_map, ← ih d]
    rfl

/-- The search takes exactly the trails that leave no extension twice. -/
theorem mem_trailsFrom (c : Catalog) (path : List Nat) (id : Nat) (xs : List Entry) (b : Nat) :
    (xs, b) ∈ c.trailsFrom path id ↔ c.Leads id xs b ∧ Avoids path xs := by
  induction path, id using deepFrom.induct c generalizing xs b with
  | case1 path id hp =>
    rw [trailsFrom_of_mem hp]
    refine iff_of_false List.not_mem_nil ?_
    rintro ⟨hlead, havoid⟩
    cases xs with
    | nil => exact not_leads_nil hlead
    | cons x xs => exact havoid.off x List.mem_cons_self ((leads_cons_iff.1 hlead).1 ▸ hp)
  | case2 path id hp he =>
    rw [trailsFrom_of_none path he]
    refine iff_of_false List.not_mem_nil ?_
    rintro ⟨hlead, -⟩
    cases xs with
    | nil => exact not_leads_nil hlead
    | cons x xs =>
      obtain ⟨rfl, d, hx, -⟩ := leads_cons_iff.1 hlead
      rw [target?, he] at hx
      cases hx
  | case3 path id hp e he ih =>
    have htarget (x : Entry) (hx : id = x.source) (d : Nat) :
        c.target? x = some d ↔ e.dependsOn[x.place]? = some d := by
      rw [target?, ← hx, he, Option.bind_some]
    simp only [trailsFrom_of_get? hp he, List.mem_flatMap, Prod.exists, List.mem_zipIdx_iff_getElem?,
      List.mem_cons, List.mem_map, Prod.mk.injEq, ih]
    constructor
    · rintro ⟨d, place, hd, ⟨rfl, rfl⟩ | ⟨ys, b, ⟨hlead, havoid⟩, rfl, rfl⟩⟩
      · exact ⟨.last (x := ⟨id, place⟩) ((htarget _ rfl _).2 hd),
          avoids_cons_iff.2 ⟨hp, avoids_nil _⟩⟩
      · exact ⟨.step (x := ⟨id, place⟩) ((htarget _ rfl _).2 hd) hlead,
          avoids_cons_iff.2 ⟨hp, havoid⟩⟩
    · rintro ⟨hlead, havoid⟩
      cases xs with
      | nil => exact absurd hlead not_leads_nil
      | cons x xs =>
        obtain ⟨rfl, d, hx, hrest⟩ := leads_cons_iff.1 hlead
        refine ⟨d, x.place, (htarget x rfl d).1 hx, ?_⟩
        rcases hrest with ⟨rfl, rfl⟩ | hrest
        · exact .inl ⟨rfl, rfl⟩
        · exact .inr ⟨xs, b, ⟨hrest, (avoids_cons_iff.1 havoid).2⟩, rfl, rfl⟩

/-- The search takes no trail twice: trails over different entries differ in the first of them. -/
theorem nodup_trailsFrom (c : Catalog) (path : List Nat) (id : Nat) :
    (c.trailsFrom path id).Nodup := by
  induction path, id using deepFrom.induct c with
  | case1 path id hp => rw [trailsFrom_of_mem hp]; exact List.nodup_nil
  | case2 path id hp he => rw [trailsFrom_of_none path he]; exact List.nodup_nil
  | case3 path id hp e he ih =>
    rw [trailsFrom_of_get? hp he, List.nodup_flatMap]
    constructor
    · rintro ⟨d, place⟩ -
      refine List.nodup_cons.2 ⟨?_, (ih d).map ?_⟩
      · -- a longer trail is never empty behind its first entry
        simp only [List.mem_map, Prod.exists, Prod.mk.injEq, List.cons.injEq, not_exists, not_and]
        rintro xs b hmem ⟨-, rfl⟩
        exact absurd ((mem_trailsFrom ..).1 hmem).1 not_leads_nil
      · rintro ⟨xs, b⟩ ⟨ys, b'⟩ h
        simpa using h
    · have hplaces : e.dependsOn.zipIdx.Pairwise fun p q => p.2 ≠ q.2 := by
        rw [← List.pairwise_map, List.zipIdx_map_snd]
        exact List.nodup_range'
      refine hplaces.imp fun {p q} hne => ?_
      rw [Function.onFun, List.disjoint_left]
      have hfirst {d place : Nat} {t : List Entry × Nat} (ht : t ∈ (([⟨id, place⟩], d) ::
          (c.trailsFrom (id :: path) d).map fun (xs, b) => (⟨id, place⟩ :: xs, b))) :
          t.1.head? = some ⟨id, place⟩ := by
        rcases List.mem_cons.1 ht with rfl | ht
        · rfl
        · obtain ⟨s, -, rfl⟩ := List.mem_map.1 ht
          rfl
      intro t hp' hq'
      have hsame := (hfirst hp').symm.trans (hfirst hq')
      exact hne (congrArg Entry.place (Option.some.inj hsame))

/-- An extension is found once for each trail to it. -/
theorem encard_trails (c : Catalog) (path : List Nat) (id b : Nat) :
    {xs | c.Leads id xs b ∧ Avoids path xs}.encard = (c.deepFrom path id).count b := by
  let found := (c.trailsFrom path id).filter (·.2 = b)
  have hends : ∀ t ∈ found, t.2 = b := fun t ht => by simpa using (List.mem_filter.1 ht).2
  have hnodup : (found.map Prod.fst).Nodup :=
    ((nodup_trailsFrom c path id).filter _).map_on fun s hs t ht he =>
      Prod.ext he ((hends s hs).trans (hends t ht).symm)
  have hset : {xs | c.Leads id xs b ∧ Avoids path xs} = ((found.map Prod.fst).toFinset : Set _) := by
    ext xs
    simp [found, ← mem_trailsFrom]
  rw [hset, Set.encard_coe_eq_coe_finsetCard, List.toFinset_card_of_nodup hnodup, List.length_map,
    ← map_snd_trailsFrom, List.count, List.countP_map, List.countP_eq_length_filter]
  rfl

/-- The search with at most `depth` calls inside each other, and nothing if it has to go deeper. -/
def search? (c : Catalog) : Nat → List Nat → Nat → Option (List Nat)
  | 0, _, _ => none
  | depth + 1, path, id =>
    match c.get? id with
    | none => some []
    | some e =>
      (e.dependsOn.mapM fun d =>
        if d ∈ id :: path then some [d]
        else (c.search? depth (id :: path) d).map (d :: ·)).map List.flatten

/-- The search gets by with one call more than there are extensions off the path. -/
theorem search?_eq {depth : Nat} (hp : id ∉ path) (hdepth : c.unvisited path < depth) :
    c.search? depth path id = some (c.deepFrom path id) := by
  induction depth generalizing path id with
  | zero => exact absurd hdepth (Nat.not_lt_zero _)
  | succ depth ih =>
    cases he : c.get? id with
    | none => simp [search?, he, deepFrom_of_none path he]
    | some e =>
      have hentry (d : Nat) : (if d ∈ id :: path then some [d]
          else (c.search? depth (id :: path) d).map (d :: ·)) =
            some (d :: c.deepFrom (id :: path) d) := by
        split
        · next hd => rw [deepFrom_of_mem hd]
        · next hd =>
          have hless := unvisited_lt hp (lt_size_of_get? he)
          rw [ih hd (by omega), Option.map_some]
      have hall := List.mapM_pure (m := Option) (l := e.dependsOn)
        (f := fun d => d :: c.deepFrom (id :: path) d)
      simp only [search?, he, hentry, deepFrom_of_get? hp he]
      rw [List.flatMap_def]
      exact congrArg (Option.map List.flatten) hall

/-- The search ends on every catalog, with no more calls inside each other than there are extensions
and one, and it finds an extension as often as there are trails to it. -/
theorem count_deepDependencies (c : Catalog) (id : Nat) :
    c.search? (c.size + 1) [] id = some (c.deepDependencies id) ∧
      ∀ b, {xs | c.Leads id xs b ∧ (xs.map Entry.source).Nodup}.encard =
        (c.deepDependencies id).count b := by
  have hunvisited : c.unvisited [] = c.size := by
    simp [unvisited, ids]
  refine ⟨search?_eq List.not_mem_nil (by omega), fun b => ?_⟩
  rw [deepDependencies, ← encard_trails]
  congr 1
  ext xs
  exact and_congr_right fun _ => ⟨fun h => ⟨h, by simp⟩, Avoids.nodup⟩

end ProjectSetup.Catalog
