import ProjectSetup.Proofs.Catalog.Lookup
import ProjectSetup.Proofs.Project.Effects
import ProjectSetup.Proofs.Recipe.Application

/-!
# Reports

A run that succeeds has left behind every file that its report lists, and has changed nothing
elsewhere but the files that it moved away. That takes recipes that go together: what one of them
leaves behind, no other moves away, and only the recipe of TypeScript moves scripts, which are then
looked for under their new names by all.
-/
namespace ProjectSetup

open ProjectSetup.Path (Plain)

namespace Edit

instance (e : Edit) : Decidable e.Proper :=
  decidable_of_iff (Plain e.target ∧ ∀ source ∈ e.source?, Plain source)
    ⟨fun h => ⟨h.1, h.2⟩, fun h => ⟨h.1, h.2⟩⟩

instance (e : Edit) (path : String) : Decidable (e.Spares path) :=
  inferInstanceAs (Decidable ((∀ source ∈ e.source?,
    Tree.below (Path.names source) (Path.names path) = false) ∧ _))

end Edit

namespace Setting

/-- The settings that there are. -/
def all : List Setting :=
  [true, false].flatMap fun typeScript =>
    [none, some .react, some .angular].map fun framework => { typeScript, framework }

theorem mem_all (s : Setting) : s ∈ all := by
  obtain ⟨typeScript, framework⟩ := s
  cases typeScript <;> rcases framework with - | (- | -) <;> decide

instance (p : Setting → Prop) [DecidablePred p] : Decidable (∀ s, p s) :=
  decidable_of_iff (∀ s ∈ all, p s) ⟨fun h s => h s s.mem_all, fun h s _ => h s⟩

end Setting

namespace Application

variable {dir : String} {o : StyleOverrides} {t t' : Tree} {es : List (String × Edit)}

/-- Edits that can follow each other in any order: none of them undoes what another one leaves. -/
structure Orderly (es : List (String × Edit)) : Prop where
  proper : ∀ x ∈ es, x.2.Proper
  spares : ∀ x ∈ es, ∀ y ∈ es, x.2.Spares y.2.target

instance (es : List (String × Edit)) : Decidable (Orderly es) :=
  decidable_of_iff ((∀ x ∈ es, x.2.Proper) ∧ ∀ x ∈ es, ∀ y ∈ es, x.2.Spares y.2.target)
    ⟨fun h => ⟨h.1, h.2⟩, fun h => ⟨h.1, h.2⟩⟩

theorem Orderly.tail {x : String × Edit} (h : Orderly (x :: es)) : Orderly es :=
  ⟨fun y hy => h.proper y (List.mem_cons_of_mem x hy),
    fun y hy z hz => h.spares y (List.mem_cons_of_mem x hy) z (List.mem_cons_of_mem x hz)⟩

/-- Only the files that edits move away and leave behind matter. -/
theorem Orderly.of_footprints {es₀ : List (String × Edit)} (h : Orderly es₀)
    (hsub : ∀ x ∈ es, ∃ y ∈ es₀, y.2.source? = x.2.source? ∧ y.2.target = x.2.target) :
    Orderly es := by
  constructor
  · intro x hx
    obtain ⟨y, hy, hsource, htarget⟩ := hsub x hx
    have hproper := h.proper y hy
    exact ⟨htarget ▸ hproper.target, hsource ▸ hproper.source⟩
  · intro x hx x' hx'
    obtain ⟨y, hy, hsource, htarget⟩ := hsub x hx
    obtain ⟨y', hy', -, htarget'⟩ := hsub x' hx'
    have hspares := h.spares y hy y' hy'
    rw [htarget', Edit.Spares, hsource, htarget] at hspares
    exact hspares

theorem of_doEdits_cons {name : String} {e : Edit}
    (h : doEdits dir o ((name, e) :: es) t = (.ok (), t')) :
    ∃ t₁, e.apply dir o t = (.ok (), t₁) ∧ doEdits dir o es t₁ = (.ok (), t') := by
  obtain ⟨_, t₁, hfirst, hrest⟩ := Action.of_bind h
  exact ⟨t₁, Action.of_within hfirst, hrest⟩

theorem Orderly.done {name : String} {e : Edit} (h : Orderly ((name, e) :: es))
    (happly : e.apply dir o t = (.ok (), t')) : e.Done dir t t' := by
  have hmem : (name, e) ∈ (name, e) :: es := List.mem_cons_self
  exact Edit.done_of_apply (h.proper _ hmem) (h.spares (name, e) hmem (name, e) hmem) happly

theorem file?_doEdits (hrun : doEdits dir o es t = (.ok (), t')) {p : Place}
    (hp : ∀ x ∈ es, ¬ x.2.Reaches dir p) : t'.file? p = t.file? p := by
  induction es generalizing t with
  | nil =>
    cases hrun
    rfl
  | cons x es ih =>
    obtain ⟨name, e⟩ := x
    obtain ⟨t₁, hfirst, hrest⟩ := of_doEdits_cons hrun
    rw [ih hrest fun y hy => hp y (List.mem_cons_of_mem _ hy),
      (Edit.effect_of_apply hfirst).file?_other (hp (name, e) List.mem_cons_self)]

theorem stands_doEdits (h : Orderly es) (hrun : doEdits dir o es t = (.ok (), t'))
    {path : String} (hplain : Plain path) (hspares : ∀ x ∈ es, x.2.Spares path)
    (hstands : t.Stands dir path) : t'.Stands dir path := by
  induction es generalizing t with
  | nil =>
    cases hrun
    exact hstands
  | cons x es ih =>
    obtain ⟨name, e⟩ := x
    obtain ⟨t₁, hfirst, hrest⟩ := of_doEdits_cons hrun
    refine ih h.tail hrest (fun y hy => hspares y (List.mem_cons_of_mem _ hy)) ?_
    exact (h.done hfirst).keeps (h.proper _ List.mem_cons_self) (hspares _ List.mem_cons_self)
      hplain hstands

/-- What each edit leaves behind stands at the end of the run. -/
theorem target_stands_doEdits (h : Orderly es) (hrun : doEdits dir o es t = (.ok (), t')) :
    ∀ x ∈ es, t'.Stands dir x.2.target := by
  induction es generalizing t with
  | nil => simp
  | cons x es ih =>
    obtain ⟨name, e⟩ := x
    obtain ⟨t₁, hfirst, hrest⟩ := of_doEdits_cons hrun
    intro y hy
    rcases List.mem_cons.1 hy with rfl | hy
    · exact stands_doEdits h.tail hrest (h.proper _ List.mem_cons_self).target
        (fun z hz => h.spares z (List.mem_cons_of_mem _ hz) _ List.mem_cons_self)
        (h.done hfirst).stands
    · exact ih h.tail hrest y hy

/-- The project can be entered after a run that ends by writing. -/
theorem enters_doEdits (h : Orderly es) (hrun : doEdits dir o es t = (.ok (), t')) (hne : es ≠ [])
    (hlast : ∀ x ∈ es.getLast?, x.2.source? = none) : t'.Enters dir := by
  induction es generalizing t with
  | nil => exact absurd rfl hne
  | cons x es ih =>
    obtain ⟨name, e⟩ := x
    obtain ⟨t₁, hfirst, hrest⟩ := of_doEdits_cons hrun
    by_cases hes : es = []
    · subst hes
      cases hrest
      exact (h.done hfirst).enters (hlast _ rfl)
    · exact ih h.tail hrest hes fun y hy => hlast y (by
        rwa [List.getLast?_cons_of_ne_nil hes])

/-- What the edits of a recipe move away and leave behind. -/
def footprint (r : Recipe) : List (Option String × String) :=
  r.edits.map fun e => (e.source?, e.target)

/-- The style of a run has no say in which files its recipes change. -/
theorem footprint_table (s : Setting) (o : StyleOverrides) :
    (Recipe.table s o).map (fun x => (x.1, footprint x.2)) =
      (Recipe.table s {}).map fun x => (x.1, footprint x.2) := rfl

/-- The recipes that can run together in a setting. That of TypeScript is none of them where
scripts are written in JavaScript. -/
def companions (s : Setting) : List (String × Recipe) :=
  (Recipe.table s {}).filter fun x => x.1 != Builtin.typeScript || s.typeScript

theorem orderly_companions (s : Setting) : Orderly (editsOf (companions s)) := by
  -- one setting after another, which takes less memory than all at once
  rcases s with ⟨_ | _, _ | _ | _⟩ <;> decide +kernel

/-- Every recipe ends by writing a file, or has no edits at all. -/
theorem last_companions :
    ∀ s, ∀ x ∈ companions s, ∀ p ∈ (footprint x.2).getLast?, p.1 = none := by decide +kernel

theorem selected_of_get? {c : Catalog} (h : c.WellFormed) {ids : List Nat} {id : Nat}
    {e : Extension} (he : c.get? id = some e) (hid : id ∈ ids) :
    Setting.selected c ids e.name = true := by
  have hfind : c.find? e.name = some e :=
    Catalog.find?_name h.namesFault? (List.mem_of_getElem? he)
  simp [Setting.selected, hfind, h.placed id e he, hid]

theorem exists_companion {c : Catalog} (h : c.WellFormed) {ids : List Nat} {x : String × Recipe}
    (hx : x ∈ recipes c ids o) :
    ∃ y ∈ companions (Setting.ofSelection c ids), y.1 = x.1 ∧ footprint y.2 = footprint x.2 := by
  simp only [recipes, List.mem_filterMap, Option.map_eq_some_iff] at hx
  obtain ⟨e, ⟨id, hid, he⟩, r, hr, rfl⟩ := hx
  obtain ⟨first, rest, htable, -⟩ := List.lookup_eq_some_iff.1 hr
  have hmem : (e.name, r) ∈ Recipe.table (Setting.ofSelection c ids) o := by simp [htable]
  have hprint := List.mem_map_of_mem (f := fun x => (x.1, footprint x.2)) hmem
  rw [footprint_table] at hprint
  obtain ⟨y, hy, heq⟩ := List.mem_map.1 hprint
  obtain ⟨hname, hfoot⟩ := Prod.mk.inj heq
  refine ⟨y, List.mem_filter.2 ⟨hy, ?_⟩, hname, hfoot⟩
  by_cases hts : e.name = Builtin.typeScript
  · have hsel := selected_of_get? h he hid
    rw [hts] at hsel
    simp [Setting.ofSelection, hsel]
  · simp [hname, hts]

theorem mem_editsOf {recipes : List (String × Recipe)} {name : String} {e : Edit} :
    (name, e) ∈ editsOf recipes ↔ ∃ r, (name, r) ∈ recipes ∧ e ∈ r.edits := by
  simp only [editsOf, List.mem_flatMap, List.mem_map, Prod.mk.injEq, Prod.exists]
  constructor
  · rintro ⟨_, r, hr, _, he, rfl, rfl⟩
    exact ⟨r, hr, he⟩
  · rintro ⟨r, hr, he⟩
    exact ⟨name, r, hr, e, he, rfl, rfl⟩

/-- The recipes of a well-formed catalog go together. -/
theorem orderly_recipes {c : Catalog} (h : c.WellFormed) (ids : List Nat) :
    Orderly (editsOf (recipes c ids o)) := by
  refine (orderly_companions (Setting.ofSelection c ids)).of_footprints fun x hx => ?_
  obtain ⟨name, e⟩ := x
  obtain ⟨r, hr, he⟩ := mem_editsOf.1 hx
  obtain ⟨⟨name', r'⟩, hy, -, hfoot⟩ := exists_companion h hr
  have hprint : (e.source?, e.target) ∈ footprint r' := by
    rw [hfoot]
    exact List.mem_map_of_mem he
  obtain ⟨e', he', heq⟩ := List.mem_map.1 hprint
  obtain ⟨hsource, htarget⟩ := Prod.mk.inj heq
  exact ⟨(name', e'), mem_editsOf.2 ⟨r', hy, he'⟩, hsource, htarget⟩

theorem last_editsOf {recipes : List (String × Recipe)}
    (h : ∀ x ∈ recipes, ∀ p ∈ (footprint x.2).getLast?, p.1 = none) :
    ∀ x ∈ (editsOf recipes).getLast?, x.2.source? = none := by
  induction recipes with
  | nil => simp [editsOf]
  | cons first recipes ih =>
    obtain ⟨name, recipe⟩ := first
    have hedits : editsOf ((name, recipe) :: recipes) =
        (recipe.edits.map fun e => (name, e)) ++ editsOf recipes := rfl
    intro x hx
    rw [hedits, List.getLast?_append, List.getLast?_map, Option.mem_def, Option.or_eq_some_iff] at hx
    rcases hx with hx | ⟨-, hx⟩
    · exact ih (fun y hy => h y (List.mem_cons_of_mem _ hy)) x hx
    · obtain ⟨e, he, rfl⟩ := Option.map_eq_some_iff.1 hx
      refine h _ List.mem_cons_self (e.source?, e.target) ?_
      rw [footprint, List.getLast?_map, he]
      rfl

theorem last_recipes {c : Catalog} (h : c.WellFormed) (ids : List Nat) :
    ∀ x ∈ (editsOf (recipes c ids o)).getLast?, x.2.source? = none := by
  refine last_editsOf fun x hx => ?_
  obtain ⟨y, hy, -, hfoot⟩ := exists_companion h hx
  rw [← hfoot]
  exact last_companions _ y hy

theorem mem_touched {recipes : List (String × Recipe)} {r : Report} {path : String} :
    path ∈ (recipes.foldl Report.recorded r).touched ↔
      path ∈ r.touched ∨ ∃ x ∈ editsOf recipes, x.2.target = path := by
  induction recipes generalizing r with
  | nil => simp [editsOf]
  | cons x recipes ih =>
    obtain ⟨name, recipe⟩ := x
    have hedits : editsOf ((name, recipe) :: recipes) =
        (recipe.edits.map fun e => (name, e)) ++ editsOf recipes := rfl
    have hfirst : (r.recorded (name, recipe)).touched =
        (recipe.edits.map Edit.target).foldl Catalog.addNew r.touched := rfl
    rw [List.foldl_cons, ih, hfirst, Catalog.mem_foldl_addNew, hedits]
    simp only [List.mem_append, List.mem_map, or_and_right, exists_or, or_assoc,
      exists_exists_and_eq_and]

theorem valid_of_apply {c : Catalog} {selection : List Nat} {r : Report}
    (h : apply c selection dir o t = (.ok r, t')) : c.checkSelection selection = .valid := by
  cases hcheck : c.checkSelection selection with
  | invalid errors =>
    rw [apply_of_invalid dir o hcheck] at h
    cases h
  | valid => rfl

/-- A run that succeeds has done its plan, and its report lists what the edits leave behind. -/
theorem of_apply {c : Catalog} {selection : List Nat} {r : Report}
    (h : apply c selection dir o t = (.ok r, t')) :
    plan c selection o = editsOf (recipes c (Catalog.ordered selection) o) ∧
      doEdits dir o (plan c selection o) t = (.ok (), t') ∧
      ∀ path, path ∈ r.touched ↔ ∃ x ∈ plan c selection o, x.2.target = path := by
  have hcheck := valid_of_apply h
  cases hproject : t.isFile (Path.join dir "package.json") with
  | false =>
    simp only [apply_of_valid dir o hcheck, hproject] at h
    cases h
  | true =>
    rw [apply_of_project dir o hcheck hproject] at h
    rcases hrun : doEdits dir o (plan c selection o) t with ⟨result, t₁⟩
    rw [hrun] at h
    cases result with
    | error f => cases h
    | ok _ =>
      cases h
      refine ⟨plan_eq o hcheck, rfl, fun path => ?_⟩
      rw [mem_touched, plan_eq o hcheck]
      simp [opening]

/-- After a run that succeeds, every path that the report lists leads to an entry, and every file
that was made, changed or removed lies at or below such a path or one that the run moved away. -/
theorem apply_report_faithful {c : Catalog} (hsound : c.integrityFault? = none)
    {selection : List Nat} {r : Report} (h : apply c selection dir o t = (.ok r, t')) :
    (∀ path ∈ r.touched, ∃ e,
        t'.find (Path.join dir path) = .ok (Path.place (Path.join dir path), e)) ∧
      ∀ p, t'.file? p ≠ t.file? p →
        (∃ path ∈ r.touched, Tree.below (Path.place (Path.join dir path)) p = true) ∨
          ∃ name source target, (name, Edit.rename source target) ∈ plan c selection o ∧
            Tree.below (Path.place (Path.join dir source)) p = true := by
  have hwf := Catalog.wellFormed_of_integrityFault? hsound
  obtain ⟨hplan, hrun, htouched⟩ := of_apply h
  have horderly : Orderly (plan c selection o) := hplan ▸ orderly_recipes hwf _
  have hlast : ∀ x ∈ (plan c selection o).getLast?, x.2.source? = none :=
    hplan ▸ last_recipes hwf _
  constructor
  · intro path hpath
    obtain ⟨x, hx, rfl⟩ := (htouched path).1 hpath
    exact (target_stands_doEdits horderly hrun x hx).find (horderly.proper x hx).target
      (enters_doEdits horderly hrun (List.ne_nil_of_mem hx) hlast)
  · intro p hp
    obtain ⟨⟨name, e⟩, hx, hreach⟩ : ∃ x ∈ plan c selection o, x.2.Reaches dir p := by
      by_contra hnone
      exact hp (file?_doEdits hrun fun x hx hreach => hnone ⟨x, hx, hreach⟩)
    rcases hreach with hbelow | ⟨source, hsource, hbelow⟩
    · exact .inl ⟨e.target, (htouched _).2 ⟨(name, e), hx, rfl⟩, hbelow⟩
    · obtain ⟨target, rfl⟩ := Edit.source?_eq_some_iff.1 hsource
      exact .inr ⟨name, source, target, hx, hbelow⟩

/-- A run that moves two scripts and writes a file. -/
theorem apply_report_faithful_type_script :
    let c : Catalog := ⟨[⟨0, "TypeScript", .language, [], []⟩, ⟨1, "React", .frontend, [], []⟩]⟩
    let t : Tree := ⟨[(["app"], .directory), (["app", "package.json"], .file (.text [])),
      (["app", "src"], .directory), (["app", "src", "index.js"], .file (.text [])),
      (["app", "src", "App.js"], .file (.text [])), (["app", "src", "x.css"], .file (.bytes []))]⟩
    ∃ r t', c.integrityFault? = none ∧ apply c [1, 0] "app" {} t = (.ok r, t') ∧
      (∀ path ∈ r.touched, ∃ e,
          t'.find (Path.join "app" path) = .ok (Path.place (Path.join "app" path), e)) ∧
        ∀ p, t'.file? p ≠ t.file? p →
          (∃ path ∈ r.touched, Tree.below (Path.place (Path.join "app" path)) p = true) ∨
            ∃ name source target, (name, Edit.rename source target) ∈ plan c [1, 0] {} ∧
              Tree.below (Path.place (Path.join "app" source)) p = true := by
  intro c t
  have hsound : c.integrityFault? = none := by decide +kernel
  have hvalid : c.checkSelection [1, 0] = .valid := by decide
  have hproject : t.isFile (Path.join "app" "package.json") = true := by decide +kernel
  have hdone : (doEdits "app" {} (plan c [1, 0] {}) t).1 = .ok () := by decide +kernel
  obtain ⟨r, hrun⟩ : ∃ r, apply c [1, 0] "app" {} t =
      (.ok r, (doEdits "app" {} (plan c [1, 0] {}) t).2) := by
    rw [apply_of_project "app" {} hvalid hproject]
    rcases hd : doEdits "app" {} (plan c [1, 0] {}) t with ⟨result, t₁⟩
    rw [hd] at hdone
    cases hdone
    exact ⟨_, rfl⟩
  exact ⟨r, _, hsound, hrun, apply_report_faithful hsound hrun⟩

end Application

end ProjectSetup
