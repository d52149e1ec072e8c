import ProjectSetup.Proofs.Catalog.Order
import ProjectSetup.Proofs.Project.Atomicity
import ProjectSetup.Recipe.Application

/-!
# Runs

A run is its edits, done one after another, and a report that is put together beside them. What a
run does depends on the ids of the selection alone, and a run that fails stops at the first edit
that fails, with the files as the edits before it left them.
-/
namespace ProjectSetup

open ProjectSetup.Action

namespace Report

/-- The report after some edits. -/
def edited (r : Report) (es : List Edit) : Report :=
  { r with touched := (es.map Edit.target).foldl Catalog.addNew r.touched }

/-- The report after a recipe of the extension of the given name. -/
def recorded (r : Report) : String × Recipe → Report
  | (name, recipe) =>
    { r.edited recipe.edits with
      packages := recipe.packages.foldl Catalog.addNew r.packages
      devPackages := recipe.devPackages.foldl Catalog.addNew r.devPackages
      applied := r.applied ++ [name] }

end Report

namespace Application

/-- The edits of recipes in their order, each with the name of the extension it is done for. -/
def editsOf (recipes : List (String × Recipe)) : List (String × Edit) :=
  recipes.flatMap fun (name, recipe) => recipe.edits.map fun e => (name, e)

/-- The edits that a selection asks for: its extensions as they follow each other in the catalog,
and the edits of each recipe in order. -/
def plan (c : Catalog) (selection : List Nat) (o : StyleOverrides) : List (String × Edit) :=
  editsOf (recipes c (c.ids.filter (selection.contains ·)) o)

/-- Do edits one after another, up to the first that fails. -/
def doEdits (dir : String) (o : StyleOverrides) : List (String × Edit) → Action Unit
  | [] => return ()
  | (name, e) :: rest => do
    within s!"Failed to apply {name}" (e.apply dir o)
    doEdits dir o rest

variable (dir : String) (o : StyleOverrides)

theorem doEdits_append (first second : List (String × Edit)) :
    doEdits dir o (first ++ second) = (do
      doEdits dir o first
      doEdits dir o second) := by
  induction first with
  | nil => simp [doEdits]
  | cons step first ih =>
    obtain ⟨name, e⟩ := step
    simp [doEdits, ih]

theorem applyEdits_eq (name : String) (r : Report) (es : List Edit) :
    applyEdits dir o name r es = do
      doEdits dir o (es.map fun e => (name, e))
      return r.edited es := by
  induction es generalizing r with
  | nil => simp [applyEdits, doEdits, Report.edited]
  | cons e es ih => simp [applyEdits, doEdits, ih, Report.edited]

theorem applyRecipes_eq (r : Report) (recipes : List (String × Recipe)) :
    applyRecipes dir o r recipes = do
      doEdits dir o (editsOf recipes)
      return recipes.foldl Report.recorded r := by
  induction recipes generalizing r with
  | nil => simp [applyRecipes, editsOf, doEdits]
  | cons first recipes ih =>
    obtain ⟨name, recipe⟩ := first
    have hedits : editsOf ((name, recipe) :: recipes) =
        (recipe.edits.map fun e => (name, e)) ++ editsOf recipes := rfl
    rw [hedits, doEdits_append]
    simp [applyRecipes, applyEdits_eq, ih, Report.recorded, Report.edited]

/-- The report with which a run of recipes begins. -/
def opening (recipes : List (String × Recipe)) : Report :=
  { generators := (recipes.filterMap fun (_, r) => r.generator).foldl Catalog.addNew [] }

theorem apply_of_invalid {c : Catalog} {selection : List Nat} {errors : List String}
    (h : c.checkSelection selection = .invalid errors) (t : Tree) :
    apply c selection dir o t = (.error { cause := .selection errors }, t) := by
  rw [apply, h]
  rfl

theorem apply_of_valid {c : Catalog} {selection : List Nat}
    (h : c.checkSelection selection = .valid) (t : Tree) :
    apply c selection dir o t =
      let recipes := recipes c (Catalog.ordered selection) o
      if t.isFile (Path.join dir "package.json") then
        applyRecipes dir o (opening recipes) recipes t
      else (.error { cause := .other (missingProject dir (opening recipes).generators) }, t) := by
  rw [apply, h]
  simp only [bind_run, get_run]
  cases t.isFile (Path.join dir "package.json") with
  | true => rfl
  | false => rfl

theorem plan_eq {c : Catalog} {selection : List Nat} (h : c.checkSelection selection = .valid) :
    plan c selection o = editsOf (recipes c (Catalog.ordered selection) o) := by
  have known := ((c.checkSelection_eq_valid_iff_admissible selection).1 h).known
  rw [plan, Catalog.ordered_eq_filter_ids known]

/-- A run that begins does the edits of its plan, and reports what was done if none of them
fails. -/
theorem apply_of_project {c : Catalog} {selection : List Nat} {t : Tree}
    (hvalid : c.checkSelection selection = .valid)
    (hproject : t.isFile (Path.join dir "package.json") = true) :
    apply c selection dir o t =
      let recipes := recipes c (Catalog.ordered selection) o
      match doEdits dir o (plan c selection o) t with
      | (.ok _, t') => (.ok (recipes.foldl Report.recorded (opening recipes)), t')
      | (.error f, t') => (.error f, t') := by
  rw [apply_of_valid dir o hvalid]
  simp only [hproject, if_true, applyRecipes_eq, bind_run, pure_run, ← plan_eq o hvalid]
  rcases doEdits dir o (plan c selection o) t with ⟨r, t'⟩
  cases r with
  | ok _ => rfl
  | error f => rfl

/-- Two selections of the same ids are both refused, and no file is touched, or both run alike: the
same trees come out, with the same report or the same failure. -/
theorem apply_of_same_ids (c : Catalog) (t : Tree) {first second : List Nat}
    (same : ∀ a, a ∈ first ↔ a ∈ second) :
    (∃ errors errors', c.checkSelection first = .invalid errors ∧
        c.checkSelection second = .invalid errors' ∧
        apply c first dir o t = (.error { cause := .selection errors }, t) ∧
        apply c second dir o t = (.error { cause := .selection errors' }, t)) ∨
      (c.checkSelection first = .valid ∧ c.checkSelection second = .valid ∧
        apply c first dir o t = apply c second dir o t) := by
  have hvalid : c.checkSelection first = .valid ↔ c.checkSelection second = .valid := by
    simp only [Catalog.checkSelection_eq_valid_iff_admissible, same]
  cases hfirst : c.checkSelection first with
  | valid =>
    have hsecond := hvalid.1 hfirst
    refine .inr ⟨rfl, hsecond, ?_⟩
    rw [apply_of_valid dir o hfirst, apply_of_valid dir o hsecond,
      Catalog.ordered_eq_of_same_ids same]
  | invalid errors =>
    cases hsecond : c.checkSelection second with
    | valid =>
      rw [hvalid.2 hsecond] at hfirst
      cases hfirst
    | invalid errors' =>
      exact .inl ⟨errors, errors', rfl, rfl, apply_of_invalid dir o hfirst t,
        apply_of_invalid dir o hsecond t⟩

/-- A selection that is written backwards, with a repeat. -/
theorem apply_of_same_ids_backwards :
    let c : Catalog := ⟨[⟨0, "Prettier", .linter, [], []⟩, ⟨1, "ESLint Prettier", .linter, [0], []⟩]⟩
    let t : Tree := ⟨[(["package.json"], .file (.text []))]⟩
    (∀ a, a ∈ [1, 0, 1] ↔ a ∈ [0, 1]) ∧ c.checkSelection [1, 0, 1] = .valid ∧
      apply c [1, 0, 1] "" {} t = apply c [0, 1] "" {} t := by
  intro c t
  have same : ∀ a, a ∈ [1, 0, 1] ↔ a ∈ [0, 1] := by
    intro a
    simp only [List.mem_cons, List.not_mem_nil, or_false]
    omega
  have hvalid : c.checkSelection [1, 0, 1] = .valid := by decide
  rcases apply_of_same_ids "" {} c t same with ⟨errors, -, hinvalid, -⟩ | ⟨-, -, heq⟩
  · rw [hvalid] at hinvalid
    cases hinvalid
  · exact ⟨same, hvalid, heq⟩

/-- Edits that fail are cut at the first one that does: those before it are all done, and those
behind it do not matter. -/
theorem exists_failing_edit {es : List (String × Edit)} {t t' : Tree} {f : Failure}
    (h : doEdits dir o es t = (.error f, t')) :
    ∃ done name e rest before cause, es = done ++ (name, e) :: rest ∧
      doEdits dir o done t = (.ok (), before) ∧ e.apply dir o before = (.error cause, t') ∧
      f = cause.within s!"Failed to apply {name}" := by
  induction es generalizing t with
  | nil => cases h
  | cons step es ih =>
    obtain ⟨name, e⟩ := step
    rw [doEdits, bind_run, within_run] at h
    rcases hr : e.apply dir o t with ⟨r, t₁⟩
    rw [hr] at h
    cases r with
    | error cause =>
      cases h
      exact ⟨[], name, e, es, t, cause, rfl, rfl, hr, rfl⟩
    | ok _ =>
      obtain ⟨done, name', e', rest, before, cause, hes, hdone, he', hf⟩ := ih h
      refine ⟨(name, e) :: done, name', e', rest, before, cause, by rw [hes]; rfl, ?_, he', hf⟩
      rw [doEdits, bind_run, within_run, hr]
      exact hdone

/-- A run that fails has not begun, because the selection is not valid or no project is there, or
it has done some edits of its plan and stopped at the next one, which failed and changed no file. -/
theorem apply_stops_at_failing_edit {c : Catalog} {selection : List Nat} {t t' : Tree}
    {f : Failure} (h : apply c selection dir o t = (.error f, t')) :
    ((c.checkSelection selection ≠ .valid ∨ t.isFile (Path.join dir "package.json") = false) ∧
        t' = t) ∨
      ∃ done name e rest before cause,
        plan c selection o = done ++ (name, e) :: rest ∧
        doEdits dir o done t = (.ok (), before) ∧
        e.apply dir o before = (.error cause, t') ∧
        Tree.SameFiles before t' ∧
        f = cause.within s!"Failed to apply {name}" := by
  cases hcheck : c.checkSelection selection with
  | invalid errors =>
    rw [apply_of_invalid dir o hcheck] at h
    cases h
    exact .inl ⟨.inl (by simp), rfl⟩
  | valid =>
    cases hproject : t.isFile (Path.join dir "package.json") with
    | false =>
      simp only [apply_of_valid dir o hcheck, hproject] at h
      cases h
      exact .inl ⟨.inr rfl, rfl⟩
    | true =>
      right
      rw [apply_of_project dir o hcheck hproject] at h
      rcases hrun : doEdits dir o (plan c selection o) t with ⟨r, t₁⟩
      rw [hrun] at h
      cases r with
      | ok _ => cases h
      | error f' =>
        cases h
        obtain ⟨done, name, e, rest, before, cause, hplan, hdone, he, hf⟩ :=
          exists_failing_edit dir o hrun
        exact ⟨done, name, e, rest, before, cause, hplan, hdone, he,
          Edit.atomic_apply dir o e before cause t' he, hf⟩

/-- A run that writes two files and then looks for a third one that is not there. -/
theorem apply_stops_at_missing_file :
    let c : Catalog := ⟨[⟨0, "Prettier", .linter, [], []⟩, ⟨1, "ESLint Prettier", .linter, [0], []⟩]⟩
    let t : Tree := ⟨[(["package.json"], .file (.text []))]⟩
    ∃ f t', apply c [1, 0] "" {} t = (.error f, t') ∧
      ∃ done name e rest before cause, plan c [1, 0] {} = done ++ (name, e) :: rest ∧
        doEdits "" {} done t = (.ok (), before) ∧ e.apply "" {} before = (.error cause, t') ∧
        Tree.SameFiles before t' ∧ f = cause.within s!"Failed to apply {name}" := by
  intro c t
  have hvalid : c.checkSelection [1, 0] = .valid := by decide
  have hproject : t.isFile (Path.join "" "package.json") = true := by decide
  have hfails : (doEdits "" {} (plan c [1, 0] {}) t).1 =
      .error ⟨["Failed to apply ESLint Prettier", "Failed to read .eslintrc.json"],
        .system .notFound⟩ := by decide +kernel
  have hrun : apply c [1, 0] "" {} t =
      (.error ⟨["Failed to apply ESLint Prettier", "Failed to read .eslintrc.json"],
        .system .notFound⟩, (doEdits "" {} (plan c [1, 0] {}) t).2) := by
    rw [apply_of_project "" {} hvalid hproject]
    rcases hd : doEdits "" {} (plan c [1, 0] {}) t with ⟨r, t₁⟩
    rw [hd] at hfails
    cases hfails
    rfl
  refine ⟨_, _, hrun, ?_⟩
  rcases apply_stops_at_failing_edit "" {} hrun with ⟨hbad | hbad, -⟩ | hstop
  · exact absurd hvalid hbad
  · rw [hproject] at hbad
    cases hbad
  · exact hstop

end Application

end ProjectSetup
