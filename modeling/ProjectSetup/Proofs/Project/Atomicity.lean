import ProjectSetup.Project.Edit

/-!
# Atomicity

An edit that fails has changed no file. All that it may have done is to make directories, since the
directory of a file is made before the file is written or moved there. The proof follows how an
edit is put together: steps that never touch a file, and one last step that changes the tree as a
whole or not at all.
-/
namespace ProjectSetup

namespace Tree

/-- Two trees hold the same files with the same contents. Their directories may differ. -/
structure SameFiles (t t' : Tree) : Prop where
  listed : t'.files = t.files
  found : ∀ p c, t'.lookup? p = some (.file c) ↔ t.lookup? p = some (.file c)

theorem SameFiles.refl (t : Tree) : SameFiles t t := ⟨rfl, fun _ _ => .rfl⟩

theorem SameFiles.trans {t₁ t₂ t₃ : Tree} (h : SameFiles t₁ t₂) (h' : SameFiles t₂ t₃) :
    SameFiles t₁ t₃ :=
  ⟨h'.listed.trans h.listed, fun p c => (h'.found p c).trans (h.found p c)⟩

theorem ne_of_lookup?_eq_none {t : Tree} {p : Place} (h : t.lookup? p = none) :
    ∀ q ∈ t.entries, q.1 ≠ p := by
  unfold lookup? at h
  split at h
  · cases h
  · simpa [List.find?_eq_none] using h

/-- A directory where nothing was is no change to any file. -/
theorem sameFiles_set_directory {t : Tree} {p : Place} (h : t.lookup? p = none) :
    SameFiles t (t.set p .directory) := by
  have hp : p ≠ [] := by
    rintro rfl
    cases h
  have hkeep : t.entries.filter (fun q => q.1 != p) = t.entries :=
    List.filter_eq_self.2 fun q hq => by simpa using ne_of_lookup?_eq_none h q hq
  constructor
  · simp [files, set, hkeep]
  · intro q c
    by_cases hq : q = p
    · rw [hq, lookup?_set_self t _ hp, h]
      simp
    · rw [lookup?_set_other t _ hq]

/-- Everything of `t` is in `t'`, and what else is there is no file. -/
structure Extends (t t' : Tree) : Prop where
  files : SameFiles t t'
  kept : ∀ {p e}, t.lookup? p = some e → t'.lookup? p = some e

theorem Extends.refl (t : Tree) : Extends t t := ⟨.refl t, id⟩

theorem Extends.trans {t₁ t₂ t₃ : Tree} (h : Extends t₁ t₂) (h' : Extends t₂ t₃) :
    Extends t₁ t₃ :=
  ⟨h.files.trans h'.files, fun he => h'.kept (h.kept he)⟩

theorem extends_set_directory {t : Tree} {p : Place} (h : t.lookup? p = none) :
    Extends t (t.set p .directory) := by
  refine ⟨sameFiles_set_directory h, fun {q e} he => ?_⟩
  have hq : q ≠ p := by
    rintro rfl
    rw [h] at he
    cases he
  rwa [lookup?_set_other t _ hq]

theorem extends_makeAlong (t : Tree) (here : Place) (made : Bool) (names : List String) :
    Extends t (t.makeAlong here made names).2 := by
  induction names generalizing t here made with
  | nil => exact .refl t
  | cons n names ih =>
    rw [makeAlong]
    split
    · exact ih t _ made
    · next hnone => exact (extends_set_directory hnone).trans (ih _ _ true)
    · exact .refl t

theorem extends_makeDirectories (t : Tree) (path : String) :
    Extends t (t.makeDirectories path).2 := by
  unfold makeDirectories
  split
  · exact .refl t
  · exact extends_makeAlong t [] false _

end Tree

namespace Action

open ProjectSetup.Tree (SameFiles)

/-- Whether it fails or not, the action leaves every file as it is. -/
def LeavesFiles (a : Action α) : Prop := ∀ t, SameFiles t (a t).2

/-- If it fails, the action leaves every file as it was. -/
def Atomic (a : Action α) : Prop := ∀ t f t', a t = (.error f, t') → SameFiles t t'

theorem LeavesFiles.atomic {a : Action α} (h : LeavesFiles a) : Atomic a := by
  intro t f t' ha
  have := h t
  rwa [ha] at this

/-- Steps that leave the files alone may come before an atomic one. -/
theorem LeavesFiles.bind_atomic {a : Action α} {f : α → Action β} (ha : LeavesFiles a)
    (hf : ∀ x, Atomic (f x)) : Atomic (a >>= f) := by
  intro t e t' h
  have hsame := ha t
  rw [bind_run] at h
  rcases hr : a t with ⟨r, t₁⟩
  rw [hr] at h hsame
  cases r with
  | ok x => exact hsame.trans (hf x t₁ e t' h)
  | error e' =>
    cases h
    exact hsame

theorem LeavesFiles.within {a : Action α} (h : LeavesFiles a) (context : String) :
    LeavesFiles (within context a) := by
  intro t
  rw [within_run]
  exact h t

theorem leavesFiles_pure (x : α) : LeavesFiles (pure x) := fun t => .refl t

theorem leavesFiles_fail (cause : Cause) : LeavesFiles (fail cause : Action α) := fun t => .refl t

theorem leavesFiles_query (context : String) (f : Tree → Except SystemFault α) :
    LeavesFiles (query context f) := by
  intro t
  unfold query
  cases f t with
  | ok x => exact .refl t
  | error e => exact .refl t

theorem leavesFiles_pureOf (cause : ε → Cause) (r : Except ε α) : LeavesFiles (pureOf cause r) := by
  intro t
  cases r with
  | ok x => exact .refl t
  | error e => exact .refl t

theorem leavesFiles_attempt (context : String) {f : Tree → Except SystemFault Unit × Tree}
    (h : ∀ t, SameFiles t (f t).2) : LeavesFiles (attempt context f) := by
  intro t
  have hsame := h t
  unfold attempt
  rcases hr : f t with ⟨r, t'⟩
  rw [hr] at hsame
  cases r with
  | ok x => exact hsame
  | error e => exact hsame

theorem leavesFiles_readText (path : String) : LeavesFiles (readText path) := leavesFiles_query _ _

theorem leavesFiles_normalized (path : String) (o : StyleOverrides) (s : Text) :
    LeavesFiles (normalized path o s) :=
  (leavesFiles_pureOf _ _).within _

theorem leavesFiles_makeParent (path : String) : LeavesFiles (makeParent path) := by
  unfold makeParent
  cases Path.parent? path with
  | none => exact leavesFiles_pure ()
  | some dir => exact leavesFiles_attempt _ fun t => (t.extends_makeDirectories dir).files

theorem atomic_change (context : String) (f : Tree → Except SystemFault Tree) :
    Atomic (change context f) := by
  intro t e t' h
  unfold change at h
  cases hf : f t with
  | ok t₁ =>
    rw [hf] at h
    cases h
  | error fault =>
    rw [hf] at h
    cases h
    exact .refl t

end Action

namespace Edit

open ProjectSetup.Action

theorem atomic_revise (path : String) (f : Text → Except EditFault Text) :
    Atomic (revise path f) :=
  (leavesFiles_readText path).bind_atomic fun _ =>
    (leavesFiles_pureOf _ _).bind_atomic fun _ => atomic_change _ _

theorem atomic_renameFile (source target : String) : Atomic (renameFile source target) :=
  (leavesFiles_makeParent target).bind_atomic fun _ => atomic_change _ _

theorem atomic_writeFile (path : String) (o : StyleOverrides) (content : Text) :
    Atomic (writeFile path o content) :=
  (leavesFiles_normalized path o content).bind_atomic fun _ =>
    (leavesFiles_makeParent path).bind_atomic fun _ => atomic_change _ _

theorem atomic_replaceFirst (path : String) (o : StyleOverrides) (old new : Text) :
    Atomic (replaceFirst path o old new) := by
  refine (leavesFiles_readText path).bind_atomic fun s => ?_
  cases Text.cut? old s with
  | none => exact (leavesFiles_fail _).atomic
  | some sides =>
    exact (leavesFiles_normalized path o _).bind_atomic fun _ => atomic_change _ _

/-- An edit of any kind that fails has changed no file. -/
theorem atomic_apply (dir : String) (o : StyleOverrides) (e : Edit) : Atomic (e.apply dir o) := by
  cases e with
  | addImport file what => exact atomic_revise _ _
  | removeImport file source => exact atomic_revise _ _
  | addToArray file array what => exact atomic_revise _ _
  | rename source target => exact atomic_renameFile _ _
  | write file content => exact atomic_writeFile _ _ _
  | replace file old new => exact atomic_replaceFirst _ _ _ _

end Edit

end ProjectSetup
