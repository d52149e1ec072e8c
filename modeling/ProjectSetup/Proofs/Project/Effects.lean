import ProjectSetup.Proofs.Project.Locality

/-!
# Effects of edits

What the files of a project are after an edit, file by file. An edit that fails has left all of them
as they were. One that is done has given its target a new text or has moved everything at or below
one place to another, and it has left every other file as it was.
-/
namespace ProjectSetup

open ProjectSetup.Path (place join)

namespace Tree

variable {t t' : Tree} {source target : Place}

theorem lookup?_move_source {p : Place} (hs : source ≠ []) (hb : below source p = true)
    (ht : below target p = false) : (t.move source target).lookup? p = none := by
  have hp : p ≠ [] := by
    rintro rfl
    exact hs (List.prefix_nil.1 (below_iff.1 hb))
  rw [lookup?, if_neg hp, Option.map_eq_none_iff, List.find?_eq_none, move, List.forall_mem_map]
  rintro ⟨q, e⟩ - heq
  -- an entry comes to be below the target, or stays because it is not below the source
  have heq : moved source target q = p := beq_iff_eq.1 heq
  rw [moved] at heq
  split at heq
  · rw [← heq, ← Bool.not_eq_true, below_iff] at ht
    exact ht (List.prefix_append _ _)
  · next hq => exact hq (heq ▸ hb)

/-- What is at `p` once everything at or below `source` has come to be at `target`. -/
def relocated (t : Tree) (source target p : Place) : Option Content :=
  if below target p then t.file? (source ++ p.drop target.length)
  else if below source p then none
  else t.file? p

theorem file?_move (hs : source ≠ []) (ht : target ≠ []) (p : Place) :
    (t.move source target).file? p = t.relocated source target p := by
  rw [relocated]
  split_ifs with htarget hsource
  · obtain ⟨rest, rfl⟩ := below_iff.1 htarget
    rw [List.drop_left, file?, file?, lookup?_move_append hs ht]
  · rw [file?, lookup?_move_source hs hsource (by simpa using htarget)]
  · exact file?_congr (lookup?_move_other (by simpa using hsource) (by simpa using htarget))

theorem relocated_self (t : Tree) (p q : Place) : t.relocated p p q = t.file? q := by
  rw [relocated]
  split_ifs with hb
  · obtain ⟨rest, rfl⟩ := below_iff.1 hb
    rw [List.drop_left]
  · rfl

theorem file?_of_rename {source target : String} (h : t.rename source target = .ok t')
    (p : Place) : t'.file? p = t.relocated (place source) (place target) p := by
  obtain ⟨q, r, hq, hr, -, hmove⟩ := of_rename h
  obtain ⟨-, rfl, -⟩ := locate_eq_ok_iff.1 hq
  obtain ⟨-, rfl, -⟩ := locate_eq_ok_iff.1 hr
  rcases hmove with ⟨hsame, rfl⟩ | ⟨hs, ht, rfl⟩
  · rw [hsame, relocated_self]
  · exact file?_move hs ht p

theorem file?_of_writeText {path : String} {s : Text} (h : t.writeText path s = .ok t')
    (p : Place) : t'.file? p = if p = place path then some (.text s) else t.file? p := by
  obtain ⟨q, hq, hfile, rfl⟩ := of_writeText h
  obtain ⟨-, rfl, -⟩ := locate_eq_ok_iff.1 hq
  have hroot : place path ≠ [] := fun hnil => hfile (by rw [hnil]; rfl)
  split_ifs with hp
  · rw [hp, file?_eq_some_iff, lookup?_set_self _ _ hroot]
  · exact file?_congr (lookup?_set_other _ _ hp)

/-- A text that has been written is read again. -/
theorem readText_of_writeText {path : String} {s : Text} (h : t.writeText path s = .ok t') :
    t'.readText path = .ok s := by
  obtain ⟨q, hq, hfile, rfl⟩ := of_writeText h
  obtain ⟨hne, hplace, hwalks⟩ := locate_eq_ok_iff.1 hq
  have hroot : q ≠ [] := fun hnil => hfile (by rw [hnil]; rfl)
  have hends : Path.endsInDirectory path = false := by
    rw [writeText, hq] at h
    cases hd : Path.endsInDirectory path with
    | false => rfl
    | true =>
      simp only [hd, bind, Except.bind, if_true] at h
      cases h
  have hkept : ∀ p, t.lookup? p = some .directory →
      (t.set q (.file (.text s))).lookup? p = some .directory := by
    intro p hp
    have hother : p ≠ q := by
      rintro rfl
      exact hfile hp
    rw [lookup?_set_other _ _ hother, hp]
  have hlocate := locate_eq_ok_iff.2 ⟨hne, hplace, hwalks.mono hkept⟩
  rw [readText, Tree.find, hlocate]
  simp only [bind, Except.bind, lookup?_set_self _ _ hroot, hends]
  rfl

theorem SameFiles.relocated_eq (h : SameFiles t t') (source target p : Place) :
    t'.relocated source target p = t.relocated source target p := by
  simp only [relocated, h.file?_eq]

end Tree

namespace Edit

variable {dir : String} {o : StyleOverrides} {e : Edit} {t t' : Tree}

/-- The files of `t'` are those of `t`, but for the one that the edit writes and for those that it
moves. -/
def Effect (e : Edit) (dir : String) (o : StyleOverrides) (t t' : Tree) : Prop :=
  match e.source? with
  | some source =>
    ∀ p, t'.file? p = t.relocated (place (join dir source)) (place (join dir e.target)) p
  | none => ∃ s, e.revised? dir o (t.file? (place (join dir e.target))) = some s ∧
      ∀ p, t'.file? p = if p = place (join dir e.target) then some (.text s) else t.file? p

theorem effect_of_apply (h : e.apply dir o t = (.ok (), t')) : e.Effect dir o t t' := by
  obtain ⟨t₁, hext, h⟩ := of_apply h
  unfold Effect
  cases hs : e.source? with
  | none =>
    rw [hs] at h
    obtain ⟨s, hnew, hwrite⟩ := h
    refine ⟨s, hnew, fun p => ?_⟩
    rw [Tree.file?_of_writeText hwrite, hext.files.file?_eq]
  | some source =>
    rw [hs] at h
    intro p
    exact (Tree.file?_of_rename h p).trans (hext.files.relocated_eq _ _ p)

theorem Effect.file?_other (h : e.Effect dir o t t') {p : Place} (hp : ¬ e.Reaches dir p) :
    t'.file? p = t.file? p := by
  rw [Reaches, not_or, Bool.not_eq_true] at hp
  obtain ⟨htarget, hsource⟩ := hp
  unfold Effect at h
  cases hs : e.source? with
  | none =>
    rw [hs] at h
    obtain ⟨s, -, hfiles⟩ := h
    rw [hfiles, if_neg]
    rintro rfl
    rw [← Bool.not_eq_true, Tree.below_iff] at htarget
    exact htarget (List.prefix_refl _)
  | some source =>
    rw [hs] at h
    have hsource : Tree.below (place (join dir source)) p = false :=
      Bool.eq_false_iff.2 fun hbelow => hsource ⟨source, hs, hbelow⟩
    simp only [h p, Tree.relocated, htarget, hsource, Bool.false_eq_true, if_false]

/-- An edit that fails has changed no file. One that is done has changed its target only, to the
text that it makes of the one before, or has moved what was at or below its source to its target. -/
theorem apply_atomic_and_local (dir : String) (o : StyleOverrides) (e : Edit) (t : Tree) :
    (∀ f t', e.apply dir o t = (.error f, t') → t.SameFiles t') ∧
      ∀ t', e.apply dir o t = (.ok (), t') → e.Effect dir o t t' :=
  ⟨fun f t' h => atomic_apply dir o e t f t' h, fun _ h => effect_of_apply h⟩

/-- A rename that fails once it has made a directory, one that takes a whole directory along, and a
replacement in the first of two places. -/
theorem apply_atomic_and_local_directory :
    let t : Tree := ⟨[(["app"], .directory), (["app", "src"], .directory),
      (["app", "src", "a.css"], .file (.text "@a @a\n".toList)),
      (["app", "src", "a.png"], .file (.bytes [255]))]⟩
    (∃ f t', (Edit.rename "a.css" "lib/a.css").apply "app" {} t = (.error f, t') ∧
        t'.lookup? ["app", "lib"] = some .directory ∧ t.SameFiles t') ∧
      (∃ t', (Edit.rename "src" "lib/src").apply "app" {} t = (.ok (), t') ∧
        t'.file? ["app", "src", "a.png"] = none ∧
        ∀ p, t'.file? p = t.relocated ["app", "src"] ["app", "lib", "src"] p) ∧
      ∃ t', (Edit.replace "src/a.css" "@a".toList ['b']).apply "app" {} t = (.ok (), t') ∧
        ∀ p, t'.file? p = if p = ["app", "src", "a.css"] then some (.text "b @a\n".toList)
          else t.file? p := by
  intro t
  refine ⟨?_, ?_, ?_⟩
  · have hfails : ((Edit.rename "a.css" "lib/a.css").apply "app" {} t).1 =
        .error ⟨["Failed to rename app/a.css to app/lib/a.css"], .system .notFound⟩ := by
      decide +kernel
    refine ⟨_, _, Prod.ext hfails rfl, by decide +kernel, ?_⟩
    exact (apply_atomic_and_local "app" {} (.rename "a.css" "lib/a.css") t).1 _ _
      (Prod.ext hfails rfl)
  · have hdone : ((Edit.rename "src" "lib/src").apply "app" {} t).1 = .ok () := by decide +kernel
    exact ⟨_, Prod.ext hdone rfl, by decide +kernel,
      (apply_atomic_and_local "app" {} (.rename "src" "lib/src") t).2 _ (Prod.ext hdone rfl)⟩
  · have hdone : ((Edit.replace "src/a.css" "@a".toList ['b']).apply "app" {} t).1 = .ok () := by
      decide +kernel
    obtain ⟨s, hs, hfiles⟩ := (apply_atomic_and_local "app" {} (.replace "src/a.css" "@a".toList ['b'])
      t).2 _ (Prod.ext hdone rfl)
    have hnew : (Edit.replace "src/a.css" "@a".toList ['b']).revised? "app" {}
        (t.file? (place (join "app" "src/a.css"))) = some "b @a\n".toList := by decide +kernel
    obtain rfl := Option.some.inj (hnew.symm.trans hs)
    exact ⟨_, Prod.ext hdone rfl, hfiles⟩

end Edit

end ProjectSetup
