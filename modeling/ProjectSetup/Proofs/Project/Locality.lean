import ProjectSetup.Proofs.Project.Atomicity
import ProjectSetup.Proofs.Project.Places

/-!
# Locality

What an edit changes lies at or below the file that it leaves behind, or at or below the one that
it moves away. Everything else that was there is there afterwards; directories may have been added.
-/
namespace ProjectSetup

open ProjectSetup.Path (place names Plain join)

namespace Tree

variable {t t' : Tree}

/-- What the file at a place holds. -/
def file? (t : Tree) (p : Place) : Option Content :=
  match t.lookup? p with
  | some (.file c) => some c
  | _ => none

theorem file?_eq_some_iff {p : Place} {c : Content} :
    t.file? p = some c ↔ t.lookup? p = some (.file c) := by
  unfold file?
  split <;> simp_all

theorem file?_congr {p : Place} (h : t'.lookup? p = t.lookup? p) : t'.file? p = t.file? p := by
  rw [file?, file?, h]

theorem SameFiles.file?_eq (h : SameFiles t t') (p : Place) : t'.file? p = t.file? p := by
  ext c
  rw [file?_eq_some_iff, file?_eq_some_iff, h.found p c]

theorem lookup?_of_find {path : String} {p : Place} {entry : Entry}
    (h : t.find path = .ok (p, entry)) : p = place path ∧ t.lookup? p = some entry := by
  rw [Tree.find] at h
  cases hp : t.locate path with
  | error f =>
    rw [hp] at h
    cases h
  | ok q =>
    obtain ⟨-, hplace, -⟩ := locate_eq_ok_iff.1 hp
    simp only [hp, bind, Except.bind] at h
    cases hl : t.lookup? q with
    | none =>
      rw [hl] at h
      cases h
    | some found =>
      rw [hl] at h
      cases found with
      | directory =>
        cases h
        exact ⟨hplace, hl⟩
      | file c =>
        dsimp only at h
        split at h
        · cases h
        · cases h
          exact ⟨hplace, hl⟩

theorem file?_of_readText {path : String} {s : Text} (h : t.readText path = .ok s) :
    t.file? (place path) = some (.text s) := by
  rw [readText] at h
  cases hf : t.find path with
  | error f =>
    rw [hf] at h
    cases h
  | ok found =>
    obtain ⟨p, entry⟩ := found
    obtain ⟨rfl, hl⟩ := lookup?_of_find hf
    rw [hf] at h
    cases entry with
    | directory => cases h
    | file c =>
      cases c with
      | text s' =>
        cases h
        exact file?_eq_some_iff.2 hl
      | bytes b => cases h

theorem below_iff {root p : Place} : below root p = true ↔ root <+: p := List.isPrefixOf_iff_prefix

theorem below_append_iff {base root p : Place} :
    below (base ++ root) (base ++ p) = below root p := by
  rw [Bool.eq_iff_iff, below_iff, below_iff, List.prefix_append_right_inj]

theorem of_writeText {path : String} {s : Text} (h : t.writeText path s = .ok t') :
    ∃ p, t.locate path = .ok p ∧ t.lookup? p ≠ some .directory ∧ t' = t.set p (.file (.text s)) := by
  unfold writeText at h
  cases hp : t.locate path with
  | error f =>
    rw [hp] at h
    cases h
  | ok p =>
    simp only [hp, bind, Except.bind] at h
    refine ⟨p, rfl, ?_⟩
    split at h
    · cases h
    · next hdir =>
      split at h
      · cases h
      · cases h
        exact ⟨hdir, rfl⟩

/-- After a move, what is found at `q` is what was found at the one place that came to be `q`. -/
theorem lookup?_move {source target q r : Place} (hq : q ≠ []) (hr : r ≠ [])
    (h : ∀ p, ((below source p || !below target p) && moved source target p == q) = (p == r)) :
    (t.move source target).lookup? q = t.lookup? r := by
  have hfind : (t.move source target).entries.find? (·.1 == q) =
      (t.entries.find? (·.1 == r)).map fun x => (moved source target x.1, x.2) := by
    rw [move, List.find?_map, List.find?_filter]
    congr 2
    funext x
    rw [← h x.1, Bool.decide_and, Bool.decide_eq_true, Bool.decide_eq_true]
    rfl
  rw [lookup?, lookup?, if_neg hq, if_neg hr, hfind, Option.map_map]
  rfl

theorem lookup?_move_other {source target q : Place} (hs : below source q = false)
    (ht : below target q = false) : (t.move source target).lookup? q = t.lookup? q := by
  by_cases hq : q = []
  · simp [hq]
  refine lookup?_move hq hq fun p => ?_
  rw [moved]
  by_cases hp : p = q
  · simp [hp, hs, ht]
  · by_cases hb : below source p = true
    · have hne : target ++ p.drop source.length ≠ q := by
        rintro rfl
        rw [← Bool.not_eq_true, below_iff] at ht
        exact ht (List.prefix_append _ _)
      simp [hb, hp, hne]
    · simp [hb, hp]

/-- What was below the source of a move is found below its target. -/
theorem lookup?_move_append {source target : Place} (hs : source ≠ []) (ht : target ≠ [])
    (rest : Place) :
    (t.move source target).lookup? (target ++ rest) = t.lookup? (source ++ rest) := by
  refine lookup?_move (by simp [ht]) (by simp [hs]) fun p => ?_
  rw [moved]
  by_cases hb : below source p = true
  · obtain ⟨rest', rfl⟩ := below_iff.1 hb
    simp [hb]
  · have hne : p ≠ source ++ rest := by
      rintro rfl
      exact hb (below_iff.2 (List.prefix_append _ _))
    by_cases hp : p = target ++ rest
    · have htarget : below target (target ++ rest) = true :=
        below_iff.2 (List.prefix_append _ _)
      rw [hp] at hb hne
      simp [hb, hp, hne, htarget]
    · simp [hb, beq_eq_false_iff_ne.2 hp, beq_eq_false_iff_ne.2 hne]

theorem lookup?_move_target {source target : Place} (hs : source ≠ []) (ht : target ≠ []) :
    (t.move source target).lookup? target = t.lookup? source := by
  have h := lookup?_move_append (t := t) hs ht []
  rwa [List.append_nil, List.append_nil] at h

theorem of_rename {source target : String} (h : t.rename source target = .ok t') :
    ∃ p q, t.locate source = .ok p ∧ t.locate target = .ok q ∧ t.lookup? p ≠ none ∧
      (p = q ∧ t' = t ∨ p ≠ [] ∧ q ≠ [] ∧ t' = t.move p q) := by
  unfold rename at h
  cases hp : t.locate source with
  | error f =>
    rw [hp] at h
    cases h
  | ok p =>
    cases hq : t.locate target with
    | error f =>
      rw [hp, hq] at h
      cases h
    | ok q =>
      simp only [hp, hq, bind, Except.bind] at h
      refine ⟨p, q, rfl, rfl, ?_⟩
      split at h
      · cases h
      cases hentry : t.lookup? p with
      | none =>
        rw [hentry] at h
        cases h
      | some entry =>
        refine ⟨by simp, ?_⟩
        cases entry with
        | file c =>
          simp only [hentry] at h
          have hp : p ≠ [] := by
            rintro rfl
            cases hentry
          split at h
          · cases h
          · split at h
            · next hpq =>
              cases h
              exact .inl ⟨hpq, rfl⟩
            · split at h
              · cases h
              · next hdir =>
                cases h
                exact .inr ⟨hp, fun hq => hdir (by rw [hq]; rfl), rfl⟩
        | directory =>
          simp only [hentry] at h
          split at h
          · next hpq =>
            cases h
            exact .inl ⟨hpq, rfl⟩
          · split at h
            · cases h
            · next hdown =>
              split at h
              · cases h
              · next hup =>
                -- the root is above everything
                refine .inr ⟨fun hp => hdown (by rw [hp]; rfl), fun hq => hup (by rw [hq]; rfl), ?_⟩
                split at h
                · cases h
                · split at h
                  · cases h
                  · cases h
                    rfl
                · cases h
                  rfl

end Tree

namespace Action

variable {t t' : Tree}

theorem of_bind {a : Action α} {f : α → Action β} {y : β} (h : (a >>= f) t = (.ok y, t')) :
    ∃ x t₁, a t = (.ok x, t₁) ∧ f x t₁ = (.ok y, t') := by
  rw [bind_run] at h
  rcases ha : a t with ⟨r, t₁⟩
  rw [ha] at h
  cases r with
  | ok x => exact ⟨x, t₁, rfl, h⟩
  | error e => cases h

theorem of_within {context : String} {a : Action α} {x : α}
    (h : within context a t = (.ok x, t')) : a t = (.ok x, t') := by
  rw [within_run] at h
  rcases ha : a t with ⟨r, t₁⟩
  rw [ha] at h
  cases r with
  | ok x' =>
    cases h
    rfl
  | error e => cases h

theorem of_query {context : String} {f : Tree → Except SystemFault α} {x : α}
    (h : query context f t = (.ok x, t')) : f t = .ok x ∧ t' = t := by
  unfold query at h
  split at h
  · next hf =>
    cases h
    exact ⟨hf, rfl⟩
  · cases h

theorem of_pureOf {cause : ε → Cause} {r : Except ε α} {x : α}
    (h : pureOf cause r t = (.ok x, t')) : r = .ok x ∧ t' = t := by
  cases r with
  | ok x' =>
    cases h
    exact ⟨rfl, rfl⟩
  | error e => cases h

theorem of_change {context : String} {f : Tree → Except SystemFault Tree}
    (h : change context f t = (.ok (), t')) : f t = .ok t' := by
  unfold change at h
  split at h
  · next hf =>
    cases h
    exact hf
  · cases h

theorem extends_makeParent {path : String} {r : Except Failure Unit}
    (h : makeParent path t = (r, t')) : t.Extends t' := by
  unfold makeParent at h
  cases hdir : Path.parent? path with
  | none =>
    rw [hdir] at h
    cases h
    exact .refl t
  | some dir =>
    have hmade := t.extends_makeDirectories dir
    simp only [hdir, attempt] at h
    split at h
    · next heq =>
      cases h
      rwa [heq] at hmade
    · next heq =>
      cases h
      rwa [heq] at hmade

end Action

namespace Edit

open ProjectSetup.Action

variable {t t' : Tree}

/-- The file that the edit moves away. -/
def source? : Edit → Option String
  | .rename source _ => some source
  | _ => none

theorem source?_eq_some_iff {e : Edit} {source : String} :
    e.source? = some source ↔ ∃ target, e = .rename source target := by
  cases e <;> simp [source?]

/-- The text that the edit writes to a file that held `old`. -/
def revised? (dir : String) (o : StyleOverrides) : Edit → Option Content → Option Text
  | .addImport file what, some (.text s) => (what.insert (join dir file) o s).toOption
  | .removeImport file source, some (.text s) => (Import.strip (join dir file) o source s).toOption
  | .addToArray file array what, some (.text s) => (what.register (join dir file) o array s).toOption
  | .write file content, _ => (normalize (join dir file) o content).toOption
  | .replace file old new, some (.text s) =>
    (Text.cut? old s).bind fun (before, rest) =>
      (normalize (join dir file) o (before ++ new ++ rest)).toOption
  | _, _ => none

theorem of_revise {path : String} {f : Text → Except EditFault Text}
    (h : revise path f t = (.ok (), t')) :
    ∃ s s', t.file? (place path) = some (.text s) ∧ f s = .ok s' ∧ t.writeText path s' = .ok t' := by
  obtain ⟨s, t₁, hread, hrest⟩ := of_bind h
  obtain ⟨s', t₂, hedit, hlast⟩ := of_bind hrest
  obtain ⟨hold, rfl⟩ := of_query hread
  obtain ⟨hnew, rfl⟩ := of_pureOf hedit
  exact ⟨s, s', Tree.file?_of_readText hold, hnew, of_change hlast⟩

theorem of_replaceFirst {path : String} {o : StyleOverrides} {old new : Text}
    (h : replaceFirst path o old new t = (.ok (), t')) :
    ∃ s before rest s', t.file? (place path) = some (.text s) ∧
      Text.cut? old s = some (before, rest) ∧ normalize path o (before ++ new ++ rest) = .ok s' ∧
      t.writeText path s' = .ok t' := by
  obtain ⟨s, t₁, hread, hrest⟩ := of_bind h
  obtain ⟨hold, rfl⟩ := of_query hread
  cases hcut : Text.cut? old s with
  | none =>
    rw [hcut] at hrest
    cases hrest
  | some sides =>
    rw [hcut] at hrest
    obtain ⟨s', t₂, hformat, hlast⟩ := of_bind hrest
    obtain ⟨hnew, rfl⟩ := of_pureOf (of_within hformat)
    exact ⟨s, sides.1, sides.2, s', Tree.file?_of_readText hold, hcut, hnew, of_change hlast⟩

theorem of_writeFile {path : String} {o : StyleOverrides} {content : Text}
    (h : writeFile path o content t = (.ok (), t')) :
    ∃ t₁ s, t.Extends t₁ ∧ normalize path o content = .ok s ∧ t₁.writeText path s = .ok t' := by
  obtain ⟨s, t₁, hformat, hrest⟩ := of_bind h
  obtain ⟨_, t₂, hparent, hlast⟩ := of_bind hrest
  obtain ⟨hnew, rfl⟩ := of_pureOf (of_within hformat)
  exact ⟨t₂, s, extends_makeParent hparent, hnew, of_change hlast⟩

theorem of_renameFile {source target : String} (h : renameFile source target t = (.ok (), t')) :
    ∃ t₁, t.Extends t₁ ∧ t₁.rename source target = .ok t' := by
  obtain ⟨_, t₁, hparent, h⟩ := of_bind h
  exact ⟨t₁, extends_makeParent hparent, of_change h⟩

/-- An edit that is done has made the directories that it needs, and then has moved a file to its
target or written its target. -/
theorem of_apply {dir : String} {o : StyleOverrides} {e : Edit}
    (h : e.apply dir o t = (.ok (), t')) :
    ∃ t₁, t.Extends t₁ ∧ match e.source? with
      | some source => t₁.rename (join dir source) (join dir e.target) = .ok t'
      | none => ∃ s, e.revised? dir o (t.file? (place (join dir e.target))) = some s ∧
          t₁.writeText (join dir e.target) s = .ok t' := by
  cases e with
  | addImport file what =>
    obtain ⟨s, s', hold, hnew, hwrite⟩ := of_revise h
    exact ⟨t, .refl t, s', by simp [revised?, target, hold, hnew, Except.toOption], hwrite⟩
  | removeImport file source =>
    obtain ⟨s, s', hold, hnew, hwrite⟩ := of_revise h
    exact ⟨t, .refl t, s', by simp [revised?, target, hold, hnew, Except.toOption], hwrite⟩
  | addToArray file array what =>
    obtain ⟨s, s', hold, hnew, hwrite⟩ := of_revise h
    exact ⟨t, .refl t, s', by simp [revised?, target, hold, hnew, Except.toOption], hwrite⟩
  | rename source target => exact of_renameFile h
  | write file content =>
    obtain ⟨t₁, s, hext, hnew, hwrite⟩ := of_writeFile h
    exact ⟨t₁, hext, s, by simp [revised?, hnew, Except.toOption], hwrite⟩
  | replace file old new =>
    obtain ⟨s, before, rest, s', hold, hcut, hnew, hwrite⟩ := of_replaceFirst h
    rw [List.append_assoc] at hnew
    exact ⟨t, .refl t, s', by simp [revised?, target, hold, hcut, hnew, Except.toOption], hwrite⟩

/-- The place lies where the edit may have changed something. -/
def Reaches (e : Edit) (dir : String) (p : Place) : Prop :=
  Tree.below (place (join dir e.target)) p = true ∨
    ∃ source, e.source? = some source ∧ Tree.below (place (join dir source)) p = true

/-- The edit neither moves `path` away nor puts something around it. -/
def Spares (e : Edit) (path : String) : Prop :=
  (∀ source, e.source? = some source → Tree.below (names source) (names path) = false) ∧
    (Tree.below (names e.target) (names path) = true → names path = names e.target)

/-- The paths of the edit are plain. -/
structure Proper (e : Edit) : Prop where
  target : Plain e.target
  source : ∀ source, e.source? = some source → Plain source

theorem Proper.reaches_iff {e : Edit} (h : e.Proper) {dir : String} {ns : List String} :
    e.Reaches dir (place dir ++ ns) ↔ Tree.below (names e.target) ns = true ∨
      ∃ source, e.source? = some source ∧ Tree.below (names source) ns = true := by
  have hsource : ∀ source, e.source? = some source ∧
      Tree.below (place (join dir source)) (place dir ++ ns) = true ↔
        e.source? = some source ∧ Tree.below (names source) ns = true := by
    refine fun source => and_congr_right fun hs => ?_
    rw [Path.place_join dir (h.source source hs), Tree.below_append_iff]
  rw [Reaches, Path.place_join dir h.target, Tree.below_append_iff]
  simp only [hsource]

/-- On the way to a path that it spares, an edit reaches its own target at most. -/
theorem Proper.not_reaches {e : Edit} (h : e.Proper) {dir path : String} {ns : List String}
    (hspares : e.Spares path) (hns : ns <+: names path) (hne : ns ≠ names e.target) :
    ¬ e.Reaches dir (place dir ++ ns) := by
  rw [h.reaches_iff]
  rintro (htarget | ⟨source, hs, hsource⟩)
  · have htarget := Tree.below_iff.1 htarget
    have hpath := hspares.2 (Tree.below_iff.2 (htarget.trans hns))
    rw [hpath] at hns
    exact hne (hns.eq_of_length (Nat.le_antisymm hns.length_le htarget.length_le))
  · have hpath := Tree.below_iff.2 ((Tree.below_iff.1 hsource).trans hns)
    rw [hspares.1 source hs] at hpath
    cases hpath

/-- What holds of the tree after an edit that is done. -/
structure Done (e : Edit) (dir : String) (t t' : Tree) : Prop where
  stands : t'.Stands dir e.target
  rest : ∃ t₁, t.Extends t₁ ∧ ∀ p, ¬ e.Reaches dir p → t'.lookup? p = t₁.lookup? p
  enters : e.source? = none → t'.Enters dir

theorem Done.kept {e : Edit} {dir : String} (h : e.Done dir t t') {p : Place} {entry : Entry}
    (hp : ¬ e.Reaches dir p) (hentry : t.lookup? p = some entry) : t'.lookup? p = some entry := by
  obtain ⟨t₁, hext, hrest⟩ := h.rest
  rw [hrest p hp]
  exact hext.kept hentry

theorem ne_of_prefix_dropLast {ns ms : List String} (hne : ns ≠ []) (h : ms <+: ns.dropLast) :
    ms ≠ ns := by
  rintro rfl
  have hlen := h.length_le
  rw [List.length_dropLast] at hlen
  have := List.length_pos_of_ne_nil hne
  omega

theorem done_of_write {dir : String} {t₁ : Tree} {e : Edit} {s : Text} (hproper : e.Proper)
    (hext : t.Extends t₁) (h : t₁.writeText (join dir e.target) s = .ok t') : e.Done dir t t' := by
  obtain ⟨p, hlocate, hfile, rfl⟩ := Tree.of_writeText h
  obtain ⟨hdir, hwalks, rfl⟩ := (Tree.locate_join_iff hproper.target).1 hlocate
  have hkept : ∀ p, t₁.lookup? p = some .directory →
      (t₁.set (place dir ++ names e.target) (.file (.text s))).lookup? p = some .directory := by
    intro p hp
    rwa [Tree.lookup?_set_other]
    rintro rfl
    exact hfile hp
  constructor
  · refine ⟨hwalks.mono hkept, ?_⟩
    rw [Tree.lookup?_set_self]
    · simp
    · simp [hproper.target.named]
  · refine ⟨t₁, hext, fun p hp => Tree.lookup?_set_other t₁ _ ?_⟩
    rintro rfl
    exact hp (hproper.reaches_iff.2 (.inl (Tree.below_iff.2 (List.prefix_refl _))))
  · exact fun _ => hdir.mono hkept

theorem done_of_rename {dir source : String} {t₁ : Tree} {e : Edit} (hproper : e.Proper)
    (hspares : e.Spares e.target) (hs : e.source? = some source) (hext : t.Extends t₁)
    (h : t₁.rename (join dir source) (join dir e.target) = .ok t') : e.Done dir t t' := by
  obtain ⟨p, q, hp, hq, hfound, hmove⟩ := Tree.of_rename h
  obtain ⟨-, -, rfl⟩ := (Tree.locate_join_iff (hproper.source source hs)).1 hp
  obtain ⟨-, hwalks, rfl⟩ := (Tree.locate_join_iff hproper.target).1 hq
  obtain ⟨hsame, -⟩ | ⟨hp, hq, rfl⟩ := hmove
  · have habove := hspares.1 source hs
    rw [← List.append_cancel_left hsame, ← Bool.not_eq_true, Tree.below_iff] at habove
    exact absurd (List.prefix_refl _) habove
  have hother : ∀ p, ¬ e.Reaches dir p →
      (t₁.move (place dir ++ names source) (place dir ++ names e.target)).lookup? p =
        t₁.lookup? p := by
    intro p hp
    rw [Reaches, Path.place_join dir hproper.target, not_or, Bool.not_eq_true] at hp
    refine Tree.lookup?_move_other ?_ hp.1
    rw [← Path.place_join dir (hproper.source source hs), ← Bool.not_eq_true]
    exact fun hbelow => hp.2 ⟨source, hs, hbelow⟩
  constructor
  · refine ⟨fun ms hms hne => ?_, ?_⟩
    · have hpath := hms.trans (List.dropLast_prefix _)
      have hdown : ".." ∉ ms := fun h => hproper.target.down (hpath.subset h)
      rw [Path.goal_of_down _ hdown, hother _ (hproper.not_reaches hspares hpath
        (ne_of_prefix_dropLast hproper.target.named hms)), ← Path.goal_of_down _ hdown]
      exact hwalks ms hms hne
    · rwa [Tree.lookup?_move_target hp hq]
  · exact ⟨t₁, hext, hother⟩
  · intro hnone
    rw [hs] at hnone
    cases hnone

theorem done_of_apply {dir : String} {o : StyleOverrides} {e : Edit} (hproper : e.Proper)
    (hspares : e.Spares e.target) (h : e.apply dir o t = (.ok (), t')) : e.Done dir t t' := by
  obtain ⟨t₁, hext, h⟩ := of_apply h
  cases hs : e.source? with
  | none =>
    rw [hs] at h
    obtain ⟨s, -, hwrite⟩ := h
    exact done_of_write hproper hext hwrite
  | some source =>
    rw [hs] at h
    exact done_of_rename hproper hspares hs hext h

/-- What stands goes on standing where it is spared. -/
theorem Done.keeps {e : Edit} {dir path : String} (h : e.Done dir t t') (hproper : e.Proper)
    (hspares : e.Spares path) (hplain : Plain path) (hstands : t.Stands dir path) :
    t'.Stands dir path := by
  by_cases hsame : names path = names e.target
  · exact ⟨by rw [hsame]; exact h.stands.walks, by rw [hsame]; exact h.stands.there⟩
  constructor
  · intro ms hms hne
    have hpath := hms.trans (List.dropLast_prefix _)
    have hdown : ".." ∉ ms := fun h => hplain.down (hpath.subset h)
    have htarget : ms ≠ names e.target := by
      rintro rfl
      exact hsame (hspares.2 (Tree.below_iff.2 hpath))
    have hwalks := hstands.walks ms hms hne
    rw [Path.goal_of_down _ hdown] at hwalks ⊢
    exact h.kept (hproper.not_reaches hspares hpath htarget) hwalks
  · obtain ⟨entry, hentry⟩ := Option.ne_none_iff_exists'.1 hstands.there
    rw [h.kept (hproper.not_reaches hspares (List.prefix_refl _) hsame) hentry]
    simp

end Edit

end ProjectSetup
