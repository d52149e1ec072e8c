import ProjectSetup.Project.Tree
import ProjectSetup.Proofs.Text.Splitting

/-!
# Places that paths lead to

Nothing in a tree leads elsewhere, so a path can be followed on paper: each name goes one step
down, and two dots go one step up. The tree only decides whether the path can be walked, which
takes a directory at every stop ahead of its end.
-/
namespace ProjectSetup

namespace Path

/-- The place one name further. -/
def next (here : Place) (n : String) : Place := if n = ".." then here.dropLast else here ++ [n]

/-- The place that names lead to from `here`. -/
def goal (here : Place) (ns : List String) : Place := ns.foldl next here

/-- The place that a path leads to. -/
def place (path : String) : Place := goal [] (names path)

@[simp] theorem goal_nil (here : Place) : goal here [] = here := rfl

@[simp] theorem goal_cons (here : Place) (n : String) (ns : List String) :
    goal here (n :: ns) = goal (next here n) ns := rfl

theorem goal_append (here : Place) (ns ms : List String) :
    goal here (ns ++ ms) = goal (goal here ns) ms := List.foldl_append

/-- Names that never go up are put behind each other. -/
theorem goal_of_down (here : Place) {ns : List String} (h : ".." ∉ ns) :
    goal here ns = here ++ ns := by
  induction ns generalizing here with
  | nil => simp
  | cons n ns ih =>
    rw [List.mem_cons, not_or] at h
    rw [goal_cons, ih _ h.2, next, if_neg (Ne.symm h.1)]
    simp

/-- A path to a file as seen from a directory: it leads down and names something. -/
structure Plain (path : String) : Prop where
  relative : isAbsolute path = false
  named : names path ≠ []
  down : ".." ∉ names path
  ends : endsInDirectory path = false

instance (path : String) : Decidable (Plain path) :=
  decidable_of_iff (isAbsolute path = false ∧ names path ≠ [] ∧ ".." ∉ names path ∧
      endsInDirectory path = false)
    ⟨fun ⟨h₁, h₂, h₃, h₄⟩ => ⟨h₁, h₂, h₃, h₄⟩, fun ⟨h₁, h₂, h₃, h₄⟩ => ⟨h₁, h₂, h₃, h₄⟩⟩

theorem names_empty : names "" = [] := rfl

theorem names_append_slash (dir path : String) :
    names (dir ++ "/" ++ path) = names dir ++ names path := by
  have hlist : (dir ++ "/" ++ path).toList = dir.toList ++ '/' :: path.toList := by simp
  simp only [names, hlist, Text.splitOn_append_cons, List.filter_append, List.map_append]

/-- Whether or not a slash has to be put between them, the names of both paths follow each other. -/
theorem names_join (dir : String) {path : String} (h : isAbsolute path = false) :
    names (join dir path) = names dir ++ names path := by
  unfold join
  by_cases hempty : dir = ""
  · simp [hempty, names_empty]
  · have hno : (isAbsolute path || dir.isEmpty) = false := by simp [h, hempty]
    rw [hno, if_neg Bool.false_ne_true]
    split
    · next hslash =>
      have hcut : dir = String.ofList dir.toList.dropLast ++ "/" := by
        apply String.toList_injective
        have hlast : dir.toList.getLast? = some '/' := by simpa using hslash
        simpa using (List.dropLast_append_getLast? '/' hlast).symm
      have hdir : names dir = names (String.ofList dir.toList.dropLast) := by
        conv_lhs => rw [hcut, ← String.append_empty (s := _ ++ "/"), names_append_slash]
        simp [names_empty]
      rw [hdir, hcut, names_append_slash]
      simp
    · exact names_append_slash dir path

theorem endsInDirectory_append (dir : String) {path : String} (hnamed : names path ≠ [])
    (h : endsInDirectory path = false) : endsInDirectory (dir ++ path) = false := by
  have hlist : (dir ++ path).toList.reverse = path.toList.reverse ++ dir.toList.reverse := by simp
  unfold endsInDirectory at h ⊢
  rw [hlist]
  generalize dir.toList.reverse = front
  cases hback : path.toList.reverse with
  | nil =>
    rw [List.reverse_eq_nil_iff, String.toList_eq_nil_iff] at hback
    exact absurd (by rw [hback]; rfl) hnamed
  | cons c back =>
    rw [hback] at h
    -- the character ahead of the last one comes from `path`, unless the last one is all there is
    cases back with
    | nil => grind
    | cons c' back => grind

theorem endsInDirectory_join (dir : String) {path : String} (h : Plain path) :
    endsInDirectory (join dir path) = false := by
  unfold join
  split
  · exact h.ends
  · split
    · exact endsInDirectory_append dir h.named h.ends
    · exact endsInDirectory_append (dir ++ "/") h.named h.ends

theorem place_join (dir : String) {path : String} (h : Plain path) :
    place (join dir path) = place dir ++ names path := by
  rw [place, names_join dir h.relative, goal_append, goal_of_down _ h.down, place]

theorem extension?_join (dir : String) {path : String} (h : Plain path) :
    extension? (join dir path) = extension? path := by
  simp only [extension?, fileName?, names_join dir h.relative,
    List.getLast?_append_of_ne_nil _ h.named]

end Path

namespace Tree

open ProjectSetup.Path

/-- From `here`, every name leads to a directory. -/
def Walks (t : Tree) (here : Place) (ns : List String) : Prop :=
  ∀ ms, ms <+: ns → ms ≠ [] → t.lookup? (goal here ms) = some .directory

theorem walks_nil (t : Tree) (here : Place) : t.Walks here [] :=
  fun _ hms hne => absurd (List.prefix_nil.1 hms) hne

theorem walks_cons_iff {t : Tree} {here : Place} {n : String} {ns : List String} :
    t.Walks here (n :: ns) ↔
      t.lookup? (next here n) = some .directory ∧ t.Walks (next here n) ns := by
  constructor
  · intro h
    exact ⟨h [n] (by simp) (by simp), fun ms hms _ => h (n :: ms) (by simpa using hms) (by simp)⟩
  · rintro ⟨hn, h⟩ ms hms hne
    obtain rfl | ⟨ms', rfl, hms'⟩ := List.prefix_cons_iff.1 hms
    · exact absurd rfl hne
    · by_cases he : ms' = []
      · simpa [he] using hn
      · exact h ms' hms' he

theorem walks_append_iff {t : Tree} {here : Place} {ns ms : List String} :
    t.Walks here (ns ++ ms) ↔ t.Walks here ns ∧ t.Walks (goal here ns) ms := by
  induction ns generalizing here with
  | nil => simp [walks_nil]
  | cons n ns ih => rw [List.cons_append, walks_cons_iff, walks_cons_iff, ih, goal_cons, and_assoc]

theorem Walks.mono {t t' : Tree} {here : Place} {ns : List String} (h : t.Walks here ns)
    (hkept : ∀ p, t.lookup? p = some .directory → t'.lookup? p = some .directory) :
    t'.Walks here ns :=
  fun ms hms hne => hkept _ (h ms hms hne)

/-- Names can be followed if all but the last lead to directories. -/
theorem follow_eq_ok_iff {t : Tree} {here p : Place} {ns : List String} :
    t.follow here ns = .ok p ↔ p = goal here ns ∧ t.Walks here ns.dropLast := by
  induction ns generalizing here with
  | nil => simp [follow, walks_nil, eq_comm]
  | cons n ns ih =>
    cases ns with
    | nil => simp [follow, walks_nil, eq_comm, next]
    | cons m ns =>
      rw [List.dropLast_cons_cons, walks_cons_iff, goal_cons, follow, ← next]
      swap
      · exact List.cons_ne_nil m ns
      cases hl : t.lookup? (next here n) with
      | none => simp
      | some entry =>
        cases entry with
        | file c => simp
        | directory => simpa using ih

/-- The directories on the way to `dir` are there, and so is `dir`. -/
def Enters (t : Tree) (dir : String) : Prop := t.Walks [] (names dir)

theorem locate_eq_ok_iff {t : Tree} {path : String} {p : Place} :
    t.locate path = .ok p ↔
      path ≠ "" ∧ p = place path ∧ t.Walks [] (names path).dropLast := by
  unfold locate
  by_cases hempty : path = ""
  · simp [hempty]
  · simp [hempty, follow_eq_ok_iff, place]

theorem locate_join_iff {t : Tree} {dir path : String} {p : Place} (h : Plain path) :
    t.locate (join dir path) = .ok p ↔
      t.Enters dir ∧ t.Walks (place dir) (names path).dropLast ∧ p = place dir ++ names path := by
  have hne : join dir path ≠ "" := by
    intro hempty
    have hnames := names_join dir h.relative
    rw [hempty, names_empty] at hnames
    exact h.named (List.append_eq_nil_iff.1 hnames.symm).2
  rw [locate_eq_ok_iff, place_join dir h, names_join dir h.relative,
    List.dropLast_append_of_ne_nil h.named, walks_append_iff, Enters]
  exact ⟨fun ⟨_, hp, hdir, hpath⟩ => ⟨hdir, hpath, hp⟩,
    fun ⟨hdir, hpath, hp⟩ => ⟨hne, hp, hdir, hpath⟩⟩

/-- Something is at `path`, as seen from `dir`, and the directories on the way from `dir` to it are
there. -/
structure Stands (t : Tree) (dir path : String) : Prop where
  walks : t.Walks (place dir) (names path).dropLast
  there : t.lookup? (place dir ++ names path) ≠ none

/-- What stands is found, if the directory can be entered from which it is seen. -/
theorem Stands.find {t : Tree} {dir path : String} (h : t.Stands dir path) (hplain : Plain path)
    (hdir : t.Enters dir) : ∃ e, t.find (join dir path) = .ok (place (join dir path), e) := by
  obtain ⟨e, he⟩ := Option.ne_none_iff_exists'.1 h.there
  have hlocate := (locate_join_iff hplain).2 ⟨hdir, h.walks, rfl⟩
  refine ⟨e, ?_⟩
  simp only [Tree.find, hlocate, place_join dir hplain, bind, Except.bind, he,
    endsInDirectory_join dir hplain]
  cases e with
  | directory => rfl
  | file c => rfl

end Tree

end ProjectSetup
