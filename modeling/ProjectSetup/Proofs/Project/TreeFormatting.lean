import Mathlib.Data.List.Nodup
import ProjectSetup.Proofs.Layout.Finishing
import ProjectSetup.Proofs.Project.Effects

/-!
# Formatting of trees

Formatting a tree goes over the scripts below a directory one by one, and each of them is read,
normalized and written. No two of the paths lead to the same place, so what is read there is what
the tree held in the beginning, and what is written there stays.
-/
namespace ProjectSetup

open ProjectSetup.Path (place names join)

namespace Path

/-- A name of an entry in a directory. -/
structure IsName (n : String) : Prop where
  ne_empty : n ≠ ""
  ne_dot : n ≠ "."
  ne_dots : n ≠ ".."
  no_slash : '/' ∉ n.toList

instance (n : String) : Decidable (IsName n) :=
  decidable_of_iff (n ≠ "" ∧ n ≠ "." ∧ n ≠ ".." ∧ '/' ∉ n.toList)
    ⟨fun ⟨h₁, h₂, h₃, h₄⟩ => ⟨h₁, h₂, h₃, h₄⟩, fun ⟨h₁, h₂, h₃, h₄⟩ => ⟨h₁, h₂, h₃, h₄⟩⟩

/-- The path with the given names. -/
def ofNames (ns : List String) : String := String.intercalate "/" ns

variable {n : String} {ns : List String}

theorem ofNames_concat (ns : List String) (n : String) :
    ∃ front, ofNames (ns ++ [n]) = front ++ n := by
  induction ns with
  | nil => exact ⟨"", by simp [ofNames]⟩
  | cons m ns ih =>
    obtain ⟨front, hfront⟩ := ih
    obtain ⟨k, ks, hks⟩ := List.exists_cons_of_ne_nil (show ns ++ [n] ≠ [] by simp)
    refine ⟨m ++ "/" ++ front, ?_⟩
    rw [ofNames, hks] at hfront
    rw [ofNames, List.cons_append, hks, String.intercalate_cons_cons, hfront]
    simp only [String.append_assoc]

theorem IsName.names_eq (h : IsName n) : names n = [n] := by
  have hne : n.toList ≠ [] := fun he => h.ne_empty (String.toList_eq_nil_iff.1 he)
  have hdot : n.toList ≠ ['.'] := fun he => h.ne_dot (String.toList_injective he)
  simp [names, Text.splitOn_of_not_mem h.no_slash, hne, hdot]

/-- The names of a path are found again. -/
theorem names_ofNames (h : ∀ n ∈ ns, IsName n) : names (ofNames ns) = ns := by
  induction ns with
  | nil => rfl
  | cons n ns ih =>
    obtain ⟨hn, hns⟩ := List.forall_mem_cons.1 h
    cases ns with
    | nil => simpa [ofNames] using hn.names_eq
    | cons m ms =>
      rw [ofNames, String.intercalate_cons_cons, names_append_slash, hn.names_eq, ← ofNames, ih hns]
      rfl

theorem ofNames_isEmpty (h : ∀ n ∈ ns, IsName n) : (ofNames ns).isEmpty = ns.isEmpty := by
  cases ns with
  | nil => rfl
  | cons n ns =>
    have hne : ofNames (n :: ns) ≠ "" := by
      intro he
      have hnames := names_ofNames h
      rw [he] at hnames
      cases hnames
    simpa using hne

theorem IsName.endsInDirectory (h : IsName n) : endsInDirectory n = false := by
  have hslash : '/' ∉ n.toList.reverse := fun hm => h.no_slash (List.mem_reverse.1 hm)
  have hdot : n.toList.reverse ≠ ['.'] := by
    intro he
    exact h.ne_dot (String.toList_injective (List.reverse_eq_iff.1 he))
  unfold Path.endsInDirectory
  split <;> simp_all

theorem isAbsolute_ofNames (h : ∀ n ∈ ns, IsName n) : isAbsolute (ofNames ns) = false := by
  cases ns with
  | nil => rfl
  | cons n ms =>
    have hn := h n List.mem_cons_self
    obtain ⟨c, r, hc⟩ := List.exists_cons_of_ne_nil fun he =>
      hn.ne_empty (String.toList_eq_nil_iff.1 he)
    have hhead : (ofNames (n :: ms)).toList.head? = some c := by
      cases ms with
      | nil => simp [ofNames, hc]
      | cons m ms => simp [ofNames, String.intercalate_cons_cons, hc]
    have hslash : c ≠ '/' := by
      rintro rfl
      exact hn.no_slash (by simp [hc])
    rw [isAbsolute, hhead]
    simpa using hslash

theorem endsInDirectory_ofNames (hne : ns ≠ []) (h : ∀ n ∈ ns, IsName n) :
    endsInDirectory (ofNames ns) = false := by
  obtain ⟨front, n, rfl⟩ := (List.eq_nil_or_concat' ns).resolve_left hne
  have hn := h n (by simp)
  obtain ⟨dir, hdir⟩ := ofNames_concat front n
  rw [hdir]
  exact endsInDirectory_append dir (by simp [hn.names_eq]) hn.endsInDirectory

theorem plain_ofNames (hne : ns ≠ []) (h : ∀ n ∈ ns, IsName n) : Plain (ofNames ns) := by
  have hnames := names_ofNames h
  refine ⟨isAbsolute_ofNames h, by rwa [hnames], ?_, endsInDirectory_ofNames hne h⟩
  intro hm
  rw [hnames] at hm
  exact (h _ hm).ne_dots rfl

/-- The path of something that is called `path` as seen from `dir`; the empty path is `dir`. -/
def under (dir path : String) : String := if path.isEmpty then dir else join dir path

theorem place_under (dir : String) (h : ∀ n ∈ ns, IsName n) :
    place (under dir (ofNames ns)) = place dir ++ ns := by
  rw [under, ofNames_isEmpty h]
  cases ns with
  | nil => exact (List.append_nil _).symm
  | cons n ns =>
    have hplain := plain_ofNames (List.cons_ne_nil n ns) h
    rw [List.isEmpty_cons, if_neg Bool.false_ne_true, place_join dir hplain, names_ofNames h]

end Path

open ProjectSetup.Path (IsName ofNames under)

namespace Tree

variable {t : Tree}

/-- The entries are below the root in different places, and names lead to them. -/
structure WellFormed (t : Tree) : Prop where
  distinct : (t.entries.map (·.1)).Nodup
  inside : ∀ x ∈ t.entries, x.1 ≠ []
  named : ∀ x ∈ t.entries, ∀ n ∈ x.1, IsName n

theorem mem_entries_of_lookup? {p : Place} {e : Entry} (hp : p ≠ []) (h : t.lookup? p = some e) :
    (p, e) ∈ t.entries := by
  rw [lookup?, if_neg hp, Option.map_eq_some_iff] at h
  obtain ⟨⟨q, e'⟩, hfind, rfl⟩ := h
  obtain rfl : q = p := by simpa using List.find?_some hfind
  exact List.mem_of_find?_eq_some hfind

theorem WellFormed.lookup?_of_mem (ht : t.WellFormed) {p : Place} {e : Entry}
    (h : (p, e) ∈ t.entries) : t.lookup? p = some e := by
  have hp : p ≠ [] := ht.inside _ h
  cases hl : t.lookup? p with
  | none => exact absurd rfl (ne_of_lookup?_eq_none hl _ h)
  | some e' =>
    have hsame := List.inj_on_of_nodup_map ht.distinct (mem_entries_of_lookup? hp hl) h rfl
    rw [(Prod.mk.inj hsame).2]

theorem mem_files_iff {p : Place} {c : Content} :
    (p, c) ∈ t.files ↔ (p, Entry.file c) ∈ t.entries := by
  rw [files, List.mem_filterMap]
  constructor
  · rintro ⟨⟨q, e⟩, hmem, he⟩
    cases e with
    | directory => cases he
    | file c' =>
      cases he
      exact hmem
  · exact fun hmem => ⟨_, hmem, rfl⟩

theorem WellFormed.mem_files (ht : t.WellFormed) {p : Place} {c : Content} :
    (p, c) ∈ t.files ↔ t.lookup? p = some (.file c) := by
  rw [mem_files_iff]
  refine ⟨ht.lookup?_of_mem, fun h => mem_entries_of_lookup? ?_ h⟩
  rintro rfl
  cases h

theorem WellFormed.pairwise_files (ht : t.WellFormed) : t.files.Pairwise (·.1 ≠ ·.1) := by
  rw [files, List.pairwise_filterMap]
  refine (List.pairwise_map.1 ht.distinct).imp ?_
  rintro ⟨p, e⟩ ⟨q, e'⟩ hne x hx y hy
  cases e <;> cases hx
  cases e' <;> cases hy
  exact hne

variable {root p : Place} {ns : List String} {dir path : String}

theorem covered?_append (root ns : Place) :
    covered? root (root ++ ns) = if ns.dropLast.any isSkipped then none else some ns := by
  simp only [covered?, if_pos (below_iff.2 (List.prefix_append root ns)), List.drop_left]

theorem covered?_eq_some_iff :
    covered? root p = some ns ↔ p = root ++ ns ∧ ∀ n ∈ ns.dropLast, isSkipped n = false := by
  constructor
  · intro h
    by_cases hb : below root p = true
    · obtain ⟨ms, rfl⟩ := below_iff.1 hb
      rw [covered?_append, Option.ite_none_left_eq_some, Option.some.injEq] at h
      obtain ⟨hskip, rfl⟩ := h
      exact ⟨rfl, by simpa using hskip⟩
    · rw [covered?, if_neg hb] at h
      cases h
  · rintro ⟨rfl, hall⟩
    rw [covered?_append, if_neg (by simpa using hall)]

/-- The path, as seen from `dir`, of the script in a place that formatting covers. -/
def script? (dir : String) (root p : Place) : Option String :=
  (covered? root p).bind fun names =>
    if isScript (under dir (ofNames names)) then some (ofNames names) else none

theorem script?_eq_some_iff :
    script? dir root p = some path ↔ ∃ names, p = root ++ names ∧
      (∀ n ∈ names.dropLast, isSkipped n = false) ∧
      isScript (under dir (ofNames names)) = true ∧ ofNames names = path := by
  simp only [script?, Option.bind_eq_some_iff, covered?_eq_some_iff,
    Option.ite_none_right_eq_some, Option.some.injEq, and_assoc]

namespace WellFormed

theorem isName_of_file (ht : t.WellFormed) {c : Content}
    (h : t.lookup? (root ++ ns) = some (.file c)) : ∀ n ∈ ns, IsName n := by
  intro n hn
  exact ht.named _ (mem_files_iff.1 (ht.mem_files.2 h)) n (List.mem_append_right root hn)

theorem scripts_eq (ht : t.WellFormed) (dir : String) (root : Place) :
    t.scripts dir root =
      (t.files.filterMap fun x => script? dir root x.1).mergeSort fun a b => decide (a ≤ b) := by
  rw [scripts]
  congr 1
  refine List.filterMap_congr ?_
  rintro ⟨p, c⟩ hmem
  rw [script?]
  cases hc : covered? root p with
  | none => simp only [hc, Option.bind_eq_bind, Option.bind_none]
  | some names =>
    obtain ⟨rfl, -⟩ := covered?_eq_some_iff.1 hc
    have hnames := ht.isName_of_file (ht.mem_files.1 hmem)
    simp only [hc, Option.bind_eq_bind, Option.bind_some, under, Path.ofNames_isEmpty hnames]
    rfl

theorem mem_scripts (ht : t.WellFormed) : path ∈ t.scripts dir root ↔
    ∃ names c, t.lookup? (root ++ names) = some (.file c) ∧
      (∀ n ∈ names.dropLast, isSkipped n = false) ∧
      isScript (under dir (ofNames names)) = true ∧ ofNames names = path := by
  rw [ht.scripts_eq, List.mem_mergeSort, List.mem_filterMap]
  constructor
  · rintro ⟨⟨p, c⟩, hmem, hscript⟩
    obtain ⟨names, rfl, h⟩ := script?_eq_some_iff.1 hscript
    exact ⟨names, c, ht.mem_files.1 hmem, h⟩
  · rintro ⟨names, c, hfile, h⟩
    exact ⟨(root ++ names, c), ht.mem_files.2 hfile, script?_eq_some_iff.2 ⟨names, rfl, h⟩⟩

/-- No two scripts are in one place. -/
theorem nodup_scripts (ht : t.WellFormed) (dir : String) (root : Place) :
    ((t.scripts dir root).map fun path => place (under dir path)).Nodup := by
  rw [ht.scripts_eq, ((List.mergeSort_perm _ _).map _).nodup_iff, List.Nodup, List.pairwise_map,
    List.pairwise_filterMap]
  refine ht.pairwise_files.imp_of_mem ?_
  rintro ⟨p, c⟩ ⟨q, c'⟩ hp hq hne path hpath path' hpath' hsame
  obtain ⟨names, rfl, -, -, rfl⟩ := script?_eq_some_iff.1 hpath
  obtain ⟨names', rfl, -, -, rfl⟩ := script?_eq_some_iff.1 hpath'
  rw [Path.place_under dir (ht.isName_of_file (ht.mem_files.1 hp)),
    Path.place_under dir (ht.isName_of_file (ht.mem_files.1 hq))] at hsame
  exact hne (by rw [List.append_cancel_left hsame])

end WellFormed

end Tree

namespace Action

variable {o : StyleOverrides} {dir path : String} {t t' : Tree}

/-- The file that `path` leads to held `s` in `t` and holds its normal form `s'` in `t'`. -/
structure Brought (o : StyleOverrides) (path : String) (t t' : Tree) (s s' : Text) : Prop where
  before : t.lookup? (place path) = some (.file (.text s))
  normal : normalize path o s = .ok s'
  after : t'.lookup? (place path) = some (.file (.text s'))

theorem of_formatFile {b : Bool} (h : formatFile o path t = (.ok b, t')) :
    (∃ s s', Brought o path t t' s s' ∧ (b = true ↔ s' ≠ s)) ∧
      ∀ p ≠ place path, t'.lookup? p = t.lookup? p := by
  obtain ⟨s, t₁, hread, hrest⟩ := of_bind h
  obtain ⟨htext, rfl⟩ := of_query hread
  have hbefore := Tree.file?_eq_some_iff.1 (Tree.file?_of_readText htext)
  obtain ⟨s', t₂, hform, hdone⟩ := of_bind hrest
  obtain ⟨hnormal, rfl⟩ := of_pureOf (of_within hform)
  by_cases hsame : s' = s
  · rw [if_pos hsame] at hdone
    cases hdone
    subst hsame
    exact ⟨⟨s', s', ⟨hbefore, hnormal, hbefore⟩, by simp⟩, fun p hp => rfl⟩
  · rw [if_neg hsame] at hdone
    obtain ⟨_, t₃, hwrite, hend⟩ := of_bind hdone
    cases hend
    obtain ⟨p, hp, -, rfl⟩ := Tree.of_writeText (of_change hwrite)
    obtain ⟨-, rfl, -⟩ := Tree.locate_eq_ok_iff.1 hp
    have hroot : place path ≠ [] := by
      intro hnil
      rw [hnil] at hbefore
      cases hbefore
    exact ⟨⟨s, s', ⟨hbefore, hnormal, Tree.lookup?_set_self _ _ hroot⟩, by simpa using hsame⟩,
      fun q hq => Tree.lookup?_set_other _ _ hq⟩

/-- Files in different places are each brought into normal form, and nothing else changes. -/
theorem of_formatEach {paths changed : List String}
    (hn : (paths.map fun path => place (under dir path)).Nodup)
    (h : formatEach o dir paths t = (.ok changed, t')) :
    changed.Sublist paths ∧
      (∀ p ∉ paths.map fun path => place (under dir path), t'.lookup? p = t.lookup? p) ∧
      ∀ path ∈ paths, ∃ s s', Brought o (under dir path) t t' s s' ∧ (path ∈ changed ↔ s' ≠ s) := by
  induction paths generalizing changed t with
  | nil =>
    cases h
    exact ⟨.slnil, fun p _ => rfl, fun path hmem => absurd hmem List.not_mem_nil⟩
  | cons path rest ih =>
    obtain ⟨b, t₁, hfile, hrest⟩ := of_bind h
    obtain ⟨more, t₂, hmore, hend⟩ := of_bind hrest
    cases hend
    obtain ⟨⟨s, s', hbrought, hb⟩, hother⟩ := of_formatFile hfile
    rw [List.map_cons, List.nodup_cons] at hn
    obtain ⟨hsub, hothers, heach⟩ := ih hn.2 hmore
    have hpath : path ∉ rest := fun hmem => hn.1 (List.mem_map_of_mem hmem)
    refine ⟨?_, ?_, ?_⟩
    · cases b with
      | true => exact hsub.cons_cons path
      | false => exact hsub.cons path
    · intro p hp
      rw [List.map_cons, List.mem_cons, not_or] at hp
      exact (hothers p hp.2).trans (hother p hp.1)
    · intro path' hmem
      by_cases hsame : path' = path
      · subst hsame
        have hnot : path' ∉ more := fun hm => hpath (hsub.subset hm)
        refine ⟨s, s', ⟨hbrought.before, hbrought.normal, (hothers _ hn.1).trans hbrought.after⟩, ?_⟩
        rw [← hb]
        cases b <;> simp [hnot]
      · -- the file at `path` is another one
        have hmem' : path' ∈ rest := (List.mem_cons.1 hmem).resolve_left hsame
        have hplace : place (under dir path') ≠ place (under dir path) := fun heq =>
          hn.1 (heq ▸ List.mem_map_of_mem hmem')
        obtain ⟨r, r', hr, hiff⟩ := heach path' hmem'
        refine ⟨r, r', ⟨(hother _ hplace).symm.trans hr.before, hr.normal, hr.after⟩, ?_⟩
        rw [← hiff]
        cases b <;> simp [hsame]

theorem formatEach_of_formatTree {changed : List String}
    (h : formatTree o dir t = (.ok changed, t')) :
    formatEach o dir (t.scripts dir (place dir)) t = (.ok changed, t') := by
  obtain ⟨root, t₁, hwalk, hrest⟩ := of_bind h
  unfold walked at hwalk
  split at hwalk
  · next hfind =>
    cases hwalk
    obtain ⟨rfl, -⟩ := Tree.lookup?_of_find hfind
    exact hrest
  · cases hwalk

end Action

/-- Formatting of the directory `dir` brings the file with the given names below it from `s` to
`s'`. -/
structure Tree.Reformats (t : Tree) (o : StyleOverrides) (dir : String) (names : List String)
    (s s' : Text) : Prop where
  held : t.lookup? (place dir ++ names) = some (.file (.text s))
  covered : ∀ n ∈ names.dropLast, isSkipped n = false
  script : isScript (under dir (ofNames names)) = true
  normal : normalize (under dir (ofNames names)) o s = .ok s'
  changed : s' ≠ s

namespace Action

variable {o : StyleOverrides} {dir path : String} {t t' : Tree} {changed : List String}

/-- What is brought to another text on the way has names for which this is said of the tree. -/
theorem Brought.reformats (ht : t.WellFormed) (hpath : path ∈ t.scripts dir (place dir))
    {s s' : Text} (h : Brought o (under dir path) t t' s s') (hne : s' ≠ s) :
    ∃ names, ofNames names = path ∧ place (under dir path) = place dir ++ names ∧
      t.Reformats o dir names s s' := by
  obtain ⟨names, c, hfile, hcovered, hscript, rfl⟩ := ht.mem_scripts.1 hpath
  have hplace := Path.place_under dir (ht.isName_of_file hfile)
  exact ⟨names, rfl, hplace, hplace ▸ h.before, hcovered, hscript, h.normal, hne⟩

/-- Formatting of a tree changes the files that it has to change, and reports these. -/
theorem of_formatTree (ht : t.WellFormed) (h : formatTree o dir t = (.ok changed, t')) :
    changed.Nodup ∧
      (∀ names s s', t.Reformats o dir names s s' → ofNames names ∈ changed ∧
        t'.lookup? (place dir ++ names) = some (.file (.text s'))) ∧
      (∀ path ∈ changed, ∃ names s s', ofNames names = path ∧ t.Reformats o dir names s s') ∧
      ∀ p, t'.lookup? p ≠ t.lookup? p → ∃ names s s', p = place dir ++ names ∧
        t.Reformats o dir names s s' := by
  have hn := ht.nodup_scripts dir (place dir)
  obtain ⟨hsub, hother, heach⟩ := of_formatEach hn (formatEach_of_formatTree h)
  refine ⟨(hn.of_map _).sublist hsub, ?_, ?_, ?_⟩
  · intro names s s' hr
    have hplace := Path.place_under dir (ht.isName_of_file hr.held)
    obtain ⟨r, r', hb, hiff⟩ := heach (ofNames names)
      (ht.mem_scripts.2 ⟨names, _, hr.held, hr.covered, hr.script, rfl⟩)
    obtain rfl : r = s := by
      have hheld := hb.before.symm.trans (hplace ▸ hr.held)
      cases hheld
      rfl
    obtain rfl : r' = s' := Except.ok.inj (hb.normal.symm.trans hr.normal)
    exact ⟨hiff.2 hr.changed, hplace ▸ hb.after⟩
  · intro path hmem
    obtain ⟨s, s', hb, hiff⟩ := heach path (hsub.subset hmem)
    obtain ⟨names, hnames, -, hr⟩ := hb.reformats ht (hsub.subset hmem) (hiff.1 hmem)
    exact ⟨names, s, s', hnames, hr⟩
  · intro p hp
    have hscript := not_imp_comm.1 (hother p) hp
    obtain ⟨path, hmem, rfl⟩ := List.mem_map.1 hscript
    obtain ⟨s, s', hb, -⟩ := heach path hmem
    have hne : s' ≠ s := by
      rintro rfl
      exact hp (hb.after.trans hb.before.symm)
    obtain ⟨names, -, hplace, hr⟩ := hb.reformats ht hmem hne
    exact ⟨names, s, s', hplace, hr⟩

/-- Formatting of a tree changes exactly the scripts that no left-out directory holds and that are
not in normal form. These are in normal form afterwards, and the report lists the path of each of
them once. -/
theorem formatTree_exact (ht : t.WellFormed) (h : formatTree o dir t = (.ok changed, t')) :
    (∀ p, t'.lookup? p ≠ t.lookup? p ↔
        ∃ names s s', p = place dir ++ names ∧ t.Reformats o dir names s s') ∧
      (∀ names s s', t.Reformats o dir names s s' →
        t'.lookup? (place dir ++ names) = some (.file (.text s'))) ∧
      changed.Nodup ∧
      ∀ path, path ∈ changed ↔ ∃ names, path = ofNames names ∧
        t'.lookup? (place dir ++ names) ≠ t.lookup? (place dir ++ names) := by
  obtain ⟨hnodup, hdone, hlisted, honly⟩ := of_formatTree ht h
  have hmoved : ∀ names s s', t.Reformats o dir names s s' →
      t'.lookup? (place dir ++ names) ≠ t.lookup? (place dir ++ names) := by
    intro names s s' hr
    rw [(hdone names s s' hr).2, hr.held]
    simpa using hr.changed
  refine ⟨fun p => ⟨honly p, ?_⟩, fun names s s' hr => (hdone names s s' hr).2, hnodup,
    fun path => ⟨fun hmem => ?_, ?_⟩⟩
  · rintro ⟨names, s, s', rfl, hr⟩
    exact hmoved names s s' hr
  · obtain ⟨names, s, s', rfl, hr⟩ := hlisted path hmem
    exact ⟨names, rfl, hmoved names s s' hr⟩
  · rintro ⟨names, rfl, hne⟩
    obtain ⟨names', s, s', hsame, hr⟩ := honly _ hne
    obtain rfl := List.append_cancel_left hsame
    exact (hdone names s s' hr).1

/-- The name of the directory itself does not matter, nor do those of files. -/
theorem formatTree_exact_dist :
    let t : Tree := ⟨[(["dist"], .directory), (["dist", "c.css"], .file (.text "c \n".toList)),
      (["dist", "node_modules"], .directory),
      (["dist", "node_modules", "a.js"], .file (.text "a \n".toList)),
      (["dist", "src"], .directory), (["dist", "src", ".b.js"], .file (.text "b \n".toList))]⟩
    ∃ t', t.WellFormed ∧ formatTree {} "dist" t = (.ok ["src/.b.js"], t') ∧
      t'.lookup? ["dist", "src", ".b.js"] = some (.file (.text "b\n".toList)) ∧
      ∀ p, t'.lookup? p ≠ t.lookup? p ↔ ∃ names s s', p = "dist" :: names ∧
        t.Reformats {} "dist" names s s' := by
  intro t
  have ht : t.WellFormed := ⟨by decide +kernel, by decide +kernel, by decide +kernel⟩
  have hdone : (formatTree {} "dist" t).1 = .ok ["src/.b.js"] := by decide +kernel
  obtain ⟨hchanged, hbrought, -⟩ := formatTree_exact ht (Prod.ext hdone rfl)
  have hnormal : normalize "dist/src/.b.js" {} "b \n".toList = .ok "b\n".toList := by decide +kernel
  refine ⟨_, ht, Prod.ext hdone rfl, ?_, hchanged⟩
  exact hbrought ["src", ".b.js"] "b \n".toList "b\n".toList
    ⟨by decide +kernel, by decide +kernel, by decide +kernel, hnormal, by decide +kernel⟩

end Action

end ProjectSetup
