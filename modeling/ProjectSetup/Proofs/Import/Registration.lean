import ProjectSetup.Proofs.Import.Entries
import ProjectSetup.Proofs.Import.Insertion
import ProjectSetup.Proofs.Layout.Loss

/-!
# Registration in arrays

The first array with a name stays the first one when its entries are written anew. A registration
lays out the text with the import and the entries that are written; when it is made again it changes
nothing, unless a name that is registered falls apart.
-/
namespace ProjectSetup

open Import (Name)
open Text (essence)

namespace ArraySite

variable {name t e g a : Text} {prev : Option Char} {s : ArraySite}

/-- What stands between the name of an array and its entries: a colon or an equals sign, and a
bracket that opens. -/
def Gap (g : Text) : Prop :=
  ∃ (p q : Text) (m : Char), p.all Text.isBlank = true ∧ (m = ':' ∨ m = '=') ∧
    q.all Text.isBlank = true ∧ g = p ++ m :: (q ++ ['['])

/-- The entries of an array end where a bracket closes it. -/
def Closes (e a : Text) : Prop := ']' ∉ e ∧ a.head? = some ']'

theorem Closes.cut (h : Closes e a) :
    (e ++ a).takeWhile (· ≠ ']') = e ∧ (e ++ a).dropWhile (· ≠ ']') = a := by
  obtain ⟨c, a, rfl⟩ : ∃ c r, a = c :: r := List.exists_cons_of_ne_nil fun ha => by
    rw [ha] at h
    cases h.2
  obtain rfl : c = ']' := Option.some.inj h.2
  have he : ∀ c ∈ e, decide (c ≠ ']') = true := fun c hc =>
    decide_eq_true fun hclose : c = ']' => h.1 (hclose ▸ hc)
  rw [List.takeWhile_append_of_pos he, List.dropWhile_append_of_pos he]
  simp

/-- A text with a closing bracket can be cut at the first one. -/
theorem exists_closes (h : ']' ∈ t) : ∃ e a, Closes e a ∧ t = e ++ a := by
  refine ⟨t.takeWhile (· ≠ ']'), t.dropWhile (· ≠ ']'), ⟨fun hmem => ?_, ?_⟩,
    List.takeWhile_append_dropWhile.symm⟩
  · simpa using List.mem_takeWhile_imp hmem
  · have hhead := List.head?_dropWhile_not (· ≠ ']') t
    cases hdrop : t.dropWhile (· ≠ ']') with
    | nil =>
      have hall := List.dropWhile_eq_nil_iff.1 hdrop _ h
      simp at hall
    | cons c r =>
      rw [hdrop] at hhead
      simpa using hhead

theorem take_sub_length (g r : Text) : (g ++ r).take ((g ++ r).length - r.length) = g := by
  rw [List.length_append, Nat.add_sub_cancel, List.take_left]

/-- Entries that are read stand between a gap and a closing bracket. -/
theorem exists_of_entries? (h : entries? t = some (g, e, a)) :
    Gap g ∧ Closes e a ∧ t = g ++ (e ++ a) := by
  rw [entries?] at h
  split at h
  · cases h
  · next m r hm =>
    split at h
    · next hsign =>
      split at h
      · next inner hopen =>
        simp only at h
        split at h
        · cases h
        · next hrest =>
          have ht : t = (t.takeWhile Text.isBlank ++
              m :: (r.takeWhile Text.isBlank ++ ['['])) ++ inner := by
            conv_lhs => rw [← List.takeWhile_append_dropWhile (p := Text.isBlank) (l := t), hm,
              ← List.takeWhile_append_dropWhile (p := Text.isBlank) (l := r), hopen]
            simp
          have htake : t.take (t.length - inner.length) =
              t.takeWhile Text.isBlank ++ m :: (r.takeWhile Text.isBlank ++ ['[']) := by
            conv_lhs => rw [ht, take_sub_length]
          have hmem : ']' ∈ inner := by
            by_contra hmem
            refine hrest (List.isEmpty_iff.2 (List.dropWhile_eq_nil_iff.2 fun c hc => ?_))
            exact decide_eq_true fun he : c = ']' => hmem (he ▸ hc)
          obtain ⟨e', a', hclose, hinner⟩ := exists_closes hmem
          rw [htake, hinner, hclose.cut.1, hclose.cut.2, Option.some.injEq, Prod.mk.injEq,
            Prod.mk.injEq] at h
          obtain ⟨rfl, rfl, rfl⟩ := h
          exact ⟨⟨_, _, m, List.all_takeWhile, by simpa using hsign, List.all_takeWhile, rfl⟩,
            hclose, hinner ▸ ht⟩
      · cases h
    · cases h

theorem entries?_append (hg : Gap g) (hclose : Closes e a) :
    entries? (g ++ (e ++ a)) = some (g, e, a) := by
  obtain ⟨p, q, m, hp, hm, hq, rfl⟩ := hg
  have hsign : Text.isBlank m = false ∧ (m = ':' || m = '=') = true := by
    rcases hm with rfl | rfl <;> decide
  have hopen : Text.isBlank '[' = false := by decide
  have hrest : a.isEmpty = false := by
    cases a with
    | nil => cases hclose.2
    | cons c a => rfl
  have hsigned : ((p ++ m :: (q ++ ['['])) ++ (e ++ a)).dropWhile Text.isBlank =
      m :: (q ++ '[' :: (e ++ a)) := by
    rw [List.append_assoc, List.dropWhile_append_of_pos (List.all_eq_true.1 hp), List.cons_append,
      List.dropWhile_cons_of_neg (by simp [hsign.1]), List.append_assoc]
    rfl
  have hopened : (q ++ '[' :: (e ++ a)).dropWhile Text.isBlank = '[' :: (e ++ a) := by
    rw [List.dropWhile_append_of_pos (List.all_eq_true.1 hq),
      List.dropWhile_cons_of_neg (by simp [hopen])]
  rw [entries?, hsigned]
  simp only [hsign.2, if_true, hopened, hclose.cut, hrest, Bool.false_eq_true, if_false,
    take_sub_length]

theorem entries?_eq_some_iff :
    entries? t = some (g, e, a) ↔ Gap g ∧ Closes e a ∧ t = g ++ (e ++ a) :=
  ⟨exists_of_entries?, fun ⟨hg, hclose, ht⟩ => ht ▸ entries?_append hg hclose⟩

/-- The array whose name begins right here, cut behind the name. -/
def here? (name : Text) (prev : Option Char) (t : Text) : Option (Text × Text × Text) :=
  if isBoundary prev t.head? then (Text.after? name t).bind entries? else none

theorem here?_eq_some_iff : here? name prev t = some (g, e, a) ↔
    isBoundary prev t.head? = true ∧ Gap g ∧ Closes e a ∧ t = name ++ (g ++ (e ++ a)) := by
  rw [here?]
  split
  · next hword =>
    simp only [Option.bind_eq_some_iff, Text.after?_eq_some_iff, entries?_eq_some_iff, hword,
      true_and]
    constructor
    · rintro ⟨r, rfl, hgap, hclose, rfl⟩
      exact ⟨hgap, hclose, rfl⟩
    · rintro ⟨hgap, hclose, rfl⟩
      exact ⟨_, rfl, hgap, hclose, rfl⟩
  · next hword => simp [hword]

theorem find?_of_here (h : here? name prev t = some (g, e, a)) :
    find? name prev t = some ⟨name ++ g, e, a⟩ := by
  rw [here?] at h
  cases t with
  | nil => simp only [find?, h]
  | cons c r => simp only [find?, h]

theorem find?_nil_of_not_here (h : here? name prev [] = none) : find? name prev [] = none := by
  rw [here?] at h
  simp only [find?, h]

theorem find?_cons_of_not_here {c : Char} {r : Text} (h : here? name prev (c :: r) = none) :
    find? name prev (c :: r) =
      (find? name (some c) r).map fun s => { s with before := c :: s.before } := by
  rw [here?] at h
  rw [find?]
  simp only [h]

/-- The search for the first array with the name, character by character. -/
inductive First (name : Text) : Option Char → Text → ArraySite → Prop where
  | here {prev : Option Char} {t g e a : Text} : here? name prev t = some (g, e, a) →
      First name prev t ⟨name ++ g, e, a⟩
  | skip {prev : Option Char} {c : Char} {r : Text} {s : ArraySite} :
      here? name prev (c :: r) = none → First name (some c) r s →
        First name prev (c :: r) { s with before := c :: s.before }

theorem find?_eq_some_iff : find? name prev t = some s ↔ First name prev t s := by
  constructor
  · intro h
    have hhere {prev : Option Char} {t g e a : Text} {s : ArraySite}
        (hsome : here? name prev t = some (g, e, a)) (h : find? name prev t = some s) :
        First name prev t s := by
      rw [find?_of_here hsome] at h
      cases h
      exact .here hsome
    induction t generalizing prev s with
    | nil =>
      cases hfirst : here? name prev [] with
      | none =>
        rw [find?_nil_of_not_here hfirst] at h
        cases h
      | some found => exact hhere hfirst h
    | cons c r ih =>
      cases hfirst : here? name prev (c :: r) with
      | none =>
        rw [find?_cons_of_not_here hfirst] at h
        obtain ⟨s', hs', rfl⟩ := Option.map_eq_some_iff.1 h
        exact .skip hfirst (ih hs')
      | some found => exact hhere hfirst h
  · intro h
    induction h with
    | here hfirst => exact find?_of_here hfirst
    | skip hnone _ ih =>
      rw [find?_cons_of_not_here hnone, ih]
      rfl

/-- An array that is found is cut out of the text, with its name and the gap ahead of its
entries. -/
structure Found (name : Text) (s : ArraySite) (t : Text) : Prop where
  named : ∃ x g, Gap g ∧ s.before = x ++ (name ++ g)
  closes : Closes s.entries s.after
  text : t = s.before ++ (s.entries ++ s.after)

theorem First.found (h : First name prev t s) : Found name s t := by
  induction h with
  | here hhere =>
    obtain ⟨-, hgap, hclose, rfl⟩ := here?_eq_some_iff.1 hhere
    exact ⟨⟨[], _, hgap, rfl⟩, hclose, (List.append_assoc ..).symm⟩
  | @skip prev c r s _ _ ih =>
    obtain ⟨⟨x, g, hgap, hbefore⟩, hclose, rfl⟩ := ih
    exact ⟨⟨c :: x, g, hgap, congrArg (c :: ·) hbefore⟩, hclose, rfl⟩

/-- Only the last character of a gap is a bracket. -/
theorem Gap.exists_bracket (h : Gap g) : ∃ f, '[' ∉ f ∧ g = f ++ ['['] := by
  obtain ⟨p, q, m, hp, hm, hq, rfl⟩ := h
  have hblank {p : Text} (hp : p.all Text.isBlank = true) : '[' ∉ p := by
    intro hmem
    have hbracket := List.all_eq_true.1 hp _ hmem
    exact absurd hbracket (by decide)
  have hsign : '[' ≠ m := by rcases hm with rfl | rfl <;> decide
  exact ⟨p ++ m :: q, by simp [hblank hp, hblank hq, hsign], by simp⟩

/-- A name with a gap behind it that begins where an array lies ahead ends with the bracket of this
array at the latest. -/
theorem Gap.within {x g' y y' : Text} (hg : Gap g) (hg' : Gap g')
    (h : (x ++ (name ++ g)) ++ y = name ++ (g' ++ y')) :
    ∃ z, x ++ (name ++ g) = name ++ (g' ++ z) := by
  obtain ⟨f, -, rfl⟩ := hg.exists_bracket
  obtain ⟨f', hf', rfl⟩ := hg'.exists_bracket
  rcases List.append_eq_append_iff.1 h with ⟨z, hname, -⟩ | ⟨k, hk, hrest⟩
  · have hlength := congrArg List.length hname
    simp only [List.length_append, List.length_singleton] at hlength
    omega
  · rcases List.append_eq_append_iff.1 hrest with ⟨z, rfl, -⟩ | ⟨z, hz, -⟩
    · exact ⟨z, by rw [hk, List.append_assoc]⟩
    · rcases List.eq_nil_or_concat' z with rfl | ⟨z, c, rfl⟩
      · exact ⟨[], by rw [hk, hz, List.append_nil, List.append_nil]⟩
      · -- the bracket at the end of `k` would stand in the gap ahead of its last character
        have hlast := congrArg List.getLast? hk
        have hne : k ≠ [] := by
          rintro rfl
          have hlength := congrArg List.length hk
          simp only [List.length_append, List.length_singleton, List.length_nil] at hlength
          omega
        rw [← List.append_assoc, ← List.append_assoc, List.getLast?_concat,
          List.getLast?_append_of_ne_nil _ hne] at hlast
        rw [← List.append_assoc] at hz
        rw [(List.append_inj' hz rfl).1] at hf'
        exact absurd (List.mem_append_left z (List.mem_of_getLast? hlast.symm)) hf'

/-- No array begins ahead of one that is found when the entries of this one are written anew. -/
theorem Found.not_here {c : Char} (h : Found name s t) (hnone : here? name prev (c :: t) = none)
    (e : Text) : here? name prev (c :: (s.before ++ (e ++ s.after))) = none := by
  obtain ⟨⟨x, g, hgap, hbefore⟩, hclose, rfl⟩ := h
  by_contra hsome
  obtain ⟨⟨g', e', a'⟩, hhere⟩ := Option.ne_none_iff_exists'.1 hsome
  obtain ⟨hword, hgap', -, htext⟩ := here?_eq_some_iff.1 hhere
  have hbefore' : c :: s.before = (c :: x) ++ (name ++ g) := congrArg (c :: ·) hbefore
  rw [← List.cons_append, hbefore'] at htext
  obtain ⟨z, hz⟩ := hgap.within hgap' htext
  obtain ⟨e'', a'', hclose', hcut⟩ :
      ∃ e a, Closes e a ∧ z ++ (s.entries ++ s.after) = e ++ a :=
    exists_closes (List.mem_append_right z (List.mem_append_right _
      (List.mem_of_mem_head? hclose.2)))
  have hfound : here? name prev (c :: (s.before ++ (s.entries ++ s.after))) =
      some (g', e'', a'') := by
    refine here?_eq_some_iff.2 ⟨hword, hgap', hclose', ?_⟩
    rw [← hcut, ← List.cons_append, hbefore', hz]
    simp
  rw [hnone] at hfound
  cases hfound

/-- The first array with a name is the first one when its entries are written anew. -/
theorem First.replace (h : First name prev t s) (he : ']' ∉ e) :
    First name prev (s.before ++ (e ++ s.after)) { s with entries := e } := by
  induction h with
  | @here prev t g e' a hhere =>
    obtain ⟨hword, hgap, hclose, rfl⟩ := here?_eq_some_iff.1 hhere
    refine .here (here?_eq_some_iff.2 ⟨?_, hgap, ⟨he, hclose.2⟩, List.append_assoc ..⟩)
    obtain ⟨f, -, rfl⟩ := hgap.exists_bracket
    cases name with
    | nil =>
      cases f with
      | nil => exact hword
      | cons c f => exact hword
    | cons c name => exact hword
  | skip hnone h ih => exact .skip (h.found.not_here hnone e) ih

theorem bracket_not_mem_join {ks : List Text} (hks : ∀ k ∈ ks, Name k) :
    ']' ∉ Text.join [',', ' '] ks := by
  intro hmem
  rcases Import.mem_join_names (fun k hk => .name (hks k hk)) hmem with h | h
  · exact absurd h (by decide)
  · exact absurd h (by decide)

/-- What becomes of an array in which names are registered: it is the first one of the new text, and
lists names in ascending order. These are the names that it had and those that were missing, if none
that it had is mistaken; and, where all that are registered are new, only then. -/
structure Registers (array : Text) (names : List Text) (s : ArraySite) : Prop where
  first : find? array none (s.register names) =
    some { s with entries := Text.join [',', ' '] (listed s.entries names) }
  lists : Lists false (Text.join [',', ' '] (listed s.entries names)) (listed s.entries names) []
  ascending : (listed s.entries names).Pairwise fun a b => ¬b < a
  completes : ∀ ids notes, Lists false s.entries ids notes → Legible ids notes →
    Completes names ids (listed s.entries names)
  legible : ∀ ids notes, Lists false s.entries ids notes →
    (∀ n ∈ names, n ∉ ids ∧ n ∉ words s.entries) →
      Completes names ids (listed s.entries names) → Legible ids notes

theorem register_eq (s : ArraySite) (names : List Text) : s.register names =
    s.before ++ (Text.join [',', ' '] (listed s.entries names) ++ s.after) := List.append_assoc ..

theorem registers {array : Text} {names : List Text} (hnames : ∀ n ∈ names, Name n)
    (h : find? array none t = some s) : Registers array names s where
  first := by
    rw [register_eq, find?_eq_some_iff]
    exact (find?_eq_some_iff.1 h).replace (bracket_not_mem_join (name_of_mem_listed hnames))
  lists := lists_join (name_of_mem_listed hnames)
  ascending := pairwise_sorted _
  completes _ _ hlists := (hlists.completes_listed names).1
  legible _ _ hlists := (hlists.completes_listed names).2

theorem Closes.essence (h : Closes e a) : Closes (essence e) (essence a) := by
  refine ⟨fun hmem => h.1 (List.mem_of_mem_filter hmem), ?_⟩
  obtain ⟨hclose, ha⟩ := h
  cases a with
  | nil => cases ha
  | cons c a =>
    obtain rfl : c = ']' := Option.some.inj ha
    rfl

/-- No character of a name may be lost by a layout. -/
theorem not_isLoose_of_isBinding {c : Char} (hc : Lines.NamedImport.isBinding c = true) :
    Text.isLoose c = false := by
  have hmarks : ∀ m ∈ [',', ';', '\'', '"', '/', '*'], m ∈ Import.marks := by decide
  rw [← Bool.not_eq_true, Text.isLoose, Bool.or_eq_true, List.contains_iff_mem]
  rintro (hblank | hmark)
  · rw [Import.isBlank_of_isBinding hc] at hblank
    cases hblank
  · exact Import.not_mem_marks hc (hmarks c hmark)

theorem countP_essence (t : Text) : (essence t).countP Text.isWord = t.countP Text.isWord := by
  rw [essence, List.countP_filter]
  refine List.countP_congr fun c _ => ?_
  cases hc : Text.isWord c with
  | false => simp
  | true => simp [not_isLoose_of_isBinding (c := c) (by simp [Lines.NamedImport.isBinding, hc])]

/-- Where the text up to some entries has the same essence, the layout keeps the essence of the
entries. -/
theorem essence_eq_of_normalize {path : String} {o : StyleOverrides} {x x' e' a' : Text}
    (he : Closes e a) (he' : Closes e' a') (hx : essence x' = essence x)
    (h : normalize path o (x ++ (e ++ a)) = .ok (x' ++ (e' ++ a'))) : essence e' = essence e := by
  obtain ⟨w, hw⟩ := normalize_loses_end h
  simp only [Text.essence_append, List.append_assoc, hx, List.append_cancel_left_eq] at hw
  have hclose : Closes (essence e') (essence a' ++ w) :=
    ⟨he'.essence.1, by rw [List.head?_append, he'.essence.2]; rfl⟩
  have hcut := hclose.cut.1
  rw [hw, he.essence.cut.1] at hcut
  exact hcut.symm

end ArraySite

namespace Import

variable {path : String} {o : StyleOverrides} {array c r t : Text} {i : Import} {s : ArraySite}

/-- The text that is laid out when the import stands in the text `t`. -/
theorem register_eq_bind (hwhole : i.whole = none) (hnames : i.names ≠ []) :
    i.register path o array c = (i.insert path o c).bind fun t =>
      match ArraySite.find? array none t with
      | none => .error (.arrayNotFound (String.ofList array) path)
      | some s => settle path o (s.register i.names) := by
  have hempty : i.names.isEmpty = false := by simpa using hnames
  rw [register, hwhole, hempty]
  rfl

theorem register_of_insert (hwhole : i.whole = none) (hnames : i.names ≠ [])
    (hinsert : i.insert path o c = .ok t) (hfind : ArraySite.find? array none t = some s) :
    i.register path o array c = settle path o (s.register i.names) := by
  rw [register_eq_bind hwhole hnames, hinsert, Except.bind, hfind]

/-- A registration that succeeds has names to register, and finds the array where the import is
inserted. -/
theorem exists_of_register (h : i.register path o array c = .ok r) :
    i.whole = none ∧ i.names ≠ [] ∧ ∃ t s, i.insert path o c = .ok t ∧
      ArraySite.find? array none t = some s ∧ settle path o (s.register i.names) = .ok r := by
  have hwhole : i.whole = none := by
    cases hwhole : i.whole with
    | none => rfl
    | some w =>
      rw [register, hwhole] at h
      cases h
  have hnames : i.names ≠ [] := by
    intro hnames
    rw [register, hwhole, hnames] at h
    cases h
  refine ⟨hwhole, hnames, ?_⟩
  rw [register_eq_bind hwhole hnames] at h
  cases hinsert : i.insert path o c with
  | error e =>
    rw [hinsert] at h
    cases h
  | ok t =>
    cases hfind : ArraySite.find? array none t with
    | none =>
      rw [hinsert, Except.bind, hfind] at h
      cases h
    | some s =>
      rw [hinsert, Except.bind, hfind] at h
      exact ⟨t, s, rfl, hfind, h⟩

/-- Where the import is found and the layout changes nothing, entries that have been written are
written again as they are, unless a name falls apart. -/
theorem register_eq_self_iff {x : Text} (hwhole : i.whole = none) (hne : i.names ≠ [])
    (hnames : ∀ n ∈ i.names, Name n) (hinsert : i.insert path o r = .ok r)
    (hsettled : settle path o r = .ok r) (hfind : ArraySite.find? array none r = some s)
    (hentries : s.entries = Text.join [',', ' '] (ArraySite.listed x i.names)) :
    i.register path o array r = .ok r ↔ ∀ n ∈ i.names, '$' ∉ n ∨ ArraySite.words n = [] := by
  obtain ⟨-, hclose, htext⟩ := (ArraySite.find?_eq_some_iff.1 hfind).found
  rw [register_of_insert hwhole hne hinsert hfind, ArraySite.register_eq]
  constructor
  · intro hagain
    by_contra hparts
    push Not at hparts
    obtain ⟨n, hn, hdollar, hwords⟩ := hparts
    have hclose' : ArraySite.Closes
        (Text.join [',', ' '] (ArraySite.listed s.entries i.names)) s.after :=
      ⟨ArraySite.bracket_not_mem_join (ArraySite.name_of_mem_listed hnames), hclose.2⟩
    rw [settle, mapError_eq_ok_iff, htext] at hagain
    have hcount := congrArg (List.countP Text.isWord)
      (ArraySite.essence_eq_of_normalize hclose' hclose rfl hagain)
    rw [ArraySite.countP_essence, ArraySite.countP_essence] at hcount
    have hlt := ArraySite.countP_lt_of_falls_apart hn hdollar hwords s.entries
    omega
  · intro hwhole'
    rw [hentries, ArraySite.listed_join hnames hwhole', ← hentries, ← htext, hsettled]

/-- A registration inserts the import, writes the entries of the first array with the name anew and
lays the text out. Where the layout leaves the text as it is and the import is found in it, making
the registration again changes nothing, unless a name that is registered falls apart. -/
theorem register_entries (hnames : ∀ n ∈ i.names, Name n)
    (h : i.register path o array c = .ok r) :
    ∃ t s, i.insert path o c = .ok t ∧ ArraySite.find? array none t = some s ∧
      settle path o (s.register i.names) = .ok r ∧ ArraySite.Registers array i.names s ∧
      (s.register i.names = r → i.insert path o r = .ok r →
        (i.register path o array r = .ok r ↔
          ∀ n ∈ i.names, '$' ∉ n ∨ ArraySite.words n = [])) := by
  obtain ⟨hwhole, hne, t, s, hinsert, hfind, hsettled⟩ := exists_of_register h
  have hregisters := ArraySite.registers hnames hfind
  refine ⟨t, s, hinsert, hfind, hsettled, hregisters, ?_⟩
  rintro rfl hagain
  exact register_eq_self_iff hwhole hne hnames hagain hsettled hregisters.first rfl

/-- A registration whose steps are known. -/
theorem register_of_listed {b e a : Text} {ks : List Text} (hwhole : i.whole = none)
    (hnames : i.names ≠ []) (hinsert : i.insert path o c = .ok t)
    (hfind : ArraySite.find? array none t = some ⟨b, e, a⟩)
    (hlisted : ArraySite.listed e i.names = ks)
    (hsettled : settle path o (b ++ (Text.join [',', ' '] ks ++ a)) = .ok r) :
    i.register path o array c = .ok r := by
  rw [register_of_insert hwhole hnames hinsert hfind, ArraySite.register_eq, hlisted, hsettled]

/-- A name is registered in a list with a comment that holds no word. -/
theorem register_entries_routes :
    let i := ofNames ["b".toList] "./b".toList
    let content := "import a from 'a'\nroutes = [\n  c, // --\n  a\n]\n".toList
    let once := "import a from 'a'\nimport \x7b b \x7d from './b'\nroutes = [a, b, c]\n".toList
    i.register "a.js" {} "routes".toList content = .ok once ∧
      ArraySite.Completes i.names [['c'], ['a']] [['a'], ['b'], ['c']] ∧
      i.register "a.js" {} "routes".toList once = .ok once := by
  intro i content once
  let t := "import a from 'a'\nimport \x7b b \x7d from './b'\nroutes = [c, /* -- */ a]\n".toList
  let s : ArraySite := ⟨"import a from 'a'\nimport \x7b b \x7d from './b'\nroutes = [".toList,
    "c, /* -- */ a".toList, "]\n".toList⟩
  have hnames : ∀ n ∈ i.names, Name n := fun n hn => by
    rw [List.mem_singleton.1 hn]
    exact ⟨by decide, by decide⟩
  have hinsert : i.insert "a.js" {} content = .ok t := by decide +kernel
  have hfind : ArraySite.find? "routes".toList none t = some s := by decide +kernel
  have hlisted : ArraySite.listed s.entries i.names = [['a'], ['b'], ['c']] :=
    ArraySite.sorted_eq_of_perm (by decide) (by decide +kernel)
  have hregister : i.register "a.js" {} "routes".toList content = .ok once :=
    register_of_listed rfl (List.cons_ne_nil _ _) hinsert hfind hlisted (by decide +kernel)
  have hc : Name ['c'] := ⟨by decide, by decide⟩
  have ha : Name ['a'] := ⟨by decide, by decide⟩
  have hlists : ArraySite.Lists false s.entries [['c'], ['a']] [" -- ".toList] := by
    have hentries : s.entries = ['c'] ++ ',' :: ' ' ::
        '/' :: '*' :: (" -- ".toList ++ '*' :: '/' :: ' ' :: (['a'] ++ [])) := by decide
    rw [hentries]
    exact .name hc (.comma (.blank (by decide) (.block (by decide) (.blank (by decide)
      (.name ha (.nil true))))))
  have hlegible : ArraySite.Legible [['c'], ['a']] [" -- ".toList] :=
    ⟨by decide, fun note hnote => by rw [List.mem_singleton.1 hnote]; decide +kernel⟩
  obtain ⟨t', s', ht, hs, -, hregisters, hagain⟩ := register_entries hnames hregister
  cases hinsert.symm.trans ht
  cases hfind.symm.trans hs
  have hcompletes := hregisters.completes _ _ hlists hlegible
  have hkept : s.register i.names = once := by
    rw [ArraySite.register_eq, hlisted]
    decide
  have hplain : ∀ n ∈ i.names, '$' ∉ n ∨ ArraySite.words n = [] := fun n hn => by
    rw [List.mem_singleton.1 hn]
    exact .inl (by decide)
  rw [hlisted] at hcompletes
  exact ⟨hregister, hcompletes, (hagain hkept (by decide +kernel)).2 hplain⟩

/-- A name that falls apart is registered, and then a part of it as well. -/
theorem register_entries_dollar :
    let i := ofNames ["$x".toList] "./x".toList
    let content := "import a from 'a'\nroutes = [a]\n".toList
    let once := "import a from 'a'\nimport \x7b $x \x7d from './x'\nroutes = [$x, a]\n".toList
    let twice := "import a from 'a'\nimport \x7b $x \x7d from './x'\nroutes = [$x, a, x]\n".toList
    (∀ n ∈ i.names, Name n) ∧ ArraySite.Lists false ['a'] [['a']] [] ∧
      ArraySite.find? "routes".toList none content =
        some ⟨"import a from 'a'\nroutes = [".toList, ['a'], "]\n".toList⟩ ∧
      i.register "a.js" {} "routes".toList content = .ok once ∧
      i.register "a.js" {} "routes".toList once = .ok twice ∧ once ≠ twice := by
  intro i content once twice
  have hnames : ∀ n ∈ i.names, Name n := fun n hn => by
    rw [List.mem_singleton.1 hn]
    exact ⟨by decide, by decide⟩
  have ha : Name ['a'] := ⟨by decide, by decide⟩
  have hlists : ArraySite.Lists false ['a'] [['a']] [] := .name ha (.nil true)
  let before := "import a from 'a'\nimport \x7b $x \x7d from './x'\nroutes = [".toList
  have honce : i.insert "a.js" {} content = .ok (before ++ (['a'] ++ "]\n".toList)) := by
    decide +kernel
  have htwice : i.insert "a.js" {} once = .ok once := by decide +kernel
  have hfirst : ArraySite.find? "routes".toList none (before ++ (['a'] ++ "]\n".toList)) =
      some ⟨before, ['a'], "]\n".toList⟩ := by decide +kernel
  have hsecond : ArraySite.find? "routes".toList none once =
      some ⟨before, "$x, a".toList, "]\n".toList⟩ := by decide +kernel
  have hadded : ArraySite.listed ['a'] i.names = ["$x".toList, ['a']] :=
    ArraySite.sorted_eq_of_perm (by decide) (by decide +kernel)
  have hparts : ArraySite.listed "$x, a".toList i.names = ["$x".toList, ['a'], ['x']] :=
    ArraySite.sorted_eq_of_perm (by decide) (by decide +kernel)
  exact ⟨hnames, hlists, by decide +kernel,
    register_of_listed rfl (List.cons_ne_nil _ _) honce hfirst hadded (by decide +kernel),
    register_of_listed rfl (List.cons_ne_nil _ _) htwice hsecond hparts (by decide +kernel),
    by decide⟩

end Import

end ProjectSetup
