import ProjectSetup.Import.Registration
import ProjectSetup.Proofs.Import.Statement

/-!
# Entries of arrays

The entries of an array are read as words, so that a name with a dollar sign falls apart and the
words of a comment become entries. Names are added that are not among the words, and all are written
in ascending order. Reading and writing them again changes nothing, but for a name that falls apart.
-/
namespace ProjectSetup

open Import (Name sorted)
open Lines (NamedImport)

namespace ArraySite

variable {c : Char} {t u : Text} {n : Text} {ids notes names ks : List Text}

theorem words_nil : words [] = [] := by rw [words]

theorem words_cons_of_not_isWord (hc : Text.isWord c = false) (t : Text) :
    words (c :: t) = words t := by
  rw [words, hc, if_neg Bool.false_ne_true]

theorem words_cons_of_isWord (hc : Text.isWord c = true) (t : Text) :
    words (c :: t) = (c :: t.takeWhile Text.isWord) :: words (t.dropWhile Text.isWord) := by
  rw [words, hc, if_pos rfl]

/-- A text of word characters is one word, up to a character of another kind. -/
theorem words_word (hne : n ≠ []) (hn : ∀ c ∈ n, Text.isWord c = true) (t : Text)
    (ht : ∀ c ∈ t.head?, Text.isWord c = false) : words (n ++ t) = n :: words t := by
  obtain ⟨c, r, rfl⟩ := List.exists_cons_of_ne_nil hne
  have hr : ∀ c ∈ r, Text.isWord c = true := fun x hx => hn x (List.mem_cons_of_mem c hx)
  have hstop : t.takeWhile Text.isWord = [] ∧ t.dropWhile Text.isWord = t := by
    cases t with
    | nil => exact ⟨rfl, rfl⟩
    | cons c t => simp [ht c rfl]
  rw [List.cons_append, words_cons_of_isWord (hn c List.mem_cons_self),
    List.takeWhile_append_of_pos hr, List.dropWhile_append_of_pos hr, hstop.1, hstop.2,
    List.append_nil]

/-- No word goes on over a character that belongs to none. -/
theorem words_append (s : Text) (ht : ∀ c ∈ t.head?, Text.isWord c = false) :
    words (s ++ t) = words s ++ words t := by
  fun_induction words s with
  | case1 => rfl
  | case2 c r hc ih =>
    have hparts : c :: r ++ t =
        (c :: r.takeWhile Text.isWord) ++ (r.dropWhile Text.isWord ++ t) := by
      rw [List.cons_append, List.cons_append, ← List.append_assoc, List.takeWhile_append_dropWhile]
    have hword : ∀ x ∈ c :: r.takeWhile Text.isWord, Text.isWord x = true := by
      intro x hx
      rcases List.mem_cons.1 hx with rfl | hx
      · exact hc
      · exact List.mem_takeWhile_imp hx
    have hrest : ∀ x ∈ (r.dropWhile Text.isWord ++ t).head?, Text.isWord x = false := by
      intro x hx
      have hdrop := List.head?_dropWhile_not Text.isWord r
      rw [List.head?_append] at hx
      cases hhead : (r.dropWhile Text.isWord).head? with
      | none => exact ht x (by simpa [hhead] using hx)
      | some y =>
        rw [hhead] at hx hdrop
        cases hx
        simpa using hdrop
    rw [hparts, words_word (List.cons_ne_nil _ _) hword _ hrest, ih, List.cons_append]
  | case3 c r hc ih =>
    rw [List.cons_append, words_cons_of_not_isWord (Bool.eq_false_iff.2 hc), ih]

/-- The words of a text hold its word characters. -/
theorem flatten_words (t : Text) : (words t).flatten = t.filter Text.isWord := by
  fun_induction words t with
  | case1 => rfl
  | case2 c r hc ih =>
    have hsplit := congrArg (List.filter Text.isWord)
      (List.takeWhile_append_dropWhile (p := Text.isWord) (l := r))
    have htake : (r.takeWhile Text.isWord).filter Text.isWord = r.takeWhile Text.isWord :=
      List.filter_eq_self.2 fun x hx => List.mem_takeWhile_imp hx
    rw [List.filter_append, htake] at hsplit
    rw [List.flatten_cons, ih, List.filter_cons_of_pos hc, ← hsplit, List.cons_append]
  | case3 c r hc ih => rw [ih, List.filter_cons_of_neg hc]

theorem isWord_of_mem_words (hn : n ∈ words t) : n ≠ [] ∧ ∀ c ∈ n, Text.isWord c = true := by
  fun_induction words t with
  | case1 => cases hn
  | case2 c r hc ih =>
    rcases List.mem_cons.1 hn with rfl | hn
    · refine ⟨List.cons_ne_nil _ _, fun x hx => ?_⟩
      rcases List.mem_cons.1 hx with rfl | hx
      · exact hc
      · exact List.mem_takeWhile_imp hx
    · exact ih hn
  | case3 c r hc ih => exact ih hn

theorem dollar_not_mem_of_mem_words (hn : n ∈ words t) : '$' ∉ n := by
  intro hmem
  have hdollar := (isWord_of_mem_words hn).2 '$' hmem
  exact absurd hdollar (by decide)

theorem name_of_mem_words (hn : n ∈ words t) : Name n where
  ne_nil := (isWord_of_mem_words hn).1
  chars c hc := by simp [NamedImport.isBinding, (isWord_of_mem_words hn).2 c hc]

/-- A name is read as one word unless it has a dollar sign. -/
theorem words_of_name (hn : Name n) : words n = [n] ↔ '$' ∉ n := by
  constructor
  · intro hwords
    exact dollar_not_mem_of_mem_words (t := n) (by rw [hwords]; exact List.mem_singleton_self n)
  · intro hdollar
    have hchars : ∀ c ∈ n, Text.isWord c = true := by
      intro c hc
      have hbinding := hn.chars c hc
      have hne : c ≠ '$' := fun he => hdollar (he ▸ hc)
      simpa [NamedImport.isBinding, hne] using hbinding
    have hword := words_word hn.ne_nil hchars [] fun c hc => by cases hc
    rwa [List.append_nil, words_nil] at hword

/-- A list of names that are parted by commas. Comments and blanks may stand anywhere around them;
`due` says that a comma is due ahead of the next name. -/
inductive Lists : Bool → Text → List Text → List Text → Prop where
  | nil (due : Bool) : Lists due [] [] []
  | blank {due : Bool} {c : Char} {t : Text} {ids notes : List Text} :
      Text.isBlank c = true → Lists due t ids notes → Lists due (c :: t) ids notes
  | comma {t : Text} {ids notes : List Text} : Lists false t ids notes → Lists true (',' :: t) ids notes
  | name {n t : Text} {ids notes : List Text} :
      Name n → Lists true t ids notes → Lists false (n ++ t) (n :: ids) notes
  | line {due : Bool} {note t : Text} {ids notes : List Text} : '\n' ∉ note → Lists due t ids notes →
      Lists due ('/' :: '/' :: (note ++ '\n' :: t)) ids (note :: notes)
  | block {due : Bool} {note t : Text} {ids notes : List Text} : ¬['*', '/'] <:+: note →
      Lists due t ids notes → Lists due ('/' :: '*' :: (note ++ '*' :: '/' :: t)) ids (note :: notes)

theorem isWord_of_isBlank (hc : Text.isBlank c = true) : Text.isWord c = false := by
  rw [← Bool.not_eq_true]
  intro hword
  have hbinding : NamedImport.isBinding c = true := by simp [NamedImport.isBinding, hword]
  rw [Import.isBlank_of_isBinding hbinding] at hc
  cases hc

/-- Behind a name, a list does not go on with a character of a word. -/
theorem Lists.not_isWord (h : Lists true t ids notes) : ∀ c ∈ t.head?, Text.isWord c = false := by
  intro c hc
  cases h with
  | nil => cases hc
  | blank hblank _ =>
    cases hc
    exact isWord_of_isBlank hblank
  | comma _ =>
    cases hc
    decide
  | line _ _ =>
    cases hc
    decide
  | block _ _ =>
    cases hc
    decide

/-- The words of a list are those of its names and of its comments. -/
theorem Lists.words_perm {due : Bool} (h : Lists due t ids notes) :
    (words t).Perm (ids.flatMap words ++ notes.flatMap words) := by
  have hnote {x s : Text} (s' : Text) {ids notes : List Text}
      (hx : words x = words (s ++ s')) (hs' : ∀ c ∈ s'.head?, Text.isWord c = false)
      (ih : (words s').Perm (ids.flatMap words ++ notes.flatMap words)) :
      (words x).Perm (ids.flatMap words ++ (s :: notes).flatMap words) := by
    rw [hx, words_append s hs', List.flatMap_cons]
    exact (ih.append_left _).trans (List.perm_append_comm_assoc _ _ _)
  have hstar : Text.isWord '*' = false := by decide
  have hslash : Text.isWord '/' = false := by decide
  have hbreak : Text.isWord '\n' = false := by decide
  induction h with
  | nil due => rw [words_nil]; rfl
  | blank hblank _ ih => rwa [words_cons_of_not_isWord (isWord_of_isBlank hblank)]
  | comma _ ih => rwa [words_cons_of_not_isWord (by decide)]
  | name hn ht ih =>
    rw [words_append _ ht.not_isWord, List.flatMap_cons, List.append_assoc]
    exact ih.append_left _
  | @line due note t ids notes _ _ ih =>
    refine hnote ('\n' :: t) ?_ (fun c hc => by cases hc; exact hbreak) ?_
    · rw [words_cons_of_not_isWord hslash, words_cons_of_not_isWord hslash]
    · rwa [words_cons_of_not_isWord hbreak]
  | @block due note t ids notes _ _ ih =>
    refine hnote ('*' :: '/' :: t) ?_ (fun c hc => by cases hc; exact hstar) ?_
    · rw [words_cons_of_not_isWord hslash, words_cons_of_not_isWord hstar]
    · rwa [words_cons_of_not_isWord hstar, words_cons_of_not_isWord hslash]

/-- The names of a list are not mistaken: none of them has a dollar sign, and no comment a word. -/
structure Legible (ids notes : List Text) : Prop where
  names : ∀ n ∈ ids, '$' ∉ n
  comments : ∀ note ∈ notes, words note = []

theorem Lists.name_of_mem {due : Bool} (h : Lists due t ids notes) : ∀ n ∈ ids, Name n := by
  induction h with
  | nil => exact fun n hn => by cases hn
  | blank _ _ ih => exact ih
  | comma _ ih => exact ih
  | name hn _ ih =>
    intro m hm
    rcases List.mem_cons.1 hm with rfl | hm
    · exact hn
    · exact ih m hm
  | line _ _ ih => exact ih
  | block _ _ ih => exact ih

/-- The words of names are the names without a dollar sign, if the others hold no word. -/
theorem flatMap_words_eq_filter (h : ∀ n ∈ ids, Name n ∧ ('$' ∈ n → words n = [])) :
    ids.flatMap words = ids.filter fun n => '$' ∉ n := by
  induction ids with
  | nil => rfl
  | cons n ids ih =>
    obtain ⟨hn, hwords⟩ := h n List.mem_cons_self
    rw [List.flatMap_cons, ih fun m hm => h m (List.mem_cons_of_mem n hm)]
    by_cases hdollar : '$' ∈ n
    · rw [hwords hdollar, List.filter_cons_of_neg (by simpa using hdollar)]
      rfl
    · rw [(words_of_name hn).2 hdollar, List.filter_cons_of_pos (by simpa using hdollar)]
      rfl

/-- The words of a list are its names exactly if none is mistaken. -/
theorem Lists.words_perm_iff {due : Bool} (h : Lists due t ids notes) :
    (words t).Perm ids ↔ Legible ids notes := by
  have hwords := h.words_perm
  have hself (hids : ∀ n ∈ ids, '$' ∉ n) : ids.flatMap words = ids := by
    rw [flatMap_words_eq_filter fun n hn => ⟨h.name_of_mem n hn, fun hd => absurd hd (hids n hn)⟩,
      List.filter_eq_self]
    simpa using hids
  constructor
  · intro hperm
    have hids : ∀ n ∈ ids, '$' ∉ n := fun n hn =>
      dollar_not_mem_of_mem_words (hperm.mem_iff.2 hn)
    rw [hself hids] at hwords
    have hlength := (hperm.symm.trans hwords).length_eq
    rw [List.length_append, Nat.left_eq_add, List.length_eq_zero_iff,
      List.flatMap_eq_nil_iff] at hlength
    exact ⟨hids, hlength⟩
  · rintro ⟨hids, hnotes⟩
    rwa [hself hids, List.flatMap_eq_nil_iff.2 hnotes, List.append_nil] at hwords

/-- The names that are added are those that are missing, each of them once. -/
theorem exists_addMissing (entries names : List Text) :
    ∃ extra, addMissing entries names = entries ++ extra ∧ extra.Nodup ∧
      ∀ n, n ∈ extra ↔ n ∈ names ∧ n ∉ entries := by
  induction names generalizing entries with
  | nil => exact ⟨[], by simp [addMissing], List.nodup_nil, by simp⟩
  | cons n names ih =>
    by_cases hn : n ∈ entries
    · obtain ⟨extra, hadd, hnodup, hmem⟩ := ih entries
      refine ⟨extra, ?_, hnodup, fun m => ?_⟩
      · rw [addMissing, if_pos (List.contains_iff_mem.2 hn), hadd]
      · rw [hmem, List.mem_cons]
        refine and_congr_left fun hm => (or_iff_right ?_).symm
        rintro rfl
        exact hm hn
    · obtain ⟨extra, hadd, hnodup, hmem⟩ := ih (entries ++ [n])
      have hfresh : n ∉ extra := fun h => ((hmem n).1 h).2 (by simp)
      refine ⟨n :: extra, ?_, List.nodup_cons.2 ⟨hfresh, hnodup⟩, fun m => ?_⟩
      · rw [addMissing, if_neg (by simpa using hn), hadd]
        simp
      · simp only [List.mem_cons, hmem, List.mem_append, List.not_mem_nil, or_false]
        by_cases hm : m = n
        · simp [hm, hn]
        · simp [hm]

/-- The members of `ks` are those of `ids`, as often as they are there, and each of the names that
is not among them, once. -/
def Completes (names ids ks : List Text) : Prop :=
  ∀ n, ks.count n = ids.count n + if n ∈ names ∧ n ∉ ids then 1 else 0

theorem completes_addMissing (entries names : List Text) :
    Completes names entries (addMissing entries names) := by
  intro n
  obtain ⟨extra, hadd, hnodup, hmem⟩ := exists_addMissing entries names
  rw [hadd, List.count_append, hnodup.count]
  simp only [hmem]

theorem Completes.congr {ids' ks' : List Text} (hids : ids.Perm ids') (hks : ks.Perm ks') :
    Completes names ids ks ↔ Completes names ids' ks' := by
  refine forall_congr' fun n => ?_
  simp only [hids.count_eq, hks.count_eq, hids.mem_iff]

/-- Where all names are new, what is completed is known from what it is completed to. -/
theorem Completes.perm_of_fresh {ids' : List Text} (h : Completes names ids ks)
    (h' : Completes names ids' ks) (hfresh : ∀ n ∈ names, n ∉ ids ∧ n ∉ ids') : ids.Perm ids' := by
  rw [List.perm_iff_count]
  intro n
  have hcount := (h n).symm.trans (h' n)
  by_cases hn : n ∈ names
  · simpa [hn, hfresh n hn] using hcount
  · simpa [hn] using hcount

theorem sorted_perm (ts : List Text) : (sorted ts).Perm ts := List.mergeSort_perm ..

theorem pairwise_sorted (ts : List Text) : (sorted ts).Pairwise fun a b => ¬b < a := by
  have hnot (a b : Text) : (!decide (b < a)) = true ↔ ¬b < a := by
    rw [Bool.not_eq_true', decide_eq_false_iff_not]
  have hpairs : (sorted ts).Pairwise fun a b => (!decide (b < a)) = true := by
    refine List.pairwise_mergeSort (fun a b c hab hbc => ?_) (fun a b => ?_) ts
    · rw [hnot, List.not_lt] at hab hbc ⊢
      exact List.le_trans hab hbc
    · rw [Bool.or_eq_true, hnot, hnot, List.not_lt, List.not_lt]
      exact List.le_total a b
  exact hpairs.imp fun h => (hnot _ _).1 h

/-- A list in ascending order is the only one with its members. -/
theorem sorted_eq_of_perm {ts : List Text} (hks : ks.Pairwise fun a b => ¬b < a)
    (h : ts.Perm ks) : sorted ts = ks :=
  ((sorted_perm ts).trans h).eq_of_pairwise
    (fun _ _ _ _ hab hba => List.le_antisymm (List.not_lt.1 hab) (List.not_lt.1 hba))
    (pairwise_sorted ts) hks

/-- What is written for the entries of an array when names are registered in it. -/
def listed (entries : Text) (names : List Text) : List Text :=
  sorted (addMissing (words entries) names)

theorem listed_perm (t : Text) (names : List Text) :
    (listed t names).Perm (addMissing (words t) names) := sorted_perm _

theorem completes_listed (t : Text) (names : List Text) :
    Completes names (words t) (listed t names) :=
  (Completes.congr (.refl _) (listed_perm t names)).2 (completes_addMissing (words t) names)

/-- The list of names is completed if none of them is mistaken; and, where the names to register are
new, only then. -/
theorem Lists.completes_listed (h : Lists false t ids notes) (names : List Text) :
    (Legible ids notes → Completes names ids (listed t names)) ∧
      ((∀ n ∈ names, n ∉ ids ∧ n ∉ words t) → Completes names ids (listed t names) →
        Legible ids notes) := by
  have hwords := ArraySite.completes_listed t names
  refine ⟨fun hlegible => ?_, fun hfresh hcompletes => ?_⟩
  · exact (Completes.congr (h.words_perm_iff.2 hlegible) (.refl _)).1 hwords
  · exact h.words_perm_iff.1
      (hwords.perm_of_fresh hcompletes fun n hn => (hfresh n hn).symm)

theorem mem_listed : n ∈ listed t names ↔ n ∈ words t ∨ n ∈ names := by
  obtain ⟨extra, hadd, -, hmem⟩ := exists_addMissing (words t) names
  rw [(listed_perm t names).mem_iff, hadd, List.mem_append, hmem]
  by_cases hn : n ∈ words t
  · simp [hn]
  · simp [hn]

theorem name_of_mem_listed (hnames : ∀ n ∈ names, Name n) : ∀ n ∈ listed t names, Name n :=
  fun n hn => (mem_listed.1 hn).elim name_of_mem_words (hnames n)

theorem words_join (ks : List Text) : words (Text.join [',', ' '] ks) = ks.flatMap words := by
  induction ks with
  | nil => exact words_nil
  | cons k ks ih =>
    cases ks with
    | nil => simp
    | cons k' ks =>
      have hcomma : Text.isWord ',' = false := by decide
      have hblank : Text.isWord ' ' = false := by decide
      rw [Text.join_cons _ _ _ (List.cons_ne_nil k' ks), List.append_assoc,
        words_append k (fun c hc => by cases hc; exact hcomma), List.cons_append,
        List.singleton_append, words_cons_of_not_isWord hcomma, words_cons_of_not_isWord hblank, ih]
      rfl

theorem lists_join (hks : ∀ k ∈ ks, Name k) : Lists false (Text.join [',', ' '] ks) ks [] := by
  induction ks with
  | nil => exact .nil false
  | cons k ks ih =>
    have hk := hks k List.mem_cons_self
    cases ks with
    | nil =>
      have hone := Lists.name hk (.nil true)
      rwa [List.append_nil] at hone
    | cons k' ks =>
      have hrest := ih fun m hm => hks m (List.mem_cons_of_mem k hm)
      rw [Text.join_cons _ _ _ (List.cons_ne_nil k' ks), List.append_assoc]
      exact .name hk (.comma (.blank (by decide) hrest))

theorem countP_join (ks : List Text) :
    (Text.join [',', ' '] ks).countP Text.isWord = ks.flatten.countP Text.isWord := by
  induction ks with
  | nil => rfl
  | cons k ks ih =>
    cases ks with
    | nil => simp
    | cons k' ks =>
      have hsep : [',', ' '].countP Text.isWord = 0 := by decide
      rw [Text.join_cons _ _ _ (List.cons_ne_nil k' ks), List.countP_append, List.countP_append,
        hsep, ih, Nat.add_zero, ← List.countP_append]
      rfl

/-- The entries that are written are read and written alike, if each name is one word or none. -/
theorem listed_join (hnames : ∀ n ∈ names, Name n)
    (hwhole : ∀ n ∈ names, '$' ∉ n ∨ words n = []) (t : Text) :
    listed (Text.join [',', ' '] (listed t names)) names = listed t names := by
  have hwords : words (Text.join [',', ' '] (listed t names)) =
      (listed t names).filter fun n => '$' ∉ n := by
    rw [words_join]
    refine flatMap_words_eq_filter fun n hn => ⟨name_of_mem_listed hnames n hn, fun hdollar => ?_⟩
    rcases mem_listed.1 hn with hn | hn
    · exact absurd hdollar (dollar_not_mem_of_mem_words hn)
    · exact (hwhole n hn).resolve_left (not_not.2 hdollar)
  refine sorted_eq_of_perm (pairwise_sorted _) (List.perm_iff_count.2 fun n => ?_)
  rw [completes_addMissing, hwords]
  by_cases hdollar : '$' ∈ n
  · -- such a name is no word, here or there, and is added where it is registered
    have hnot : n ∉ words t := fun h => dollar_not_mem_of_mem_words h hdollar
    have hnone : n ∉ (listed t names).filter fun n => '$' ∉ n := by simp [hdollar]
    rw [completes_listed t names n, List.count_eq_zero.2 hnot, List.count_eq_zero.2 hnone]
    simp only [hnot, hnone]
  · have hadded : ¬(n ∈ names ∧ n ∉ (listed t names).filter fun n => '$' ∉ n) := by
      rintro ⟨hn, hmissing⟩
      exact hmissing (List.mem_filter.2 ⟨mem_listed.2 (.inr hn), by simpa using hdollar⟩)
    rw [if_neg hadded, List.count_filter (by simpa using hdollar), Nat.add_zero]

/-- A name that falls apart is added again, whatever the entries are. -/
theorem countP_lt_of_falls_apart (hn : n ∈ names) (hdollar : '$' ∈ n) (hwords : words n ≠ [])
    (t : Text) :
    t.countP Text.isWord < (Text.join [',', ' '] (listed t names)).countP Text.isWord := by
  obtain ⟨extra, hadd, -, hmem⟩ := exists_addMissing (words t) names
  have hmissing : n ∈ extra :=
    (hmem n).2 ⟨hn, fun h => dollar_not_mem_of_mem_words h hdollar⟩
  have hpos : 0 < n.countP Text.isWord := by
    rw [List.countP_eq_length_filter, ← flatten_words]
    obtain ⟨w, ws, hw⟩ := List.exists_cons_of_ne_nil hwords
    have hne := (isWord_of_mem_words (t := n) (by rw [hw]; exact List.mem_cons_self)).1
    rw [hw, List.flatten_cons, List.length_append]
    exact Nat.add_pos_left (List.length_pos_iff.2 hne) _
  have hle : n.countP Text.isWord ≤ extra.flatten.countP Text.isWord :=
    (List.sublist_flatten_of_mem hmissing).countP_le
  have hkept : (words t).flatten.countP Text.isWord = t.countP Text.isWord := by
    rw [flatten_words, List.countP_filter]
    simp
  rw [countP_join, (listed_perm t names).flatten.countP_eq, hadd, List.flatten_append,
    List.countP_append, hkept]
  omega

end ArraySite

end ProjectSetup
