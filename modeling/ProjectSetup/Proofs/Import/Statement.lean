import ProjectSetup.Import.Insertion
import ProjectSetup.Proofs.Layout.Finishing

/-!
# Import statements

What an import looks like on one line, and the characters that it is made of. Names are made of
characters that reading takes one by one and that no blank, quote or bracket is among.
-/
namespace ProjectSetup

open Lines (NamedImport)

/-- What holds of each character of a text is decided on its characters, not on all there are. -/
instance Text.decidableForallMem (t : Text) (p : Char → Prop) [DecidablePred p] :
    Decidable (∀ c ∈ t, p c) := List.decidableBAll p t

/-- The quotes of strings. -/
def IsMark (q : Char) : Prop := q = '\'' ∨ q = '"'

theorem isBlank_of_isMark {q : Char} (hq : IsMark q) : Text.isBlank q = false := by
  rcases hq with rfl | rfl <;> decide

/-- What may stand between quotes of either kind as it is. -/
def Bare (t : Text) : Prop := ∀ c ∈ t, c ≠ '\'' ∧ c ≠ '"' ∧ c ≠ '\\' ∧ c ≠ '\n'

instance (t : Text) : Decidable (Bare t) := Text.decidableForallMem t _

theorem Bare.not_mem {t : Text} (h : Bare t) {q : Char} (hq : IsMark q) : q ∉ t := by
  intro hmem
  rcases hq with rfl | rfl
  · exact (h _ hmem).1 rfl
  · exact (h _ hmem).2.1 rfl

namespace Import

/-- The code points of the blanks. -/
def blankCodes : List Nat := [
  0x9, 0xA, 0xB, 0xC, 0xD, 0x20, 0x85, 0xA0, 0x1680, 0x2000, 0x2001, 0x2002, 0x2003, 0x2004,
  0x2005, 0x2006, 0x2007, 0x2008, 0x2009, 0x200A, 0x2028, 0x2029, 0x202F, 0x205F, 0x3000]

theorem mem_blankCodes {c : Char} (h : Text.isBlank c = true) : c.toNat ∈ blankCodes := by
  simp only [Text.isBlank, Bool.or_eq_true, Bool.and_eq_true, beq_iff_eq, decide_eq_true_eq] at h
  simp only [blankCodes, List.mem_cons, List.not_mem_nil, or_false]
  omega

theorem isBlank_of_isBinding {c : Char} (h : NamedImport.isBinding c = true) :
    Text.isBlank c = false := by
  have hno : ∀ n ∈ blankCodes, NamedImport.isBinding (Char.ofNat n) = false := by decide +kernel
  rw [← Bool.not_eq_true]
  intro hblank
  have hc := hno _ (mem_blankCodes hblank)
  rw [Char.ofNat_toNat, h] at hc
  cases hc

/-- The marks that mean something to the layout; no name has one of them in it. -/
def marks : Text :=
  ['\'', '"', '\x60', '/', '(', '[', '{', ')', ']', '}', ',', ';', ':', '<', '>', '=', '*']

theorem not_mem_marks {c : Char} (h : NamedImport.isBinding c = true) : c ∉ marks := by
  have hno : ∀ c ∈ marks, NamedImport.isBinding c = false := by decide
  intro hc
  rw [hno c hc] at h
  cases h

/-- A text of characters that names are made of. -/
structure Name (t : Text) : Prop where
  ne_nil : t ≠ []
  chars : ∀ c ∈ t, NamedImport.isBinding c = true

/-- Names with single blanks between them, such as a name and the one that it gets. -/
inductive Phrase : Text → Prop where
  | name {t : Text} : Name t → Phrase t
  | cons {t p : Text} : Name t → Phrase p → Phrase (t ++ ' ' :: p)

theorem Name.exists_cons {t : Text} (h : Name t) :
    ∃ c r, t = c :: r ∧ NamedImport.isBinding c = true := by
  obtain ⟨c, r, rfl⟩ := List.exists_cons_of_ne_nil h.ne_nil
  exact ⟨c, r, rfl, h.chars c List.mem_cons_self⟩

theorem Name.exists_last {t : Text} (h : Name t) :
    ∃ c, t.getLast? = some c ∧ NamedImport.isBinding c = true :=
  ⟨_, List.getLast?_eq_some_getLast h.ne_nil, h.chars _ (List.getLast_mem h.ne_nil)⟩

theorem Phrase.exists_cons {p : Text} (h : Phrase p) :
    ∃ c r, p = c :: r ∧ NamedImport.isBinding c = true := by
  cases h with
  | name ht => exact ht.exists_cons
  | cons ht hp =>
    obtain ⟨c, r, rfl, hc⟩ := ht.exists_cons
    exact ⟨c, _, rfl, hc⟩

theorem Phrase.exists_last {p : Text} (h : Phrase p) :
    ∃ c, p.getLast? = some c ∧ NamedImport.isBinding c = true := by
  induction h with
  | name ht => exact ht.exists_last
  | @cons t p ht hp ih =>
    obtain ⟨c, hlast, hc⟩ := ih
    obtain ⟨x, r, rfl, -⟩ := hp.exists_cons
    refine ⟨c, ?_, hc⟩
    rw [List.getLast?_append_of_ne_nil _ (List.cons_ne_nil _ _), List.getLast?_cons_cons, hlast]

/-- An import whose bindings are names and whose module can stand between quotes. -/
structure Plain (i : Import) : Prop where
  valid : i.valid = true
  source : Bare i.source
  binding : ∀ b ∈ i.binding, Name b
  names : ∀ n ∈ i.names, Phrase n
  whole : ∀ w ∈ i.whole, Name w

theorem plain_sideEffect {source : Text} (h : Bare source) : (sideEffect source).Plain where
  valid := rfl
  source := h
  binding := by simp [sideEffect]
  names := by simp [sideEffect]
  whole := by simp [sideEffect]

theorem plain_ofDefault {b source : Text} (hb : Name b) (h : Bare source) :
    (ofDefault b source).Plain where
  valid := rfl
  source := h
  binding := by simpa [ofDefault, withDefault] using hb
  names := by simp [ofDefault, withDefault, sideEffect]
  whole := by simp [ofDefault, withDefault, sideEffect]

/-- The default binding ahead of names in braces. -/
def head (i : Import) : Text :=
  match i.binding with
  | none => []
  | some b => b ++ [',', ' ']

/-- What stands between the word `import` and the module. -/
def clause (i : Import) : Text :=
  match i.whole, i.binding, i.names with
  | some w, _, _ => "* as ".toList ++ w ++ " from ".toList
  | none, none, [] => []
  | none, some b, [] => b ++ " from ".toList
  | none, _, names => i.head ++ ['{', ' '] ++ Text.join [',', ' '] names ++ " \x7d from ".toList

/-- The import on one line, its names as they come and its module between quotes. -/
def line (quote : Char) (i : Import) : Text :=
  "import ".toList ++ (i.clause ++ quote :: (i.source ++ [quote]))

-- the equation that `rw` would make for `line` takes the literal apart
theorem line_eq (quote : Char) (i : Import) :
    i.line quote = "import ".toList ++ (i.clause ++ quote :: (i.source ++ [quote])) := rfl

/-- The import with its names in order. -/
def tidied (i : Import) : Import := { i with names := dedup (sorted i.names) }

theorem mem_dedup {t : Text} {ts : List Text} : t ∈ dedup ts ↔ t ∈ ts := by
  fun_induction dedup ts with
  | case1 => simp
  | case2 => simp
  | case3 a r ih => simp [ih]
  | case4 a b r h ih => simp [ih]

theorem mem_sorted {t : Text} {ts : List Text} : t ∈ sorted ts ↔ t ∈ ts := List.mem_mergeSort

theorem dedup_sorted_eq_nil {ts : List Text} : dedup (sorted ts) = [] ↔ ts = [] := by
  simp only [List.eq_nil_iff_forall_not_mem, mem_dedup, mem_sorted]

theorem isEmpty_dedup_sorted (ts : List Text) : (dedup (sorted ts)).isEmpty = ts.isEmpty := by
  rw [Bool.eq_iff_iff, List.isEmpty_iff, List.isEmpty_iff, dedup_sorted_eq_nil]

theorem Plain.tidied {i : Import} (h : i.Plain) : i.tidied.Plain where
  valid := by
    have hvalid := h.valid
    simpa only [Import.valid, Import.tidied, isEmpty_dedup_sorted] using hvalid
  source := h.source
  binding := h.binding
  names n hn := h.names n (mem_sorted.1 (mem_dedup.1 hn))
  whole := h.whole

theorem tidied_names_nil (source : Text) (binding whole : Option Text) :
    Import.tidied ⟨source, binding, [], whole⟩ = ⟨source, binding, [], whole⟩ := by
  simp [Import.tidied, sorted, dedup]

theorem statement_eq (i : Import) : i.statement = i.tidied.line '\'' := by
  obtain ⟨source, binding, names, whole⟩ := i
  rw [line_eq]
  cases whole with
  | some w =>
    simp only [statement, clause, Import.tidied, List.append_assoc]
    rfl
  | none =>
    cases names with
    | nil =>
      rw [tidied_names_nil]
      cases binding with
      | none => rfl
      | some b =>
        simp only [statement, clause, List.append_assoc]
        rfl
    | cons n ns =>
      cases hnames : dedup (sorted (n :: ns)) with
      | nil => cases dedup_sorted_eq_nil.1 hnames
      | cons m ms =>
        have hlist : nameList (n :: ns) =
            ['{', ' '] ++ Text.join [',', ' '] (m :: ms) ++ [' ', '}'] := by rw [nameList, hnames]
        cases binding with
        | none =>
          have hbindings : bindings ⟨source, none, n :: ns, none⟩ = [nameList (n :: ns)] := rfl
          simp only [statement, clause, hbindings, hlist, head, Import.tidied, hnames,
            List.isEmpty_cons, Bool.false_eq_true, if_false, Text.join_singleton,
            List.append_assoc]
          rfl
        | some b =>
          have hbindings : bindings ⟨source, some b, n :: ns, none⟩ = [b, nameList (n :: ns)] := rfl
          simp only [statement, clause, hbindings, hlist, head, Import.tidied, hnames,
            Text.join, List.append_assoc]
          rfl

end Import

end ProjectSetup
