import Mathlib.Data.List.Basic
import ProjectSetup.Proofs.Yaml.Standard
import ProjectSetup.Yaml.Document

/-!
# Block mappings of plain scalars

A text in which every line holds a key, a colon and a value is read as the mapping with these
entries. The scan goes line by line: a word at the start of a line may become a key, its colon makes
it one, and on the first line the colon opens the block as well. A line break ends the value,
because the next line is not indented further than the block.
-/
namespace ProjectSetup.Yaml

/-- A text that is a plain scalar by itself, at the start of a line and behind a colon. -/
structure Word (t : Text) : Prop where
  ne_nil : t ≠ []
  printable : ∀ c ∈ t, isPrintable c = true
  solid : ∀ c ∈ t, isGap c = false
  noColon : ':' ∉ t
  start : ∀ c ∈ t.head?, Scan.isIndicator c = false ∧ c ≠ '.'

theorem isBreak_of_not_isGap {c : Char} (h : isGap c = false) : isBreak c = false := by
  rw [isGap, Bool.or_eq_false_iff] at h
  exact h.2

theorem strayColon_false (t : Text) : strayColon false t = false := by
  induction t with
  | nil => rfl
  | cons c t ih => simpa [strayColon] using ih

theorem plainWord_append {t r : Text} (ht : ∀ c ∈ t, isGap c = false) (hcolon : ':' ∉ t)
    (hr : plainWord false r = []) : plainWord false (t ++ r) = t := by
  induction t with
  | nil => exact hr
  | cons c t ih =>
    obtain ⟨hc, ht⟩ := List.forall_mem_cons.1 ht
    rw [List.mem_cons, not_or] at hcolon
    have hno : (c == ':') = false := by simpa using Ne.symm hcolon.1
    rw [List.cons_append, plainWord, hc, hno, ih ht hcolon.2]
    rfl

namespace Word

variable {t r : Text}

/-- A word is scanned up to the colon behind it. -/
theorem plain?_colon (h : Word t) (hr : gapAhead r = true) (indent : Nat) :
    plain? false indent (t ++ ':' :: r) = some (t, ':' :: r, false) := by
  have hstop : plainWord false (':' :: r) = [] := by simp [plainWord, hr]
  rw [plain?, plainWord_append h.solid h.noColon hstop, List.drop_left]
  simp [strayColon_false, tabInIndent, isGap, isSpace, isBreak, overLines]

/-- A word is scanned with the line break behind it, if the next line is not indented. -/
theorem plain?_break (h : Word t) (hr : ∀ c ∈ r.head?, isGap c = false) (indent : Nat) :
    plain? false (indent + 1) (t ++ '\n' :: r) = some (t, r, true) := by
  have hstop : plainWord false ('\n' :: r) = [] := rfl
  have hgap : isGap '\n' = true := rfl
  have hrun : ('\n' :: r).takeWhile isGap = ['\n'] ∧ ('\n' :: r).dropWhile isGap = r := by
    cases r with
    | nil => exact ⟨rfl, rfl⟩
    | cons c r => simp [hgap, hr c rfl]
  rw [plain?, plainWord_append h.solid h.noColon hstop, List.drop_left, hrun.1, hrun.2]
  simp [strayColon_false, tabInIndent, isBreak, overLines, columnAfter]

end Word

namespace Scan

theorem move_cons {c : Char} (hc : isBreak c = false) (s : Scan) (t : Text) :
    s.move (c :: t) = { s with column := s.column + 1, offset := s.offset + 1 }.move t := by
  rw [move, hc]
  · rfl
  · rintro r rfl
    cases hc

theorem move_append {t : Text} (ht : ∀ c ∈ t, isGap c = false) (s : Scan) (r : Text) :
    s.move (t ++ r) =
      { s with column := s.column + t.length, offset := s.offset + t.length }.move r := by
  induction t generalizing s with
  | nil => rfl
  | cons c t ih =>
    obtain ⟨hc, ht⟩ := List.forall_mem_cons.1 ht
    rw [List.cons_append, move_cons (isBreak_of_not_isGap hc), ih ht]
    simp only [List.length_cons, Nat.add_assoc, Nat.add_comm 1]

theorem gap_cons {c : Char} (hc : isGap c = false) (hcomment : c ≠ '#') (s : Scan) (t : Text) :
    s.gap false (c :: t) = (s, c :: t) := by
  have hno : isBreak c = false ∧ c ≠ ' ' ∧ c ≠ '\t' := by
    simpa [isGap, isSpace, and_comm, and_assoc] using hc
  rw [gap]
  · simp [hno, hcomment]
  · rintro r rfl
    cases hc

theorem run?_of_step {s s₁ s₂ : Scan} {c : Char} {t r after : Text}
    (hgap : s.gap false t = (s₁, c :: r)) (hkeys : s₁.refreshKeys? = some s₁)
    (hstep : (s₁.unroll (some s₁.column)).step? c r = some (s₂, after))
    (hshort : after.length < t.length) : s.run? t = s₂.run? after := by
  rw [run?]
  simp [hgap, hkeys, hstep, hshort]

/-- A plain scalar begins with this character. -/
theorem step?_scalar {c : Char} (hc : isIndicator c = false) (hdot : c ≠ '.') (s : Scan) (r : Text) :
    s.step? c r = do
      let s ← s.saveKey?
      let (text, after, broken) ← plain? s.inFlow (s.indents.head?.elim 0 (· + 1)) (c :: r)
      return ({ s with keyAllowed := broken }.take (.scalar true text)
        ((c :: r).take ((c :: r).length - after.length)), after) := by
  have hno : ∀ d, isIndicator d = true → (c == d) = false := by
    intro d hd
    refine beq_eq_false_iff_ne.2 ?_
    rintro rfl
    rw [hc] at hd
    cases hd
  have hmark : markerAhead '.' (c :: r) = false := by simp [markerAhead, hdot]
  have hdashes : markerAhead '-' (c :: r) = false := by
    simp [markerAhead, beq_eq_false_iff_ne.1 (hno '-' rfl)]
  simp only [step?, hmark, hdashes, hno '[' rfl, hno ']' rfl, hno '{' rfl, hno '}' rfl, hno ',' rfl,
    hno '-' rfl, hno '?' rfl, hno ':' rfl, hno '\'' rfl, hno '"' rfl, hc, Bool.and_false,
    Bool.false_and, Bool.or_false, Bool.not_false, Bool.false_eq_true, if_false, if_true]

/-- A word is scanned with the blanks that it runs into. -/
theorem step?_word {c : Char} {w run after : Text} (hw : Word (c :: w)) {s s' : Scan} {broken : Bool}
    (hsave : s.saveKey? = some s')
    (hplain : plain? s'.inFlow (s'.indents.head?.elim 0 (· + 1)) (c :: w ++ (run ++ after)) =
      some (c :: w, after, broken)) :
    s.step? c (w ++ (run ++ after)) =
      some ({ s' with
        tokens := .scalar true (c :: w) :: s'.tokens
        column := s'.column + (c :: w).length
        offset := s'.offset + (c :: w).length
        keyAllowed := broken }.move run, after) := by
  obtain ⟨hind, hdot⟩ := hw.start c rfl
  have htake : (c :: w ++ (run ++ after)).take ((c :: w ++ (run ++ after)).length - after.length) =
      c :: w ++ run := by
    rw [← List.append_assoc, List.length_append, Nat.add_sub_cancel, List.take_left]
  rw [step?_scalar hind hdot, hsave, Option.bind_eq_bind, Option.bind_some, ← List.cons_append,
    hplain, Option.bind_eq_bind, Option.bind_some]
  simp only [htake, take, move_append hw.solid]
  rfl

/-- The state at the start of a line, in no flow collection. -/
def atLine (tokens : List Token) (line offset : Nat) (indents : List Nat) : Scan :=
  { tokens, line, offset, indents }

/-- The state behind a word at the start of a line, which may become a key. -/
def atColon (tokens : List Token) (line offset : Nat) (indents : List Nat) (key : Text) : Scan where
  tokens := .scalar true key :: tokens
  line := line
  column := key.length
  offset := offset + key.length
  indents := indents
  candidate := some ⟨tokens.length, line, 0, offset, indents.head? == some 0⟩
  keyAllowed := false

/-- The state behind the colon of a key of the outermost block. -/
def atValue (tokens : List Token) (line column offset : Nat) : Scan :=
  { tokens, line, column, offset, indents := [0], keyAllowed := false }

/-- The token of the block that a key at the start of a line opens. -/
def opening (indents : List Nat) : List Token := if indents = [] then [.blockMapping] else []

variable {tokens : List Token} {line column offset : Nat} {indents : List Nat} {k v r : Text}

theorem run?_key (hk : Word k) (hr : gapAhead r = true) (hmargin : indents = [] ∨ indents = [0]) :
    (atLine tokens line offset indents).run? (k ++ ':' :: r) =
      (atColon tokens line offset indents k).run? (':' :: r) := by
  obtain ⟨c, w, rfl⟩ := List.exists_cons_of_ne_nil hk.ne_nil
  have hcomment : c ≠ '#' := by
    rintro rfl
    cases (hk.start '#' rfl).1
  have hunroll : (atLine tokens line offset indents).unroll (some 0) =
      atLine tokens line offset indents := by
    obtain rfl | rfl := hmargin <;> rfl
  have hsave : (atLine tokens line offset indents).saveKey? =
      some { atLine tokens line offset indents with
        candidate := some ⟨tokens.length, line, 0, offset, indents.head? == some 0⟩ } := rfl
  have hplain : plain? false (indents.head?.elim 0 (· + 1)) (c :: w ++ ([] ++ ':' :: r)) =
      some (c :: w, ':' :: r, false) := hk.plain?_colon hr _
  have hstep := step?_word hk hsave hplain
  have hshort : (':' :: r).length < (c :: w ++ ':' :: r).length := by
    simp only [List.length_append, List.length_cons]
    omega
  refine run?_of_step (gap_cons (hk.solid c List.mem_cons_self) hcomment _ _) rfl ?_ hshort
  change ((atLine tokens line offset indents).unroll (some 0)).step? c (w ++ ':' :: r) = _
  rw [hunroll]
  refine hstep.trans ?_
  simp only [atLine, Nat.zero_add]
  rfl

/-- The colon puts the marks of the block and the key in front of the word before it. -/
theorem value?_atColon (hmargin : indents = [] ∨ indents = [0]) :
    (atColon tokens line offset indents k).value? =
      some (atValue (.value :: .scalar true k :: .key :: (opening indents ++ tokens)) line
        (k.length + 1) (offset + k.length + 1)) := by
  obtain rfl | rfl := hmargin
  · simp [value?, atColon, insert, roll, opening, take, emit, move, atValue, inFlow, isBreak,
      Nat.add_assoc]
  · simp [value?, atColon, insert, roll, opening, take, emit, move, atValue, inFlow, isBreak]

theorem run?_colon (hlen : k.length ≤ 1024) (hmargin : indents = [] ∨ indents = [0]) :
    (atColon tokens line offset indents k).run? (':' :: ' ' :: r) =
      (atValue (.value :: .scalar true k :: .key :: (opening indents ++ tokens)) line
        (k.length + 1) (offset + k.length + 1)).run? (' ' :: r) := by
  have hkeys : (atColon tokens line offset indents k).refreshKeys? =
      some (atColon tokens line offset indents k) := by
    simp [refreshKeys?, refresh?, atColon, Nat.not_lt.2 hlen]
  have hunroll : (atColon tokens line offset indents k).unroll (some k.length) =
      atColon tokens line offset indents k := by
    obtain rfl | rfl := hmargin <;> rfl
  refine run?_of_step (gap_cons rfl (by decide) _ _) hkeys ?_ (by simp)
  change ((atColon tokens line offset indents k).unroll (some k.length)).step? ':' (' ' :: r) = _
  rw [hunroll]
  have hstep : (atColon tokens line offset indents k).step? ':' (' ' :: r) =
      (atColon tokens line offset indents k).value?.map (·, ' ' :: r) := by
    simp [step?, markerAhead, gapAhead, isGap, isSpace]
  rw [hstep, value?_atColon hmargin]
  rfl

theorem run?_value (hv : Word v) (hr : ∀ c ∈ r.head?, isGap c = false) :
    (atValue tokens line column offset).run? (' ' :: (v ++ '\n' :: r)) =
      (atLine (.scalar true v :: tokens) (line + 1) (offset + 1 + v.length + 1) [0]).run? r := by
  obtain ⟨c, w, rfl⟩ := List.exists_cons_of_ne_nil hv.ne_nil
  have hcomment : c ≠ '#' := by
    rintro rfl
    cases (hv.start '#' rfl).1
  have hgap : (atValue tokens line column offset).gap false (' ' :: (c :: w ++ '\n' :: r)) =
      (atValue tokens line (column + 1) (offset + 1), c :: (w ++ '\n' :: r)) := by
    rw [gap]
    · exact gap_cons (hv.solid c List.mem_cons_self) hcomment _ _
    · rintro r' heq
      cases heq
  have hplain : plain? false 1 (c :: w ++ (['\n'] ++ r)) = some (c :: w, r, true) :=
    hv.plain?_break hr 0
  have hstep := step?_word hv (s := atValue tokens line (column + 1) (offset + 1)) rfl hplain
  have hshort : r.length < (' ' :: (c :: w ++ '\n' :: r)).length := by
    simp only [List.length_append, List.length_cons]
    omega
  refine run?_of_step hgap rfl ?_ hshort
  refine hstep.trans ?_
  simp [move, isBreak, atValue, atLine]

end Scan

/-- A key and its value, both of them words; the key is not too long for one. -/
structure IsEntry (e : Text × Text) : Prop where
  key : Word e.1
  value : Word e.2
  short : e.1.length ≤ 1024

def entryTokens (e : Text × Text) : List Token :=
  [.key, .scalar true e.1, .value, .scalar true e.2]

namespace Scan

variable {tokens : List Token} {line offset : Nat} {indents : List Nat} {e : Text × Text} {r : Text}

/-- A line puts the tokens of its entry behind those before, and that of the block if it is the
first one. -/
theorem run?_entry (he : IsEntry e) (hr : ∀ c ∈ r.head?, isGap c = false)
    (hmargin : indents = [] ∨ indents = [0]) :
    (atLine tokens line offset indents).run? (entryLine e ++ '\n' :: r) =
      (atLine ((entryTokens e).reverse ++ (opening indents ++ tokens)) (line + 1)
        (offset + (entryLine e).length + 1) [0]).run? r := by
  obtain ⟨k, v⟩ := e
  have hoffset : offset + k.length + 1 + 1 + v.length + 1 =
      offset + (entryLine (k, v)).length + 1 := by
    simp [entryLine]
    omega
  calc (atLine tokens line offset indents).run? (entryLine (k, v) ++ '\n' :: r)
      = (atLine tokens line offset indents).run? (k ++ ':' :: ' ' :: (v ++ '\n' :: r)) := by
        simp [entryLine]
    _ = (atColon tokens line offset indents k).run? (':' :: ' ' :: (v ++ '\n' :: r)) :=
        run?_key he.key rfl hmargin
    _ = (atValue (.value :: .scalar true k :: .key :: (opening indents ++ tokens)) line
          (k.length + 1) (offset + k.length + 1)).run? (' ' :: (v ++ '\n' :: r)) :=
        run?_colon he.short hmargin
    _ = (atLine (.scalar true v :: .value :: .scalar true k :: .key :: (opening indents ++ tokens))
          (line + 1) (offset + k.length + 1 + 1 + v.length + 1) [0]).run? r :=
        run?_value he.value hr
    _ = _ := by
        rw [hoffset]
        rfl

theorem head?_blockText {es : List (Text × Text)} (hes : ∀ e ∈ es, IsEntry e) :
    ∀ c ∈ (blockText es).head?, isGap c = false := by
  cases es with
  | nil => simp [blockText]
  | cons e es =>
    have hkey := (hes e List.mem_cons_self).key
    obtain ⟨c, w, hw⟩ := List.exists_cons_of_ne_nil hkey.ne_nil
    simpa [blockText, entryLine, hw] using hkey.solid c (by simp [hw])

theorem run?_blockText {es : List (Text × Text)} (hes : ∀ e ∈ es, IsEntry e) :
    (atLine tokens line offset [0]).run? (blockText es) =
      some (tokens.reverse ++ es.flatMap entryTokens ++ [.blockEnd]) := by
  induction es generalizing tokens line offset with
  | nil =>
    rw [run?]
    simp [atLine, gap, blockText, unroll, refreshKeys?, refresh?, dropKey?, inFlow]
  | cons e es ih =>
    obtain ⟨he, hes⟩ := List.forall_mem_cons.1 hes
    have hlines : blockText (e :: es) = entryLine e ++ '\n' :: blockText es := by
      simp [blockText]
    rw [hlines, run?_entry he (head?_blockText hes) (.inr rfl), ih hes]
    simp [opening]

end Scan

theorem printable_blockText {es : List (Text × Text)} (hes : ∀ e ∈ es, IsEntry e) :
    ∀ c ∈ blockText es, isPrintable c = true := by
  intro c hc
  obtain ⟨e, he, hmem⟩ := List.mem_flatMap.1 hc
  have hmem : c ∈ e.1 ∨ c = ':' ∨ c = ' ' ∨ c ∈ e.2 ∨ c = '\n' := by
    simpa [entryLine, or_assoc] using hmem
  obtain h | rfl | rfl | h | rfl := hmem
  · exact (hes e he).key.printable c h
  · rfl
  · rfl
  · exact (hes e he).value.printable c h
  · rfl

theorem tokens?_blockText {es : List (Text × Text)} (hne : es ≠ []) (hes : ∀ e ∈ es, IsEntry e) :
    tokens? (blockText es) = some (.blockMapping :: es.flatMap entryTokens ++ [.blockEnd]) := by
  obtain ⟨e, es, rfl⟩ := List.exists_cons_of_ne_nil hne
  obtain ⟨he, hrest⟩ := List.forall_mem_cons.1 hes
  have hlines : blockText (e :: es) = entryLine e ++ '\n' :: blockText es := by
    simp [blockText]
  have hall : (blockText (e :: es)).all isPrintable = true :=
    List.all_eq_true.2 (printable_blockText hes)
  have hmark : ∀ r, blockText (e :: es) ≠ '\uFEFF' :: r := by
    intro r heq
    rw [heq] at hall
    cases hall
  have hrun : Scan.run? {} (blockText (e :: es)) =
      some (.blockMapping :: (e :: es).flatMap entryTokens ++ [.blockEnd]) := by
    change (Scan.atLine [] 0 0 []).run? _ = _
    rw [hlines, Scan.run?_entry he (Scan.head?_blockText hrest) (.inl rfl), Scan.run?_blockText hrest]
    simp [Scan.opening]
  unfold tokens?
  split
  · next r heq => exact absurd heq (hmark r)
  · rw [if_pos hall, hrun]

namespace Node

theorem optional?_scalar (n : Nat) (block loose : Bool) {stops : List Token} {plain : Bool} {t : Text}
    (hstops : .scalar plain t ∉ stops) (ts : List Token) :
    optional? (n + 2) block loose stops (.scalar plain t :: ts) = some (.scalar plain t, ts) := by
  simp [optional?, hstops, node?]

theorem blockEntries?_entryTokens (n : Nat) (e : Text × Text) (ts : List Token) :
    blockEntries? (n + 4) (entryTokens e ++ ts) =
      (blockEntries? (n + 3) ts).map fun x => (entryNode e :: x.1, x.2) := by
  have hkey := optional?_scalar (n + 1) true true
    (show Token.scalar true e.1 ∉ [.key, .value, .blockEnd] by simp)
    (.value :: .scalar true e.2 :: ts)
  have hvalue := optional?_scalar n true true
    (show Token.scalar true e.2 ∉ [.key, .value, .blockEnd] by simp) ts
  rw [entryTokens, List.cons_append, blockEntries?]
  simp only [List.cons_append, List.nil_append, hkey, Option.bind_eq_bind, Option.bind_some, value?,
    hvalue]
  cases blockEntries? (n + 3) ts with
  | none => rfl
  | some x => rfl

theorem blockEntries?_flatMap (es : List (Text × Text)) {n : Nat} (hn : es.length + 3 ≤ n) :
    blockEntries? n (es.flatMap entryTokens ++ [.blockEnd]) = some (es.map entryNode, []) := by
  induction es generalizing n with
  | nil =>
    obtain ⟨m, rfl⟩ := Nat.exists_eq_add_of_le' hn
    rfl
  | cons e es ih =>
    obtain ⟨m, rfl⟩ := Nat.exists_eq_add_of_le' (show 4 ≤ n by simp at hn; omega)
    have hrest := ih (n := m + 3) (by simpa using hn)
    rw [List.flatMap_cons, List.append_assoc, blockEntries?_entryTokens, hrest]
    rfl

/-- A text with an entry on every line is the mapping of these entries. -/
theorem read?_blockText {es : List (Text × Text)} (hne : es ≠ []) (hes : ∀ e ∈ es, IsEntry e) :
    read? (blockText es) = some (.mapping (es.map entryNode)) := by
  have hlength : (es.flatMap entryTokens).length = es.length * 4 := by
    simp [List.length_flatMap, entryTokens]
  have hdepth : es.length + 3 ≤
      4 * (.blockMapping :: es.flatMap entryTokens ++ [Token.blockEnd]).length + 3 := by
    simp only [List.length_append, List.length_cons, hlength]
    omega
  have hentries := blockEntries?_flatMap es hdepth
  rw [read?, tokens?_blockText hne hes]
  simp only [Option.bind_eq_bind, Option.bind_some, ofTokens?, List.cons_append, node?, if_true]
  rw [List.cons_append] at hentries
  rw [hentries]
  rfl

end Node

end ProjectSetup.Yaml
