import ProjectSetup.Proofs.Import.Header

/-!
# Type literals

Members of a type literal that only line breaks part. The layout keeps the lines if it sees two
members that would run into each other on one line. It judges by the last character of the one and
the first of the other, and an angle bracket at the end of a type does not count for it.
-/
namespace ProjectSetup

open Draft (Takes isPlain isGap)

/-- A text without blanks or marks, such as an identifier. -/
structure Word (t : Text) : Prop where
  ne_nil : t ≠ []
  chars : ∀ c ∈ t, isPlain c = true

theorem Word.exists_cons {t : Text} (h : Word t) : ∃ c r, t = c :: r ∧ isPlain c = true := by
  obtain ⟨c, r, rfl⟩ := List.exists_cons_of_ne_nil h.ne_nil
  exact ⟨c, r, rfl, h.chars c List.mem_cons_self⟩

theorem Word.exists_last {t : Text} (h : Word t) : ∃ c, t.getLast? = some c ∧ isPlain c = true :=
  ⟨_, List.getLast?_eq_some_getLast h.ne_nil, h.chars _ (List.getLast_mem h.ne_nil)⟩

theorem Word.unbroken {t : Text} (h : Word t) : '\n' ∉ t := by
  intro hmem
  cases h.chars _ hmem

theorem Import.Name.word {t : Text} (h : Import.Name t) : Word t :=
  ⟨h.ne_nil, fun c hc => Draft.isPlain_of_isBinding (h.chars c hc)⟩

/-- The type of a member: a name, an array of a type, or a name applied to a type. -/
inductive MemberType where
  | name (t : Text)
  | array (item : MemberType)
  | generic (t : Text) (argument : MemberType)

namespace MemberType

def text : MemberType → Text
  | name t => t
  | array item => item.text ++ ['[', ']']
  | generic t argument => t ++ '<' :: (argument.text ++ ['>'])

/-- The names of the type are words. -/
def Plain : MemberType → Prop
  | name t => Word t
  | array item => item.Plain
  | generic t argument => Word t ∧ argument.Plain

theorem Plain.exists_cons {T : MemberType} (h : T.Plain) :
    ∃ c r, T.text = c :: r ∧ isPlain c = true := by
  induction T with
  | name t => exact Word.exists_cons h
  | array item ih =>
    obtain ⟨c, r, hr, hc⟩ := ih h
    exact ⟨c, r ++ ['[', ']'], by rw [text, hr]; rfl, hc⟩
  | generic t argument _ =>
    obtain ⟨c, r, hr, hc⟩ := h.1.exists_cons
    exact ⟨c, r ++ '<' :: (argument.text ++ ['>']), by rw [text, hr]; rfl, hc⟩

/-- A type ends with a character of a name or with a bracket. -/
theorem Plain.exists_last {T : MemberType} (h : T.Plain) :
    ∃ c, T.text.getLast? = some c ∧ (isPlain c = true ∨ c = ']' ∨ c = '>') := by
  cases T with
  | name t =>
    obtain ⟨c, hlast, hc⟩ := Word.exists_last h
    exact ⟨c, hlast, .inl hc⟩
  | array item => exact ⟨']', by simp [text], .inr (.inl rfl)⟩
  | generic t argument =>
    have htext : (generic t argument).text = (t ++ '<' :: argument.text) ++ ['>'] := by simp [text]
    exact ⟨'>', by rw [htext, List.getLast?_concat], .inr (.inr rfl)⟩

theorem Plain.unbroken {T : MemberType} (h : T.Plain) : '\n' ∉ T.text := by
  induction T with
  | name t => exact Word.unbroken h
  | array item ih => simp [text, ih h]
  | generic t argument ih => simp [text, Word.unbroken h.1, ih h.2]

/-- Whether the layout sees that the next name would go on with the type. -/
def endsOperand : MemberType → Bool
  | name t => t.getLast?.any Members.endsOperand
  | array _ => true
  | generic _ _ => false

theorem Plain.endsOperand_eq {T : MemberType} (h : T.Plain) {c : Char}
    (hc : T.text.getLast? = some c) : T.endsOperand = Members.endsOperand c := by
  cases T with
  | name t =>
    rw [text] at hc
    rw [endsOperand, hc]
    rfl
  | array item =>
    rw [text, List.getLast?_append_of_ne_nil _ (by simp)] at hc
    cases hc
    exact (by decide : true = Members.endsOperand ']')
  | generic t argument =>
    have htext : (generic t argument).text = (t ++ '<' :: argument.text) ++ ['>'] := by simp [text]
    rw [htext, List.getLast?_concat] at hc
    cases hc
    exact (by decide : false = Members.endsOperand '>')

end MemberType

/-- A member of a type literal. -/
structure TypeMember where
  field : Text
  type : MemberType

namespace TypeMember

def text (m : TypeMember) : Text := m.field ++ ':' :: ' ' :: m.type.text

structure Plain (m : TypeMember) : Prop where
  field : Word m.field
  type : m.type.Plain

theorem Plain.exists_cons {m : TypeMember} (h : m.Plain) :
    ∃ c r, m.text = c :: r ∧ isPlain c = true := by
  obtain ⟨c, r, hr, hc⟩ := h.field.exists_cons
  exact ⟨c, r ++ ':' :: ' ' :: m.type.text, by rw [text, hr]; rfl, hc⟩

theorem Plain.getLast?_text {m : TypeMember} (h : m.Plain) :
    m.text.getLast? = m.type.text.getLast? := by
  obtain ⟨c, r, hr, -⟩ := h.type.exists_cons
  rw [text, hr, List.getLast?_append_of_ne_nil _ (by simp), List.getLast?_cons_cons,
    List.getLast?_cons_cons]

theorem Plain.exists_last {m : TypeMember} (h : m.Plain) :
    ∃ c, m.text.getLast? = some c ∧ (isPlain c = true ∨ c = ']' ∨ c = '>') := by
  rw [h.getLast?_text]
  exact h.type.exists_last

theorem Plain.unbroken {m : TypeMember} (h : m.Plain) : '\n' ∉ m.text := by
  simp [text, h.field.unbroken, h.type.unbroken]

/-- Whether a line break between the members parts them for the layout. -/
def parts (m m' : TypeMember) : Bool :=
  m.type.endsOperand && m'.field.head?.any Members.startsOperand

theorem Plain.parts_eq {m m' : TypeMember} (hm : m.Plain) (hm' : m'.Plain) {c x : Char}
    (hc : m.text.getLast? = some c) (hx : m'.text.head? = some x) :
    m.parts m' = (Members.endsOperand c && Members.startsOperand x) := by
  obtain ⟨y, r, hy, -⟩ := hm'.field.exists_cons
  rw [text, hy] at hx
  obtain rfl : y = x := Option.some.inj hx
  rw [hm.getLast?_text] at hc
  rw [parts, hm.type.endsOperand_eq hc, hy]
  rfl

end TypeMember

/-- Whether a line break parts two neighbours among the members. -/
def parted : List TypeMember → Bool
  | m :: m' :: ms => m.parts m' || parted (m' :: ms)
  | _ => false

/-- The declaration of a type with these members, `gap` ahead of each of them and `close` at the
end. -/
def typeLiteral (gap close name : Text) (ms : List TypeMember) : Text :=
  "type ".toList ++ (name ++ (" = \x7b".toList ++ (ms.flatMap (fun m => gap ++ m.text) ++ close)))

/-- Each member on an indented line of its own. -/
def spreadLiteral (name : Text) (ms : List TypeMember) : Text :=
  typeLiteral "\n  ".toList "\n\x7d\n".toList name ms

/-- The members on one line, with nothing but blanks between them. -/
def joinedLiteral (name : Text) (ms : List TypeMember) : Text :=
  typeLiteral [' '] " \x7d\n".toList name ms

namespace Members

variable {s s' s'' : Seen} {c : Char}

/-- What the search has seen of a text when it has gone over it. -/
structure Passed (s : Seen) (t : Text) (s' : Seen) : Prop where
  search : ∀ rest, search s (t ++ rest) = search s' rest
  depth : s'.depth = s.depth
  holdsBody : s'.holdsBody = s.holdsBody
  broken : s'.broken = false
  last : t.getLast? = some s'.last

theorem Passed.append {t u : Text} (h : Passed s t s') (h' : Passed s' u s'') :
    Passed s (t ++ u) s'' where
  search rest := by rw [List.append_assoc, h.search, h'.search]
  depth := h'.depth.trans h.depth
  holdsBody := h'.holdsBody.trans h.holdsBody
  broken := h'.broken
  last := by
    have hne : u ≠ [] := by
      rintro rfl
      cases h'.last
    rw [List.getLast?_append_of_ne_nil _ hne, h'.last]

/-- The search goes over a character that is no mark to it. -/
theorem passed_char (hc : isPlain c = true ∨ c ∈ [':', '<', '>']) (hparts : s.parts c = false) :
    Passed s [c] (s.next c) := by
  have hmark : c ∉ marks := by
    intro hm
    have hno : ∀ m ∈ marks, isPlain m = false ∧ m ∉ [':', '<', '>'] := by decide
    rcases hc with hc | hc
    · rw [(hno c hm).1] at hc
      cases hc
    · exact (hno c hm).2 hc
  have hblank : Text.isBlank c = false := by
    rcases hc with hc | hc
    · simpa using (Bool.and_eq_true_iff.1 hc).1
    · exact (by decide : ∀ m ∈ [':', '<', '>'], Text.isBlank m = false) c hc
  exact ⟨search_of_not_mem hmark hblank hparts, depth_next_of_not_mem s hmark,
    holdsBody_next_of_not_mem s hmark, rfl, rfl⟩

/-- Brackets with nothing between them leave the search at its depth. -/
theorem passed_brackets (hdepth : 1 ≤ s.depth) (hbroken : s.broken = false) :
    Passed s ['[', ']'] ((s.next '[').next ']') := by
  have hopen (rest : Text) : search s ('[' :: rest) = search (s.next '[') rest := by
    have hblank : Text.isBlank '[' = false := by decide
    rw [Members.search]
    simp [hblank, Seen.parts, hbroken, Seen.closes, skipLiteral]
  have hclose (rest : Text) :
      search (s.next '[') (']' :: rest) = search ((s.next '[').next ']') rest := by
    have hblank : Text.isBlank ']' = false := by decide
    have hdeep : ¬ s.depth = 0 := by omega
    rw [Members.search]
    simp [hblank, Seen.parts, Seen.next, Seen.closes, hdeep, skipLiteral]
  constructor
  · intro rest
    rw [List.cons_append, List.cons_append, List.nil_append, hopen, hclose]
  · simp [Seen.next]
  · simp [Seen.next]
  · rfl
  · rfl

theorem parts_of_not_broken (h : s.broken = false) (c : Char) : s.parts c = false := by
  simp [Seen.parts, h]

theorem exists_passed_chars {t : Text} (hne : t ≠ [])
    (ht : ∀ c ∈ t, isPlain c = true ∨ c ∈ [':', '<', '>'])
    (hparts : ∀ c ∈ t.head?, s.parts c = false) : ∃ s', Passed s t s' := by
  induction t generalizing s with
  | nil => exact absurd rfl hne
  | cons c t ih =>
    have hfirst := passed_char (ht c List.mem_cons_self) (hparts c rfl)
    by_cases hnil : t = []
    · rw [hnil]
      exact ⟨_, hfirst⟩
    · obtain ⟨s', hs'⟩ := ih hnil (fun x hx => ht x (List.mem_cons_of_mem c hx))
        fun x _ => parts_of_not_broken hfirst.broken x
      exact ⟨s', hfirst.append hs'⟩

theorem exists_passed_type {T : MemberType} (hT : T.Plain) (hdepth : 1 ≤ s.depth)
    (hparts : ∀ c ∈ T.text.head?, s.parts c = false) : ∃ s', Passed s T.text s' := by
  induction T generalizing s with
  | name t => exact exists_passed_chars hT.ne_nil (fun c hc => .inl (hT.chars c hc)) hparts
  | array item ih =>
    obtain ⟨c, r, hr, -⟩ := MemberType.Plain.exists_cons (T := item) hT
    obtain ⟨s', hs'⟩ := ih hT hdepth (by
      rw [MemberType.text, hr] at hparts
      rw [hr]
      exact hparts)
    exact ⟨_, hs'.append (passed_brackets (hs'.depth ▸ hdepth) hs'.broken)⟩
  | generic t argument ih =>
    obtain ⟨c, r, rfl, -⟩ := hT.1.exists_cons
    have hopen : ∀ x ∈ c :: r ++ ['<'], isPlain x = true ∨ x ∈ [':', '<', '>'] := by
      intro x hx
      rcases List.mem_append.1 hx with hx | hx
      · exact .inl (hT.1.chars x hx)
      · exact .inr (by rw [List.mem_singleton.1 hx]; decide)
    obtain ⟨s₁, h₁⟩ := exists_passed_chars (s := s) (t := c :: r ++ ['<']) (by simp) hopen hparts
    obtain ⟨s₂, h₂⟩ := ih hT.2 (h₁.depth ▸ hdepth) fun x _ => parts_of_not_broken h₁.broken x
    have h₃ := passed_char (c := '>') (.inr (by decide)) (parts_of_not_broken h₂.broken '>')
    have htext : (MemberType.generic (c :: r) argument).text =
        (c :: r ++ ['<']) ++ argument.text ++ ['>'] := by simp [MemberType.text]
    rw [htext]
    exact ⟨_, (h₁.append h₂).append h₃⟩

theorem exists_passed_member {m : TypeMember} (hm : m.Plain) (hdepth : 1 ≤ s.depth)
    (hparts : ∀ c ∈ m.text.head?, s.parts c = false) : ∃ s', Passed s m.text s' := by
  obtain ⟨c, r, hfield, -⟩ := hm.field.exists_cons
  have hopen : ∀ x ∈ m.field ++ [':'], isPlain x = true ∨ x ∈ [':', '<', '>'] := by
    intro x hx
    rcases List.mem_append.1 hx with hx | hx
    · exact .inl (hm.field.chars x hx)
    · exact .inr (by rw [List.mem_singleton.1 hx]; decide)
  obtain ⟨s₁, h₁⟩ := exists_passed_chars (s := s) (t := m.field ++ [':']) (by simp) hopen (by
    rw [TypeMember.text, hfield] at hparts
    rw [hfield]
    exact hparts)
  obtain ⟨s₂, h₂⟩ := exists_passed_type hm.type (h₁.depth ▸ hdepth) fun x _ =>
    parts_of_not_broken h₁.broken x
  -- the blank behind the colon is passed over
  have hblank : Passed s₁ (' ' :: m.type.text) s₂ := by
    obtain ⟨x, t, hx, -⟩ := hm.type.exists_cons
    refine ⟨fun rest => ?_, h₂.depth, h₂.holdsBody, h₂.broken, ?_⟩
    · rw [List.cons_append, search_blank _ (by decide), if_neg (by decide), h₂.search]
    · rw [List.getLast?_cons_of_ne_nil (by simp [hx]), h₂.last]
  refine ⟨s₂, ?_⟩
  have htext : m.text = m.field ++ [':'] ++ ' ' :: m.type.text := by simp [TypeMember.text]
  rw [htext]
  exact h₁.append hblank

/-- The end of a line directly inside the braces, and the blanks ahead of the next. -/
theorem search_indent (hdepth : s.depth = 1) (t : Text) : search s ("\n  ".toList ++ t) =
    search { s with multiline := true, broken := true } t := by
  have hbreak : s.lineBreak = { s with multiline := true, broken := true } := by
    simp [Seen.lineBreak, hdepth]
  change search s ('\n' :: ' ' :: ' ' :: t) = _
  rw [search_blank _ (by decide), search_blank _ (by decide), search_blank _ (by decide), ← hbreak]
  rfl

/-- Behind a member, the search finds the next one parted from it, or goes on to the end. -/
theorem search_members {m : TypeMember} {ms : List TypeMember} (hm : m.Plain)
    (hms : ∀ m ∈ ms, m.Plain)
    (hdepth : s.depth = 1) (hbody : s.holdsBody = false)
    (hlast : m.text.getLast? = some s.last) (rest : Text) :
    search s (ms.flatMap (fun m => "\n  ".toList ++ m.text) ++ ("\n\x7d\n".toList ++ rest)) =
      if parted (m :: ms) then .parted else .closed true ('\n' :: rest) := by
  induction ms generalizing s m with
  | nil => exact search_close ('\n' :: rest) hdepth hbody (by decide)
  | cons m' ms ih =>
    have hm' := hms m' List.mem_cons_self
    obtain ⟨c, r, hr, hc⟩ := hm'.exists_cons
    let s₁ : Seen := { s with multiline := true, broken := true }
    have hparts : m.parts m' = s₁.parts c := by
      rw [hm.parts_eq hm' hlast (by rw [hr]; rfl)]
      rfl
    rw [List.flatMap_cons, List.append_assoc, List.append_assoc, search_indent hdepth, parted,
      hparts]
    cases hp : s₁.parts c with
    | true =>
      have hno : c ≠ '\n' ∧ c ≠ '/' := by
        have hmarks := Draft.not_mem_marks_of_isPlain hc
        refine ⟨?_, ?_⟩
        · rintro rfl
          cases hc
        · rintro rfl
          exact hmarks (by decide)
      have hblank : Text.isBlank c = false := by simpa using (Bool.and_eq_true_iff.1 hc).1
      rw [hr, List.cons_append, Members.search]
      simp [hno, hblank, hp, s₁]
    | false =>
      obtain ⟨s₂, h₂⟩ := exists_passed_member (s := s₁) hm' (by simp [s₁, hdepth]) (by
        rw [hr]
        rintro x hx
        cases hx
        exact hp)
      rw [h₂.search, Bool.false_or]
      exact ih hm' (fun m hm => hms m (List.mem_cons_of_mem m' hm)) (h₂.depth.trans hdepth)
        (h₂.holdsBody.trans hbody) h₂.last

/-- The literal is written on one line iff no line break parts two neighbours. -/
theorem onOneLine_members {ms : List TypeMember} (hne : ms ≠ []) (hms : ∀ m ∈ ms, m.Plain)
    (rest : Text) :
    onOneLine (ms.flatMap (fun m => "\n  ".toList ++ m.text) ++ ("\n\x7d\n".toList ++ rest)) =
      !parted ms := by
  obtain ⟨m, ms, rfl⟩ := List.exists_cons_of_ne_nil hne
  obtain ⟨s, hs⟩ := exists_passed_member (s := { multiline := true, broken := true })
    (hms m List.mem_cons_self) (Nat.le_refl 1) fun c _ => by
      have hno : endsOperand '{' = false := by decide
      simp [Seen.parts, hno]
  rw [onOneLine, List.flatMap_cons, List.append_assoc, List.append_assoc, search_indent rfl,
    hs.search, search_members (hms m List.mem_cons_self)
      (fun m' hm' => hms m' (List.mem_cons_of_mem m hm')) hs.depth hs.holdsBody hs.last]
  cases parted (m :: ms) with
  | true => rfl
  | false => rfl

end Members

namespace Draft

variable {q : Char} {d : Draft}

theorem takes_word {t : Text} (ht : Word t) (hpad : d.pad = false) : Takes q d t (d.write t) :=
  fun _ => ⟨d.line, read_singles (fun c hc => isSingle_of_isPlain (ht.chars c hc)) hpad⟩

theorem takes_single {c : Char} (hc : isSingle c = true) (hpad : d.pad = false) :
    Takes q d [c] (d.write [c]) :=
  fun _ => ⟨d.line, read_single hc hpad⟩

/-- Brackets with nothing between them are written as they stand. -/
theorem takes_brackets (hpad : d.pad = false) : Takes q d ['[', ']'] (d.write ['[', ']']) := by
  intro rest
  refine ⟨d.line, ?_⟩
  let e : Draft := { d.write ['['] with frames := (.bracket, d.line) :: d.frames, pad := false }
  have hopen : d.step q '[' (']' :: rest) = .ok (e, ']' :: rest) := by
    change Except.ok (d.openFrame .bracket, _) = _
    rw [openFrame, token_eq_write hpad]
    rfl
  have hlist : ({ d.write ['['] with pad := false } : Draft).endList .bracket =
      { d.write ['['] with pad := false } := by
    have hkeep : ({ d.write ['['] with pad := false } : Draft).retract =
        { d.write ['['] with pad := false } := retract_of_head? (c := '[') rfl (by decide)
    rw [endList, hkeep]
    rfl
  have hclose : e.step q ']' rest =
      .ok ({ d.write ['[', ']'] with pad := false }, rest) := by
    change e.close ']' rest = _
    change Except.ok ((({ d.write ['['] with pad := false } : Draft).endList .bracket).write [']'],
      rest) = _
    rw [hlist]
    rfl
  rw [List.cons_append, List.cons_append, List.nil_append, read_of_step hopen,
    read_of_step hclose]
  obtain ⟨back, ends, frames, line, pad⟩ := d
  cases hpad
  rfl

theorem takes_type {T : MemberType} (hT : T.Plain) (hpad : d.pad = false) :
    Takes q d T.text (d.write T.text) := by
  induction T generalizing d with
  | name t => exact takes_word hT hpad
  | array item ih => exact (ih hT hpad).write fun n => takes_brackets hpad
  | generic t argument ih =>
    have hclose (e : Draft) (he : e.pad = false) :
        Takes q e (argument.text ++ ['>']) (e.write (argument.text ++ ['>'])) :=
      (ih hT.2 he).write fun n => takes_single (by decide) he
    refine (takes_word hT.1 hpad).write fun n => ?_
    have hopen : Takes q ((d.recount n).write t) ['<'] (((d.recount n).write t).write ['<']) :=
      takes_single (by decide) hpad
    exact hopen.write fun k => hclose _ hpad

/-- The blank behind a colon is written whether lines are joined or not. -/
theorem takes_blank {c : Char} {t : Text} (hc : isPlain c = true)
    (ht : ∀ d : Draft, d.pad = false → Takes q d (c :: t) (d.write (c :: t)))
    (hcolon : d.back.head? = some ':') (hpad : d.pad = false) :
    Takes q d (' ' :: c :: t) (d.write (' ' :: c :: t)) := by
  intro rest
  have hgap : ∃ n, read q d (' ' :: c :: (t ++ rest)) =
      read q ((d.write [' ']).recount n) (c :: (t ++ rest)) := by
    cases hj : d.joins with
    | true =>
      refine ⟨(d.advance [' ']).line, ?_⟩
      refine (read_joined_gap hj (List.cons_ne_nil ' ' []) (by simp [isGap]) hcolon (by decide)
        hc).trans ?_
      obtain ⟨back, ends, frames, line, pad⟩ := d
      cases hpad
      rfl
    | false =>
      refine ⟨(d.advance [' ']).line, ?_⟩
      rw [read_gap hj (by decide)]
      rfl
  obtain ⟨n, hn⟩ := hgap
  obtain ⟨k, hk⟩ := ht ((d.write [' ']).recount n) hpad rest
  refine ⟨k, ?_⟩
  rw [List.cons_append, List.cons_append, hn, ← List.cons_append, hk]
  congr 1
  simp [write, recount]

theorem takes_member {m : TypeMember} (hm : m.Plain) (hpad : d.pad = false) :
    Takes q d m.text (d.write m.text) := by
  refine (takes_word hm.field hpad).write fun n => ?_
  have hcolon : Takes q ((d.recount n).write m.field) [':']
      (((d.recount n).write m.field).write [':']) := takes_single (by decide) hpad
  refine hcolon.write fun k => ?_
  obtain ⟨c, r, hr, hc⟩ := hm.type.exists_cons
  rw [hr]
  refine takes_blank hc (fun d hpad => ?_) rfl hpad
  rw [← hr]
  exact takes_type hm.type hpad

/-- What no member ends with. -/
theorem not_mem_of_last {m : TypeMember} (hm : m.Plain) (d : Draft) :
    ∃ c, (d.write m.text).back.head? = some c ∧ c ∉ ['(', '[', '{', ',', ' ', '\t'] := by
  obtain ⟨c, hlast, hc⟩ := hm.exists_last
  refine ⟨c, head?_write hlast d, fun hmem => ?_⟩
  have hno : ∀ c ∈ ['(', '[', '{', ',', ' ', '\t'], isPlain c = false ∧ c ≠ ']' ∧ c ≠ '>' := by
    decide
  obtain ⟨hplain, hbracket, hangle⟩ := hno c hmem
  rcases hc with hc | hc | hc
  · rw [hplain] at hc
    cases hc
  · exact hbracket hc
  · exact hangle hc

/-- Where lines are joined, one blank stands ahead of a member. -/
theorem takes_joined_member {m : TypeMember} (hm : m.Plain) (hj : d.joins = true) {x : Char}
    (hx : d.back.head? = some x) (hopen : x ≠ '(' ∧ x ≠ '[' ∧ x ≠ ' ') :
    Takes q d ("\n  ".toList ++ m.text) { d.write (' ' :: m.text) with pad := false } := by
  intro rest
  obtain ⟨c, r, hr, hc⟩ := hm.exists_cons
  obtain ⟨n, hn⟩ := takes_member (q := q) hm
    (d := { (d.write [' ']).advance "\n  ".toList with pad := false }) rfl rest
  refine ⟨n, ?_⟩
  rw [hr, List.cons_append] at hn
  rw [hr, List.append_assoc, List.cons_append,
    read_joined_gap hj (by decide) (by decide) hx hopen hc, hn]
  congr 1
  simp [write, recount, advance]

theorem takes_joined_members {m : TypeMember} {ms : List TypeMember} (hm : m.Plain)
    (hms : ∀ m ∈ ms, m.Plain) (hj : d.joins = true) {x : Char} (hx : d.back.head? = some x)
    (hopen : x ≠ '(' ∧ x ≠ '[' ∧ x ≠ ' ') :
    Takes q d ((m :: ms).flatMap fun m => "\n  ".toList ++ m.text)
      { d.write ((m :: ms).flatMap fun m => ' ' :: m.text) with pad := false } := by
  have hfirst := takes_joined_member (q := q) hm hj hx hopen
  induction ms generalizing d m x with
  | nil =>
    rw [List.flatMap_singleton, List.flatMap_singleton]
    exact hfirst
  | cons m' ms ih =>
    have hm' := hms m' List.mem_cons_self
    obtain ⟨c, hc, hno⟩ := not_mem_of_last hm (d.write [' '])
    rw [write_write] at hc
    have hopen' : c ≠ '(' ∧ c ≠ '[' ∧ c ≠ ' ' := by
      simp only [List.mem_cons, List.not_mem_nil, or_false, not_or] at hno
      exact ⟨hno.1, hno.2.1, hno.2.2.2.2.1⟩
    rw [List.flatMap_cons, List.flatMap_cons]
    refine hfirst.append fun n rest => ?_
    let e : Draft := { (d.write (' ' :: m.text)).recount n with pad := false }
    obtain ⟨k, hk⟩ := ih (d := e) hm' (fun m hm => hms m (List.mem_cons_of_mem m' hm)) hj hc hopen'
      (takes_joined_member hm' hj hc hopen') rest
    refine ⟨k, hk.trans ?_⟩
    congr 1
    simp [e, write, recount]

/-- On lines of their own, members are written as they stand. -/
theorem takes_lined_member {m : TypeMember} (hm : m.Plain) (htop : d.top? = some .members)
    (hpad : d.pad = false) : Takes q d ("\n  ".toList ++ m.text)
      { d.write ("\n  ".toList ++ m.text) with ends := .statement :: d.ends } := by
  intro rest
  have hj : d.joins = false := by simp [joins, htop, Frame.joins]
  have hend : d.lineEnd = .statement := by simp [lineEnd, htop, Frame.holdsStatements]
  let e : Draft := (((d.breakLine .statement).write [' ', ' ']).recount (d.line + 1))
  have hgap : read q d ("\n  ".toList ++ m.text ++ rest) = read q e (m.text ++ rest) := by
    have hblank (e : Draft) (he : e.joins = false) (r : Text) :
        read q e (' ' :: r) = read q ((e.write [' ']).advance [' ']) r := read_gap he (by decide)
    change read q d ('\n' :: ' ' :: ' ' :: (m.text ++ rest)) = _
    rw [read_gap hj (by decide), writeGap, if_pos rfl, hend]
    rw [hblank _ (by exact hj), hblank _ (by exact hj)]
    rfl
  obtain ⟨n, hn⟩ := takes_member (q := q) hm (d := e) hpad rest
  refine ⟨n, (hgap.trans hn).trans ?_⟩
  congr 1
  simp [e, write, breakLine, recount]

theorem takes_lined_members {ms : List TypeMember} (hms : ∀ m ∈ ms, m.Plain)
    (htop : d.top? = some .members) (hpad : d.pad = false) :
    Takes q d (ms.flatMap fun m => "\n  ".toList ++ m.text)
      { d.write (ms.flatMap fun m => "\n  ".toList ++ m.text) with
        ends := List.replicate ms.length .statement ++ d.ends } := by
  induction ms generalizing d with
  | nil => exact fun _ => ⟨d.line, rfl⟩
  | cons m ms ih =>
    rw [List.flatMap_cons]
    refine (takes_lined_member (hms m List.mem_cons_self) htop hpad).append fun n rest => ?_
    let e : Draft :=
      { d.write ("\n  ".toList ++ m.text) with ends := .statement :: d.ends, line := n }
    obtain ⟨k, hk⟩ := ih (d := e) (fun m hm => hms m (List.mem_cons_of_mem _ hm)) htop hpad rest
    refine ⟨k, hk.trans ?_⟩
    congr 1
    simp [e, write, recount, List.replicate_succ']

/-- Ahead of the members, a brace opens a list of items if no line break parts them. -/
theorem braceFrame_literal {d : Draft} (hframes : d.frames = []) (name rest : Text) :
    (d.write ("type ".toList ++ (name ++ " = ".toList))).braceFrame rest =
      if Members.onOneLine rest then .list else .members := by
  let e := d.write ("type ".toList ++ (name ++ " = ".toList))
  have htop : e.top? = none := by simp [e, top?, write, hframes]
  have hback : e.back =
      ' ' :: '=' :: ' ' :: (name.reverse ++ ("type ".toList.reverse ++ d.back)) := by
    simp [e, write]
  have hbefore : e.before = '=' :: ' ' :: (name.reverse ++ ("type ".toList.reverse ++ d.back)) := by
    rw [before, hback]
    rfl
  have hlabelled : e.opensLabelled = false := by
    rw [opensLabelled, hbefore, Bool.and_eq_false_iff]
    exact .inr (isLabel_of_getLast? (c := '=') (by simp) (by decide) (by decide))
  have hmembers : e.opensMembers = true := by
    rw [opensMembers, hbefore]
    rfl
  have hmarkup : e.inMarkup = false := by rw [inMarkup, htop]; rfl
  change e.braceFrame rest = _
  simp [braceFrame, hmarkup, hlabelled, hmembers]

theorem read_nil (d : Draft) : read q d [] = .ok d := by rw [read]

theorem collapse_of_read {t : Text} (h : read q {} t = .ok d) (hframes : d.frames = []) :
    collapse q t = .ok d := by
  rw [collapse, h]
  simp only [hframes]

/-- The line break at the end of a script ends a statement. -/
theorem Free.read_newline (h : d.Free) : ∃ n, read q d ['\n'] = .ok ((d.addLine []).recount n) := by
  obtain ⟨n, hn⟩ := h.takes_newline (q := q) []
  exact ⟨n, hn.trans (read_nil _)⟩

/-- A list of members is written on the line of its brace. -/
theorem Free.read_joined (h : d.Free) {ms : List TypeMember} (hne : ms ≠ [])
    (hms : ∀ m ∈ ms, m.Plain)
    (hframe : d.braceFrame
      (ms.flatMap (fun m => "\n  ".toList ++ m.text) ++ "\n\x7d\n".toList) = .list) :
    ∃ n, read q d
      ('{' :: (ms.flatMap (fun m => "\n  ".toList ++ m.text) ++ "\n\x7d\n".toList)) =
        .ok ((d.addLine ('{' :: (ms.flatMap (fun m => ' ' :: m.text) ++ [' ', '}']))).recount n) := by
  obtain ⟨m, ms, rfl⟩ := List.exists_cons_of_ne_nil hne
  let e : Draft := { d.write ['{'] with frames := [(.list, d.line)], pad := true }
  have hopen (t : Text) (hf : d.braceFrame t = .list) : d.step q '{' t = .ok (e, t) := by
    change Except.ok (d.openFrame (d.braceFrame t), t) = _
    rw [hf, openFrame, token_eq_write h.pad, h.frames]
    rfl
  obtain ⟨n, hn⟩ := takes_joined_members (q := q) (d := e) (hms m List.mem_cons_self)
    (fun m' hm' => hms m' (List.mem_cons_of_mem m hm')) rfl (x := '{') rfl (by decide)
    "\n\x7d\n".toList
  let f : Draft :=
    { e.write ((m :: ms).flatMap fun m => ' ' :: m.text) with line := n, pad := false }
  have hlast : ∃ c, f.back.head? = some c ∧ c ∉ [' ', '\t', ',', '{'] := by
    obtain ⟨front, last, hsplit⟩ := (m :: ms).eq_nil_or_concat.resolve_left hne
    obtain ⟨c, hc, hno⟩ := not_mem_of_last (hms last (by simp [hsplit]))
      (e.write (front.flatMap (fun m => ' ' :: m.text) ++ [' ']))
    refine ⟨c, ?_, fun hmem => hno ?_⟩
    · rw [write_write] at hc
      simpa [f, hsplit] using hc
    · simp only [List.mem_cons, List.not_mem_nil, or_false] at hmem ⊢
      tauto
  obtain ⟨c, hc, hno⟩ := hlast
  have hclose : read q f ('\n' :: '}' :: ['\n']) =
      read q (((({ f.advance ['\n'] with frames := [], pad := false } : Draft).endList .list).write
        ['}'])) ['\n'] := read_close rfl (by decide)
  have hend : ({ f.advance ['\n'] with frames := [], pad := false } : Draft).endList .list =
      Draft.write { f.advance ['\n'] with frames := [], pad := false } [' '] :=
    endList_of_head? hc hno
  rw [read_of_step (hopen _ hframe), hn]
  change ∃ n, read q f ('\n' :: '}' :: ['\n']) = _
  rw [hclose, hend]
  obtain ⟨k, hk⟩ := Free.read_newline (q := q) (d := Draft.write
    (Draft.write { f.advance ['\n'] with frames := [], pad := false } [' ']) ['}']) ⟨rfl, rfl⟩
  refine ⟨k, hk.trans ?_⟩
  congr 1
  obtain ⟨back, ends, frames, line, pad⟩ := d
  cases h.frames
  cases h.pad
  simp [f, e, addLine, Draft.write, breakLine, Draft.recount, advance]

/-- Members that are parted are written as they stand. -/
theorem Free.read_lined (h : d.Free) {ms : List TypeMember} (hms : ∀ m ∈ ms, m.Plain)
    (hframe : d.braceFrame
      (ms.flatMap (fun m => "\n  ".toList ++ m.text) ++ "\n\x7d\n".toList) = .members) :
    ∃ n, read q d
      ('{' :: (ms.flatMap (fun m => "\n  ".toList ++ m.text) ++ "\n\x7d\n".toList)) =
        .ok { d.write ('{' :: (ms.flatMap (fun m => "\n  ".toList ++ m.text) ++
          "\n\x7d\n".toList)) with
            ends := List.replicate (ms.length + 2) .statement ++ d.ends, line := n } := by
  let e : Draft := { d.write ['{'] with frames := [(.members, d.line)], pad := false }
  have hopen (t : Text) (hf : d.braceFrame t = .members) : d.step q '{' t = .ok (e, t) := by
    change Except.ok (d.openFrame (d.braceFrame t), t) = _
    rw [hf, openFrame, token_eq_write h.pad, h.frames]
    rfl
  obtain ⟨n, hn⟩ := takes_lined_members (q := q) (d := e) hms rfl rfl "\n\x7d\n".toList
  let f : Draft := { e.write (ms.flatMap fun m => "\n  ".toList ++ m.text) with
    ends := List.replicate ms.length .statement ++ d.ends, line := n }
  let g : Draft := { (f.breakLine .statement).write ['}'] with frames := [], line := n + 1 }
  have hgap : read q f ('\n' :: '}' :: ['\n']) =
      read q { f.breakLine .statement with line := n + 1 } ('}' :: ['\n']) := by
    rw [read_gap rfl (by decide)]
    rfl
  have hclose : ({ f.breakLine .statement with line := n + 1 } : Draft).step q '}' ['\n'] =
      .ok (g, ['\n']) := rfl
  rw [read_of_step (hopen _ hframe), hn]
  change ∃ n, read q f ('\n' :: '}' :: ['\n']) = _
  rw [hgap, read_of_step hclose]
  obtain ⟨k, hk⟩ := Free.read_newline (q := q) (d := g) ⟨rfl, rfl⟩
  refine ⟨k, hk.trans ?_⟩
  congr 1
  obtain ⟨back, ends, frames, line, pad⟩ := d
  cases h.frames
  cases h.pad
  simp [g, f, e, addLine, Draft.write, breakLine, Draft.recount, List.replicate_succ]

end Draft

namespace Lines

variable {style : Style}

/-- A line that the end of a statement leaves as it is. -/
structure Still (l : Text) : Prop where
  unbroken : '\n' ∉ l
  last : ∃ c, l.getLast? = some c ∧ Text.isBlank c = false ∧ c ∉ [';', '\'', '"']
  noImport : NamedImport.ofLine? l = none

theorem Still.not_blank {l : Text} (h : Still l) : l.blank = false := by
  obtain ⟨c, hc, hblank, -⟩ := h.last
  exact not_blank_iff.2 ⟨c, List.mem_of_getLast? hc, hblank⟩

theorem Still.finishLine {l : Text} (h : Still l) (following : List Text) :
    finishLine style ⟨l, .statement⟩ following = [⟨l, .statement⟩] := by
  obtain ⟨c, hc, hblank, hno⟩ := h.last
  simp only [List.mem_cons, List.not_mem_nil, or_false, not_or] at hno
  have hend : endStatement style.semi l following = l := by
    simp [endStatement, hc, hno]
  rw [Lines.finishLine, Text.trimEnd_of_getLast? hc hblank, hend, wrapWide_of_none h.noImport]
  rfl

/-- Such lines are finished as they stand. -/
theorem finish_still (style : Style) {ls : List Text} (hne : ls ≠ []) (hls : ∀ l ∈ ls, Still l) :
    finish style (Header.joinLines ls) (List.replicate (ls.length + 1) .statement) =
      Header.joinLines ls := by
  have hsplit : Text.splitOn '\n' (Header.joinLines ls) = ls ++ [[]] := by
    have h := splitOn_joinLines (fun l hl => (hls l hl).unbroken) []
    rwa [List.append_nil] at h
  have hempty : Lines.finishLine style ⟨[], .statement⟩ [] = [⟨[], .statement⟩] := by
    cases hsemi : style.semi with
    | false => simp [Lines.finishLine, endStatement, wrapWide, hsemi]
    | true => simp [Lines.finishLine, endStatement, wrapWide, hsemi]
  have hlines : finishLines style (ls ++ [[]]) (List.replicate (ls.length + 1) .statement) =
      ls.map (⟨·, .statement⟩) ++ [⟨[], .statement⟩] := by
    clear hsplit hne
    induction ls with
    | nil => rw [List.nil_append, List.length_nil, Nat.zero_add, List.replicate_one, finishLines,
        hempty]; rfl
    | cons l ls ih =>
      rw [List.cons_append, List.length_cons, List.replicate_succ, finishLines,
        (hls l List.mem_cons_self).finishLine, ih fun k hk => hls k (List.mem_cons_of_mem l hk)]
      rfl
  obtain ⟨l, hlast⟩ : ∃ l, ls.getLast? = some l := ⟨_, List.getLast?_eq_some_getLast hne⟩
  have hfull : l ≠ [] := by
    rintro rfl
    have hblank := (hls [] (List.mem_of_getLast? hlast)).not_blank
    cases hblank
  rw [finish, hsplit, hlines, assemble_eq_joinLines,
    squeeze_append_of_not_blank (fun l hl => (hls l hl).not_blank), dropEmptyEnd_append hlast hfull]
  have hrest (b : Bool) : dropEmptyEnd (squeeze b [⟨[], .statement⟩]) = [] := by
    cases b
    · rfl
    · rfl
  rw [hrest, List.append_nil]

end Lines

section Literal

variable {name : Text} {ms : List TypeMember}

theorem spreadLiteral_eq_joinLines (name : Text) (ms : List TypeMember) : spreadLiteral name ms =
    Header.joinLines (("type ".toList ++ (name ++ " = \x7b".toList)) ::
      (ms.map (fun m => ' ' :: ' ' :: m.text) ++ [['}']])) := by
  have hmembers : '\n' :: Header.joinLines (ms.map (fun m => ' ' :: ' ' :: m.text) ++ [['}']]) =
      ms.flatMap (fun m => "\n  ".toList ++ m.text) ++ "\n\x7d\n".toList := by
    induction ms with
    | nil => rfl
    | cons m ms ih =>
      rw [List.map_cons, List.cons_append, Header.joinLines_cons, ih, List.flatMap_cons,
        List.append_assoc]
      rfl
  rw [Header.joinLines_cons, hmembers, spreadLiteral, typeLiteral]
  simp only [List.append_assoc]

theorem joinedLiteral_eq_joinLines (name : Text) (ms : List TypeMember) : joinedLiteral name ms =
    Header.joinLines ["type ".toList ++ (name ++ (" = \x7b".toList ++
      (ms.flatMap (fun m => ' ' :: m.text) ++ [' ', '}'])))] := by
  rw [Header.joinLines_cons, joinedLiteral, typeLiteral]
  simp [Header.joinLines]

theorem still_spread (hname : Word name) (hms : ∀ m ∈ ms, m.Plain) :
    ∀ l ∈ ("type ".toList ++ (name ++ " = \x7b".toList)) ::
      (ms.map (fun m => ' ' :: ' ' :: m.text) ++ [['}']]), Lines.Still l := by
  intro l hl
  rcases List.mem_cons.1 hl with rfl | hl
  · have hlast : "type ".toList ++ (name ++ " = \x7b".toList) =
        ("type ".toList ++ (name ++ " = ".toList)) ++ ['{'] := by simp
    refine ⟨by simp [hname.unbroken], ⟨'{', ?_, by decide, by decide⟩, rfl⟩
    rw [hlast, List.getLast?_concat]
  · rcases List.mem_append.1 hl with hl | hl
    · obtain ⟨m, hm, rfl⟩ := List.mem_map.1 hl
      obtain ⟨c, hlast, hc⟩ := (hms m hm).exists_last
      have hstop : Text.isBlank c = false ∧ c ∉ [';', '\'', '"'] := by
        rcases hc with hc | rfl | rfl
        · have hmarks := Draft.not_mem_marks_of_isPlain hc
          refine ⟨by simpa using (Bool.and_eq_true_iff.1 hc).1, fun hmem => hmarks ?_⟩
          simp only [List.mem_cons, List.not_mem_nil, or_false] at hmem
          rcases hmem with rfl | rfl | rfl
          · decide
          · decide
          · decide
        · decide
        · decide
      have hne : m.text ≠ [] := by
        intro hnil
        rw [hnil] at hlast
        cases hlast
      refine ⟨by simp [(hms m hm).unbroken], ⟨c, ?_, hstop⟩, rfl⟩
      rw [List.getLast?_cons_of_ne_nil (by simp), List.getLast?_cons_of_ne_nil hne, hlast]
    · rw [List.mem_singleton.1 hl]
      exact ⟨by decide, ⟨'}', rfl, by decide, by decide⟩, rfl⟩

theorem still_joined (hname : Word name) (hms : ∀ m ∈ ms, m.Plain) :
    Lines.Still ("type ".toList ++ (name ++ (" = \x7b".toList ++
      (ms.flatMap (fun m => ' ' :: m.text) ++ [' ', '}'])))) := by
  have hlast : "type ".toList ++ (name ++ (" = \x7b".toList ++
      (ms.flatMap (fun m => ' ' :: m.text) ++ [' ', '}']))) = ("type ".toList ++ (name ++
        (" = \x7b".toList ++ (ms.flatMap (fun m => ' ' :: m.text) ++ [' '])))) ++ ['}'] := by simp
  refine ⟨?_, ⟨'}', by rw [hlast, List.getLast?_concat], by decide, by decide⟩, rfl⟩
  simp only [List.mem_append, List.mem_flatMap, not_or, not_exists, not_and]
  refine ⟨by decide, hname.unbroken, by decide, fun m hm hmem => ?_, by decide⟩
  exact (hms m hm).unbroken (by simpa using hmem)

/-- Under every style, a type literal with members on lines of their own keeps its lines if a line
break parts two neighbours, and is joined otherwise. -/
theorem normalize_typeLiteral {path : String} (hpath : isScript path = true) (o : StyleOverrides)
    (hname : Word name) (hne : ms ≠ []) (hms : ∀ m ∈ ms, m.Plain) :
    normalize path o (spreadLiteral name ms) =
      .ok (if parted ms then spreadLiteral name ms else joinedLiteral name ms) := by
  have hopen : ∀ c ∈ "type ".toList ++ (name ++ " = ".toList), Draft.isOpen c = true := by
    intro c hc
    rcases List.mem_append.1 hc with hc | hc
    · exact (by decide : ∀ c ∈ "type ".toList, Draft.isOpen c = true) c hc
    · rcases List.mem_append.1 hc with hc | hc
      · simp [Draft.isOpen, Draft.isSingle_of_isPlain (hname.chars c hc)]
      · exact (by decide : ∀ c ∈ " = ".toList, Draft.isOpen c = true) c hc
  let body : Text := ms.flatMap (fun m => "\n  ".toList ++ m.text) ++ "\n\x7d\n".toList
  have htext : spreadLiteral name ms =
      ("type ".toList ++ (name ++ " = ".toList)) ++ '{' :: body := by
    simp [spreadLiteral, typeLiteral, body]
  have hone : Members.onOneLine body = !parted ms := by
    have h := Members.onOneLine_members hne hms []
    rwa [List.append_nil] at h
  have hfree : ({} : Draft).Free := ⟨rfl, rfl⟩
  obtain ⟨n, hstart⟩ := hfree.takes (q := o.resolve.quote) hopen ('{' :: body)
  have hd := (hfree.write ("type ".toList ++ (name ++ " = ".toList))).recount n
  have hframe := Draft.braceFrame_literal (d := Draft.recount {} n) rfl name body
  rw [hone] at hframe
  rw [normalize_of_script hpath, normalizeScript_eq_ok_iff]
  cases hp : parted ms with
  | true =>
    rw [hp] at hframe
    obtain ⟨k, hread⟩ := hd.read_lined (q := o.resolve.quote) hms hframe
    refine ⟨_, Draft.collapse_of_read ((congrArg _ htext).trans (hstart.trans hread)) rfl, ?_⟩
    have hlines := Lines.finish_still o.resolve (List.cons_ne_nil _ _)
      (still_spread hname hms)
    rw [← spreadLiteral_eq_joinLines] at hlines
    simp only [List.length_cons, List.length_append, List.length_map, List.length_nil] at hlines
    rw [if_pos rfl]
    conv_rhs => rw [← hlines]
    refine congrArg₂ _ ?_ ?_
    · simp [Draft.text, Draft.write, Draft.recount, htext, body]
    · change (LineEnd.statement ::
        (List.replicate (ms.length + 2) LineEnd.statement ++ [])).reverse =
          List.replicate (ms.length + 3) LineEnd.statement
      rw [List.append_nil, ← List.replicate_succ, List.reverse_replicate]
  | false =>
    rw [hp] at hframe
    obtain ⟨k, hread⟩ := hd.read_joined (q := o.resolve.quote) hne hms hframe
    refine ⟨_, Draft.collapse_of_read ((congrArg _ htext).trans (hstart.trans hread)) hd.frames, ?_⟩
    have hlines := Lines.finish_still o.resolve (List.cons_ne_nil _ [])
      (fun l hl => List.mem_singleton.1 hl ▸ still_joined hname hms)
    rw [← joinedLiteral_eq_joinLines] at hlines
    rw [if_neg Bool.false_ne_true]
    conv_rhs => rw [← hlines]
    refine congrArg₂ _ ?_ rfl
    simp [Draft.text, Draft.addLine, Draft.breakLine, Draft.write, Draft.recount, joinedLiteral,
      typeLiteral]

theorem joinedLiteral_ne_spreadLiteral (hne : ms ≠ []) :
    joinedLiteral name ms ≠ spreadLiteral name ms := by
  obtain ⟨m, ms, rfl⟩ := List.exists_cons_of_ne_nil hne
  simp [joinedLiteral, spreadLiteral, typeLiteral]

end Literal

/-- Under every style, a type literal whose members only line breaks part is a normal form iff some
member but the last ends with a bracket of an array or with a character of a name, and the next one
begins with a character of a name. Otherwise its members run into each other on one line. -/
theorem spreadLiteral_normal_iff {path : String} (hpath : isScript path = true)
    (o : StyleOverrides) {name : Text} (hname : Word name) {ms : List TypeMember} (hne : ms ≠ [])
    (hms : ∀ m ∈ ms, m.Plain) :
    (normalize path o (spreadLiteral name ms) = .ok (spreadLiteral name ms) ↔ parted ms = true) ∧
      (parted ms = false →
        normalize path o (spreadLiteral name ms) = .ok (joinedLiteral name ms)) := by
  have hnormal := normalize_typeLiteral hpath o hname hne hms
  cases hp : parted ms with
  | true =>
    rw [hp, if_pos rfl] at hnormal
    exact ⟨iff_of_true hnormal rfl, fun h => by cases h⟩
  | false =>
    rw [hp, if_neg Bool.false_ne_true] at hnormal
    refine ⟨iff_of_false (fun h => ?_) Bool.false_ne_true, fun _ => hnormal⟩
    rw [hnormal] at h
    exact joinedLiteral_ne_spreadLiteral hne (Except.ok.inj h)

/-- An array ahead of another member parts the two, a generic application at the end does not
matter. -/
theorem spreadLiteral_normal_array :
    normalize "a.ts" {} "type N = \x7b\n  a: A[]\n  b: Array<B>\n\x7d\n".toList =
      .ok "type N = \x7b\n  a: A[]\n  b: Array<B>\n\x7d\n".toList := by
  let ms : List TypeMember := [⟨['a'], .array (.name ['A'])⟩,
    ⟨['b'], .generic "Array".toList (.name ['B'])⟩]
  have hword (t : Text) (hne : t ≠ []) (ht : t.all isPlain = true) : Word t :=
    ⟨hne, List.all_eq_true.1 ht⟩
  have hms : ∀ m ∈ ms, m.Plain := by
    intro m hm
    simp only [ms, List.mem_cons, List.not_mem_nil, or_false] at hm
    rcases hm with rfl | rfl
    · exact ⟨hword _ (by decide) (by decide), hword _ (by decide) (by decide)⟩
    · exact ⟨hword _ (by decide) (by decide), hword _ (by decide) (by decide),
        hword _ (by decide) (by decide)⟩
  have hpath : isScript "a.ts" = true := by decide
  have hiff := spreadLiteral_normal_iff hpath {} (hword ['N'] (by decide) (by decide)) (by decide)
    hms
  exact hiff.1.2 (by decide)

/-- A generic application does not part the member that it ends from the next. -/
theorem spreadLiteral_joined :
    normalize "a.ts" {} (spreadLiteral ['N'] [⟨['a'], .generic "Array".toList (.name ['A'])⟩,
        ⟨['b'], .name ['B']⟩]) = .ok "type N = \x7b a: Array<A> b: B \x7d\n".toList ∧
      spreadLiteral ['N'] [⟨['a'], .generic "Array".toList (.name ['A'])⟩, ⟨['b'], .name ['B']⟩] =
        "type N = \x7b\n  a: Array<A>\n  b: B\n\x7d\n".toList := by
  refine ⟨by decide +kernel, by decide⟩

end ProjectSetup
