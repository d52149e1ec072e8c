import ProjectSetup.Proofs.Import.Canonical

/-!
# Statement level

The place behind some lines is at statement level if reading these lines leaves no bracket open and
ends in no string, template literal or comment. An import is inserted behind the last line that
begins with the word `import`. Above it stand such lines only, so that the place is at statement
level where each of them is read by itself, as a static import on one line is, and the last one
closes what it opens.
-/
namespace ProjectSetup

namespace Draft

variable {q : Char} {b : Draft} {l s t u : Text} {ls : List Text}

/-- Reading the text leaves no bracket open and ends in no literal. -/
def Complete (q : Char) (t : Text) : Prop := ∃ d, collapse q t = .ok d

/-- Reading the text onto `b` leaves no bracket open and ends in no literal. -/
def CompleteOn (q : Char) (b : Draft) (t : Text) : Prop := ∃ e, read q b t = .ok e ∧ e.frames = []

/-- At the beginning of any line, the text is read as a line by itself. -/
def Alone (q : Char) (t : Text) : Prop := ∀ b : Draft, b.AtLine → ∃ l, Takes q b t (b.addLine l)

theorem complete_iff : Complete q t ↔ CompleteOn q {} t := by
  constructor
  · rintro ⟨d, hd⟩
    exact ⟨d, read_of_collapse hd, frames_of_collapse hd⟩
  · rintro ⟨e, he, hframes⟩
    exact ⟨e, by rw [collapse, he]; simp only [hframes]⟩

theorem Takes.completeOn_iff {e : Draft} (h : Takes q b s e) (t : Text) :
    ∃ n, CompleteOn q b (s ++ t) ↔ CompleteOn q (e.recount n) t := by
  obtain ⟨n, hn⟩ := h t
  exact ⟨n, by rw [CompleteOn, CompleteOn, hn]⟩

/-- Lines above do not matter to a text that begins with a word. -/
theorem completeOn_iff (hb : b.AtLine) (hq : Text.isBlank q = false)
    (hs : ∀ c ∈ s, isOpen c = true) (hword : s.blank = false) (t : Text) :
    CompleteOn q b (s ++ t) ↔ CompleteOn q {} (s ++ t) := by
  have hread {b : Draft} (hb : b.AtLine) : CompleteOn q b (s ++ t) ↔
      CompleteOn q ((({ line := 0 } : Draft).write s).on b) t := by
    rw [CompleteOn, read_open hs hb.joins hb.pad, ← write_on, on_eq_self hb.frames hb.pad]
    rfl
  have hmove {b b' : Draft} (hb : b.AtLine) (hb' : b'.AtLine)
      (h : CompleteOn q ((({ line := 0 } : Draft).write s).on b) t) :
      CompleteOn q ((({ line := 0 } : Draft).write s).on b') t := by
    obtain ⟨e, he, hframes⟩ := h
    have hfull : (({ line := 0 } : Draft).write s).back.blank = false := by simp [hword]
    obtain ⟨d, rfl, hread⟩ := read_alike hb.back hb'.back hq (.inr (.inl hfull)) he
    have hnone : d.frames = [] := List.map_eq_nil_iff.1 hframes
    exact ⟨_, hread, by simp [on, hnone]⟩
  rw [hread hb, hread atLine_empty]
  exact ⟨hmove hb atLine_empty, hmove atLine_empty hb⟩

/-- Below lines that are read by themselves, a text that begins with a word is complete if it is so
by itself. -/
theorem completeOn_lines_iff (hb : b.AtLine) (hq : Text.isBlank q = false)
    (hls : ∀ l ∈ ls, Alone q (l ++ ['\n'])) (hs : ∀ c ∈ s, isOpen c = true)
    (hword : s.blank = false) (t : Text) :
    CompleteOn q b (Header.joinLines ls ++ (s ++ t)) ↔ Complete q (s ++ t) := by
  induction ls generalizing b with
  | nil => exact (completeOn_iff hb hq hs hword t).trans complete_iff.symm
  | cons l ls ih =>
    obtain ⟨k, htakes⟩ := hls l List.mem_cons_self b hb
    obtain ⟨n, hn⟩ := htakes.completeOn_iff (Header.joinLines ls ++ (s ++ t))
    rw [Header.joinLines_cons, List.append_cons, List.append_assoc, hn]
    exact ih ((hb.addLine k).recount n) fun l hl => hls l (List.mem_cons_of_mem _ hl)

/-- Lines that are read by themselves are complete. -/
theorem completeOn_lines (hb : b.AtLine) (hls : ∀ l ∈ ls, Alone q (l ++ ['\n'])) :
    CompleteOn q b (Header.joinLines ls) := by
  induction ls generalizing b with
  | nil => exact ⟨b, by rw [Header.joinLines, List.flatMap_nil, read], hb.frames⟩
  | cons l ls ih =>
    obtain ⟨k, htakes⟩ := hls l List.mem_cons_self b hb
    obtain ⟨n, hn⟩ := htakes.completeOn_iff (Header.joinLines ls)
    rw [Header.joinLines_cons, List.append_cons, hn]
    exact ih ((hb.addLine k).recount n) fun l hl => hls l (List.mem_cons_of_mem _ hl)

/-- A comment is read to the end of its line. -/
theorem Free.takes_note (h : b.Free) {note : Text} (hnote : '\n' ∉ note) :
    Takes q b ('/' :: '/' :: note ++ ['\n']) (b.addLine (Text.trimEnd ('/' :: '/' :: note))) := by
  have hall : ∀ c ∈ note, decide (c ≠ '\n') = true := fun c hc =>
    decide_eq_true fun he : c = '\n' => hnote (he ▸ hc)
  intro rest
  have hline : (note ++ '\n' :: rest).takeWhile (· ≠ '\n') = note := by
    rw [List.takeWhile_append_of_pos hall, List.takeWhile_cons_of_neg (by simp), List.append_nil]
  have hbelow : (note ++ '\n' :: rest).dropWhile (· ≠ '\n') = '\n' :: rest := by
    rw [List.dropWhile_append_of_pos hall, List.dropWhile_cons_of_neg (by simp)]
  have hstep : b.step q '/' ('/' :: (note ++ '\n' :: rest)) =
      .ok (b.write (Text.trimEnd ('/' :: '/' :: note)), '\n' :: rest) := by
    change b.slash ('/' :: (note ++ '\n' :: rest)) = _
    simp only [slash, h.inMarkup, List.head?_cons, List.tail_cons, hline, hbelow, lineComment,
      h.joins, token_eq_write h.pad]
    rfl
  obtain ⟨n, hn⟩ := (h.write (Text.trimEnd ('/' :: '/' :: note))).takes_newline (q := q) rest
  refine ⟨n, ?_⟩
  have hsplit : '/' :: '/' :: note ++ ['\n'] ++ rest = '/' :: '/' :: (note ++ '\n' :: rest) := by
    simp
  rw [hsplit, read_of_step hstep, ← List.append_nil (Text.trimEnd _), addLine_append,
    List.append_nil]
  exact hn

end Draft

theorem Header.exists_import {l : Text} (h : isImport l = true) :
    ∃ indent r, (∀ c ∈ indent, isSpace c = true) ∧ l = (indent ++ "import".toList) ++ r := by
  rw [isImport] at h
  split at h
  · next r hr =>
    rw [Text.after?_eq_some_iff] at hr
    refine ⟨l.takeWhile isSpace, r, fun c hc => List.mem_takeWhile_imp hc, ?_⟩
    rw [List.append_assoc, ← hr, List.takeWhile_append_dropWhile]
  · cases h

/-- A line of a header: blank, or a static import, with a comment behind it or none. -/
inductive Header.ImportLine : Text → Prop where
  | bare {l : Text} : StaticLine l → ImportLine l
  | noted {l gap note : Text} : StaticLine l → (∀ c ∈ gap, isSpace c = true) → '\n' ∉ note →
      ImportLine (l ++ (gap ++ '/' :: '/' :: note))

theorem Header.ImportLine.alone {q : Char} (hq : IsMark q) {l : Text} (hl : ImportLine l) :
    Draft.Alone q (l ++ ['\n']) := by
  intro b hb
  cases hl with
  | bare hl =>
    obtain ⟨k, -, htakes⟩ := hb.toFree.exists_line hq hl
    exact ⟨k, htakes b.line⟩
  | @noted l gap note hl hgap hnote =>
    obtain ⟨k, htakes⟩ : ∃ k, Draft.Takes q b l (b.write k) := by
      rcases hl with rfl | ⟨i, hi, rfl⟩
      · exact ⟨[], fun rest => ⟨b.line, rfl⟩⟩
      · obtain ⟨clause, -, htakes⟩ := hi.exists_takes hb.toFree hq
        exact ⟨_, htakes b.line⟩
    have hfree : (b.write k).Free := hb.toFree.write k
    have hgap' (n : Nat) : Draft.Takes q ((b.write k).recount n) gap ((b.write k).write gap) :=
      (hfree.recount n).takes fun c hc => StaticImport.isOpen_of_isSpace (hgap c hc)
    have hnoted (n : Nat) : Draft.Takes q ((b.write k).recount n)
        (gap ++ ('/' :: '/' :: note ++ ['\n']))
        (((b.write k).write gap).addLine (Text.trimEnd ('/' :: '/' :: note))) :=
      (hgap' n).append fun m => ((hfree.write gap).recount m).takes_note hnote
    refine ⟨k ++ (gap ++ Text.trimEnd ('/' :: '/' :: note)), ?_⟩
    have hsplit : l ++ (gap ++ '/' :: '/' :: note) ++ ['\n'] =
        l ++ (gap ++ ('/' :: '/' :: note ++ ['\n'])) := by simp
    rw [hsplit, Draft.addLine_append, Draft.addLine_append]
    exact htakes.append hnoted

namespace Import

variable {path : String} {o : StyleOverrides} {c f s : Text} {h : Header} {d : Import}

/-- An import that is not there is inserted behind the last line that begins with the word `import`.
If the lines above that line are read by themselves, the place is at statement level exactly if that
line closes what it opens; it always is where all of these lines are static imports on one line. -/
theorem splice_at_statement_level_iff (hvalid : d.valid = true)
    (hflat : flatten path o c = .ok f) (hheader : Header.ofText? f = some h)
    (hstyled : d.styled path o = .ok s) (hnew : h.holds s = false) :
    f = h.before ++ h.after ∧
    insert path o d c = settle path o (h.before ++ s ++ ['\n'] ++ h.after) ∧
    (∀ ls l, h.imports = ls ++ [l] → (∀ k ∈ ls, Draft.Alone o.resolve.quote (k ++ ['\n'])) →
      (Draft.Complete o.resolve.quote h.before ↔ Draft.Complete o.resolve.quote (l ++ ['\n']))) ∧
    ((∀ l ∈ h.imports, Header.ImportLine l) → Draft.Complete o.resolve.quote h.before) := by
  have hq := isMark_quote o.resolve
  obtain ⟨hcut, ⟨last, hlast, himport⟩, -⟩ := Header.ofText?_eq_some hheader
  refine ⟨hcut, insert_eq hvalid hflat hheader hstyled hnew, ?_, fun hlines => ?_⟩
  · intro ls l himports halone
    rw [himports, List.getLast?_concat, Option.some.injEq] at hlast
    subst hlast
    obtain ⟨indent, r, hindent, rfl⟩ := Header.exists_import himport
    have hword : ∀ c ∈ indent ++ "import".toList, Draft.isOpen c = true := fun c hc =>
      (List.mem_append.1 hc).elim (fun hc => StaticImport.isOpen_of_isSpace (hindent c hc))
        (List.all_eq_true.1 (by rfl : "import".toList.all Draft.isOpen = true) c)
    have hfull : Text.blank (indent ++ "import".toList) = false := by simp [Text.isBlank]
    generalize indent ++ "import".toList = word at *
    have hbefore : h.before = Header.joinLines ls ++ (word ++ (r ++ ['\n'])) := by
      simp [Header.before, himports, Header.joinLines]
    rw [hbefore, Draft.complete_iff, List.append_assoc]
    exact Draft.completeOn_lines_iff Draft.atLine_empty (isBlank_of_isMark hq) halone hword hfull _
  · exact Draft.complete_iff.2 (Draft.completeOn_lines Draft.atLine_empty fun l hl =>
      (hlines l hl).alone hq)

/-- The comment behind an import ends with its line. -/
theorem splice_below_noted_import :
    Draft.Complete '\'' "import a from 'a' // a\n".toList ∧
      Import.insert "a.js" {} (sideEffect "./z".toList) "import a from 'a' // a\nb()\n".toList =
        settle "a.js" {} "import a from 'a' // a\nimport './z'\nb()\n".toList := by
  have hstatic : Header.StaticLine "import a from 'a'".toList :=
    staticLine_of_open " a from ".toList ['a'] [] (by decide) (by decide) (.inl rfl) (by decide)
  have hline : ∀ l ∈ ["import a from 'a' // a".toList], Header.ImportLine l := by
    intro l hl
    rw [List.mem_singleton.1 hl]
    have hnoted : Header.ImportLine
        ("import a from 'a'".toList ++ ([' '] ++ '/' :: '/' :: [' ', 'a'])) :=
      .noted hstatic (by simp [Header.isSpace]) (by decide)
    exact hnoted
  have hflat : flatten "a.js" {} "import a from 'a' // a\nb()\n".toList =
      .ok "import a from 'a' // a\nb()\n".toList := by decide +kernel
  obtain ⟨-, hinsert, -, hlevel⟩ := splice_at_statement_level_iff (d := sideEffect "./z".toList)
    (h := ⟨["import a from 'a' // a".toList], [], "b()\n".toList⟩) (s := "import './z'".toList)
    rfl hflat (by decide +kernel) (by decide +kernel) (by decide +kernel)
  exact ⟨hlevel hline, hinsert⟩

/-- The attributes of an import stand in braces over several lines, and the next import is inserted
behind the opening brace. -/
theorem splice_inside_attributes :
    let c := "import data from './d.json' with \x7b\n  type: 'json'\n\x7d\nrun(data)\n".toList
    let before := "import data from './d.json' with \x7b\n".toList
    let after := "  type: 'json'\n\x7d\nrun(data)\n".toList
    flatten "a.js" {} c = .ok c ∧
      Header.ofText? c = some ⟨["import data from './d.json' with \x7b".toList], [], after⟩ ∧
      Import.insert "a.js" {} (sideEffect "./z".toList) c =
        .ok (before ++ "import './z'\n".toList ++ after) ∧
      ¬ Draft.Complete '\'' before := by
  refine ⟨by decide +kernel, by decide +kernel, by decide +kernel, ?_⟩
  rintro ⟨d, hd⟩
  have hopen : Draft.collapse '\'' "import data from './d.json' with \x7b\n".toList =
      .error (.unclosedBracket '{' 1) := by decide +kernel
  rw [hopen] at hd
  cases hd

end Import

end ProjectSetup
