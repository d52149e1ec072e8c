import ProjectSetup.Proofs.Layout.Idempotence
import ProjectSetup.Proofs.Layout.Semicolons
import ProjectSetup.Proofs.Layout.Tidying
import ProjectSetup.Proofs.Text.Trimmed

/-!
# Texts that stay as they are

The normal form of a file that is no script is its own normal form. The normal form of a script
need not be: one reading takes back one comma at the end of a list and one semicolon at the end of
a statement, and the text without it is read anew. A script stays as it is exactly if reading it
leaves no statement to end and laying its draft out gives it back; that of a script of lists always
does, unless a list ends in two commas or a statement in two semicolons.
-/
namespace ProjectSetup

open Text (endsOnce fixed isFixed isListing isRigid)

namespace Lines

variable {style : Style} {source : Text} {d : Draft}

/-- Reading does not put a semicolon back that finishing has dropped. -/
theorem finish_ne_of_loses (h : Draft.collapse style.quote source = .ok d)
    (hlost : ((finishLines style (Text.splitOn '\n' d.text) d.lineEnds).flatMap
        fun l => fixed l.text).length <
      (((Text.splitOn '\n' d.text).take d.lineEnds.length).flatMap fixed).length) :
    finish style d.text d.lineEnds ≠ source := by
  intro hfinish
  have hkept : ((finishLines style (Text.splitOn '\n' d.text) d.lineEnds).flatMap
      fun l => fixed l.text) = fixed d.text := by
    rw [Draft.fixed_collapse h, ← hfinish, finish]
    exact (filter_assemble lasting_fixed _).symm
  have hlines : fixed d.text =
      ((Text.splitOn '\n' d.text).take d.lineEnds.length).flatMap fixed ++
        ((Text.splitOn '\n' d.text).drop d.lineEnds.length).flatMap fixed := by
    rw [← List.flatMap_append, List.take_append_drop, ← Text.fixed_join_lines, Text.join_splitOn]
  rw [hkept, hlines, List.length_append] at hlost
  omega

/-- A semicolon that finishing has added stands where the draft has a line break, and the finished
text has none there to read. -/
theorem assemble_ne_of_gain (h : Draft.collapse style.quote source = .ok d) {ts : List Text}
    {es : List LineEnd} (htext : Text.join ['\n'] ts = d.text) (g : Gain style ts es) :
    assemble (finishLines style ts es) ≠ source := by
  intro hfinish
  have hblank : (g.last ++ [';']).blank = false := by
    rw [Text.blank, List.all_append, show [';'].all Text.isBlank = false by decide, Bool.and_false]
  obtain ⟨s, t, hsource, hs⟩ :=
    exists_assemble lasting_fixed g.front (l := ⟨g.last ++ [';'], .statement⟩) g.back hblank
  rw [← g.finished, hfinish, ← List.append_assoc, List.append_assoc] at hsource
  have hdone : fixed (Text.join ['\n'] g.done) = fixed s ++ fixed g.last := by
    rw [Text.fixed_join_lines, ← g.kept]
    exact congrArg (· ++ fixed g.last) hs.symm
  have hrest : fixed (Text.join ['\n'] g.rest) = ';' :: fixed t := by
    have hfixed := Draft.fixed_collapse h
    rw [← htext, Text.fixed_join_lines, g.lines, List.flatMap_append, hsource, Text.fixed_append,
      Text.fixed_append, ← hdone, Text.fixed_join_lines] at hfixed
    rw [Text.fixed_join_lines]
    exact List.append_cancel_left hfixed
  have hne : g.rest ≠ [] := by
    intro he
    rw [he] at hrest
    cases hrest
  have hparts : d.text = Text.join ['\n'] g.done ++ '\n' :: Text.join ['\n'] g.rest := by
    have hjoin := Text.join_append ['\n'] g.done_ne_nil hne
    rwa [← g.lines, htext, List.append_assoc, List.singleton_append] at hjoin
  have hrigid := Draft.rigid_collapse h
  rw [hparts, hsource] at hrigid
  exact Text.not_parted g.unbroken g.fixed_ne_nil (by decide) hdone hrest hrigid

/-- A script that finishing gives back has no statement left to end. -/
theorem settled_of_finish_eq (h : Draft.collapse style.quote source = .ok d)
    (hfinish : finish style d.text d.lineEnds = source) :
    Settled style (Text.splitOn '\n' d.text) d.lineEnds := by
  cases hs : style.semi with
  | false => exact (settled_or_loses hs _ _).resolve_right fun hl => finish_ne_of_loses h hl hfinish
  | true =>
    refine (settled_or_gains hs (fun t => Text.not_mem_of_mem_splitOn) _).resolve_right ?_
    rintro ⟨g⟩
    exact assemble_ne_of_gain h (Text.join_splitOn '\n' d.text) g hfinish

end Lines

/-- Reading `source` gives the draft `d`, which has no statement left to end and is laid out as
`source`. -/
structure LaidOut (style : Style) (source : Text) (d : Draft) : Prop where
  read : Draft.collapse style.quote source = .ok d
  settled : Lines.Settled style (Text.splitOn '\n' d.text) d.lineEnds
  laid : Lines.lay style d.text d.lineEnds = source

/-- A script that is laid out already. -/
def Stable (style : Style) (source : Text) : Prop := ∃ d, LaidOut style source d

theorem normalizeScript_eq_self_iff {style : Style} {source : Text} :
    normalizeScript style source = .ok source ↔ Stable style source := by
  rw [normalizeScript_eq_ok_iff]
  constructor
  · rintro ⟨d, hd, hfinish⟩
    have hs := Lines.settled_of_finish_eq hd hfinish
    exact ⟨d, hd, hs, by rw [← Lines.finish_of_settled hs, hfinish]⟩
  · rintro ⟨d, h⟩
    exact ⟨d, h.read, by rw [Lines.finish_of_settled h.settled, h.laid]⟩

namespace Draft

variable {q : Char} {d : Draft}

theorem step_comma (hjoins : d.joins = true) (hlast : ∀ c ∈ d.back.head?, c ≠ ' ' ∧ c ≠ '\t')
    (rest : Text) :
    d.step q ',' rest = .ok ({ d with back := ',' :: d.back, pad := true }, rest) := by
  have hcomma : d.step q ',' rest = .ok (d.comma, rest) := rfl
  rw [hcomma, comma, if_pos hjoins, retract_of_head hlast]
  rfl

/-- In a list, commas are written as they are read. -/
theorem read_commas (hjoins : d.joins = true) (hlast : ∀ c ∈ d.back.head?, c ≠ ' ' ∧ c ≠ '\t')
    (n : Nat) (rest : Text) : read q d (List.replicate (n + 1) ',' ++ rest) =
      read q { d with back := List.replicate (n + 1) ',' ++ d.back, pad := true } rest := by
  induction n generalizing d with
  | zero => exact read_of_step (step_comma hjoins hlast rest)
  | succ n ih =>
    have hback : List.replicate (n + 1) ',' ++ ',' :: d.back =
        List.replicate (n + 2) ',' ++ d.back := by
      rw [List.append_cons, ← List.replicate_succ']
    have hread := ih (d := { d with back := ',' :: d.back, pad := true }) hjoins fun c hc => by
      cases hc
      decide
    rw [hback] at hread
    exact (read_of_step (step_comma hjoins hlast _)).trans hread

/-- Of the commas at the end of a list one is taken back. -/
theorem collapse_commas (q : Char) (n : Nat) {stop : Text} (hstop : stop = [] ∨ stop = ['\n']) :
    ∃ d, collapse q ("[a".toList ++ (List.replicate (n + 1) ',' ++ ']' :: stop)) = .ok d ∧
      d.text = "[a".toList ++ (List.replicate n ',' ++ ']' :: stop) ∧
      d.lineEnds = List.replicate (stop.length + 1) .statement := by
  have hopen (rest : Text) : read q {} ("[a".toList ++ rest) =
      read q { back := "a[".toList, frames := [(.bracket, 1)] } rest :=
    (read_of_step rfl).trans (read_of_step rfl)
  have hcommas := read_commas (q := q) (d := { back := "a[".toList, frames := [(.bracket, 1)] }) rfl
    (fun c hc => by cases hc; decide) n (']' :: stop)
  have hclose (d : Draft) (hframes : d.frames = [(.bracket, 1)])
      (hback : d.back = List.replicate (n + 1) ',' ++ "a[".toList) :
      d.step q ']' stop = .ok ({ d with back := ']' :: (List.replicate n ',' ++ "a[".toList)
                                        frames := []
                                        pad := false }, stop) := by
    have hitem : Text.lastItem d.back = List.replicate n ',' ++ "a[".toList := by
      rw [hback, List.replicate_succ]
      cases n with
      | zero => rfl
      | succ n => rfl
    have hstep : d.step q ']' stop = .ok (d.closeFrame .bracket [], stop) := by
      change d.close ']' stop = _
      rw [close, hframes]
      rfl
    rw [hstep, closeFrame_of_list (.inr rfl), hitem]
    rfl
  have hread := (hopen _).trans (hcommas.trans (read_of_step (hclose _ rfl rfl)))
  have hdone (e : Draft) : read q e [] = .ok e := by rw [read]
  rcases hstop with rfl | rfl
  · refine ⟨{ back := ']' :: (List.replicate n ',' ++ "a[".toList) }, ?_, ?_, rfl⟩
    · rw [collapse, hread, hdone]
    · simp [text]
  · refine ⟨{ back := '\n' :: ']' :: (List.replicate n ',' ++ "a[".toList)
              ends := [.statement]
              line := 2 }, ?_, ?_, rfl⟩
    · rw [collapse, hread.trans ((read_of_step rfl).trans (hdone _))]
      rfl
    · simp [text]

end Draft

namespace Lines

/-- A line that a bracket ends gains no semicolon and loses none. -/
theorem endStatement_of_bracket (semi : Bool) {line : Text}
    (hlisting : ∀ c ∈ line, isListing c = true) (hlast : line.getLast? = some ']')
    (ts : List Text) : endStatement semi line.trimEnd ts = line := by
  have htrim : line.trimEnd = line := Text.trimEnd_eq_self.2 fun c hc => by
    rw [hlast] at hc
    cases hc
    decide
  rw [htrim]
  cases semi with
  | true => exact endStatement_of_listing hlisting ts
  | false =>
    rw [endStatement, hlast]
    rfl

theorem isBlank_of_bracket {line : Text} (hlast : line.getLast? = some ']') :
    ({ text := line } : Line).isBlank = false ∧ line.isEmpty = false := by
  obtain ⟨front, rfl⟩ := List.getLast?_eq_some_iff.1 hlast
  have hbracket : Text.blank [']'] = false := by decide
  rw [isBlank_plain, Text.blank_append, hbracket, Bool.and_false]
  exact ⟨rfl, by simp⟩

/-- A line that a bracket ends is finished as it is. -/
theorem finish_line (style : Style) {line stop : Text}
    (hlisting : ∀ c ∈ line, isListing c = true) (hbreak : '\n' ∉ line)
    (hlast : line.getLast? = some ']') (hstop : stop = [] ∨ stop = ['\n']) :
    finish style (line ++ stop) (List.replicate (stop.length + 1) .statement) = line ++ ['\n'] := by
  obtain ⟨es, hes, hsplit, hcount⟩ : ∃ es : List Text, (∀ e ∈ es, e = []) ∧
      Text.splitOn '\n' (line ++ stop) = [line] ++ es ∧
        (line ++ stop).count '\n' = stop.length := by
    have hnone := List.count_eq_zero_of_not_mem hbreak
    rcases hstop with rfl | rfl
    · rw [List.append_nil, Text.splitOn_of_not_mem hbreak]
      exact ⟨[], by simp, rfl, hnone⟩
    · rw [Text.splitOn_append_cons, Text.splitOn_of_not_mem hbreak]
      exact ⟨[[]], by simp, rfl, by rw [List.count_append, hnone]; rfl⟩
  have hlisting' : ∀ c ∈ line ++ stop, isListing c = true := by
    intro c hc
    rcases List.mem_append.1 hc with hc | hc
    · exact hlisting c hc
    · rcases hstop with rfl | rfl
      · cases hc
      · rw [List.mem_singleton.1 hc]
        decide
  obtain ⟨fs, hfs, hsqueeze⟩ := squeeze_append_empty true [line] hes
  obtain ⟨hblank, hne⟩ := isBlank_of_bracket hlast
  rw [← hcount, finish_of_lists hlisting', hsplit, ended_append_of_empty _ hes, ended,
    endStatement_of_bracket _ hlisting hlast, ended, assemble_eq_joinLines, hsqueeze,
    dropEmptyEnd_append_empty _ hfs]
  simp [plain, squeeze, hblank, dropEmptyEnd, hne, Header.joinLines]

end Lines

/-- Each reading takes back one comma at the end of a list. -/
theorem normalizeScript_commas (style : Style) (n : Nat) {stop : Text}
    (hstop : stop = [] ∨ stop = ['\n']) :
    normalizeScript style ("[a".toList ++ (List.replicate (n + 1) ',' ++ ']' :: stop)) =
      .ok ("[a".toList ++ (List.replicate n ',' ++ [']', '\n'])) := by
  obtain ⟨d, hd, htext, hends⟩ := Draft.collapse_commas style.quote n hstop
  refine normalizeScript_eq_ok_iff.2 ⟨d, hd, ?_⟩
  have hline : ∀ c ∈ "[a".toList ++ (List.replicate n ',' ++ [']']), c ∈ "[a,]".toList := by
    simp only [List.mem_append, List.mem_replicate]
    rintro c (hc | ⟨-, rfl⟩ | hc)
    · exact (by decide : ∀ c ∈ "[a".toList, c ∈ "[a,]".toList) c hc
    · decide
    · rw [List.mem_singleton.1 hc]
      decide
  have hlisting : ∀ c ∈ "[a,]".toList, isListing c = true := by decide
  have hlast : ("[a".toList ++ (List.replicate n ',' ++ [']'])).getLast? = some ']' := by
    rw [← List.append_assoc, List.getLast?_concat]
  have hfinish := Lines.finish_line style (fun c hc => hlisting c (hline c hc))
    (fun hmem => absurd (hline _ hmem) (by decide)) hlast hstop
  rw [htext, hends]
  simpa using hfinish

/-- Under every style, all normal forms are their own normal forms exactly at the paths that name
no script. Of a script, a normal form is its own exactly if it is laid out already. -/
theorem normalize_idempotent_iff (path : String) (o : StyleOverrides) :
    ((∀ source y, normalize path o source = .ok y → normalize path o y = .ok y) ↔
      isScript path = false) ∧
    ∀ source y, normalize path o source = .ok y →
      (normalize path o y = .ok y ↔ (isScript path = true → Stable o.resolve y)) := by
  cases hs : isScript path with
  | true =>
    have hscript := normalize_of_script hs o
    refine ⟨⟨fun h => ?_, fun h => absurd h (by decide)⟩, fun source y _ => ?_⟩
    · have htwo := h _ _ ((hscript _).trans (normalizeScript_commas o.resolve 1 (.inl rfl)))
      have hone := (hscript _).trans (normalizeScript_commas o.resolve 0 (.inr rfl))
      exact absurd (hone.symm.trans htwo) (by decide)
    · rw [hscript, normalizeScript_eq_self_iff]
      exact ⟨fun h _ => h, fun h => h rfl⟩
  | false =>
    have hidem (source y : Text) (h : normalize path o source = .ok y) :
        normalize path o y = .ok y := by
      rw [normalize_of_plain hs] at h ⊢
      cases h
      rw [Lines.tidy_tidy]
    refine ⟨⟨fun _ => rfl, fun _ => hidem⟩, fun source y h => ?_⟩
    exact ⟨fun _ hf => absurd hf (by decide), fun _ => hidem source y h⟩

/-- A statement without a semicolon is laid out already in the style of generated projects. -/
theorem normalize_idempotent_statement :
    normalize "a.js" {} "f()".toList = .ok "f()\n".toList ∧ isScript "a.js" = true ∧
      Stable Style.house "f()\n".toList := by
  have hs : isScript "a.js" = true := by decide
  have h : normalize "a.js" {} "f()".toList = .ok "f()\n".toList := by decide +kernel
  have htwice : normalize "a.js" {} "f()\n".toList = .ok "f()\n".toList := by decide +kernel
  exact ⟨h, hs, ((normalize_idempotent_iff "a.js" {}).2 _ _ h).1 htwice hs⟩

/-- Each reading takes back one comma. -/
theorem normalize_not_idempotent :
    normalize "a.js" {} "[a,,]".toList = .ok "[a,]\n".toList ∧
      normalize "a.js" {} "[a,]\n".toList ≠ .ok "[a,]\n".toList := by
  have htwice : normalize "a.js" {} "[a,]\n".toList = .ok "[a]\n".toList := by decide +kernel
  refine ⟨by decide +kernel, ?_⟩
  rw [htwice]
  decide

/-- A script of lists and statements, none of which ends in two commas or two semicolons, is laid
out once and for all. -/
theorem stable_of_lists {path : String} (script : isScript path = true) {o : StyleOverrides}
    {source y : Text} (hlisting : ∀ c ∈ source, isListing c = true)
    (honce : endsOnce 0 0 source = true) (h : normalize path o source = .ok y) :
    Stable o.resolve y ∧ normalize path o y = .ok y := by
  rw [normalize_of_script script] at h ⊢
  have hagain := normalizeScript_of_lists hlisting honce h
  exact ⟨normalizeScript_eq_self_iff.1 hagain, hagain⟩

/-- One comma at the end of a list over lines and one semicolon behind it. -/
example {y : Text} (h : normalize "a.js" {} "f([\n  a,\n  b,\n]);\n".toList = .ok y) :
    normalize "a.js" {} y = .ok y :=
  (stable_of_lists (by decide) (by decide) (by decide) h).2

end ProjectSetup
