import ProjectSetup.Proofs.Layout.Finishing
import ProjectSetup.Proofs.Layout.Reading

/-!
# What a layout can lose

Apart from blanks, commas, semicolons, quotes and the marks of comments, the normal form of a
script is the script, but for its last lines: a line break inside a regular expression has no
record, so for each of them the last line of the draft is left out. Text is lost exactly if one of
these lines holds any.
-/
namespace ProjectSetup

namespace Text

/-- The characters that a layout may add and drop. -/
def isLoose (c : Char) : Bool := isBlank c || [',', ';', '\'', '"', '/', '*'].contains c

/-- A text without its loose characters. -/
def essence (t : Text) : Text := t.filter fun c => !isLoose c

theorem essence_append (s t : Text) : essence (s ++ t) = essence s ++ essence t :=
  List.filter_append ..

theorem flatMap_essence_splitOn (t : Text) : (splitOn '\n' t).flatMap essence = essence t :=
  flatMap_splitOn (by decide) t

/-- The first lines of a text hold the beginning of its essence. -/
theorem essence_take_lines (n : Nat) (t : Text) :
    ((splitOn '\n' t).take n).flatMap essence <+: essence t := by
  refine ⟨((splitOn '\n' t).drop n).flatMap essence, ?_⟩
  rw [← List.flatMap_append, List.take_append_drop, flatMap_essence_splitOn]

theorem essence_isInfix_of_mem_splitOn {l t : Text} (h : l ∈ splitOn '\n' t) :
    essence l <:+: essence t := by
  obtain ⟨above, below, hcut⟩ := List.append_of_mem h
  rw [← flatMap_essence_splitOn t, hcut, List.flatMap_append, List.flatMap_cons, ← List.append_assoc]
  exact List.infix_append _ _ _

/-- The last `n` lines of a text. -/
def lastLines (n : Nat) (t : Text) : List Text :=
  (splitOn '\n' t).drop ((splitOn '\n' t).length - n)

theorem loose_of_soft {c : Char} (h : isSoft c = true) : isLoose c = true := by
  simp only [isSoft, Bool.or_eq_true, Bool.and_eq_true, List.contains_eq_mem, List.mem_cons,
    List.not_mem_nil, or_false, decide_eq_true_eq] at h
  rcases h with ⟨hb, -⟩ | rfl | rfl | rfl | rfl
  · simp [isLoose, hb]
  all_goals decide

end Text

open Text (essence isLoose lastLines)

theorem lasting_essence : Lasting fun c => !isLoose c := by
  constructor
  · intro c hc
    simp [isLoose, hc]
  · decide

namespace Draft

theorem essence_collapse {style : Style} {source : Text} {d : Draft}
    (h : collapse style.quote source = .ok d) : essence d.text = essence source :=
  filter_collapse (quote_soft style) (fun c hc => by rw [Text.loose_of_soft hc]; rfl) (by decide)
    (by decide) h

theorem length_lines_collapse {style : Style} {source : Text} {d : Draft}
    (h : collapse style.quote source = .ok d) :
    (Text.splitOn '\n' d.text).length =
      d.lineEnds.length + hiddenBreaks style.quote {} source := by
  have hr := collapse_records h
  rw [Text.length_splitOn, text, List.count_reverse, hr, lineEnds, List.length_reverse,
    List.length_cons]
  omega

end Draft

/-- The lines of a draft that have no record are the only text that finishing loses. -/
theorem essence_finish_iff {style : Style} {source : Text} {d : Draft}
    (h : Draft.collapse style.quote source = .ok d) :
    essence (Lines.finish style d.text d.lineEnds) = essence source ↔
      ∀ l ∈ lastLines (Draft.hiddenBreaks style.quote {} source) d.text, essence l = [] := by
  have hlast : lastLines (Draft.hiddenBreaks style.quote {} source) d.text =
      (Text.splitOn '\n' d.text).drop d.lineEnds.length := by
    rw [lastLines, Draft.length_lines_collapse h, Nat.add_sub_cancel]
  have hsplit : essence d.text =
      ((Text.splitOn '\n' d.text).take d.lineEnds.length).flatMap essence ++
        ((Text.splitOn '\n' d.text).drop d.lineEnds.length).flatMap essence := by
    rw [← List.flatMap_append, List.take_append_drop, Text.flatMap_essence_splitOn]
  have hfinish : essence (Lines.finish style d.text d.lineEnds) =
      ((Text.splitOn '\n' d.text).take d.lineEnds.length).flatMap essence :=
    Lines.filter_finish lasting_essence (by decide) style d.text d.lineEnds
  rw [← Draft.essence_collapse h, hsplit, hfinish, hlast, List.self_eq_append_right,
    List.flatMap_eq_nil_iff]

/-- The normal form of a script loses no text iff the last lines of its draft, one for each line
break inside its regular expressions, hold loose characters only. -/
theorem essence_normalize_iff {path : String} {o : StyleOverrides} {source y : Text}
    (hs : isScript path = true) (h : normalize path o source = .ok y) :
    ∃ d, Draft.collapse o.resolve.quote source = .ok d ∧
      (essence y = essence source ↔
        ∀ l ∈ lastLines (Draft.hiddenBreaks o.resolve.quote {} source) d.text, essence l = []) := by
  rw [normalize_of_script hs] at h
  obtain ⟨d, hd, rfl⟩ := normalizeScript_eq_ok_iff.1 h
  exact ⟨d, hd, essence_finish_iff hd⟩

/-- The last line of this draft is left out, and holds no text. -/
theorem essence_normalize_regex_break :
    isScript "a.js" = true ∧ normalize "a.js" {} "/\\\n/".toList = .ok "/\\\n".toList ∧
      ∃ d, Draft.collapse '\'' "/\\\n/".toList = .ok d ∧
        (essence "/\\\n".toList = essence "/\\\n/".toList ↔
          ∀ l ∈ lastLines (Draft.hiddenBreaks '\'' {} "/\\\n/".toList) d.text, essence l = []) := by
  have hs : isScript "a.js" = true := by decide
  have h : normalize "a.js" {} "/\\\n/".toList = .ok "/\\\n".toList := by decide +kernel
  exact ⟨hs, h, essence_normalize_iff hs h⟩

/-- A closing bracket behind a line break inside a regular expression is lost. -/
theorem essence_normalize_lost :
    isScript "a.js" = true ∧ normalize "a.js" {} "/(\\\n]/".toList = .ok "/(\\\n".toList ∧
      essence "/(\\\n".toList ≠ essence "/(\\\n]/".toList := by
  refine ⟨by decide, by decide +kernel, by decide⟩

/-- Whatever a layout loses stands at the end. -/
theorem normalize_loses_end {path : String} {o : StyleOverrides} {source y : Text}
    (h : normalize path o source = .ok y) : essence y <+: essence source := by
  cases hs : isScript path with
  | true =>
    rw [normalize_of_script hs] at h
    obtain ⟨d, hd, rfl⟩ := normalizeScript_eq_ok_iff.1 h
    have hfinish : essence (Lines.finish o.resolve d.text d.lineEnds) =
        ((Text.splitOn '\n' d.text).take d.lineEnds.length).flatMap essence :=
      Lines.filter_finish lasting_essence (by decide) o.resolve d.text d.lineEnds
    rw [← Draft.essence_collapse hd, hfinish]
    exact Text.essence_take_lines d.lineEnds.length d.text
  | false =>
    rw [normalize_of_plain hs, Except.ok.injEq] at h
    have htidy : essence (Lines.tidy source) =
        (Text.splitOn '\n' source).flatMap fun l => essence l.trimEnd := by
      rw [Lines.tidy, essence, Lines.filter_assemble lasting_essence, List.flatMap_map]
      rfl
    have htrim (l : Text) : essence l.trimEnd = essence l :=
      Text.filter_trimEnd fun c _ hc => lasting_essence.1 c hc
    simp only [htrim, Text.flatMap_essence_splitOn] at htidy
    have hkept : essence y = essence source := by rw [← h, htidy]
    exact hkept ▸ List.prefix_rfl

end ProjectSetup
