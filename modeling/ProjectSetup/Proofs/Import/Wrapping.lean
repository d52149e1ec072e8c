import ProjectSetup.Proofs.Import.Insertion

/-!
# Wrapping and flattening imports

An import is laid out on one line, or on one line for each of its names. Reading takes both layouts
alike, so the form that a style gives to an import is the same whichever form another style gave to
it before.
-/
namespace ProjectSetup

open Import (Row)

variable {path : String} {o : StyleOverrides} {style style' : Style} {i : Import} {q : Char}

namespace Import

/-- The import in the form of a style. -/
def laid (style : Style) (i : Import) : Text :=
  let line := (Row.statement i style.semi).text style.quote
  if style.printWidth < line.length ∧ i.whole = none ∧ 2 ≤ i.names.length then
    i.spread ['\n', ' ', ' '] (Draft.closing (style.trailingComma != .none) '\n') style.quote ++
      (if style.semi then [';'] else []) ++ ['\n']
  else line ++ ['\n']

/-- The lines of an import make up its form. -/
theorem Plain.joinLines_lines (hi : i.Plain) (style : Style) :
    Header.joinLines ((Row.statement i style.semi).lines style) = i.laid style := by
  rw [Row.lines, Row.text, hi.wrapWide_line, laid, Row.text]
  generalize (if style.semi then [';'] else [] : Text) = stop
  split
  · next hwide =>
    have hnames : i.names ≠ [] := List.ne_nil_of_length_pos (Nat.two_pos.trans_le hwide.2.2)
    rw [joinLines_wrapped _ _ hnames, spread_eq]
    simp only [List.append_assoc, List.cons_append]
  · simp [Header.joinLines]

/-- The statement of an import gets the form of the style. -/
theorem Plain.normalizeScript_text (hi : i.Plain) (hq : IsMark q) (closed : Bool) :
    normalizeScript style ((Row.statement i closed).text q) = .ok (i.laid style) := by
  rw [normalizeScript_row hi hq, hi.joinLines_lines]

end Import

theorem Draft.below_nil (m : Char) : Below q m [] [] [] := by
  intro b _ hframes _
  exact ⟨b, by rw [read], rfl, rfl, hframes⟩

theorem Lines.finishBelow_nil (style : Style) : finishBelow style [] [] = [] := by
  have hline : finishLine style ⟨[], .statement⟩ [] = [⟨[], .statement⟩] := by
    have hwrap : wrapWide style [] = [[]] := Row.lines_blank style
    have hended : endStatement style.semi (Text.trimEnd []) [] = [] := by cases style.semi <;> rfl
    simp only [finishLine, hended, hwrap, List.map_singleton]
  have hlines : finishLines style (Text.splitOn '\n' []) ([] ++ [.statement]) =
      finishLine style ⟨[], .statement⟩ [] ++ [] := rfl
  rw [finishBelow, hlines, hline]
  rfl

/-- An import in the form of a style with the same quotes gets the form of this one. -/
theorem Import.Plain.normalizeScript_laid (hi : i.Plain) (hquote : style'.quote = style.quote) :
    normalizeScript style (i.laid style') = .ok (i.laid style) := by
  let s := Row.statement i style'.semi
  have hrows : ∀ r ∈ [s], r.Plain := fun r hr => by
    rw [List.mem_singleton.1 hr]
    exact hi
  have hfinished : Row.finished style.semi (Lines.hazardAhead (Text.splitOn '\n' [])) [s] =
      [Row.statement i style.semi] := by
    simp [Row.finished, Row.endAll, Row.ended, Row.squeezed, Lines.hazardAhead, Text.splitOn, s]
  have hnormal := normalizeScript_rows hrows rfl hquote (Draft.below_nil _)
  rwa [hfinished, List.flatMap_singleton, List.flatMap_singleton, hi.joinLines_lines,
    hi.joinLines_lines, Lines.finishBelow_nil, List.append_nil, List.append_nil] at hnormal

/-- Wrapping an import and flattening it are inverse: let `L` be its statement under the greatest
width and `W` the form of `L` under the style. Then `L` is again the form of `W` under the greatest
width, and `W` its own form under the style. -/
theorem Import.wrap_flatten (path : String) (o : StyleOverrides) (hi : i.Plain) (hq : IsMark q)
    (closed : Bool) :
    ∃ L W, normalize path o.singleLine ((Row.statement i closed).text q) = .ok L ∧
      normalize path o L = .ok W ∧
      normalize path o.singleLine W = .ok L ∧
      normalize path o W = .ok W ∧
      (isScript path = true → L = i.laid o.singleLine.resolve ∧ W = i.laid o.resolve) := by
  cases hpath : isScript path with
  | true =>
    simp only [normalize_of_script hpath]
    exact ⟨_, _, hi.normalizeScript_text hq closed, hi.normalizeScript_laid rfl,
      hi.normalizeScript_laid rfl, hi.normalizeScript_laid rfl, fun _ => ⟨rfl, rfl⟩⟩
  | false =>
    let L := Lines.tidy ((Row.statement i closed).text q)
    have hL : Lines.tidy L = L := Lines.tidy_tidy _
    simp only [normalize_of_plain hpath]
    exact ⟨L, L, rfl, by rw [hL], by rw [hL], by rw [hL], fun h => by cases h⟩

/-- A default binding and two names, one of which gets another. -/
theorem Import.wrap_flatten_renamed :
    let o : StyleOverrides := { printWidth := some 40 }
    let flat := "import React, \x7b useState, useRef as ref \x7d from 'react'\n".toList
    let wrapped := "import React, \x7b\n  useState,\n  useRef as ref,\n\x7d from 'react'\n".toList
    normalize "a.js" o.singleLine
        "import React, \x7b useState, useRef as ref \x7d from \"react\";".toList = .ok flat ∧
      normalize "a.js" o flat = .ok wrapped ∧
      normalize "a.js" o.singleLine wrapped = .ok flat ∧
      normalize "a.js" o wrapped = .ok wrapped := by
  intro o flat wrapped
  let i : Import :=
    ⟨"react".toList, some "React".toList, ["useState".toList, "useRef as ref".toList], none⟩
  have hrenamed : Phrase "useRef as ref".toList :=
    .cons (t := "useRef".toList) ⟨by decide, by decide⟩
      (.cons (t := "as".toList) ⟨by decide, by decide⟩ (.name ⟨by decide, by decide⟩))
  have hbinding : ∀ b ∈ i.binding, Name b := fun b hb => by
    cases hb
    exact ⟨by decide, by decide⟩
  have hnames : ∀ n ∈ i.names, Phrase n := fun n hn => by
    rcases List.mem_pair.1 hn with rfl | rfl
    · exact .name ⟨by decide, by decide⟩
    · exact hrenamed
  have hi : i.Plain := ⟨rfl, by decide, hbinding, hnames, fun w hw => by cases hw⟩
  obtain ⟨L, W, hflat, hwrapped, hflat', hwrapped', hform⟩ :=
    wrap_flatten "a.js" o hi (.inr rfl : IsMark '"') true
  obtain ⟨rfl, rfl⟩ := hform (by decide)
  have hL : i.laid o.singleLine.resolve = flat := by decide
  have hW : i.laid o.resolve = wrapped := by decide
  rw [hL] at hflat hwrapped hflat'
  rw [hW] at hwrapped hflat' hwrapped'
  exact ⟨hflat, hwrapped, hflat', hwrapped'⟩

end ProjectSetup
