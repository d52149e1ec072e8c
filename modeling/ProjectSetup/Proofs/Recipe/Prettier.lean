import ProjectSetup.Proofs.Layout.Spacing
import ProjectSetup.Proofs.Layout.StyleFile
import ProjectSetup.Proofs.Project.Effects
import ProjectSetup.Proofs.Text.Trimmed
import ProjectSetup.Proofs.Yaml.Reader
import ProjectSetup.Recipe.Builtin

/-!
# The configuration of Prettier

The style of a project is handed on to Prettier in a file that names its options as a style file
does. Formatting leaves that file as it is, so the style can be read from it again.
-/
namespace ProjectSetup

open ProjectSetup.Path (join)
open Yaml (blockText entryLine)
open StyleOverrides (widest)

/-- Letters and digits are no blanks. -/
theorem Text.isBlank_of_isAlphanum {c : Char} (h : c.isAlphanum = true) : isBlank c = false := by
  have hcode : ∀ n < 0x80, (Char.ofNat n).isAlphanum = true → isBlank (Char.ofNat n) = false := by
    decide +kernel
  exact of_ascii (p := fun c => c.isAlphanum = true → isBlank c = false) hcode
    (Yaml.ascii_of_isAlphanum h) h

namespace Style

theorem blockText_eq_joinLines (es : List (Text × Text)) :
    blockText es = Header.joinLines (es.map entryLine) := by
  rw [blockText, Header.joinLines, List.flatMap_map]

theorem prettierConfig_eq (s : Style) : Recipe.prettierConfig s = blockText s.fields := by
  have hquote : "singleQuote: ".toList = "singleQuote".toList ++ [':', ' '] := rfl
  have hsemi : "\nsemi: ".toList = '\n' :: "semi".toList ++ [':', ' '] := rfl
  have hcomma : "\ntrailingComma: ".toList = '\n' :: "trailingComma".toList ++ [':', ' '] := rfl
  have hwidth : "\nprintWidth: ".toList = '\n' :: "printWidth".toList ++ [':', ' '] := rfl
  unfold Recipe.prettierConfig
  rw [hquote, hsemi, hcomma, hwidth]
  simp only [blockText, fields, entryLine, flag, List.flatMap_cons, List.flatMap_nil,
    List.append_assoc, List.cons_append, List.nil_append, List.append_nil]

/-- The lines of the configuration are in the form in which formatting leaves lines. -/
theorem tidy_prettierConfig (s : Style) :
    Lines.tidy (Recipe.prettierConfig s) = Recipe.prettierConfig s := by
  rw [prettierConfig_eq, blockText_eq_joinLines]
  refine Lines.tidy_joinLines ?_
  intro l hl
  obtain ⟨e, he, rfl⟩ := List.mem_map.1 hl
  obtain ⟨hkey, hvalue⟩ := s.alphanumeric_fields e he
  simp only [Yaml.alphanumeric, Bool.and_eq_true, Bool.not_eq_true', List.isEmpty_eq_false_iff,
    List.all_eq_true] at hkey hvalue
  have hline : entryLine e = e.1 ++ [':', ' '] ++ e.2 := by simp [entryLine]
  refine ⟨by simp [entryLine], ?_, ?_⟩
  · rw [Text.trimEnd_eq_self, hline, List.getLast?_append_of_ne_nil _ hvalue.1]
    exact fun c hc => Text.isBlank_of_isAlphanum (hvalue.2 c (List.mem_of_getLast? hc))
  · intro hbreak
    have hmem : '\n' ∈ e.1 ∨ '\n' ∈ e.2 := by simpa [entryLine] using hbreak
    rcases hmem with hmem | hmem
    · exact absurd (hkey.2 '\n' hmem) (by decide)
    · exact absurd (hvalue.2 '\n' hmem) (by decide)

theorem printWidth_resolve_le {o : StyleOverrides} (h : ∀ w ∈ o.printWidth, w ≤ widest) :
    o.resolve.printWidth ≤ widest := by
  cases hw : o.printWidth with
  | none =>
    simp only [StyleOverrides.resolve, hw]
    decide
  | some w =>
    simp only [StyleOverrides.resolve, hw]
    exact h w hw

end Style

namespace Edit

variable {path : String} {o : StyleOverrides} {content s : Text}

/-- A text with a normal form is written in this form. -/
theorem writeFile_eq (h : normalize path o content = .ok s) :
    writeFile path o content = (do
      Action.makeParent path
      Action.writeText path s) := by
  have hformat (t : Tree) : Action.normalized path o content t = (.ok s, t) := by
    rw [Action.normalized, h]
    rfl
  funext t
  rw [writeFile, Action.bind_run, hformat]

theorem readText_of_writeFile {t t' : Tree} (h : normalize path o content = .ok s)
    (hdone : writeFile path o content t = (.ok (), t')) : t'.readText path = .ok s := by
  obtain ⟨t₁, s', -, hnormal, hwrite⟩ := of_writeFile hdone
  obtain rfl := Except.ok.inj (h.symm.trans hnormal)
  exact Tree.readText_of_writeText hwrite

end Edit

theorem normalize_prettierConfig (dir : String) (o : StyleOverrides) (s : Style) :
    normalize (join dir ".prettierrc.yaml") o (Recipe.prettierConfig s) =
      .ok (Recipe.prettierConfig s) := by
  have hplain : isScript (join dir ".prettierrc.yaml") = false := by
    rw [isScript, Path.extension?_join dir (by decide)]
    decide
  rw [normalize_of_plain hplain, Style.tidy_prettierConfig]

/-- The file that the recipe of Prettier writes first holds the configuration as it is, and to a
standard reader of YAML this is a style file: the options that it sets make the style that it was
written for. -/
theorem prettier_style_reads_back {yaml : Yaml.Reader} (hyaml : yaml.Standard)
    {o : StyleOverrides} (hwidth : ∀ w ∈ o.printWidth, w ≤ widest) (s : Setting) (dir : String) :
    ∃ r e rest text o', Recipe.ofName? Builtin.prettier s o = some r ∧ r.edits = e :: rest ∧
      (e.apply dir o = do
        Action.makeParent (join dir e.target)
        Action.writeText (join dir e.target) text) ∧
      (∀ t t', e.apply dir o t = (.ok (), t') → t'.readText (join dir e.target) = .ok text) ∧
      StyleOverrides.parse? yaml text = some o' ∧ o'.resolve = o.resolve := by
  have hnormal := normalize_prettierConfig dir o o.resolve
  have hread := Style.parse?_fields hyaml (Style.printWidth_resolve_le hwidth)
  rw [← Style.prettierConfig_eq] at hread
  exact ⟨Recipe.prettier o, .write ".prettierrc.yaml" (Recipe.prettierConfig o.resolve), _,
    Recipe.prettierConfig o.resolve, .ofStyle o.resolve, rfl, rfl, Edit.writeFile_eq hnormal,
    fun _ _ hdone => Edit.readText_of_writeFile hnormal hdone, hread, rfl⟩

/-- The widest print width, and a word that other readers of YAML might take for no value, to the
reader of settings. -/
theorem prettier_style_reads_back_widest :
    let o : StyleOverrides := { trailingComma := some .none, printWidth := some widest }
    let t : Tree := ⟨[(["app"], .directory)]⟩
    Yaml.reader.Standard ∧ (∀ w ∈ o.printWidth, w ≤ widest) ∧ ∃ e t' text o',
      (Recipe.prettier o).edits.head? = some e ∧ e.apply "app" o t = (.ok (), t') ∧
        t'.readText "app/.prettierrc.yaml" = .ok text ∧
        StyleOverrides.parse? Yaml.reader text = some o' ∧
        o'.resolve = ⟨true, false, .none, 18446744073709551615⟩ := by
  intro o t
  have hwidth : ∀ w ∈ o.printWidth, w ≤ widest := by simp [o]
  obtain ⟨r, e, rest, text, o', hr, he, -, hwritten, hread, hstyle⟩ :=
    prettier_style_reads_back Yaml.reader_standard hwidth { typeScript := true } "app"
  obtain rfl : Recipe.prettier o = r := Option.some.inj hr
  obtain ⟨rfl, -⟩ := List.cons.inj he
  have hpath : join "app" ".prettierrc.yaml" = "app/.prettierrc.yaml" := by decide +kernel
  have hdone : ((Edit.write ".prettierrc.yaml" (Recipe.prettierConfig o.resolve)).apply "app" o t).1 =
      .ok () := by decide +kernel
  obtain ⟨t', happly⟩ : ∃ t', (Edit.write ".prettierrc.yaml"
      (Recipe.prettierConfig o.resolve)).apply "app" o t = (.ok (), t') := ⟨_, Prod.ext hdone rfl⟩
  have hfile : t'.readText (join "app" ".prettierrc.yaml") = .ok text := hwritten t t' happly
  rw [hpath] at hfile
  exact ⟨Yaml.reader_standard, hwidth, .write ".prettierrc.yaml" (Recipe.prettierConfig o.resolve),
    t', text, o', rfl, happly, hfile, hread, hstyle⟩

end ProjectSetup
