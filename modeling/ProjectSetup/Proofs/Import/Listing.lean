import ProjectSetup.Proofs.Import.Presence
import ProjectSetup.Proofs.Import.Registration

/-!
# From array to array

Names are registered in the array that is found once the import stands in the file. Lines on which
no array begins do not matter to what is found below them, so this is the array of the file as it
was. In a file that is laid out already, the array of the result is the one that is written;
elsewhere the last layout leaves the letters of its entries as they are.
-/
namespace ProjectSetup

open Import (Name)
open Lines (NamedImport)
open Text (essence)

namespace ArraySite

variable {name t g e a y l : Text} {prev : Option Char} {s : ArraySite} {ls ks : List Text}

theorem Gap.bracket_mem (h : Gap g) : '[' ∈ g := by
  obtain ⟨p, q, m, -, -, -, rfl⟩ := h
  simp

theorem Gap.chars (h : Gap g) :
    ∀ c ∈ g, Text.isBlank c = true ∨ c = ':' ∨ c = '=' ∨ c = '[' := by
  obtain ⟨p, q, m, hp, hm, hq, rfl⟩ := h
  intro c hc
  simp only [List.mem_append, List.mem_cons, List.not_mem_nil, or_false] at hc
  rcases hc with hc | rfl | hc | rfl
  · exact .inl (List.all_eq_true.1 hp c hc)
  · exact .inr (hm.imp_right .inl)
  · exact .inl (List.all_eq_true.1 hq c hc)
  · exact .inr (.inr (.inr rfl))

/-- A line on which no array begins that has an identifier for its name: no bracket opens on it, and
neither such a name nor what may follow one is at its end. -/
structure Unlisted (l : Text) : Prop where
  unopened : '[' ∉ l
  ends : ∀ c ∈ l.getLast?,
    NamedImport.isBinding c = false ∧ Text.isBlank c = false ∧ c ≠ ':' ∧ c ≠ '='

theorem Unlisted.tail {c : Char} (h : Unlisted (c :: l)) : Unlisted l := by
  refine ⟨fun hmem => h.unopened (List.mem_cons_of_mem c hmem), fun c' hc' => h.ends c' ?_⟩
  rw [List.getLast?_cons, Option.mem_def.1 hc']
  rfl

theorem Unlisted.not_name (h : Unlisted l) : ¬Name l := by
  intro hname
  obtain ⟨c, hc, hbinding⟩ := hname.exists_last
  rw [(h.ends c hc).1] at hbinding
  cases hbinding

/-- No array begins on such a line, whatever comes below it. -/
theorem Unlisted.here?_eq_none (h : Unlisted l) (hname : Name name) :
    here? name prev (l ++ '\n' :: y) = none := by
  by_contra hsome
  obtain ⟨⟨g, e, a⟩, hhere⟩ := Option.ne_none_iff_exists'.1 hsome
  obtain ⟨-, hgap, -, htext⟩ := here?_eq_some_iff.1 hhere
  rcases List.append_eq_append_iff.1 htext with ⟨w, hw, hrest⟩ | ⟨w, rfl, hrest⟩
  · -- the name reaches the line break
    cases w with
    | nil => exact h.not_name (by rwa [hw, List.append_nil] at hname)
    | cons c w =>
      cases hrest
      exact absurd (hname.chars '\n' (by rw [hw]; simp)) (by decide)
  · rcases List.append_eq_append_iff.1 hrest with ⟨v, hv, -⟩ | ⟨v, hv, -⟩
    · exact h.unopened (List.mem_append_right name
        (by rw [hv]; exact List.mem_append_left v hgap.bracket_mem))
    · -- the gap reaches the line break
      cases hw : w.getLast? with
      | none =>
        rw [List.getLast?_eq_none_iff.1 hw, List.append_nil] at h
        exact h.not_name hname
      | some c =>
        have hmem := List.mem_of_getLast? hw
        obtain ⟨-, hblank, hcolon, hequals⟩ :=
          h.ends c (by rw [List.getLast?_append, hw]; rfl)
        rcases hgap.chars c (by rw [hv]; exact List.mem_append_left v hmem) with hc | hc | hc | hc
        · rw [hblank] at hc
          cases hc
        · exact hcolon hc
        · exact hequals hc
        · exact h.unopened (List.mem_append_right name (hc ▸ hmem))

/-- Of the character ahead of a text the search only reads whether it belongs to a word. -/
theorem find?_congr {prev' : Option Char} (h : prev.any Text.isWord = prev'.any Text.isWord)
    (name t : Text) : find? name prev t = find? name prev' t := by
  have hhere : here? name prev t = here? name prev' t := by
    rw [here?, here?, isBoundary, isBoundary, h]
  cases hfound : here? name prev t with
  | none =>
    rw [hfound] at hhere
    cases t with
    | nil => rw [find?_nil_of_not_here hfound, find?_nil_of_not_here hhere.symm]
    | cons c r => rw [find?_cons_of_not_here hfound, find?_cons_of_not_here hhere.symm]
  | some found => rw [find?_of_here hfound, find?_of_here (hhere.symm.trans hfound)]

theorem find?_line (h : Unlisted l) (hname : Name name) (prev : Option Char) (y : Text) :
    find? name prev (l ++ '\n' :: y) =
      (find? name none y).map fun s => { s with before := l ++ '\n' :: s.before } := by
  induction l generalizing prev with
  | nil =>
    have hbreak : (some '\n').any Text.isWord = (none : Option Char).any Text.isWord := by decide
    rw [List.nil_append, find?_cons_of_not_here (h.here?_eq_none hname), find?_congr hbreak]
    rfl
  | cons c l ih =>
    have hnone : here? name prev (c :: (l ++ '\n' :: y)) = none := h.here?_eq_none hname
    rw [List.cons_append, find?_cons_of_not_here hnone, ih h.tail, Option.map_map]
    rfl

/-- Below lines on which no array begins, the first array with a name is the one that is found
without them. -/
theorem find?_lines (hls : ∀ l ∈ ls, Unlisted l) (hname : Name name) (y : Text) :
    find? name none (Header.joinLines ls ++ y) = (find? name none y).map fun s =>
      { s with before := Header.joinLines ls ++ s.before } := by
  induction ls with
  | nil => simp [Header.joinLines]
  | cons l ls ih =>
    rw [Header.joinLines_cons, List.append_assoc, List.cons_append,
      find?_line (hls l List.mem_cons_self) hname,
      ih fun k hk => hls k (List.mem_cons_of_mem l hk), Option.map_map]
    simp [Function.comp_def]

/-- The first array with a name stays the first one when other lines stand above it. -/
theorem find?_of_lines (hls : ∀ l ∈ ls, Unlisted l) (hks : ∀ k ∈ ks, Unlisted k)
    (hname : Name name) (h : find? name none (Header.joinLines ls ++ y) = some s) :
    ∃ b, s.before = Header.joinLines ls ++ b ∧ find? name none (Header.joinLines ks ++ y) =
      some { s with before := Header.joinLines ks ++ b } := by
  rw [find?_lines hls hname] at h
  obtain ⟨s, hs, rfl⟩ := Option.map_eq_some_iff.1 h
  exact ⟨s.before, rfl, by rw [find?_lines hks hname, hs]; rfl⟩

/-- Of an import, only the module may have a bracket in it. -/
theorem unlisted_text {d : Import} {q : Char} (hd : d.Plain) (hq : IsMark q)
    (hsource : '[' ∉ d.source) (closed : Bool) :
    Unlisted ((Import.Row.statement d closed).text q) where
  unopened := by
    have hmark : '[' ≠ q := by rcases hq with rfl | rfl <;> decide
    have hclause : '[' ∉ d.clause := fun hmem => hd.clause_chars _ hmem (by decide)
    have himport : '[' ∉ "import ".toList := by decide
    have hstop : '[' ∉ (if closed then [';'] else [] : Text) := by cases closed <;> decide
    rw [Import.Row.text, Import.line_eq, List.mem_append, List.mem_append, not_or, not_or]
    exact ⟨⟨himport, by simp [hclause, hmark, hsource]⟩, hstop⟩
  ends := by
    have hmark : ∀ m ∈ ['\'', '"', ';'],
        NamedImport.isBinding m = false ∧ Text.isBlank m = false ∧ m ≠ ':' ∧ m ≠ '=' := by decide
    intro c hc
    rw [Import.Row.getLast?_text, Option.mem_some] at hc
    refine hmark c ?_
    rw [← hc]
    cases closed with
    | false => rcases hq with rfl | rfl <;> simp [Import.Row.mark]
    | true => simp [Import.Row.mark]

/-- The names of a list are of its essence. -/
theorem essence_join (hks : ∀ k ∈ ks, Name k) :
    essence (Text.join [',', ' '] ks) = ks.flatten := by
  induction ks with
  | nil => rfl
  | cons k ks ih =>
    have hk : essence k = k := List.filter_eq_self.2 fun c hc => by
      simp [not_isLoose_of_isBinding ((hks k List.mem_cons_self).chars c hc)]
    cases ks with
    | nil => simpa using hk
    | cons k' ks =>
      have hsep : essence [',', ' '] = [] := by decide
      rw [Text.join_cons _ _ _ (List.cons_ne_nil k' ks), Text.essence_append, Text.essence_append,
        hk, hsep, List.append_nil, ih fun m hm => hks m (List.mem_cons_of_mem k hm)]
      rfl

end ArraySite

namespace Import

variable {path : String} {o : StyleOverrides} {array b c r s t y : Text} {i : Import}
  {site : ArraySite} {ls : List Text}

/-- An array of the result that stands behind the same letters as the one whose entries are written
has the letters of the names that are listed, in their order. -/
theorem essence_entries_of_register {x e a : Text} (hnames : ∀ n ∈ i.names, Name n)
    (h : i.register path o array c = .ok (x ++ (e ++ a))) (hinsert : i.insert path o c = .ok t)
    (hfind : ArraySite.find? array none t = some site) (hclose : ArraySite.Closes e a)
    (hx : essence x = essence site.before) :
    essence e = (ArraySite.listed site.entries i.names).flatten := by
  obtain ⟨hwhole, hne, -⟩ := exists_of_register h
  have hlisted := ArraySite.name_of_mem_listed (t := site.entries) hnames
  have hwritten : ArraySite.Closes
      (Text.join [',', ' '] (ArraySite.listed site.entries i.names)) site.after :=
    ⟨ArraySite.bracket_not_mem_join hlisted, (ArraySite.find?_eq_some_iff.1 hfind).found.closes.2⟩
  rw [register_of_insert hwhole hne hinsert hfind, ArraySite.register_eq, settle,
    mapError_eq_ok_iff] at h
  rw [ArraySite.essence_eq_of_normalize hwritten hclose hx h, ArraySite.essence_join hlisted]

/-- Where the import is added as a line below lines on which no array begins, the names are
registered in the array of the file as it was. -/
theorem register_below (hwhole : i.whole = none) (hne : i.names ≠ []) (harray : Name array)
    (hlines : ∀ l ∈ ls ++ [s], ArraySite.Unlisted l)
    (hinsert : i.insert path o (Header.joinLines ls ++ y) =
      .ok (Header.joinLines (ls ++ [s]) ++ y))
    (hfind : ArraySite.find? array none (Header.joinLines ls ++ y) = some site) :
    ∃ b, site.before = Header.joinLines ls ++ b ∧
      i.register path o array (Header.joinLines ls ++ y) =
        settle path o (Header.joinLines (ls ++ [s]) ++ (b ++
          (Text.join [',', ' '] (ArraySite.listed site.entries i.names) ++ site.after))) := by
  obtain ⟨b, hb, hbelow⟩ := ArraySite.find?_of_lines
    (fun l hl => hlines l (List.mem_append_left _ hl)) hlines harray hfind
  refine ⟨b, hb, ?_⟩
  rw [register_of_insert hwhole hne hinsert hbelow, ArraySite.register_eq, List.append_assoc]

/-- In a file that is laid out, an import that a line of the header equals is inserted with no
change. -/
theorem insert_eq_self {h : Header} (hvalid : i.valid = true) (hflat : flatten path o c = .ok c)
    (hsettled : settle path o c = .ok c) (hheader : Header.ofText? c = some h)
    (hstyled : i.styled path o = .ok s) (hpresent : ∃ l ∈ h.imports ++ h.blanks, l.trim = s) :
    i.insert path o c = .ok c := by
  have hspliced : i.spliced path o c = .ok c := by
    rw [spliced_eq hheader hstyled, if_pos (holds_iff.2 hpresent)]
  rw [insert_eq_settle hvalid hflat hspliced, hsettled]

/-- The statement of a plain import is a line of a header on which no array begins. -/
theorem line_of_styled (hpath : isScript path = true) (hd : i.Plain) (hsource : '[' ∉ i.source)
    (hsize : i.statement.length < StyleOverrides.widest) (hstyled : i.styled path o = .ok s) :
    (ArraySite.Unlisted s ∧ Header.belongs s = true ∧ '\n' ∉ s) ∧ Header.isImport s = true ∧
      s.trim = s := by
  have hq := isMark_quote o.resolve
  obtain rfl : (Row.statement i.tidied o.resolve.semi).text o.resolve.quote = s :=
    Except.ok.inj ((styled_eq hpath hd hsize).symm.trans hstyled)
  have himport : Header.isImport
      ((Row.statement i.tidied o.resolve.semi).text o.resolve.quote) = true := by
    obtain ⟨u, hu⟩ := Row.head?_text i.tidied o.resolve.quote o.resolve.semi
    rw [hu]
    rfl
  refine ⟨⟨ArraySite.unlisted_text hd.tidied hq hsource _, ?_, ?_⟩, himport, Row.trim_text hq _⟩
  · rw [Header.belongs, himport, Bool.true_or]
  · exact Row.newline_not_mem_text (r := .statement i.tidied o.resolve.semi) hq hd.tidied

/-- Where the file with the import and the written entries is laid out, it is the result. The array
of the result lists what was registered, and the same registration leaves it as it is, unless a name
falls apart. -/
theorem register_below_again (hpath : isScript path = true) (hd : i.Plain) (hwhole : i.whole = none)
    (hne : i.names ≠ []) (hnames : ∀ n ∈ i.names, Name n) (hsource : '[' ∉ i.source)
    (hsize : i.statement.length < StyleOverrides.widest) (harray : Name array)
    (hlines : ∀ l ∈ ls, ArraySite.Unlisted l ∧ Header.belongs l = true ∧ '\n' ∉ l)
    (hstyled : i.styled path o = .ok s)
    (hinsert : i.insert path o (Header.joinLines ls ++ y) =
      .ok (Header.joinLines (ls ++ [s]) ++ y))
    (hfind : ArraySite.find? array none (Header.joinLines ls ++ y) = some site)
    (hbefore : site.before = Header.joinLines ls ++ t)
    (hbody : b = t ++ (Text.join [',', ' '] (ArraySite.listed site.entries i.names) ++ site.after))
    (himports : Header.importAhead b = false)
    (hr : r = Header.joinLines (ls ++ [s]) ++ b) (hflat : flatten path o r = .ok r)
    (hsettled : settle path o r = .ok r) :
    i.register path o array (Header.joinLines ls ++ y) = .ok r ∧
      ArraySite.find? array none r = some ⟨Header.joinLines (ls ++ [s]) ++ t,
        Text.join [',', ' '] (ArraySite.listed site.entries i.names), site.after⟩ ∧
      (i.register path o array r = .ok r ↔ ∀ n ∈ i.names, '$' ∉ n ∨ ArraySite.words n = []) := by
  obtain ⟨hline, himport, htrim⟩ := line_of_styled hpath hd hsource hsize hstyled
  have hall : ∀ l ∈ ls ++ [s],
      ArraySite.Unlisted l ∧ Header.belongs l = true ∧ '\n' ∉ l := by
    intro l hl
    rcases List.mem_append.1 hl with hl | hl
    · exact hlines l hl
    · rwa [List.mem_singleton.1 hl]
  obtain ⟨t', ht', hbelow⟩ := ArraySite.find?_of_lines (fun l hl => (hlines l hl).1)
    (fun l hl => (hall l hl).1) harray hfind
  obtain rfl : t' = t := List.append_cancel_left (ht'.symm.trans hbefore)
  have hwritten : ArraySite.find? array none r = some ⟨Header.joinLines (ls ++ [s]) ++ t',
      Text.join [',', ' '] (ArraySite.listed site.entries i.names), site.after⟩ := by
    have hfirst := (ArraySite.registers hnames hbelow).first
    rwa [ArraySite.register_eq, List.append_assoc, ← hbody, ← hr] at hfirst
  obtain ⟨h, hheader, himported, -⟩ := Header.exists_ofText? (fun l hl => (hall l hl).2.2)
    (fun l hl => (hall l hl).2.1) List.getLast?_concat himport himports
  rw [← hr] at hheader
  have hpresent : ∃ l ∈ h.imports ++ h.blanks, l.trim = s :=
    ⟨s, List.mem_append_left _ (by rw [himported]; simp), htrim⟩
  have hagain := insert_eq_self hd.valid hflat hsettled hheader hstyled hpresent
  refine ⟨?_, hwritten, register_eq_self_iff hwhole hne hnames hagain hsettled hwritten rfl⟩
  rw [register_of_insert hwhole hne hinsert hbelow, ArraySite.register_eq, List.append_assoc,
    ← hbody, ← hr, hsettled]

/-- A name is registered below two imports, and once more. -/
theorem register_below_again_routes :
    let i := ofNames ["b".toList] "./b".toList
    let once := "import a from 'a'\nimport \x7b b \x7d from './b'\nroutes = [a, b, c]\n".toList
    i.register "a.js" {} "routes".toList "import a from 'a'\nroutes = [c, a]\n".toList = .ok once ∧
      ArraySite.find? "routes".toList none once =
        some ⟨"import a from 'a'\nimport \x7b b \x7d from './b'\nroutes = [".toList,
          "a, b, c".toList, "]\n".toList⟩ ∧
      i.register "a.js" {} "routes".toList once = .ok once := by
  intro i once
  have hb : Name ['b'] := ⟨by decide, by decide⟩
  have hnames : ∀ n ∈ i.names, Name n := fun n hn => by rwa [List.mem_singleton.1 hn]
  have hd : i.Plain :=
    ⟨rfl, by decide, nofun, fun n hn => .name (hnames n hn), nofun⟩
  have hlines : ∀ l ∈ ["import a from 'a'".toList],
      ArraySite.Unlisted l ∧ Header.belongs l = true ∧ '\n' ∉ l := by
    intro l hl
    rw [List.mem_singleton.1 hl]
    exact ⟨⟨by decide, fun c hc => by cases hc; decide⟩, by decide, by decide⟩
  have hlisted : ArraySite.listed "c, a".toList i.names = [['a'], ['b'], ['c']] :=
    ArraySite.sorted_eq_of_perm (by decide) (by decide +kernel)
  have hbody : "routes = [a, b, c]\n".toList = "routes = [".toList ++
      (Text.join [',', ' '] (ArraySite.listed "c, a".toList i.names) ++ "]\n".toList) := by
    rw [hlisted]
    decide
  have hstyled : i.styled "a.js" {} = .ok "import \x7b b \x7d from './b'".toList := by
    decide +kernel
  have hinsert : i.insert "a.js" {}
      (Header.joinLines ["import a from 'a'".toList] ++ "routes = [c, a]\n".toList) =
        .ok (Header.joinLines
          ["import a from 'a'".toList, "import \x7b b \x7d from './b'".toList] ++
            "routes = [c, a]\n".toList) := by
    decide +kernel
  have hfind : ArraySite.find? "routes".toList none
      (Header.joinLines ["import a from 'a'".toList] ++ "routes = [c, a]\n".toList) =
        some ⟨"import a from 'a'\nroutes = [".toList, "c, a".toList, "]\n".toList⟩ := by
    decide +kernel
  have hbefore : "import a from 'a'\nroutes = [".toList =
      Header.joinLines ["import a from 'a'".toList] ++ "routes = [".toList := by decide
  have honceText : once = Header.joinLines ["import a from 'a'".toList,
      "import \x7b b \x7d from './b'".toList] ++ "routes = [a, b, c]\n".toList := by decide
  have hflat : flatten "a.js" {} once = .ok once := by decide +kernel
  obtain ⟨honce, hfound, hagain⟩ := register_below_again (by decide) hd rfl (List.cons_ne_nil _ _)
    hnames (by decide) (by decide +kernel) ⟨by decide, by decide⟩ hlines hstyled hinsert hfind
    hbefore hbody (by decide) honceText hflat (by decide +kernel)
  rw [hlisted] at hfound
  refine ⟨honce, hfound, hagain.2 fun n hn => .inl ?_⟩
  rw [List.mem_singleton.1 hn]
  decide

end Import

end ProjectSetup
