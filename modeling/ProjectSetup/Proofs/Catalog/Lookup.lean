import ProjectSetup.Proofs.Catalog.Integrity
import ProjectSetup.Proofs.Text.Case

/-!
# Looking names up

A catalog finds a name by its full lower-case form. Two look-ups try a place first, one in the
catalog and one in a selection, and compare the name there only up to the case of the letters A to
Z. In a catalog of unique names the place that is tried first never changes the answer, since behind
it stands the full comparison. In a selection the members are then searched by the narrow comparison
too, and so an extension is missed there that the catalog finds by the case of another letter.
-/
namespace ProjectSetup.Catalog

variable {c : Catalog} {selection : List Nat} {name : String} {cached id : Nat} {e : Extension}

@[simp] theorem sameName_self (name : String) : sameName name name = true := beq_self_eq_true _

theorem nameKey_eq_of_sameName {a b : String} (h : sameName a b = true) : nameKey a = nameKey b :=
  Text.lower_eq_of_eqIgnoringAsciiCase h

/-- Only the lower-case form of a name counts. -/
theorem find?_congr {a b : String} (h : nameKey a = nameKey b) : c.find? a = c.find? b := by
  rw [find?, find?, h]

theorem mem_of_find? (h : c.find? name = some e) : e ∈ c.extensions := by
  rw [find?_eq] at h
  exact List.mem_of_find?_eq_some h

theorem nameKey_of_find? (h : c.find? name = some e) : nameKey e.name = nameKey name := by
  rw [find?_eq] at h
  simpa using List.find?_some h

/-- Where names are unique, every extension is found by its own name. -/
theorem find?_name (unique : c.namesFault? = none) (he : e ∈ c.extensions) :
    c.find? e.name = some e := by
  have hnodup : (c.extensions.map fun e => nameKey e.name).Nodup := (duplicateName?_eq_none.1 unique).1
  cases hf : c.find? e.name with
  | none =>
    rw [find?_eq] at hf
    exact absurd (beq_self_eq_true _) (List.find?_eq_none.1 hf e he)
  | some e' => rw [List.inj_on_of_nodup_map hnodup (mem_of_find? hf) he (nameKey_of_find? hf)]

/-- It never matters which place is tried first iff every extension is found by its own name. -/
theorem lookup?_eq_find?_iff (c : Catalog) :
    (∀ name cached, c.lookup? name cached = c.find? name) ↔
      ∀ e ∈ c.extensions, c.find? e.name = some e := by
  constructor
  · intro h e he
    obtain ⟨i, hi⟩ := List.mem_iff_getElem?.1 he
    have hget : c.get? i = some e := hi
    rw [← h e.name i, lookup?, hget]
    simp
  · intro h name cached
    rw [lookup?]
    split
    · next e he =>
      split
      · next hsame =>
        rw [← find?_congr (nameKey_eq_of_sameName hsame)]
        exact (h e (List.mem_of_getElem? he)).symm
      · rfl
    · rfl

/-- In a catalog of unique names the look-up with a position agrees with the one without, whether
the position is that of the name, that of another or none at all. -/
theorem lookup?_eq_find? {c : Catalog} (unique : c.namesFault? = none) (name : String)
    (cached : Nat) : c.lookup? name cached = c.find? name :=
  (lookup?_eq_find?_iff c).2 (fun _ he => find?_name unique he) name cached

/-- Two names that only their sigma tells apart: in lower case that of the first has the final form,
since it ends a word. -/
theorem lookup?_eq_find?_final_sigma :
    let first : Extension := ⟨0, "XΣ", .library, [], []⟩
    let second : Extension := ⟨1, "xσ", .library, [], []⟩
    let c : Catalog := ⟨[first, second]⟩
    c.namesFault? = none ∧ c.lookup? "xΣ" 0 = some first ∧ c.lookup? "Xς" 1 = some first ∧
      c.lookup? "Xσ" 7 = some second := by
  intro first second c
  have unique : c.namesFault? = none := by decide +kernel
  refine ⟨unique, ?_, ?_, ?_⟩
  · exact (lookup?_eq_find? unique "xΣ" 0).trans (by decide +kernel)
  · exact (lookup?_eq_find? unique "Xς" 1).trans (by decide +kernel)
  · exact (lookup?_eq_find? unique "Xσ" 7).trans (by decide +kernel)

/-- The extension at `id` has the name up to the case of the letters A to Z. -/
def Named (c : Catalog) (name : String) (id : Nat) : Prop :=
  ∃ e, c.get? id = some e ∧ sameName e.name name = true

theorem any_sameName_iff :
    (c.get? id).any (fun e => sameName e.name name) = true ↔ c.Named name id := by
  rw [Option.any_eq_true, Named]

theorem named_of_findSelected? (h : c.findSelected? selection name cached = some id) :
    id ∈ selection ∧ c.Named name id := by
  have hscan (h : selection.find? (fun a => (c.get? a).any fun e => sameName e.name name) =
      some id) : id ∈ selection ∧ c.Named name id := by
    have hn := List.find?_some h
    exact ⟨List.mem_of_find?_eq_some h, any_sameName_iff.1 hn⟩
  rw [findSelected?] at h
  split at h
  · next a ha =>
    split at h
    · next hn =>
      cases h
      exact ⟨List.mem_of_getElem? ha, any_sameName_iff.1 hn⟩
    · exact hscan h
  · exact hscan h

theorem exists_findSelected? (cached : Nat) (hid : id ∈ selection) (hn : c.Named name id) :
    ∃ a, c.findSelected? selection name cached = some a := by
  have hscan : ∃ a, selection.find? (fun a => (c.get? a).any fun e => sameName e.name name) =
      some a := by
    rw [← Option.isSome_iff_exists, List.find?_isSome]
    exact ⟨id, hid, any_sameName_iff.2 hn⟩
  rw [findSelected?]
  split
  · split
    · exact ⟨_, rfl⟩
    · exact hscan
  · exact hscan

namespace WellFormed

theorem namesFault? (wf : c.WellFormed) : c.namesFault? = none :=
  duplicateName?_eq_none.2 ⟨wf.named, by simp⟩

/-- What has the name in the narrow sense is what the catalog finds, as far as it has. -/
theorem named_iff (wf : c.WellFormed) :
    c.Named name id ↔ ∃ e, c.find? name = some e ∧ e.index = id ∧ sameName e.name name = true := by
  constructor
  · rintro ⟨e, he, hsame⟩
    refine ⟨e, ?_, wf.placed id e he, hsame⟩
    rw [← find?_congr (nameKey_eq_of_sameName hsame)]
    exact find?_name wf.namesFault? (List.mem_of_getElem? he)
  · rintro ⟨e, hf, rfl, hsame⟩
    obtain ⟨i, hi⟩ := List.mem_iff_getElem?.1 (mem_of_find? hf)
    exact ⟨e, by rwa [wf.placed i e hi], hsame⟩

theorem named_unique (wf : c.WellFormed) {a b : Nat} (ha : c.Named name a) (hb : c.Named name b) :
    a = b := by
  obtain ⟨e, he, rfl, -⟩ := wf.named_iff.1 ha
  obtain ⟨e', he', rfl, -⟩ := wf.named_iff.1 hb
  rw [he] at he'
  cases he'
  rfl

/-- The place that is tried first does not matter in a selection either. -/
theorem findSelected?_eq_some_iff (wf : c.WellFormed) :
    c.findSelected? selection name cached = some id ↔ id ∈ selection ∧ c.Named name id := by
  refine ⟨named_of_findSelected?, fun ⟨hid, hn⟩ => ?_⟩
  obtain ⟨a, ha⟩ := exists_findSelected? cached hid hn
  rw [ha, wf.named_unique (named_of_findSelected? ha).2 hn]

end WellFormed

/-- The answer is the id that the catalog finds under the name, if it is selected, and else none. -/
def Answers (c : Catalog) (selection : List Nat) (name : String) (answer : Option Nat) : Prop :=
  ∀ id, answer = some id ↔ (∃ e, c.find? name = some e ∧ e.index = id) ∧ id ∈ selection

/-- The look-up in a selection finds what the catalog finds, if it is selected and has the name up
to the case of A to Z. So the two agree unless a selected extension has the name only by the case of
another letter, which does not happen among ASCII names. -/
theorem findSelected?_agrees_iff {c : Catalog} (accepted : c.integrityFault? = none)
    (selection : List Nat) (name : String) (cached : Nat) :
    (∀ id, c.findSelected? selection name cached = some id ↔ id ∈ selection ∧
      ∃ e, c.find? name = some e ∧ e.index = id ∧ sameName e.name name = true) ∧
    (c.Answers selection name (c.findSelected? selection name cached) ↔
      ∀ e, c.find? name = some e → e.index ∈ selection → sameName e.name name = true) ∧
    (Text.Ascii name.toList → (∀ e ∈ c.extensions, Text.Ascii e.name.toList) →
      c.Answers selection name (c.findSelected? selection name cached)) := by
  have wf := wellFormed_of_integrityFault? accepted
  have hexact (id : Nat) : c.findSelected? selection name cached = some id ↔ id ∈ selection ∧
      ∃ e, c.find? name = some e ∧ e.index = id ∧ sameName e.name name = true := by
    rw [wf.findSelected?_eq_some_iff, wf.named_iff]
  have hiff : c.Answers selection name (c.findSelected? selection name cached) ↔
      ∀ e, c.find? name = some e → e.index ∈ selection → sameName e.name name = true := by
    simp only [Answers, hexact]
    constructor
    · intro h e he hid
      obtain ⟨-, e', he', -, hsame⟩ := (h e.index).2 ⟨⟨e, he, rfl⟩, hid⟩
      rw [he] at he'
      cases he'
      exact hsame
    · intro h id
      constructor
      · rintro ⟨hid, e, he, hindex, -⟩
        exact ⟨⟨e, he, hindex⟩, hid⟩
      · rintro ⟨⟨e, he, rfl⟩, hid⟩
        exact ⟨hid, e, he, rfl, h e he hid⟩
  refine ⟨hexact, hiff, fun hname hnames => hiff.2 fun e he _ => ?_⟩
  exact (Text.eqIgnoringAsciiCase_iff (hnames e (mem_of_find? he)) hname).2 (nameKey_of_find? he)

/-- A selection out of order, and a place that holds another extension. -/
theorem findSelected?_agrees_out_of_order :
    let c : Catalog := ⟨[⟨0, "Ärger", .library, [], []⟩, ⟨1, "Sass", .library, [], []⟩,
      ⟨2, "Less", .library, [], []⟩]⟩
    c.integrityFault? = none ∧
      c.Answers [2, 0] "ÄRGER" (c.findSelected? [2, 0] "ÄRGER" 0) ∧
      c.Answers [2, 0] "sass" (c.findSelected? [2, 0] "sass" 1) := by
  intro c
  have accepted : c.integrityFault? = none := by decide +kernel
  have hfound : c.find? "ÄRGER" = some ⟨0, "Ärger", .library, [], []⟩ := by decide +kernel
  have hother : c.find? "sass" = some ⟨1, "Sass", .library, [], []⟩ := by decide +kernel
  refine ⟨accepted, ?_, ?_⟩
  · refine (findSelected?_agrees_iff accepted [2, 0] "ÄRGER" 0).2.1.2 fun e he _ => ?_
    rw [hfound] at he
    cases he
    decide +kernel
  · refine (findSelected?_agrees_iff accepted [2, 0] "sass" 1).2.1.2 fun e he hid => ?_
    rw [hother] at he
    cases he
    exact absurd hid (by decide)

/-- A letter with an accent: the catalog finds the extension in either case, the selection only in
the case in which its name is written. -/
theorem findSelected?_misses_accented :
    let c : Catalog := ⟨[⟨0, "É", .library, [], []⟩]⟩
    c.integrityFault? = none ∧ c.find? "é" = some ⟨0, "É", .library, [], []⟩ ∧
      c.findSelected? [0] "é" 0 = none ∧ ¬ c.Answers [0] "é" (c.findSelected? [0] "é" 0) := by
  intro c
  have hfound : c.find? "é" = some ⟨0, "É", .library, [], []⟩ := by decide +kernel
  have hmissed : c.findSelected? [0] "é" 0 = none := by decide +kernel
  refine ⟨by decide +kernel, hfound, hmissed, fun h => ?_⟩
  have hsome := (h 0).2 ⟨⟨_, hfound, rfl⟩, by decide⟩
  rw [hmissed] at hsome
  cases hsome

end ProjectSetup.Catalog
