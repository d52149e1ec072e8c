import ProjectSetup.Text.Basic

/-!
# Literals

The extent of string literals, template literals, block comments and regular expressions. Each
scanner gets the text after the opening mark and splits it at the end of the literal, or finds no
end. Nothing is lost: body, closing mark and rest are the text that was given.
-/
namespace ProjectSetup.Literal

/-- The text of a string up to its closing quote, and the text after the quote. A backslash takes
the next character with it; a line break leaves the string open. -/
def string? (quote : Char) : Text → Option (Text × Text)
  | [] => none
  | ['\\'] => none
  | '\\' :: c :: r => (string? quote r).map fun (body, rest) => ('\\' :: c :: body, rest)
  | c :: r =>
    if c = '\n' then none
    else if c = quote then some ([], r)
    else (string? quote r).map fun (body, rest) => (c :: body, rest)

theorem string?_append {quote : Char} {t body rest : Text}
    (h : string? quote t = some (body, rest)) : t = body ++ quote :: rest := by
  fun_induction string? quote t generalizing body rest with
  | case1 | case2 | case4 => simp at h
  | case3 c r ih =>
    obtain ⟨⟨b, s⟩, hb, he⟩ := Option.map_eq_some_iff.1 h
    cases he
    simp [ih hb]
  | case5 => simp_all
  | case6 c r _ _ _ _ ih =>
    obtain ⟨⟨b, s⟩, hb, he⟩ := Option.map_eq_some_iff.1 h
    cases he
    simp [ih hb]

/-- Where a stretch of a template literal ends. -/
inductive Stretch where
  /-- At the closing backtick. -/
  | closed
  /-- At an opening substitution. -/
  | opened
  deriving DecidableEq, Repr

/-- The text of a template literal through its closing backtick or its next opening substitution,
whichever comes first. -/
def template? : Text → Option (Text × Stretch × Text)
  | [] => none
  | ['\\'] => none
  | '\\' :: c :: r => (template? r).map fun (body, s, rest) => ('\\' :: c :: body, s, rest)
  | '$' :: '{' :: r => some (['$', '{'], .opened, r)
  | c :: r =>
    if c = '\x60' then some ([c], .closed, r)
    else (template? r).map fun (body, s, rest) => (c :: body, s, rest)

theorem template?_append {t body rest : Text} {s : Stretch}
    (h : template? t = some (body, s, rest)) : t = body ++ rest := by
  fun_induction template? t generalizing body rest with
  | case1 | case2 => simp at h
  | case3 c r ih =>
    obtain ⟨⟨b, _, _⟩, hb, he⟩ := Option.map_eq_some_iff.1 h
    cases he
    simp [ih hb]
  | case4 | case5 => cases h; rfl
  | case6 c r _ _ _ _ ih =>
    obtain ⟨⟨b, _, _⟩, hb, he⟩ := Option.map_eq_some_iff.1 h
    cases he
    simp [ih hb]

/-- The text of a block comment through its closing mark. -/
def comment? : Text → Option (Text × Text)
  | [] => none
  | '*' :: '/' :: r => some (['*', '/'], r)
  | c :: r => (comment? r).map fun (body, rest) => (c :: body, rest)

theorem comment?_append {t body rest : Text} (h : comment? t = some (body, rest)) :
    t = body ++ rest := by
  fun_induction comment? t generalizing body rest with
  | case1 => simp at h
  | case2 => cases h; rfl
  | case3 c r _ ih =>
    obtain ⟨⟨b, _⟩, hb, he⟩ := Option.map_eq_some_iff.1 h
    cases he
    simp [ih hb]

/-- The text of a regular expression through its closing slash. Inside a character class a slash
does not close it, and a backslash takes any next character with it. -/
def regex? (inClass : Bool) : Text → Option (Text × Text)
  | [] => none
  | ['\\'] => none
  | '\\' :: c :: r => (regex? inClass r).map fun (body, rest) => ('\\' :: c :: body, rest)
  | c :: r =>
    if c = '\n' then none
    else if c = '/' && !inClass then some (['/'], r)
    else
      let inClass := if c = '[' then true else if c = ']' then false else inClass
      (regex? inClass r).map fun (body, rest) => (c :: body, rest)

theorem regex?_append {inClass : Bool} {t body rest : Text}
    (h : regex? inClass t = some (body, rest)) : t = body ++ rest := by
  fun_induction regex? inClass t generalizing body rest with
  | case1 | case2 | case4 => simp at h
  | case3 _ c r ih =>
    obtain ⟨⟨b, _⟩, hb, he⟩ := Option.map_eq_some_iff.1 h
    cases he
    simp [ih hb]
  | case5 =>
    cases h
    simp_all
  | case6 =>
    rename_i ih
    obtain ⟨⟨b, _⟩, hb, he⟩ := Option.map_eq_some_iff.1 h
    cases he
    simp [ih hb]

/-- Whether `quote` occurs in the text of a string without a backslash before it. -/
def hasUnescaped (quote : Char) : Text → Bool
  | [] => false
  | ['\\'] => false
  | '\\' :: _ :: r => hasUnescaped quote r
  | c :: r => c == quote || hasUnescaped quote r

/-- The quote that a string takes: the preferred one, unless the text holds it. -/
def requote (preferred quote : Char) (body : Text) : Char :=
  if hasUnescaped preferred body then quote else preferred

end ProjectSetup.Literal
