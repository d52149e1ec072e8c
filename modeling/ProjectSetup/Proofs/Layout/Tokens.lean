import ProjectSetup.Proofs.Layout.Reading

/-!
# What joining lists keeps

Joining the lists of a script moves blanks, replaces quotes and the marks of comments, and takes
back a comma that stands ahead of a closing bracket. All other characters are left as they are: none
is added, dropped or moved.
-/
namespace ProjectSetup

namespace Text

/-- The characters that joining lists adds and drops freely: blanks, quotes and the marks of
comments. -/
def isLight (c : Char) : Bool := isBlank c || ['\'', '"', '/', '*'].contains c

/-- A text without its light characters. -/
def tokens (t : Text) : Text := t.filter fun c => !isLight c

/-- The first text is the second one without some of its commas, each of them directly ahead of a
closing bracket. -/
inductive CommasDropped : Text → Text → Prop where
  | nil : CommasDropped [] []
  | keep (c : Char) {a b : Text} : CommasDropped a b → CommasDropped (c :: a) (c :: b)
  | drop {c : Char} {a b : Text} : isCloser c = true → CommasDropped a (c :: b) →
      CommasDropped a (',' :: c :: b)

theorem light_of_soft {c : Char} (h : isSoft c = true) : isLight c = true := by
  simp only [isSoft, Bool.or_eq_true, Bool.and_eq_true] at h
  rcases h with ⟨hb, -⟩ | hm
  · simp [isLight, hb]
  · simp only [isLight, hm, Bool.or_true]

theorem closer_heavy {c : Char} (h : isCloser c = true) : isLight c = false := by
  simp only [isCloser, Bool.or_eq_true, beq_iff_eq] at h
  rcases h with (rfl | rfl) | rfl <;> decide

theorem tokens_reverse (t : Text) : tokens t.reverse = (tokens t).reverse := List.filter_reverse

theorem tokens_firm (t : Text) : tokens (firm t) = tokens t :=
  filter_firm (fun c hc => by simp [light_of_soft hc]) t

/-- Pruning, seen from the first character on: line breaks do not count, and each comma that goes
stands ahead of the closing bracket that it was taken back for. -/
theorem Pruned.commasDropped {a b u v : Text} (h : Pruned a b) (huv : CommasDropped u v) :
    CommasDropped ((tokens a).reverse ++ u) ((tokens b).reverse ++ v) := by
  induction h generalizing u v with
  | nil => exact huv
  | @keep c a b _ ih =>
    cases hc : isLight c with
    | true => simpa [tokens, hc] using ih huv
    | false => simpa [tokens, hc] using ih (huv.keep c)
  | @join a b _ ih =>
    have hn : isLight '\n' = true := by decide
    simpa [tokens, hn] using ih huv
  | @comma c breaks a b hc hbreaks _ ih =>
    have hnone : tokens breaks = [] := by
      rw [tokens, List.filter_eq_nil_iff]
      intro x hx
      rw [hbreaks x hx]
      decide
    have hcomma : isLight ',' = false := by decide
    have hdrop : CommasDropped (c :: u) (',' :: c :: v) := .drop hc (huv.keep c)
    simp only [tokens] at ih hnone
    simpa [tokens, closer_heavy hc, hnone, hcomma] using ih hdrop

end Text

namespace Draft

open Text (isLight tokens CommasDropped)

/-- The draft of a text holds the tokens of the text, but for commas directly ahead of a closing
bracket. So it holds each kind of characters that has neither commas nor light characters in it,
brackets and semicolons and the letters of names among them, as the text does. -/
theorem collapse_keeps_tokens {preferred : Char} (hq : preferred = '\'' ∨ preferred = '"')
    {source : Text} {d : Draft} (h : collapse preferred source = .ok d) :
    CommasDropped (tokens d.text) (tokens source) ∧
      ∀ p : Char → Bool, (∀ c, isLight c = true → p c = false) → p ',' = false →
        d.text.filter p = source.filter p := by
  have hsoft : Text.isSoft preferred = true := by
    rcases hq with rfl | rfl <;> decide
  constructor
  · have hdropped := (collapse_pruned hsoft h).commasDropped .nil
    rw [List.append_nil, List.append_nil, Text.tokens_firm, Text.tokens_firm, Text.tokens_reverse,
      List.reverse_reverse] at hdropped
    rwa [text, Text.tokens_reverse]
  · intro p hp hcomma
    exact filter_collapse hsoft (fun c hc => hp c (Text.light_of_soft hc)) (hp '\n' (by decide))
      hcomma h

/-- A list that loses one of its two last commas, and a comment that holds a comma and brackets. -/
theorem collapse_keeps_tokens_two_commas :
    ∃ d, collapse '\'' "[a, // ,]\n \"b\",,\n]".toList = .ok d ∧
      tokens d.text = "[a,,]b,]".toList ∧
      CommasDropped (tokens d.text) "[a,,]b,,]".toList := by
  have h : collapse '\'' "[a, // ,]\n \"b\",,\n]".toList =
      .ok { back := "],'b' /* ], */ ,a[".toList, line := 3 } := by decide +kernel
  exact ⟨_, h, by decide, (collapse_keeps_tokens (.inl rfl) h).1⟩

end Draft

end ProjectSetup
