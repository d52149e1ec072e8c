import ProjectSetup.Proofs.Layout.Literals

/-!
# Strings in new quotes

A string takes the preferred quote unless its text holds that quote without a backslash. Whether it
does is found by a scan of the text alone, which has to step over escapes as reading does. So the
string is read again as it was, whatever quote is preferred then, and keeps its quotes if it is the
same one.
-/
namespace ProjectSetup

namespace Literal

variable {p q : Char} {t body rest : Text}

/-- A text that can stand between two quotes `q`: escapes and single characters, none of them a
quote, a line break or a backslash. -/
inductive Fits (q : Char) : Text → Prop where
  | nil : Fits q []
  | escape (c : Char) {t : Text} : Fits q t → Fits q ('\\' :: c :: t)
  | plain {c : Char} {t : Text} : c ≠ '\\' → c ≠ '\n' → c ≠ q → Fits q t → Fits q (c :: t)

/-- A character at which neither case of an escape applies. -/
theorem ne_backslash {c : Char} {r : Text} (hlone : c = '\\' → r = [] → False)
    (hescape : ∀ x s, c = '\\' → r = x :: s → False) : c ≠ '\\' := by
  intro hc
  cases r with
  | nil => exact hlone hc rfl
  | cons x s => exact hescape x s hc rfl

/-- A text between quotes is read up to the second one. -/
theorem string?_of_fits (h : Fits q body) (hq : q ≠ '\\') (hn : q ≠ '\n') (rest : Text) :
    string? q (body ++ q :: rest) = some (body, rest) := by
  have hcons {c : Char} (hc : c ≠ '\\') (t : Text) : string? q (c :: t) =
      if c = '\n' then none else if c = q then some ([], t)
        else (string? q t).map fun r => (c :: r.1, r.2) := by
    rw [string?]
    · exact fun he _ => hc he
    · exact fun _ _ he _ => hc he
  induction h with
  | nil => rw [List.nil_append, hcons hq, if_neg hn, if_pos rfl]
  | escape c _ ih =>
    rw [List.cons_append, List.cons_append, string?, ih]
    rfl
  | plain hc hline hquote _ ih =>
    rw [List.cons_append, hcons hc, if_neg hline, if_neg hquote, ih]
    rfl

theorem fits_of_string? (h : string? q t = some (body, rest)) :
    Fits q body ∧ q ≠ '\\' ∧ q ≠ '\n' := by
  fun_induction string? q t generalizing body rest with
  | case1 | case2 | case4 => simp at h
  | case3 c r ih =>
    obtain ⟨⟨b, s⟩, hb, he⟩ := Option.map_eq_some_iff.1 h
    cases he
    exact ⟨.escape c (ih hb).1, (ih hb).2⟩
  | case5 r hlone hescape hline =>
    cases h
    exact ⟨.nil, ne_backslash hlone hescape, hline⟩
  | case6 c r hlone hescape hline hquote ih =>
    obtain ⟨⟨b, s⟩, hb, he⟩ := Option.map_eq_some_iff.1 h
    cases he
    exact ⟨.plain (ne_backslash hlone hescape) hline hquote (ih hb).1, (ih hb).2⟩

/-- The scan for a quote steps over escapes as reading does: if it finds none, the quote is as good
as the one that the text has been read with. -/
theorem Fits.of_hasUnescaped (h : Fits q body) (hp : hasUnescaped p body = false) :
    Fits p body := by
  induction h with
  | nil => exact .nil
  | escape c _ ih => exact .escape c (ih hp)
  | @plain c t hc hline _ _ ih =>
    have hcons : hasUnescaped p (c :: t) = (c == p || hasUnescaped p t) := by
      rw [hasUnescaped]
      · exact fun he _ => hc he
      · exact fun _ _ he _ => hc he
    rw [hcons, Bool.or_eq_false_iff, beq_eq_false_iff_ne] at hp
    exact .plain hc hline hp.1 (ih hp.2)

/-- The quote that a string takes fits its text. -/
theorem Fits.requote (h : Fits q body) (p : Char) : Fits (requote p q body) body := by
  unfold Literal.requote
  split
  · exact h
  · next hp => exact h.of_hasUnescaped (Bool.eq_false_iff.2 hp)

/-- A string that has taken its quote keeps it. -/
theorem requote_requote (p q : Char) (body : Text) :
    requote p (requote p q body) body = requote p q body := by
  unfold requote
  split <;> rfl

/-- A string in the quote that it takes is read as it was. -/
theorem string?_requote (hp : p = '\'' ∨ p = '"') (h : string? q t = some (body, rest))
    (following : Text) : string? (requote p q body) (body ++ requote p q body :: following) =
      some (body, following) := by
  obtain ⟨hfits, hq⟩ := fits_of_string? h
  have hmark : requote p q body ≠ '\\' ∧ requote p q body ≠ '\n' := by
    unfold requote
    split
    · exact hq
    · rcases hp with rfl | rfl <;> decide
  exact string?_of_fits (hfits.requote p) hmark.1 hmark.2 following

end Literal

namespace Draft

open Literal (requote)

variable {p q : Char} {d d' : Draft} {t rest : Text}

/-- Outside markup a string is read as far as its text goes, and written between the quotes that it
takes. -/
theorem string_outside (hd : d.inMarkup = false) {body : Text}
    (h : Literal.string? q t = some (body, rest)) (p : Char) :
    ∃ d', d.string p q t = .ok (d', rest) ∧
      d'.text = d.settle.text ++ requote p q body :: body ++ [requote p q body] := by
  simp only [string, hd, h, Bool.false_and, Bool.false_eq_true, if_false]
  refine ⟨_, rfl, ?_⟩
  change ([requote p q body].reverse ++ ((d.token [requote p q body]).copy body).back).reverse = _
  rw [back_copy]
  simp [token, write, text]

/-- A string that is read outside markup between quotes `q` is written between quotes that it keeps:
read again, wherever it stands outside markup and whatever stands behind it, it is one string with
the same text, and under the same preferred quote it is written as it stands. -/
theorem string_requoted (hp : p = '\'' ∨ p = '"') (hd : d.inMarkup = false)
    (h : d.string p q t = .ok (d', rest)) :
    ∃ body, t = body ++ q :: rest ∧ Literal.string? q t = some (body, rest) ∧
      let mark := requote p q body
      d'.text = d.settle.text ++ mark :: body ++ [mark] ∧
        ∀ (e : Draft) (following : Text), e.inMarkup = false →
          Literal.string? mark (body ++ mark :: following) = some (body, following) ∧
          (∀ p', ∃ e' mark', e.string p' mark (body ++ mark :: following) = .ok (e', following) ∧
            e'.text = e.settle.text ++ mark' :: body ++ [mark']) ∧
          ∃ e', e.string p mark (body ++ mark :: following) = .ok (e', following) ∧
            e'.text = e.settle.text ++ mark :: body ++ [mark] := by
  cases hs : Literal.string? q t with
  | none =>
    simp only [string, hd, hs, Bool.false_and, Bool.false_eq_true, if_false] at h
    cases h
  | some found =>
    obtain ⟨body, tail⟩ := found
    obtain ⟨d₁, hread, htext⟩ := string_outside hd hs p
    cases hread.symm.trans h
    refine ⟨body, Literal.string?_append hs, rfl, htext, fun e following he => ?_⟩
    have hagain := Literal.string?_requote hp hs following
    refine ⟨hagain, fun p' => ?_, ?_⟩
    · obtain ⟨e', he', hwritten⟩ := string_outside he hagain p'
      exact ⟨e', _, he', hwritten⟩
    · have hkept := string_outside he hagain p
      rwa [Literal.requote_requote] at hkept

/-- Escaped quotes, backslashes and line breaks stand in the text of the string as they stood. -/
theorem string_requoted_escapes :
    let body := "it\\'s \\\\ \\\n \\\"so\\\"".toList
    ∃ d', string '\'' {} '"' (body ++ '"' :: " + x".toList) = .ok (d', " + x".toList) ∧
      d'.text = '\'' :: body ++ ['\''] ∧
      ∀ (e : Draft) (following : Text), e.inMarkup = false →
        ∃ e', e.string '\'' '\'' (body ++ '\'' :: following) = .ok (e', following) ∧
          e'.text = e.settle.text ++ '\'' :: body ++ ['\''] := by
  have hs : Literal.string? '"' "it\\'s \\\\ \\\n \\\"so\\\"\" + x".toList =
      some ("it\\'s \\\\ \\\n \\\"so\\\"".toList, " + x".toList) := by decide
  have hmark : requote '\'' '"' "it\\'s \\\\ \\\n \\\"so\\\"".toList = '\'' := by decide
  obtain ⟨d', h, -⟩ := string_outside (d := {}) rfl hs '\''
  obtain ⟨body, -, hbody, htext, hagain⟩ := string_requoted (.inl rfl) rfl h
  cases hs.symm.trans hbody
  rw [hmark] at htext hagain
  exact ⟨d', h, htext, fun e following he => (hagain e following he).2.2⟩

end Draft

end ProjectSetup
