/-
# Quotation by doubling

A text in double quotes, the quotes in it doubled, as SQL and FTS5 write strings.  Such a text ends at
the first quote that is not doubled, so it is read back from any context in which no quote follows it
(`quote_append_inj`).
-/
import Esmail.Library.Substitution
import Mathlib.Tactic.Common

namespace RustText

/-- A text with its quotes doubled. -/
def doubled (s : List Char) : List Char := s.flatMap fun c => if c = '"' then ['"', '"'] else [c]

/-- A text in quotes. -/
def quote (s : List Char) : List Char := '"' :: (doubled s ++ ['"'])

theorem doubled_cons (c : Char) (s : List Char) :
    doubled (c :: s) = (if c = '"' then ['"', '"'] else [c]) ++ doubled s := rfl

/-- Doubling is a replacement. -/
theorem replace_doubled (s : List Char) : replace ['"'] ['"', '"'] s = doubled s := by
  induction s with
  | nil => rfl
  | cons c s ih =>
    rw [doubled_cons]
    by_cases hc : c = '"'
    · subst hc
      rw [if_pos rfl, ← ih]
      exact replace_here [] ['"', '"'] s
    · have hhere : ¬ ['"'] <+: c :: s := by
        intro h
        exact hc (List.cons_prefix_cons.mp h).1.symm
      rw [if_neg hc, replace_cons hhere, ih]
      rfl

/-- No quote follows. -/
def NoQuote (rest : List Char) : Prop := ∀ s, rest ≠ '"' :: s

theorem noQuote_nil : NoQuote [] := fun _ h => List.cons_ne_nil _ _ h.symm

theorem noQuote_cons {c : Char} (hc : c ≠ '"') (rest : List Char) : NoQuote (c :: rest) :=
  fun _ h => hc (List.cons.inj h).1

/-- What stands in quotes is read up to the first quote that is not doubled. -/
theorem doubled_append_inj {s t rest rest' : List Char} (hrest : NoQuote rest) (hrest' : NoQuote rest')
    (h : doubled s ++ '"' :: rest = doubled t ++ '"' :: rest') : s = t ∧ rest = rest' := by
  -- the first characters on both sides decide each case: a doubled quote, or the end
  induction s generalizing t with
  | nil =>
    rcases t with - | ⟨d, t⟩
    · exact ⟨rfl, (List.cons.inj h).2⟩
    · rw [doubled_cons] at h
      by_cases hd : d = '"'
      · rw [if_pos hd] at h
        exact absurd (List.cons.inj h).2 (hrest _)
      · rw [if_neg hd] at h
        exact absurd (List.cons.inj h).1.symm hd
  | cons c s ih =>
    rw [doubled_cons] at h
    rcases t with - | ⟨d, t⟩
    · by_cases hc : c = '"'
      · rw [if_pos hc] at h
        exact absurd (List.cons.inj h).2.symm (hrest' _)
      · rw [if_neg hc] at h
        exact absurd (List.cons.inj h).1 hc
    · rw [doubled_cons] at h
      by_cases hc : c = '"'
      · by_cases hd : d = '"'
        · rw [if_pos hc, if_pos hd] at h
          obtain ⟨rfl, hrests⟩ := ih (List.cons.inj (List.cons.inj h).2).2
          exact ⟨by rw [hc, hd], hrests⟩
        · rw [if_pos hc, if_neg hd] at h
          exact absurd (List.cons.inj h).1.symm hd
      · by_cases hd : d = '"'
        · rw [if_neg hc, if_pos hd] at h
          exact absurd (List.cons.inj h).1 hc
        · rw [if_neg hc, if_neg hd] at h
          obtain ⟨hcd, htail⟩ := List.cons.inj h
          obtain ⟨rfl, hrests⟩ := ih htail
          exact ⟨by rw [hcd], hrests⟩

theorem quote_append_inj {s t rest rest' : List Char} (hrest : NoQuote rest) (hrest' : NoQuote rest')
    (h : quote s ++ rest = quote t ++ rest') : s = t ∧ rest = rest' := by
  rw [quote, quote, List.cons_append, List.cons_append, List.append_assoc, List.append_assoc] at h
  exact doubled_append_inj hrest hrest' (List.cons.inj h).2

end RustText
