/-
# Lexers that stop by looking ahead

A `Lexer` reads a text character by character: in a mode, `step` sees the next character and
EVERYTHING behind it, and says in which mode it goes on, or that the current lexeme ends before
that character.  The start mode never stops, so every lexeme takes at least one character; that
is a field, and the reason why the number of characters is fuel enough for `lex`.

The one question asked here is what a lexer makes of a concatenation.  `LocalAt q` says that no
decision taken before `q` depends on `q`; then `lex_append` reads `p ++ q` as the lexemes of `p`,
of which only the last goes on into `q`, and what is left of `q`.  `Eats` is for the other
direction, a text that was WRITTEN to be one lexeme: it follows the modes through it.
-/
import Mathlib.Tactic.Common
import Mathlib.Data.List.Basic

structure Lexer (σ : Type) where
  start : σ
  step : σ → Char → List Char → Option σ
  start_ne_none : ∀ c s, step start c s ≠ none

namespace Lexer

variable {σ : Type} (L : Lexer σ)

/-! ## 1. Scanning one lexeme, and a text -/

/-- Goes on with a lexeme: the mode it ends in, its text, and the rest. -/
def scan : σ → List Char → σ × List Char × List Char
  | m, [] => (m, [], [])
  | m, c :: s =>
    match L.step m c s with
    | none => (m, [], c :: s)
    | some m' => ((scan m' s).1, c :: (scan m' s).2.1, (scan m' s).2.2)

/-- The lexemes of a text, as far as the fuel goes: the mode each ends in, and its text. -/
def lexFuel : Nat → List Char → List (σ × List Char)
  | 0, _ => []
  | _, [] => []
  | fuel + 1, c :: s =>
    ((L.scan L.start (c :: s)).1, (L.scan L.start (c :: s)).2.1) ::
      lexFuel fuel (L.scan L.start (c :: s)).2.2

def lex (s : List Char) : List (σ × List Char) := L.lexFuel s.length s

variable {L}

theorem scan_cons_some {m m' : σ} {c : Char} {s : List Char} (h : L.step m c s = some m') :
    L.scan m (c :: s) = ((L.scan m' s).1, c :: (L.scan m' s).2.1, (L.scan m' s).2.2) := by
  rw [scan, h]

theorem scan_cons_none {m : σ} {c : Char} {s : List Char} (h : L.step m c s = none) :
    L.scan m (c :: s) = (m, [], c :: s) := by
  rw [scan, h]

/-- Scanning only splits the text. -/
theorem scan_split : ∀ (m : σ) (s : List Char), (L.scan m s).2.1 ++ (L.scan m s).2.2 = s
  | _, [] => rfl
  | m, c :: s => by
    cases h : L.step m c s with
    | none => rw [scan_cons_none h, List.nil_append]
    | some m' => rw [scan_cons_some h, List.cons_append, scan_split m' s]

theorem scan_start_rest_lt (c : Char) (s : List Char) :
    (L.scan L.start (c :: s)).2.2.length < (c :: s).length := by
  cases h : L.step L.start c s with
  | none => exact absurd h (L.start_ne_none c s)
  | some m' =>
    have hsplit := congrArg List.length (scan_split (L := L) m' s)
    rw [List.length_append] at hsplit
    rw [scan_cons_some h]
    simp only [List.length_cons]
    omega

theorem lexFuel_eq_lex : ∀ (fuel : Nat) (s : List Char), s.length ≤ fuel →
    L.lexFuel fuel s = L.lex s
  | 0, s, h => by
    rw [List.length_eq_zero_iff.mp (Nat.le_zero.mp h)]
    rfl
  | fuel + 1, [], _ => rfl
  | fuel + 1, c :: s, h => by
    have hlt := scan_start_rest_lt (L := L) c s
    simp only [List.length_cons] at h hlt
    rw [lex, List.length_cons, lexFuel, lexFuel]
    rw [lexFuel_eq_lex fuel _ (by omega), lexFuel_eq_lex s.length _ (by omega)]
termination_by _ s => s.length
decreasing_by
  all_goals
    simp only [List.length_cons] at *
    omega

@[simp] theorem lex_nil : L.lex [] = [] := rfl

/-- The first lexeme, and the lexemes of the rest. -/
theorem lex_cons (c : Char) (s : List Char) :
    L.lex (c :: s) = ((L.scan L.start (c :: s)).1, (L.scan L.start (c :: s)).2.1) ::
      L.lex (L.scan L.start (c :: s)).2.2 := by
  have hlt := scan_start_rest_lt (L := L) c s
  rw [lex, List.length_cons, lexFuel]
  rw [lexFuel_eq_lex s.length _ (by simp only [List.length_cons] at hlt; omega)]

/-! ## 2. A text that is one lexeme -/

/-- Before `s`, the modes lead from `m` through `p` to `m'`. -/
def Eats (L : Lexer σ) (s : List Char) : σ → List Char → σ → Prop
  | m, [], m' => m = m'
  | m, c :: p, m' => ∃ m₁, L.step m c (p ++ s) = some m₁ ∧ Eats L s m₁ p m'

theorem Eats.cons {s p : List Char} {m m₁ m' : σ} {c : Char}
    (h : L.step m c (p ++ s) = some m₁) (hp : L.Eats s m₁ p m') : L.Eats s m (c :: p) m' :=
  ⟨m₁, h, hp⟩

theorem Eats.append {s q : List Char} {n k : σ} : ∀ {m : σ} {p : List Char},
    L.Eats (q ++ s) m p n → L.Eats s n q k → L.Eats s m (p ++ q) k
  | m, [], h, hq => by
    cases h
    exact hq
  | m, c :: p, ⟨m', hstep, h⟩, hq => by
    rw [← List.append_assoc] at hstep
    exact ⟨m', hstep, Eats.append h hq⟩

theorem Eats.scan_eq {s : List Char} {m' : σ} : ∀ {m : σ} {p : List Char}, L.Eats s m p m' →
    L.scan m (p ++ s) = ((L.scan m' s).1, p ++ (L.scan m' s).2.1, (L.scan m' s).2.2)
  | m, [], h => by
    cases h
    rfl
  | m, c :: p, ⟨m₁, hstep, h⟩ => by
    rw [List.cons_append, scan_cons_some hstep, h.scan_eq]
    rfl

/-- A text whose last mode stops before anything is a lexeme. -/
theorem Eats.lex_eq {s p : List Char} {m : σ} (h : L.Eats s L.start p m) (hp : p ≠ [])
    (hstop : ∀ c s, L.step m c s = none) : L.lex (p ++ s) = (m, p) :: L.lex s := by
  have hend : L.scan m s = (m, [], s) := by
    cases s with
    | nil => rfl
    | cons c s => exact scan_cons_none (hstop c s)
  have hscan := h.scan_eq
  rw [hend, List.append_nil] at hscan
  obtain ⟨c, p', rfl⟩ := List.exists_cons_of_ne_nil hp
  rw [List.cons_append] at hscan ⊢
  rw [lex_cons, hscan]

/-! ## 3. Concatenation -/

/-- No step before `q` depends on `q`. -/
def LocalAt (L : Lexer σ) (q : List Char) : Prop :=
  ∀ m c s, L.step m c (s ++ q) = L.step m c s

/-- A lexeme that ends before `p` does is not changed by what follows `p`; else it goes on. -/
theorem scan_append {q : List Char} (hq : LocalAt L q) : ∀ (m : σ) (p : List Char),
    L.scan m (p ++ q) =
      if (L.scan m p).2.2 = [] then
        ((L.scan (L.scan m p).1 q).1, (L.scan m p).2.1 ++ (L.scan (L.scan m p).1 q).2.1,
          (L.scan (L.scan m p).1 q).2.2)
      else ((L.scan m p).1, (L.scan m p).2.1, (L.scan m p).2.2 ++ q)
  | m, [] => by simp [scan]
  | m, c :: s => by
    cases h : L.step m c s with
    | none =>
      have h' : L.step m c (s ++ q) = none := (hq m c s).trans h
      rw [List.cons_append, scan_cons_none h', scan_cons_none h]
      simp
    | some m' =>
      have h' : L.step m c (s ++ q) = some m' := (hq m c s).trans h
      rw [List.cons_append, scan_cons_some h', scan_cons_some h, scan_append hq m' s]
      split <;> simp

/-- The lexemes of `p`, the last of which goes on into `q`, and those of what is left. -/
theorem lex_append {q : List Char} (hq : LocalAt L q) : ∀ (n : Nat) (p : List Char),
    p.length ≤ n → p ≠ [] → ∃ init m t, L.lex p = init ++ [(m, t)] ∧
      L.lex (p ++ q) = init ++ (( (L.scan m q).1, t ++ (L.scan m q).2.1) :: L.lex (L.scan m q).2.2)
  | 0, p, hn, hp => absurd (List.length_eq_zero_iff.mp (Nat.le_zero.mp hn)) hp
  | n + 1, [], _, hp => absurd rfl hp
  | n + 1, c :: s, hn, _ => by
    have hlt := scan_start_rest_lt (L := L) c s
    have happ := scan_append hq L.start (c :: s)
    rw [List.cons_append] at happ
    by_cases hrest : (L.scan L.start (c :: s)).2.2 = []
    · rw [if_pos hrest] at happ
      refine ⟨[], (L.scan L.start (c :: s)).1, (L.scan L.start (c :: s)).2.1, ?_, ?_⟩
      · rw [lex_cons, hrest, lex_nil]
        rfl
      · rw [List.cons_append, lex_cons, happ]
        rfl
    · rw [if_neg hrest] at happ
      simp only [List.length_cons] at hn hlt
      obtain ⟨init, m, t, hlex, hlex'⟩ := lex_append hq n _ (by omega) hrest
      refine ⟨((L.scan L.start (c :: s)).1, (L.scan L.start (c :: s)).2.1) :: init, m, t, ?_, ?_⟩
      · rw [lex_cons, hlex]
        rfl
      · rw [List.cons_append, lex_cons, happ, hlex']
        rfl

end Lexer
