/-
# Outlines

A forest written as a flat list: every item carries its depth, and what is below an item follows it
and is deeper.  A list of that shape is an `Outline`.  So everything that asks about the tree can be
answered by a scan over the depths: what is below an item (`Outline.takeWhile_append`), the roots
(`Outline.filter_depth`), and what is left in view when some items are closed (`shown`, which carries
the depth of the closed item it is below).
-/
import Mathlib.Data.List.Basic
import Mathlib.Data.List.TakeWhile
import Mathlib.Tactic.Common

/-- A forest whose roots are at depth `d`. -/
inductive Outline {ρ : Type} (depth : ρ → Nat) : Nat → List ρ → Prop
  | nil {d : Nat} : Outline depth d []
  | node {d : Nat} {r : ρ} {below rest : List ρ} (hr : depth r = d)
      (hbelow : Outline depth (d + 1) below) (hrest : Outline depth d rest) :
      Outline depth d (r :: (below ++ rest))

namespace Outline

variable {ρ ι κ : Type} {depth : ρ → Nat} {d : Nat} {rows rest : List ρ}

/-! ## 1. Depths -/

theorem le_depth (h : Outline depth d rows) : ∀ r ∈ rows, d ≤ depth r := by
  induction h with
  | nil =>
    intro r hr
    cases hr
  | node hr _ _ ihbelow ihrest =>
    intro x hx
    rcases List.mem_cons.mp hx with rfl | hx
    · exact hr.ge
    · rcases List.mem_append.mp hx with hx | hx
      · exact Nat.le_of_succ_le (ihbelow x hx)
      · exact ihrest x hx

theorem depth_head (h : Outline depth d rows) : ∀ r, rows.head? = some r → depth r = d := by
  intro r hr
  cases h with
  | nil => cases hr
  | node hroot =>
    cases hr
    exact hroot

theorem append (h : Outline depth d rows) (hrest : Outline depth d rest) :
    Outline depth d (rows ++ rest) := by
  induction h with
  | nil => exact hrest
  | @node d r below others hr hbelow _ _ ih =>
    rw [List.cons_append, List.append_assoc]
    exact node hr hbelow (ih hrest)

/-- What follows begins no deeper than `d`. -/
def StartsBy (depth : ρ → Nat) (d : Nat) (rest : List ρ) : Prop :=
  ∀ r, rest.head? = some r → depth r ≤ d

theorem startsBy (h : Outline depth d rows) : StartsBy depth d rows :=
  fun r hr => (h.depth_head r hr).le

theorem StartsBy.append (h : StartsBy depth d rows) (hrest : StartsBy depth d rest) :
    StartsBy depth d (rows ++ rest) := by
  rcases rows with - | ⟨r, rows⟩
  · exact hrest
  · exact h

theorem StartsBy.mono {d' : Nat} (h : StartsBy depth d rest) (hd : d ≤ d') :
    StartsBy depth d' rest :=
  fun r hr => (h r hr).trans hd

/-- The forest ends where something not as deep begins. -/
theorem takeWhile_append (h : Outline depth (d + 1) rows) (hrest : StartsBy depth d rest) :
    (rows ++ rest).takeWhile (fun r => d + 1 ≤ depth r) = rows := by
  have hall : ∀ r ∈ rows, decide (d + 1 ≤ depth r) = true := fun r hr =>
    decide_eq_true (h.le_depth r hr)
  rw [List.takeWhile_append_of_pos hall]
  rcases rest with - | ⟨r, rest⟩
  · rw [List.takeWhile_nil, List.append_nil]
  · have hr : ¬ d + 1 ≤ depth r := Nat.not_le_of_lt (Nat.lt_succ_of_le (hrest r rfl))
    rw [List.takeWhile_cons_of_neg (by simpa using hr), List.append_nil]

/-- Nothing below a root is at the depth of the roots. -/
theorem filter_below (h : Outline depth (d + 1) rows) : rows.filter (fun r => depth r = d) = [] := by
  rw [List.filter_eq_nil_iff]
  intro r hr
  have hle := h.le_depth r hr
  simp only [decide_eq_true_eq]
  omega

/-! ## 2. What is in view -/

/-- What is left of a list when all that is below a closed item is passed over: `hidden` is the depth
of the closed item whose descendants are being skipped.  An item stands beside what is listed of it. -/
def shown (depth : ρ → Nat) (closed : ρ → Bool) : Option Nat → List (ρ × ι) → List ι
  | _, [] => []
  | some d, (r, i) :: items =>
    if d < depth r then shown depth closed (some d) items
    else i :: shown depth closed (if closed r then some (depth r) else none) items
  | none, (r, i) :: items => i :: shown depth closed (if closed r then some (depth r) else none) items

variable {closed : ρ → Bool}

/-- What is listed of an item plays no part. -/
theorem shown_map (g : ι → κ) : ∀ (hidden : Option Nat) (items : List (ρ × ι)),
    shown depth closed hidden (items.map fun x => (x.1, g x.2)) =
      (shown depth closed hidden items).map g
  | none, [] => rfl
  | some _, [] => rfl
  | none, (r, i) :: items => by
    rw [List.map_cons, shown, shown, shown_map g _ items, List.map_cons]
  | some d, (r, i) :: items => by
    rw [List.map_cons, shown, shown]
    split
    · exact shown_map g _ items
    · rw [shown_map g _ items, List.map_cons]

theorem shown_sublist : ∀ (hidden : Option Nat) (items : List (ρ × ι)),
    (shown depth closed hidden items).Sublist (items.map Prod.snd)
  | none, [] => List.Sublist.refl []
  | some _, [] => List.Sublist.refl []
  | none, (r, i) :: items => (shown_sublist _ items).cons_cons i
  | some d, (r, i) :: items => by
    rw [shown]
    split
    · exact (shown_sublist _ items).cons i
    · exact (shown_sublist _ items).cons_cons i

/-- The forest below a closed item is passed over. -/
theorem shown_below (h : Outline depth (d + 1) rows) (g : ρ → ι) (items : List (ρ × ι)) :
    shown depth closed (some d) (rows.map (fun r => (r, g r)) ++ items) =
      shown depth closed (some d) items := by
  have hdeep := h.le_depth
  clear h
  induction rows with
  | nil => rfl
  | cons r rows ih =>
    rw [List.map_cons, List.cons_append, shown, if_pos (Nat.lt_of_succ_le (hdeep r List.mem_cons_self))]
    exact ih fun x hx => hdeep x (List.mem_cons_of_mem r hx)

/-- After it, the scan goes on as if nothing had been closed. -/
theorem shown_after (g : ρ → ι) (h : StartsBy depth d rest) :
    shown depth closed (some d) (rest.map fun r => (r, g r)) =
      shown depth closed none (rest.map fun r => (r, g r)) := by
  rcases rest with - | ⟨r, rest⟩
  · rfl
  · rw [List.map_cons, shown, if_neg (Nat.not_lt_of_le (h r rfl)), shown]

end Outline
