/-
# The selection stays inside the list

`Selection` and `ViewState` of the message list, every operation of theirs: clicks, keys, what the app
sets, and the rows that come and go under the selection.  The widget opens and deletes messages by the
rows that are selected, so each of them must be a row of the list.

`Below` says that of a selection.  Every operation keeps it but one: `select_all` puts the anchor and the
focus on row 0 of a list that has no rows.  Rows that are inserted then push them on, and Shift takes the
selection out to where they are (`selected_beyond_end`).

* `act_inBounds`: an operation keeps the selection inside, exactly where it does not select all of nothing;
* `inBounds_of_reach`: so it is inside in every run without that, and the rows that are selected ascend.

Each operation has its lemma in `Selection.Below`, stated for any number of rows, so that `mono` does for
rows that come and the two shifts do for those inserted and removed in between.

What an operation is given is asked to be there (`Fits`): a click is on a row of the list, and what is
removed is in it.  Scrolling selects nothing, and is left out.  `usize` is a `Nat`: the rows of a list are
in memory.
-/
import Esmail.Browsing.Selection
import Esmail.Library.Ascending
import Esmail.Library.Machine

namespace Esmail.Browsing

open Transition
open Ascending (binarySearch sortDedup)

/-! ## 1. The selection -/

/-- `range`: the rows from one of them to the other. -/
def range (a b : Nat) : List Nat :=
  let lo := if a ≤ b then a else b
  let hi := if a ≤ b then b else a
  List.range' lo (hi + 1 - lo)

theorem mem_range {a b r : Nat} (h : r ∈ range a b) : r ≤ a ∨ r ≤ b := by
  simp only [range, List.mem_range'_1] at h
  split at h <;> omega

theorem pairwise_range (a b : Nat) : (range a b).Pairwise (· < ·) := List.pairwise_lt_range'

namespace Selection

/-- `Selection::click`. -/
def click (_ : Selection) (index : Nat) : Selection where
  selected := [index]
  anchor := some index
  focus := some index

/-- `Selection::ctrl_click`. -/
def ctrlClick (s : Selection) (index : Nat) : Selection where
  selected :=
    match binarySearch s.selected index with
    | .ok pos => s.selected.eraseIdx pos
    | .error pos => s.selected.insertIdx pos index
  anchor := some index
  focus := some index
  ascending := by
    split
    · exact s.ascending.sublist (List.eraseIdx_sublist ..)
    · exact Ascending.pairwise_insertIdx s.ascending (by assumption)

/-- `Selection::shift_click`. -/
def shiftClick (s : Selection) (index : Nat) : Selection where
  selected := range ((s.anchor.or s.focus).getD index) index
  anchor := s.anchor
  focus := some index
  ascending := pairwise_range _ _

/-- `Selection::move_focus`. -/
def moveFocus (s : Selection) (index : Nat) (ctrl shift : Bool) : Selection :=
  if ctrl then { s with focus := some index }
  else if shift then
    { selected := range ((s.anchor.or s.focus).getD index) index
      anchor := s.anchor
      focus := some index
      ascending := pairwise_range _ _ }
  else s.click index

/-- `Selection::select_all`. -/
def selectAll (_ : Selection) (len : Nat) : Selection where
  selected := if len = 0 then [] else List.range len
  anchor := some 0
  focus := some 0
  ascending := by
    split
    · exact List.Pairwise.nil
    · exact List.pairwise_lt_range

/-- `Selection::replace`. -/
def replace (_ : Selection) (rows : List Nat) (len : Nat) : Selection where
  selected := sortDedup (rows.filter (· < len))
  anchor := (sortDedup (rows.filter (· < len))).head?
  focus := (sortDedup (rows.filter (· < len))).head?
  ascending := Ascending.pairwise_sortDedup _

/-- `Selection::clear`. -/
def clear (_ : Selection) : Selection := {}

/-- Every row the selection has is below `n`: the selected ones, the anchor and the focus. -/
structure Below (s : Selection) (n : Nat) : Prop where
  selected : ∀ r ∈ s.selected, r < n
  anchor : ∀ r ∈ s.anchor, r < n
  focus : ∀ r ∈ s.focus, r < n

namespace Below

variable {s : Selection} {n index : Nat}

theorem clear : (s.clear).Below n := ⟨by simp [Selection.clear], by simp [Selection.clear],
  by simp [Selection.clear]⟩

theorem click (h : index < n) : (s.click index).Below n := by
  constructor <;> simpa [Selection.click] using h

theorem ctrlClick (hs : s.Below n) (h : index < n) : (s.ctrlClick index).Below n := by
  refine ⟨fun r hr => ?_, by simpa [Selection.ctrlClick] using h,
    by simpa [Selection.ctrlClick] using h⟩
  simp only [Selection.ctrlClick] at hr
  split at hr
  · exact hs.selected r (List.mem_of_mem_eraseIdx hr)
  · rcases List.eq_or_mem_of_mem_insertIdx hr with rfl | hr
    · exact h
    · exact hs.selected r hr

/-- What Shift extends from is a row of the list too. -/
theorem from_lt (hs : s.Below n) (h : index < n) : (s.anchor.or s.focus).getD index < n := by
  cases hanchor : s.anchor with
  | some r => exact hs.anchor r hanchor
  | none =>
    cases hfocus : s.focus with
    | some r => exact hs.focus r hfocus
    | none => exact h

theorem shiftClick (hs : s.Below n) (h : index < n) : (s.shiftClick index).Below n := by
  refine ⟨fun r hr => ?_, hs.anchor, by simpa [Selection.shiftClick] using h⟩
  have hfrom := hs.from_lt h
  rcases mem_range hr with hle | hle <;> omega

theorem moveFocus (hs : s.Below n) (h : index < n) (ctrl shift : Bool) :
    (s.moveFocus index ctrl shift).Below n := by
  rw [Selection.moveFocus]
  split
  · exact ⟨hs.selected, hs.anchor, by simpa using h⟩
  · split
    · exact hs.shiftClick h
    · exact click h

theorem selectAll (h : 0 < n) : (s.selectAll n).Below n := by
  refine ⟨fun r hr => ?_, by simpa [Selection.selectAll] using h,
    by simpa [Selection.selectAll] using h⟩
  simpa [Selection.selectAll, Nat.ne_of_gt h] using hr

theorem replace (rows : List Nat) : (s.replace rows n).Below n := by
  have hlt : ∀ r ∈ sortDedup (rows.filter (· < n)), r < n := fun r hr => by
    simpa using (List.mem_filter.mp (Ascending.mem_of_mem_sortDedup hr)).2
  exact ⟨hlt, fun r hr => hlt r (List.mem_of_head? hr), fun r hr => hlt r (List.mem_of_head? hr)⟩

/-- Rows move down with what is inserted above them, and the list has that many more. -/
theorem shiftInserted_lt {row count r : Nat} (h : r < n) : shiftInserted row count r < n + count := by
  rw [shiftInserted]
  split <;> omega

theorem insert (hs : s.Below n) (row count : Nat) : (s.insert row count).Below (n + count) := by
  refine ⟨fun r hr => ?_, fun r hr => ?_, fun r hr => ?_⟩
  · obtain ⟨x, hx, rfl⟩ := List.mem_map.mp hr
    exact shiftInserted_lt (hs.selected x hx)
  · obtain ⟨x, hx, rfl⟩ := Option.map_eq_some_iff.mp hr
    exact shiftInserted_lt (hs.anchor x hx)
  · obtain ⟨x, hx, rfl⟩ := Option.map_eq_some_iff.mp hr
    exact shiftInserted_lt (hs.focus x hx)

/-- A row that is left is one of the rows that are left, when those removed were all in the list. -/
theorem shiftRemoved_lt {row count r r' : Nat} (hin : row + count ≤ n) (h : r < n)
    (hr : shiftRemoved row count r = some r') : r' < n - count := by
  simp only [shiftRemoved] at hr
  split at hr
  · obtain rfl := Option.some.inj hr
    omega
  · split at hr
    · obtain rfl := Option.some.inj hr
      omega
    · cases hr

theorem remove (hs : s.Below n) {row count : Nat} (hin : row + count ≤ n) :
    (s.remove row count).Below (n - count) := by
  refine ⟨fun r hr => ?_, fun r hr => ?_, fun r hr => ?_⟩
  · obtain ⟨x, hx, hxr⟩ := List.mem_filterMap.mp hr
    exact shiftRemoved_lt hin (hs.selected x hx) hxr
  · obtain ⟨x, hx, hxr⟩ := Option.bind_eq_some_iff.mp hr
    exact shiftRemoved_lt hin (hs.anchor x hx) hxr
  · obtain ⟨x, hx, hxr⟩ := Option.bind_eq_some_iff.mp hr
    exact shiftRemoved_lt hin (hs.focus x hx) hxr

theorem mono {m : Nat} (hs : s.Below n) (h : n ≤ m) : s.Below m :=
  ⟨fun r hr => (hs.selected r hr).trans_le h, fun r hr => (hs.anchor r hr).trans_le h,
    fun r hr => (hs.focus r hr).trans_le h⟩

end Below

end Selection

/-! ## 2. The keys -/

/-- The navigation keys, and any other. -/
inductive NavKey
  | home | «end» | up | down | pageUp | pageDown | other
  deriving DecidableEq, Repr

/-- `nav_target`. -/
def navTarget (key : NavKey) (focus : Option Nat) (len page : Nat) : Option Nat :=
  if len = 0 then none
  else
    let last := len - 1
    match key with
    | .home => some (min 0 last)
    | .end => some (min last last)
    | .up => some (min (focus.elim last fun row => row - 1) last)
    | .down => some (min (focus.elim 0 fun row => row + 1) last)
    | .pageUp => some (min (focus.elim last fun row => row - page) last)
    | .pageDown => some (min (focus.elim 0 fun row => row + page) last)
    | .other => none

/-- A key moves the focus to a row of the list, and in an empty one nowhere. -/
theorem navTarget_lt {key : NavKey} {focus : Option Nat} {len page target : Nat}
    (h : navTarget key focus len page = some target) : target < len := by
  rw [navTarget] at h
  split at h
  · cases h
  · cases key <;> simp only [Option.some.injEq, reduceCtorEq] at h <;> omega

/-- `navigate`: the selection it leaves, and the row the focus moved to. -/
def navigate (s : Selection) (key : NavKey) (ctrl shift : Bool) (len page : Nat) :
    Selection × Option Nat :=
  match navTarget key s.focus len page with
  | none => (s, none)
  | some focus => (s.moveFocus focus ctrl shift, some focus)

theorem Selection.Below.navigate {s : Selection} {n : Nat} (hs : s.Below n) (key : NavKey)
    (ctrl shift : Bool) (page : Nat) : (navigate s key ctrl shift n page).1.Below n := by
  rw [Browsing.navigate]
  split
  · exact hs
  · exact hs.moveFocus (navTarget_lt (by assumption)) ctrl shift

/-! ## 3. The view, and what is done to it -/

namespace ViewState

/-- `ViewState::set_rows`. -/
def setRows (v : ViewState) (len : Nat) : ViewState := ⟨len, v.selection.clear⟩

/-- `ViewState::recount`. -/
def recount (v : ViewState) (newLen : Nat) : ViewState := ⟨newLen, v.selection⟩

/-- The selection is of rows the list has. -/
def InBounds (v : ViewState) : Prop := v.selection.Below v.len

end ViewState

/-- What is done to the list: by the user, by the app, and by the mail that comes and goes. -/
inductive ViewAction
  | click (index : Nat)
  | ctrlClick (index : Nat)
  | shiftClick (index : Nat)
  | moveFocus (index : Nat) (ctrl shift : Bool)
  | navigate (key : NavKey) (ctrl shift : Bool) (page : Nat)
  | selectAll
  | replace (rows : List Nat)
  | clear
  | insert (row count : Nat)
  | remove (row count : Nat)
  | setRows (len : Nat)
  | recount (newLen : Nat)
  deriving DecidableEq, Repr

namespace ViewState

/-- One operation.  The list hands the selection the number of rows that it has. -/
def act (v : ViewState) : ViewAction → ViewState
  | .click index => { v with selection := v.selection.click index }
  | .ctrlClick index => { v with selection := v.selection.ctrlClick index }
  | .shiftClick index => { v with selection := v.selection.shiftClick index }
  | .moveFocus index ctrl shift => { v with selection := v.selection.moveFocus index ctrl shift }
  | .navigate key ctrl shift page =>
    { v with selection := (Browsing.navigate v.selection key ctrl shift v.len page).1 }
  | .selectAll => { v with selection := v.selection.selectAll v.len }
  | .replace rows => { v with selection := v.selection.replace rows v.len }
  | .clear => { v with selection := v.selection.clear }
  | .insert row count => v.insert row count
  | .remove row count => v.remove row count
  | .setRows len => v.setRows len
  | .recount newLen => v.recount newLen

/-- What the operation is given is there: a click is on a row, what is removed is in the list. -/
def Fits (v : ViewState) : ViewAction → Prop
  | .click index | .ctrlClick index | .shiftClick index | .moveFocus index _ _ => index < v.len
  | .insert row _ => row ≤ v.len
  | .remove row count => row + count ≤ v.len
  | .recount newLen => v.len ≤ newLen
  | _ => True

instance (v : ViewState) : ∀ a, Decidable (v.Fits a)
  | .click index | .ctrlClick index | .shiftClick index | .moveFocus index _ _ =>
    inferInstanceAs (Decidable (index < v.len))
  | .insert row _ => inferInstanceAs (Decidable (row ≤ v.len))
  | .remove row count => inferInstanceAs (Decidable (row + count ≤ v.len))
  | .recount newLen => inferInstanceAs (Decidable (v.len ≤ newLen))
  | .navigate _ _ _ _ | .selectAll | .replace _ | .clear | .setRows _ => isTrue trivial

/-- Everything of a list without rows is selected. -/
def SelectsNothing (v : ViewState) (a : ViewAction) : Prop := a = .selectAll ∧ v.len = 0

instance (v : ViewState) (a : ViewAction) : Decidable (v.SelectsNothing a) :=
  inferInstanceAs (Decidable (_ ∧ _))

/-- Row 0 is no row of an empty list. -/
theorem not_inBounds_selectAll {v : ViewState} (h : v.len = 0) : ¬(v.act .selectAll).InBounds :=
  fun hin => by simpa [act, h] using hin.anchor 0 rfl

/-- One operation keeps the selection inside the list, unless it selects all of nothing. -/
theorem act_inBounds {v : ViewState} (hv : v.InBounds) {a : ViewAction} (ha : v.Fits a) :
    (v.act a).InBounds ↔ ¬v.SelectsNothing a := by
  refine ⟨fun hin => ?_, fun hnot => ?_⟩
  · rintro ⟨rfl, hlen⟩
    exact not_inBounds_selectAll hlen hin
  · cases a with
    | click index => exact Selection.Below.click (s := v.selection) ha
    | ctrlClick index => exact Selection.Below.ctrlClick hv ha
    | shiftClick index => exact Selection.Below.shiftClick hv ha
    | moveFocus index ctrl shift => exact Selection.Below.moveFocus hv ha ctrl shift
    | navigate key ctrl shift page => exact Selection.Below.navigate hv key ctrl shift page
    | selectAll =>
      have hpos : 0 < v.len := Nat.pos_of_ne_zero fun hlen => hnot ⟨rfl, hlen⟩
      exact Selection.Below.selectAll (s := v.selection) hpos
    | replace rows => exact Selection.Below.replace (s := v.selection) rows
    | clear => exact Selection.Below.clear (s := v.selection)
    | insert row count => exact Selection.Below.insert hv row count
    | remove row count => exact Selection.Below.remove hv ha
    | setRows len => exact Selection.Below.clear (s := v.selection)
    | recount newLen => exact Selection.Below.mono hv ha

/-- The list from `ViewState::new` on, under any operations in any order. -/
def machine : Machine ViewState ViewAction where
  Init v := v = {}
  step v a := some (v.act a)

/-- In every run that never selects all of an empty list, the rows the selection has are rows of the
list, and those that are selected ascend.  That they ascend is part of what a `Selection` is; the bound is
`act_inBounds`, step by step. -/
theorem inBounds_of_reach {v : ViewState}
    (h : Machine.Reach machine (fun v a => v.Fits a ∧ ¬v.SelectsNothing a) v) :
    v.selection.selected.Pairwise (· < ·) ∧ v.InBounds := by
  refine ⟨v.selection.ascending, ?_⟩
  refine Machine.Reach.invariant (fun v hinit => ?_) (fun v a v' _ hv hok hstep => ?_) h
  · obtain rfl : v = {} := hinit
    exact Selection.Below.clear (s := {})
  · obtain rfl : v.act a = v' := Option.some.inj hstep
    exact (act_inBounds hv hok.1).mpr hok.2

/-- Two of five rows are selected, the first of them is removed, and what is left goes with the rest:
the selection is of row 3 of four. -/
theorem inBounds_of_reach_removed :
    ∃ v : ViewState, (v.selection.selected = [3] ∧ v.len = 4) ∧
      v.selection.selected.Pairwise (· < ·) ∧ v.InBounds := by
  obtain ⟨v, hr, hv⟩ := Machine.exists_reach_of_trace machine
    (fun v a => v.Fits a ∧ ¬v.SelectsNothing a) (s := {})
    [.setRows 5, .click 1, .ctrlClick 4, .remove 1 1]
    (fun v => v.selection.selected = [3] ∧ v.len = 4) rfl (by decide)
  exact ⟨v, of_decide_eq_true hv, inBounds_of_reach hr⟩

/-- Ctrl+A in an empty list, one message that comes, and Shift on it: rows 0 and 1 are selected, and
there is one row. -/
theorem selected_beyond_end :
    ¬∀ v : ViewState, Machine.Reach machine Fits v →
      v.selection.selected.Pairwise (· < ·) ∧ v.InBounds := by
  intro hall
  obtain ⟨v, hr, hv⟩ := Machine.exists_reach_of_trace machine Fits (s := {})
    [.selectAll, .insert 0 1, .shiftClick 0]
    (fun v => v.selection.selected = [0, 1] ∧ v.len = 1) rfl (by decide)
  obtain ⟨hselected, hlen⟩ := of_decide_eq_true hv
  have hlt := (hall v hr).2.selected 1 (by simp [hselected])
  omega

end ViewState

end Esmail.Browsing
