/-
# Selecting text in a document

`selection.rs` and `text_runs.rs` of the renderer.  A selection is two places in the table of text runs,
and it outlives the table it was made on: a new layout has other runs.  Everything below looks runs,
characters and offsets up by index; `none` is a panic, and there is none.

`never_panics` is about every table, every place, of this table or of another, and every two of them: the
word, the block, the highlight and the copy are found, and the word is the largest span of characters of
one class around the place.  `posAt_spec` says the same of the place under a point.

What a run must be for that is part of `TextRun`: it has text, and one more offset than characters, and
`runFor` builds no other.  Then each index is clamped to the run it is looked up in, and the two loops go
only through runs that the table has, wherever the selection was made (`lt_of_mem_runsBetween`).  The span
of a class is `Library/Spans.lean`.

Coordinates are `Float32`, and nothing here depends on what they come to; nor does it matter which
characters are alphanumeric.
-/
import Esmail.Library.RustText
import Esmail.Library.Spans

namespace Esmail.TextSelection

open RustText
open Spans

/-! ## 1. Runs of text -/

/-- `f32::min`: of a number and no number, the number. -/
def f32Min (a b : Float32) : Float32 :=
  if a.isNaN then b else if b.isNaN then a else if a ≤ b then a else b

/-- `f32::max`. -/
def f32Max (a b : Float32) : Float32 :=
  if a.isNaN then b else if b.isNaN then a else if a ≤ b then b else a

/-- `f32::clamp`, which panics without a range to clamp to. -/
def f32Clamp (x lo hi : Float32) : Option Float32 :=
  if lo ≤ hi then some (if x < lo then lo else if hi < x then hi else x) else none

/-- `Point`. -/
structure Point where
  x : Float32
  y : Float32

/-- `Rect`. -/
structure Rect where
  left : Float32
  top : Float32
  right : Float32
  bottom : Float32

instance : BEq Rect where
  beq a b := a.left == b.left && a.top == b.top && a.right == b.right && a.bottom == b.bottom

namespace Rect

/-- `Rect::from_min_size`. -/
def fromMinSize (x y width height : Float32) : Rect := ⟨x, y, x + width, y + height⟩

/-- `Rect::height`. -/
def height (r : Rect) : Float32 := r.bottom - r.top

/-- The height of `Rect::center`. -/
def centerY (r : Rect) : Float32 := (r.top + r.bottom) / 2.0

/-- `Rect::union`. -/
def union (a b : Rect) : Rect :=
  ⟨f32Min a.left b.left, f32Min a.top b.top, f32Max a.right b.right, f32Max a.bottom b.bottom⟩

end Rect

/-- `TextRun`, without its font. -/
structure TextRun where
  rect : Rect
  text : List Char
  offsets : List Float32
  block : Rect
  breaksBefore : UInt8
  hasText : text ≠ []
  offset_each : offsets.length = text.length + 1

/-- `TextRun::char_count`. -/
def TextRun.charCount (run : TextRun) : Nat := run.offsets.length - 1

theorem TextRun.charCount_eq (run : TextRun) : run.charCount = run.text.length := by
  rw [charCount, run.offset_each, Nat.add_sub_cancel]

theorem TextRun.length_pos (run : TextRun) : 0 < run.text.length :=
  List.length_pos_of_ne_nil run.hasText

/-- `TextRunTable`. -/
structure TextRunTable where
  runs : List TextRun

/-! ## 2. A run, from what was laid out -/

/-- `MIN_RUN_HEIGHT`. -/
def minRunHeight : Float32 := 4.0

/-- The loop of `run_for`: where the characters after `pre` begin that have another one behind them;
`at_` is the offset before. -/
def offsetsFrom (measure : List Char → Float32) (width : Float32) (pre : List Char)
    (at_ : Float32) : List Char → Option (List Float32)
  | [] => some []
  | c :: rest =>
    (f32Clamp (measure (pre ++ [c])) at_ width).bind fun x =>
      (offsetsFrom measure width (pre ++ [c]) x rest).map (x :: ·)

theorem length_offsetsFrom {measure : List Char → Float32} {width : Float32} :
    ∀ {chars pre : List Char} {at_ : Float32} {xs : List Float32},
      offsetsFrom measure width pre at_ chars = some xs → xs.length = chars.length
  | [], _, _, xs, h => by
    obtain rfl : [] = xs := Option.some.inj h
    rfl
  | c :: rest, pre, at_, xs, h => by
    simp only [offsetsFrom, Option.bind_eq_some_iff, Option.map_eq_some_iff] at h
    obtain ⟨x, -, ys, hys, rfl⟩ := h
    simp [length_offsetsFrom hys]

/-- The text of a run: every kind of white space is a space. -/
def runText (text : List Char) : List Char := text.map fun c => if isWhitespace c then ' ' else c

/-- `run_for`, of a text that was laid out at `(x, y)`: `none` is a panic, `some none` no run.  `measure`
is the width of a text in the run's font, `block` the box of the block it is in. -/
def runFor (measure : List Char → Float32) (block : Rect) (x y width height : Float32)
    (text : List Char) : Option (Option TextRun) :=
  if htext : runText text = [] then some none
  else if width ≤ 0.0 ∨ height < minRunHeight then some none
  else
    match h : offsetsFrom measure width [] 0.0 (runText text).dropLast with
    | none => none
    | some xs =>
      some (some {
        rect := Rect.fromMinSize x y width height
        text := runText text
        offsets := 0.0 :: (xs ++ [width])
        block := block
        breaksBefore := 0
        hasText := htext
        offset_each := by
          have hpos := List.length_pos_of_ne_nil htext
          simp only [List.length_cons, List.length_append, List.length_nil, length_offsetsFrom h,
            List.length_dropLast]
          omega })

/-! ## 3. Selections -/

/-- `TextPos`. -/
structure TextPos where
  run : Nat
  ch : Nat
  deriving DecidableEq, Repr

/-- The order of `TextPos`. -/
def TextPos.le (a b : TextPos) : Bool := a.run < b.run || (a.run == b.run && a.ch ≤ b.ch)

/-- `Selection`. -/
structure Selection where
  anchor : TextPos
  head : TextPos
  deriving DecidableEq, Repr

/-- `Selection::ordered`. -/
def Selection.ordered (sel : Selection) : TextPos × TextPos :=
  if sel.anchor.le sel.head then (sel.anchor, sel.head) else (sel.head, sel.anchor)

/-- `SAME_LINE`. -/
def sameLineShare : Float32 := 0.5

/-- `is_blank`. -/
def isBlank (run : TextRun) : Bool := trim run.text == []

/-- `same_line`. -/
def sameLine (a b : TextRun) : Bool :=
  let tolerance := f32Min a.rect.height b.rect.height * sameLineShare
  (a.rect.centerY - b.rect.centerY).abs < tolerance

/-- `char_class`, with what `char::is_alphanumeric` says of a character. -/
def charClass (isAlphanumeric : Char → Bool) (c : Char) : UInt8 :=
  if isAlphanumeric c || c == '_' then 0 else if isWhitespace c then 1 else 2

/-- `distance`: down and across. -/
def distance (rect : Rect) (p : Point) : Float32 × Float32 :=
  (f32Max (f32Max (rect.top - p.y) (p.y - rect.bottom)) 0.0,
    f32Max (f32Max (rect.left - p.x) (p.x - rect.right)) 0.0)

/-- What `f32::total_cmp` compares: the bits, as a number with a sign. -/
def totalKey (x : Float32) : Int :=
  let bits := x.toBits.toNat
  if bits < 0x80000000 then bits else 0x7FFFFFFF - bits

/-- Whether a run is nearer than the best so far: down first, then across. -/
def nearer (d best : Float32 × Float32) : Bool :=
  totalKey d.1 < totalKey best.1 || (totalKey d.1 == totalKey best.1 && totalKey d.2 < totalKey best.2)

/-- The loop of `nearest_run`, from run `i` on. -/
def nearestFrom (p : Point) : Nat → Option (Nat × Float32 × Float32) → List TextRun →
    Option (Nat × Float32 × Float32)
  | _, best, [] => best
  | i, best, run :: rest =>
    let d := distance run.rect p
    if isBlank run then nearestFrom p (i + 1) best rest
    else if best.all fun b => nearer d b.2 then
      if d.1 == 0.0 && d.2 == 0.0 then some (i, d) else nearestFrom p (i + 1) (some (i, d)) rest
    else nearestFrom p (i + 1) best rest

/-- `char_at_x`. -/
def charAtX (run : TextRun) (x : Float32) : Option Nat :=
  match run.offsets.findIdx? fun o => o > x with
  | none => some run.charCount
  | some 0 => some 0
  | some (k + 1) => do
    let lo ← run.offsets[k]?
    let hi ← run.offsets[k + 1]?
    some (if x - lo < hi - x then k else k + 1)

/-- `separator`. -/
def separator (prev next : TextRun) (sawSpace : Bool) : List Char :=
  if sameLine prev next then
    if sawSpace || next.rect.left - prev.rect.right > 1.0 then [' '] else []
  else if next.block != prev.block then
    let margin := next.rect.top - prev.rect.bottom > next.rect.height * 0.5
    if margin || next.breaksBefore ≥ 2 then ['\n', '\n'] else ['\n']
  else if next.breaksBefore = 0 then [' ']
  else if next.breaksBefore = 1 then ['\n']
  else ['\n', '\n']

namespace TextRunTable

/-- `TextRunTable::nearest_run`. -/
def nearestRun (table : TextRunTable) (p : Point) : Option Nat :=
  (nearestFrom p 0 none table.runs).map Prod.fst

/-- `TextRunTable::pos_at`. -/
def posAt (table : TextRunTable) (p : Point) : Option (Option TextPos) :=
  match table.nearestRun p with
  | none => some none
  | some i => do
    let run ← table.runs[i]?
    let ch ← charAtX run (p.x - run.rect.left)
    some (some ⟨i, ch⟩)

/-- `TextRunTable::word_at_pos`. -/
def wordAtPos (isAlphanumeric : Char → Bool) (table : TextRunTable) (pos : TextPos) :
    Option (Option Selection) :=
  match table.runs[pos.run]? with
  | none => some none
  | some run => do
    let i := min pos.ch (run.text.length - 1)
    let c ← run.text[i]?
    let same := fun c' => charClass isAlphanumeric c' == charClass isAlphanumeric c
    let first ← scanBack same run.text i
    let stop ← scanOn same run.text (i + 1)
    some (some ⟨⟨pos.run, first⟩, ⟨pos.run, stop⟩⟩)

/-- `TextRunTable::block_at_pos`. -/
def blockAtPos (table : TextRunTable) (pos : TextPos) : Option (Option Selection) :=
  match table.runs[pos.run]? with
  | none => some none
  | some run => do
    let same := fun other : TextRun => other.block == run.block
    let first ← scanBack same table.runs pos.run
    let last := (← scanOn same table.runs (pos.run + 1)) - 1
    let lastRun ← table.runs[last]?
    some (some ⟨⟨first, 0⟩, ⟨last, lastRun.charCount⟩⟩)

/-- `TextRunTable::select_all`. -/
def selectAll (table : TextRunTable) : Option (Option Selection) :=
  match table.runs.findIdx? (!isBlank ·), table.runs.reverse.findIdx? (!isBlank ·) with
  | some first, some behind => do
    let last := table.runs.length - 1 - behind
    let lastRun ← table.runs[last]?
    some (some ⟨⟨first, 0⟩, ⟨last, lastRun.charCount⟩⟩)
  | _, _ => some none

/-- The runs that `selection_rects` and `selection_text` go through. -/
def runsBetween (table : TextRunTable) (start stop : TextPos) : List Nat :=
  if table.runs.length = 0 then []
  else List.range' start.run (min stop.run (table.runs.length - 1) + 1 - start.run)

/-- `from` of both loops: the first character of run `i` that is selected. -/
def fromOf (start : TextPos) (i : Nat) : Nat := if i = start.run then start.ch else 0

/-- `to` of both loops: the character of run `i` that the selection ends before. -/
def toOf (stop : TextPos) (run : TextRun) (i : Nat) : Nat :=
  if i = stop.run then stop.ch else run.charCount

/-- The loop body of `selection_rects`. -/
def rectsOne (table : TextRunTable) (start stop : TextPos) (out : List Rect) (i : Nat) :
    Option (List Rect) := do
  let run ← table.runs[i]?
  let lo := fromOf start i
  let hi := min (toOf stop run i) run.charCount
  if hi ≤ lo then some out
  else
    let before ← run.offsets[lo]?
    let behind ← run.offsets[hi]?
    let rect : Rect := ⟨run.rect.left + before, run.rect.top, run.rect.left + behind, run.rect.bottom⟩
    let extendsLast := out.getLast?.any fun last =>
      (last.centerY - rect.centerY).abs < rect.height * sameLineShare &&
        (rect.left - last.right).abs < 2.0
    if extendsLast then
      let last ← out.getLast?
      some (out.dropLast ++ [last.union rect])
    else if !isBlank run then some (out ++ [rect])
    else some out

/-- `TextRunTable::selection_rects`. -/
def selectionRects (table : TextRunTable) (sel : Selection) : Option (List Rect) :=
  let (start, stop) := sel.ordered
  (table.runsBetween start stop).foldlM (table.rectsOne start stop) []

/-- What the loop of `selection_text` has: the copy so far, the last run in it, and whether there was
a space since. -/
structure Copied where
  out : List Char := []
  prev : Option TextRun := none
  sawSpace : Bool := false

/-- The loop body of `selection_text`. -/
def textOne (table : TextRunTable) (start stop : TextPos) (acc : Copied) (i : Nat) : Option Copied := do
  let run ← table.runs[i]?
  let lo := fromOf start i
  let hi := toOf stop run i
  if hi ≤ lo then some acc
  else
    let piece := (run.text.drop lo).take (hi - lo)
    if trim piece = [] then some { acc with sawSpace := true }
    else
      let between := acc.prev.elim [] fun prev => separator prev run acc.sawSpace
      some ⟨acc.out ++ between ++ trim piece, some run, piece.getLast? == some ' '⟩

/-- `TextRunTable::selection_text`. -/
def selectionText (table : TextRunTable) (sel : Selection) : Option (List Char) :=
  let (start, stop) := sel.ordered
  ((table.runsBetween start stop).foldlM (table.textOne start stop) {}).map Copied.out

/-! ## 4. No index is out of bounds -/

/-- The word is the largest span of characters of one class around the place, or around the last
character where the place is behind it; and a run that is no longer there has no word. -/
theorem wordAtPos_eq (isAlphanumeric : Char → Bool) (table : TextRunTable) (pos : TextPos) :
    (table.runs[pos.run]? = none ∧ table.wordAtPos isAlphanumeric pos = some none) ∨
    ∃ run c first stop, table.runs[pos.run]? = some run ∧
      run.text[min pos.ch (run.text.length - 1)]? = some c ∧
      table.wordAtPos isAlphanumeric pos = some (some ⟨⟨pos.run, first⟩, ⟨pos.run, stop⟩⟩) ∧
      Around (fun c' => charClass isAlphanumeric c' == charClass isAlphanumeric c) run.text
        (min pos.ch (run.text.length - 1)) first stop ∧
      (pos.ch ≤ run.charCount → first ≤ pos.ch ∧ pos.ch ≤ stop) := by
  cases hrun : table.runs[pos.run]? with
  | none => exact .inl ⟨rfl, by simp [wordAtPos, hrun]⟩
  | some run =>
    right
    have hi : min pos.ch (run.text.length - 1) < run.text.length := by
      have := run.length_pos
      omega
    have hc := List.getElem?_eq_getElem hi
    obtain ⟨first, stop, hback, hon, haround⟩ := scan_around
      (p := fun c' => charClass isAlphanumeric c' ==
        charClass isAlphanumeric run.text[min pos.ch (run.text.length - 1)]) hi (by simp)
    refine ⟨run, _, first, stop, rfl, hc, by simp [wordAtPos, hrun, hc, hback, hon], haround, ?_⟩
    intro hch
    rw [run.charCount_eq] at hch
    have hleft := haround.left
    have hright := haround.right
    omega

theorem isSome_blockAtPos (table : TextRunTable) (pos : TextPos) : (table.blockAtPos pos).isSome := by
  cases hrun : table.runs[pos.run]? with
  | none => simp [blockAtPos, hrun]
  | some run =>
    have hpos : pos.run < table.runs.length := (List.getElem?_eq_some_iff.mp hrun).1
    obtain ⟨first, hback, -, -, -⟩ := scanBack_spec (fun other : TextRun => other.block == run.block)
      table.runs pos.run (Nat.le_of_lt hpos)
    obtain ⟨stop, hon, hle, hstop, -, -⟩ := scanOn_spec (fun other : TextRun => other.block == run.block)
      table.runs (pos.run + 1) hpos
    have hlast : stop - 1 < table.runs.length := by omega
    simp [blockAtPos, hrun, hback, hon, List.getElem?_eq_getElem hlast]

/-- Both loops go through runs that the table has, wherever the selection was made. -/
theorem lt_of_mem_runsBetween {table : TextRunTable} {start stop : TextPos} {i : Nat}
    (h : i ∈ table.runsBetween start stop) : i < table.runs.length := by
  rw [runsBetween] at h
  split at h
  · cases h
  · rw [List.mem_range'_1] at h
    omega

theorem isSome_foldlM {σ α : Type} {f : σ → α → Option σ} : ∀ {l : List α} {s : σ},
    (∀ s, ∀ a ∈ l, (f s a).isSome) → (l.foldlM f s).isSome
  | [], _, _ => rfl
  | a :: l, s, h => by
    obtain ⟨s', hs'⟩ := Option.isSome_iff_exists.mp (h s a List.mem_cons_self)
    rw [List.foldlM_cons, hs']
    exact isSome_foldlM fun s b hb => h s b (List.mem_cons_of_mem a hb)

theorem isSome_rectsOne {table : TextRunTable} {i : Nat} (hi : i < table.runs.length)
    (start stop : TextPos) (out : List Rect) : (table.rectsOne start stop out i).isSome := by
  have hrun := List.getElem?_eq_getElem hi
  have hcount : (table.runs[i]).charCount < (table.runs[i]).offsets.length := by
    rw [TextRun.charCount_eq, TextRun.offset_each]
    exact Nat.lt_succ_self _
  simp only [rectsOne, hrun, Option.bind_eq_bind, Option.bind_some]
  split
  · rfl
  · next hlt =>
    -- both offsets are of characters that the run has, or of its end
    rw [List.getElem?_eq_getElem (by omega), List.getElem?_eq_getElem (by omega)]
    simp only [Option.bind_some]
    split
    · next hextends =>
      cases hlast : out.getLast? with
      | none => simp [hlast] at hextends
      | some last => rfl
    · split <;> rfl

theorem isSome_textOne {table : TextRunTable} {i : Nat} (hi : i < table.runs.length)
    (start stop : TextPos) (acc : Copied) : (table.textOne start stop acc i).isSome := by
  simp only [textOne, List.getElem?_eq_getElem hi, Option.bind_eq_bind, Option.bind_some]
  split
  · rfl
  · split <;> rfl

theorem isSome_selectionRects (table : TextRunTable) (sel : Selection) :
    (table.selectionRects sel).isSome :=
  isSome_foldlM fun out _ hi => isSome_rectsOne (lt_of_mem_runsBetween hi) _ _ out

theorem isSome_selectionText (table : TextRunTable) (sel : Selection) :
    (table.selectionText sel).isSome := by
  rw [selectionText, Option.isSome_map]
  exact isSome_foldlM fun acc _ hi => isSome_textOne (lt_of_mem_runsBetween hi) _ _ acc

/-- For every table, every place, of this table or of another, and every two of them: the word, the
block, the highlight and the copy are found without an index that is out of bounds, and the word is the
largest span of characters of one class around the place. -/
theorem never_panics (isAlphanumeric : Char → Bool) (table : TextRunTable) (pos : TextPos)
    (sel : Selection) :
    ((table.runs[pos.run]? = none ∧ table.wordAtPos isAlphanumeric pos = some none) ∨
      ∃ run c first stop, table.runs[pos.run]? = some run ∧
        run.text[min pos.ch (run.text.length - 1)]? = some c ∧
        table.wordAtPos isAlphanumeric pos = some (some ⟨⟨pos.run, first⟩, ⟨pos.run, stop⟩⟩) ∧
        Around (fun c' => charClass isAlphanumeric c' == charClass isAlphanumeric c) run.text
          (min pos.ch (run.text.length - 1)) first stop ∧
        (pos.ch ≤ run.charCount → first ≤ pos.ch ∧ pos.ch ≤ stop)) ∧
      (table.blockAtPos pos).isSome ∧ (table.selectionRects sel).isSome ∧
      (table.selectionText sel).isSome :=
  ⟨wordAtPos_eq isAlphanumeric table pos, isSome_blockAtPos table pos,
    isSome_selectionRects table sel, isSome_selectionText table sel⟩

/-! ## 5. Places, from points -/

theorem nearestFrom_lt {p : Point} : ∀ {runs : List TextRun} {i k : Nat}
    {best : Option (Nat × Float32 × Float32)} {d : Float32 × Float32},
    nearestFrom p i best runs = some (k, d) → best = some (k, d) ∨ k < i + runs.length
  | [], _, _, _, _, h => .inl h
  | run :: rest, i, k, best, d, h => by
    rw [nearestFrom] at h
    simp only [List.length_cons]
    split at h
    · exact (nearestFrom_lt h).imp_right (by omega)
    · split at h
      · split at h
        · obtain ⟨rfl, -⟩ := Prod.mk.inj (Option.some.inj h)
          exact .inr (by omega)
        · rcases nearestFrom_lt h with hbest | hlt
          · obtain ⟨rfl, -⟩ := Prod.mk.inj (Option.some.inj hbest)
            exact .inr (by omega)
          · exact .inr (by omega)
      · exact (nearestFrom_lt h).imp_right (by omega)

/-- A caret is at a character of the run, or at its end. -/
theorem charAtX_spec (run : TextRun) (x : Float32) :
    ∃ ch, charAtX run x = some ch ∧ ch ≤ run.charCount := by
  cases hfind : run.offsets.findIdx? fun o => o > x with
  | none => exact ⟨run.charCount, by simp [charAtX, hfind], Nat.le_refl _⟩
  | some k =>
    have hk : k < run.offsets.length := (List.findIdx?_eq_some_iff_getElem.mp hfind).1
    have hcount : run.charCount + 1 = run.offsets.length := by
      rw [run.charCount_eq, run.offset_each]
    cases k with
    | zero => exact ⟨0, by simp [charAtX, hfind], Nat.zero_le _⟩
    | succ k =>
      refine ⟨if x - run.offsets[k] < run.offsets[k + 1] - x then k else k + 1, ?_, ?_⟩
      · simp [charAtX, hfind, hk, Nat.lt_of_succ_lt hk]
      · split <;> omega

/-- The place under a point is a place of the table. -/
theorem posAt_spec (table : TextRunTable) (p : Point) :
    ∃ found, table.posAt p = some found ∧
      ∀ pos ∈ found, ∃ run, table.runs[pos.run]? = some run ∧ pos.ch ≤ run.charCount := by
  cases hnear : nearestFrom p 0 none table.runs with
  | none => exact ⟨none, by simp [posAt, nearestRun, hnear], by simp⟩
  | some best =>
    obtain ⟨i, d⟩ := best
    have hi : i < table.runs.length := by
      rcases nearestFrom_lt hnear with hnone | hlt
      · cases hnone
      · omega
    have hget := List.getElem?_eq_getElem hi
    obtain ⟨ch, hch, hle⟩ := charAtX_spec table.runs[i] (p.x - table.runs[i].rect.left)
    refine ⟨some ⟨i, ch⟩, by simp [posAt, nearestRun, hnear, hget, hch], fun pos hpos => ?_⟩
    obtain rfl := Option.some.inj hpos
    exact ⟨_, hget, hle⟩

theorem isSome_selectAll (table : TextRunTable) : table.selectAll.isSome := by
  rw [selectAll]
  split
  · next first behind hfirst hbehind =>
    have hlt : table.runs.length - 1 - behind < table.runs.length := by
      have := (List.findIdx?_eq_some_iff_getElem.mp hfirst).1
      omega
    simp [List.getElem?_eq_getElem hlt]
  · rfl

end TextRunTable

end Esmail.TextSelection
