/-
# Completing a recipient

`accept` of `recipients.rs` and `complete_recipient` of `contacts.rs`.  The caret comes as a count of UTF-16
code units, the edit is made by characters, and the caret goes back in code units.

`accept_edits` is about every text, every caret between two characters or beyond the end, and every
suggestion without a comma: the piece between commas that the caret is in becomes the suggestion, the
other recipients stay what they are, and the caret comes behind the suggestion and the separator after it.

What is edited is a text cut at the commas next to the caret (`Field`), and every text with a caret is one
(`exists_of_caret`).  `token_bounds` finds that piece (`tokenBounds_text`), and the edit is a
rearrangement of it (`completeRecipient_text`).  The split of the result is that of its parts, as a comma
ends the part before the piece and the new one (`commaSeparated_edited`); blanks at the ends of a piece
are no part of an entry.

The other entries are compared as they are split for sending, so white space around them may change.
-/
import Esmail.Outgoing.Reply
import Mathlib.Algebra.GroupWithZero.Nat

namespace Esmail.Recipients

open RustText

/-! ## 1. The edit -/

/-- `char::len_utf16`. -/
def lenUtf16 (c : Char) : Nat := if c.toNat < 0x10000 then 1 else 2

/-- The code units of a text. -/
def utf16Len (s : List Char) : Nat := (s.map lenUtf16).sum

/-- The loop of `char_index`, after `index` characters of `seen` code units. -/
def charIndexFrom (units seen index : Nat) : List Char → Nat
  | [] => index
  | c :: s => if units ≤ seen then index else charIndexFrom units (seen + lenUtf16 c) (index + 1) s

/-- `char_index`. -/
def charIndex (text : List Char) (units : Nat) : Nat := charIndexFrom units 0 0 text

/-- `token_bounds`. -/
def tokenBounds (chars : List Char) (cursor : Nat) : Nat × Nat :=
  let cursor := min cursor chars.length
  let start := ((rfind ',' (chars.take cursor)).map (· + 1)).getD 0
  let stop := (((chars.drop cursor).findIdx? (· == ',')).map (cursor + ·)).getD chars.length
  (start, stop)

/-- `complete_recipient`. -/
def completeRecipient (text : List Char) (cursor : Nat) (insertion : List Char) : List Char × Nat :=
  let bounds := tokenBounds text cursor
  let blank := if 0 < bounds.1 then [' '] else []
  let rest := if bounds.2 < text.length then (text.drop (bounds.2 + 1)).dropWhile isWhitespace else []
  (text.take bounds.1 ++ blank ++ insertion ++ [',', ' '] ++ rest,
    bounds.1 + blank.length + insertion.length + 2)

/-- `Typing`. -/
structure Typing where
  text : List Char
  caret : Nat
  deriving DecidableEq, Repr

/-- `accept`. -/
def accept (typing : Typing) (suggestion : List Char) : List Char × Nat :=
  let r := completeRecipient typing.text (charIndex typing.text typing.caret) suggestion
  (r.1, utf16Len (r.1.take r.2))

/-! ## 2. Code units and characters -/

theorem lenUtf16_pos (c : Char) : 0 < lenUtf16 c := by
  rw [lenUtf16]
  split <;> decide

theorem utf16Len_cons (c : Char) (s : List Char) : utf16Len (c :: s) = lenUtf16 c + utf16Len s := rfl

/-- The index of the characters that end at the caret. -/
theorem charIndexFrom_append {units : Nat} (pre post : List Char) (seen index : Nat)
    (h : units = seen + utf16Len pre ∨ post = [] ∧ seen + utf16Len pre ≤ units) :
    charIndexFrom units seen index (pre ++ post) = index + pre.length := by
  induction pre generalizing seen index with
  | nil =>
    rw [List.nil_append]
    rcases post with - | ⟨c, post⟩
    · rfl
    · rw [charIndexFrom, if_pos]
      · rfl
      · rcases h with h | ⟨hnil, -⟩
        · rw [h]
          exact Nat.le_refl seen
        · cases hnil
  | cons c pre ih =>
    have hpos := lenUtf16_pos c
    rw [utf16Len_cons] at h
    rw [List.cons_append, charIndexFrom, if_neg (by omega),
      ih _ _ (by rcases h with h | ⟨hnil, h⟩; exacts [.inl (by omega), .inr ⟨hnil, by omega⟩]),
      List.length_cons]
    omega

/-- The caret stands after `pre`, or beyond the end of a text that is `pre`. -/
def CaretAfter (caret : Nat) (pre post : List Char) : Prop :=
  caret = utf16Len pre ∨ post = [] ∧ utf16Len pre ≤ caret

theorem charIndex_of_caretAfter {caret : Nat} {pre post : List Char} (h : CaretAfter caret pre post) :
    charIndex (pre ++ post) caret = pre.length := by
  rw [charIndex, charIndexFrom_append pre post 0 0 (by simpa [CaretAfter] using h), Nat.zero_add]

/-! ## 3. The piece under the caret -/

/-- A text cut at the commas next to the caret, which stands between `left` and `right`. -/
structure Field where
  /-- What stands before the comma on the left, if there is one. -/
  front : Option (List Char)
  left : List Char
  right : List Char
  /-- What stands behind the comma on the right, if there is one. -/
  back : Option (List Char)
  left_plain : ',' ∉ left
  right_plain : ',' ∉ right

namespace Field

/-- The text up to the piece, its comma included. -/
def head (f : Field) : List Char := (f.front.map (· ++ [','])).getD []

/-- The text from the comma after the piece on. -/
def tail (f : Field) : List Char := (f.back.map (',' :: ·)).getD []

def text (f : Field) : List Char := f.head ++ f.left ++ (f.right ++ f.tail)

/-- The pieces before the one under the caret, and those after it. -/
def before (f : Field) : List (List Char) := (f.front.map (split ',')).getD []

def after (f : Field) : List (List Char) := (f.back.map (split ',')).getD []

/-- Every text with a caret in it is such a field. -/
theorem exists_of_caret (pre post : List Char) :
    ∃ f : Field, f.head ++ f.left = pre ∧ f.right ++ f.tail = post := by
  obtain ⟨front, left, hleft, hpre⟩ : ∃ (front : Option (List Char)) (left : List Char),
      ',' ∉ left ∧ (front.map (· ++ [','])).getD [] ++ left = pre := by
    rcases rsplitAt_cases ',' pre with ⟨hnone, -⟩ | ⟨front, left, hleft, rfl, -⟩
    · exact ⟨none, pre, hnone, rfl⟩
    · exact ⟨some front, left, hleft, by simp⟩
  obtain ⟨right, back, hright, hpost⟩ : ∃ (right : List Char) (back : Option (List Char)),
      ',' ∉ right ∧ right ++ (back.map (',' :: ·)).getD [] = post := by
    by_cases hmem : ',' ∈ post
    · obtain ⟨right, back, rfl, hright⟩ := List.eq_append_cons_of_mem hmem
      exact ⟨right, some back, hright, rfl⟩
    · exact ⟨post, none, hmem, by simp⟩
  exact ⟨⟨front, left, right, back, hleft, hright⟩, hpre, hpost⟩

theorem split_head (f : Field) (s : List Char) : split ',' (f.head ++ s) = f.before ++ split ',' s := by
  obtain ⟨_ | front, left, right, back, hleft, hright⟩ := f
  · rfl
  · have hhead : front ++ [','] ++ s = front ++ ',' :: s := by simp
    exact (congrArg (split ',') hhead).trans (split_append ',' front s)

theorem split_tail (f : Field) {piece : List Char} (h : ',' ∉ piece) :
    split ',' (piece ++ f.tail) = piece :: f.after := by
  obtain ⟨front, left, right, _ | back, hleft, hright⟩ := f
  · have htail : piece ++ [] = piece := List.append_nil piece
    exact (congrArg (split ',') htail).trans (split_self h)
  · refine (split_append ',' piece back).trans ?_
    rw [split_self h]
    rfl

/-- The pieces of a field. -/
theorem split_text (f : Field) : split ',' f.text = f.before ++ (f.left ++ f.right) :: f.after := by
  have hpiece : ',' ∉ f.left ++ f.right := by simp [f.left_plain, f.right_plain]
  rw [text, List.append_assoc, split_head, ← List.append_assoc, split_tail f hpiece]

/-- `token_bounds` finds the piece. -/
theorem tokenBounds_text (f : Field) :
    tokenBounds f.text (f.head ++ f.left).length =
      (f.head.length, (f.head ++ f.left ++ f.right).length) := by
  have hcursor : min (f.head ++ f.left).length f.text.length = (f.head ++ f.left).length := by
    rw [text, @List.length_append _ (f.head ++ f.left)]
    omega
  have hstart : ((rfind ',' (f.head ++ f.left)).map (· + 1)).getD 0 = f.head.length := by
    obtain ⟨_ | front, left, right, back, hleft, hright⟩ := f
    · simp [head, rfind_eq_none hleft]
    · have hhead : front ++ [','] ++ left = front ++ ',' :: left := by simp
      simp only [head, Option.map_some, Option.getD_some, hhead, rfind_append front hleft]
      simp
  have hstop : (((f.right ++ f.tail).findIdx? (· == ',')).map ((f.head ++ f.left).length + ·)).getD
      f.text.length = (f.head ++ f.left ++ f.right).length := by
    have hnone : f.right.findIdx? (· == ',') = none := by
      rw [List.findIdx?_eq_none_iff]
      intro x hx
      rw [beq_eq_false_iff_ne]
      rintro rfl
      exact f.right_plain hx
    rw [List.findIdx?_append, hnone, @List.length_append _ (f.head ++ f.left)]
    obtain ⟨front, left, right, _ | back, hleft, hright⟩ := f
    · simp [text, tail, Nat.add_assoc]
    · simp [tail, List.findIdx?_cons, Nat.add_assoc]
  rw [tokenBounds]
  simp only [hcursor]
  rw [text, List.take_left, List.drop_left, hstart]
  exact Prod.ext rfl hstop

/-- A blank where the piece has a comma before it. -/
def blank (f : Field) : List Char := if f.front.isSome then [' '] else []

/-- What follows the new piece: the rest of the text, without the blanks it begins with. -/
def rest (f : Field) : List Char := (f.back.map (·.dropWhile isWhitespace)).getD []

/-- The text up to the caret after the edit. -/
def edited (f : Field) (insertion : List Char) : List Char :=
  f.head ++ f.blank ++ insertion ++ [',', ' ']

theorem completeRecipient_text (f : Field) (insertion : List Char) :
    completeRecipient f.text (f.head ++ f.left).length insertion =
      (f.edited insertion ++ f.rest, (f.edited insertion).length) := by
  have hblank : (if 0 < f.head.length then [' '] else []) = f.blank := by
    obtain ⟨_ | front, left, right, back, hleft, hright⟩ := f <;> simp [head, blank]
  have hrest : (if (f.head ++ f.left ++ f.right).length < f.text.length then
      (f.text.drop ((f.head ++ f.left ++ f.right).length + 1)).dropWhile isWhitespace else []) = f.rest := by
    have htext : f.text = f.head ++ f.left ++ f.right ++ f.tail := by simp [text]
    rw [htext]
    obtain ⟨front, left, right, _ | back, hleft, hright⟩ := f
    · simp [tail, rest]
    · rw [List.drop_append, List.drop_eq_nil_of_le (by omega)]
      simp [tail, rest]
  have hhead : f.text.take f.head.length = f.head := by
    rw [text, List.append_assoc, List.take_left]
  rw [completeRecipient, tokenBounds_text]
  simp only [hblank, hrest, hhead]
  simp [edited, Nat.add_assoc]

end Field

/-! ## 4. The pieces after the edit -/

/-- The entries among the pieces between commas. -/
def entries (pieces : List (List Char)) : List (List Char) := (pieces.map trim).filter (· ≠ [])

theorem commaSeparated_eq (s : List Char) : commaSeparated s = entries (split ',' s) := rfl

theorem entries_append (a b : List (List Char)) : entries (a ++ b) = entries a ++ entries b := by
  simp [entries]

/-- Blanks at the beginning are no part of an entry. -/
theorem commaSeparated_dropWhile (s : List Char) :
    commaSeparated (s.dropWhile isWhitespace) = commaSeparated s := by
  induction s with
  | nil => rfl
  | cons c s ih =>
    by_cases hc : isWhitespace c = true
    · have hcomma : c ≠ ',' := by
        rintro rfl
        exact absurd hc (by decide)
      obtain ⟨first, rest, hsplit, hcons⟩ := split_cons hcomma s
      rw [List.dropWhile_cons_of_pos hc, ih, commaSeparated, commaSeparated, hsplit, hcons]
      simp only [List.map_cons, trim_cons hc]
    · rw [List.dropWhile_cons_of_neg hc]

namespace Field

theorem commaSeparated_head (f : Field) (s : List Char) :
    commaSeparated (f.head ++ s) = entries f.before ++ commaSeparated s := by
  rw [commaSeparated_eq, split_head, entries_append]
  rfl

theorem commaSeparated_rest (f : Field) : commaSeparated f.rest = entries f.after := by
  obtain ⟨front, left, right, _ | back, hleft, hright⟩ := f
  · rfl
  · exact commaSeparated_dropWhile back

theorem commaSeparated_blank (f : Field) (s : List Char) :
    commaSeparated (f.blank ++ s) = commaSeparated s := by
  rw [blank]
  split
  · exact commaSeparated_space s
  · rfl

/-- The recipients after the edit. -/
theorem commaSeparated_edited (f : Field) {suggestion : List Char} (hcomma : ',' ∉ suggestion)
    (hne : trim suggestion ≠ []) :
    commaSeparated (f.edited suggestion ++ f.rest) =
      entries f.before ++ trim suggestion :: entries f.after := by
  have htext : f.edited suggestion ++ f.rest =
      f.head ++ (f.blank ++ (suggestion ++ ',' :: (' ' :: f.rest))) := by
    simp [edited]
  rw [htext, commaSeparated_head, commaSeparated_blank, commaSeparated_append,
    commaSeparated_entry hcomma hne, commaSeparated_space, commaSeparated_rest, List.singleton_append]

end Field

/-- Wherever the caret is, accepting a suggestion makes it the piece that the caret was in, and leaves the
other recipients; the caret comes behind the suggestion and the separator after it. -/
theorem accept_edits (pre post : List Char) (caret : Nat) (hcaret : CaretAfter caret pre post)
    (suggestion : List Char) (hcomma : ',' ∉ suggestion) (hne : trim suggestion ≠ []) :
    ∃ (before : List (List Char)) (left right : List Char) (after : List (List Char))
      (head rest : List Char),
      split ',' (pre ++ post) = before ++ (left ++ right) :: after ∧
      split ',' pre = before ++ [left] ∧ split ',' post = right :: after ∧
      Compose.splitAddresses (accept ⟨pre ++ post, caret⟩ suggestion).1 =
        entries before ++ trim suggestion :: entries after ∧
      (accept ⟨pre ++ post, caret⟩ suggestion).1 = head ++ suggestion ++ [',', ' '] ++ rest ∧
      (accept ⟨pre ++ post, caret⟩ suggestion).2 = utf16Len (head ++ suggestion ++ [',', ' ']) ∧
      entries (split ',' head) = entries before := by
  obtain ⟨f, rfl, rfl⟩ := Field.exists_of_caret pre post
  have haccept : accept ⟨f.head ++ f.left ++ (f.right ++ f.tail), caret⟩ suggestion =
      (f.edited suggestion ++ f.rest, utf16Len (f.edited suggestion)) := by
    rw [accept]
    dsimp only
    rw [charIndex_of_caretAfter hcaret]
    have hcomplete := f.completeRecipient_text suggestion
    rw [Field.text] at hcomplete
    rw [hcomplete, List.take_left]
  rw [haccept]
  refine ⟨f.before, f.left, f.right, f.after, f.head ++ f.blank, f.rest, f.split_text, ?_,
    f.split_tail f.right_plain, f.commaSeparated_edited hcomma hne, rfl, rfl, ?_⟩
  · rw [Field.split_head, split_self f.left_plain]
  · have hblank := f.commaSeparated_blank []
    rw [List.append_nil] at hblank
    rw [← commaSeparated_eq, Field.commaSeparated_head, hblank]
    simp [commaSeparated, split, trim, trimBoth, trimEnd]

/-- The second recipient is completed, with an astral character before it. -/
theorem accept_edits_second : ∃ (before : List (List Char)) (left right : List Char)
    (after : List (List Char)),
    split ',' "😀x, al".toList = before ++ (left ++ right) :: after ∧
      Compose.splitAddresses (accept ⟨"😀x, al".toList, 7⟩ "Al <al@x.com>".toList).1 =
        entries before ++ "Al <al@x.com>".toList :: entries after := by
  obtain ⟨before, left, right, after, head, rest, hsplit, -, -, haccept, -⟩ :=
    accept_edits "😀x, al".toList [] 7 (.inl (by decide)) "Al <al@x.com>".toList (by decide)
      (by decide)
  have htrim : trim "Al <al@x.com>".toList = "Al <al@x.com>".toList := by decide
  rw [htrim] at haccept
  exact ⟨before, left, right, after, hsplit, haccept⟩

end Esmail.Recipients
