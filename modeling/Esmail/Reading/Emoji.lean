/-
# Emoji in a line of text

`emoji.rs`.  `prepare` lays an em space out for each emoji and remembers which one it stands for, by its
place in characters.  An emoji is a whole grapheme cluster; which clusters a text has is
`unicode_segmentation`'s answer, and which of them have artwork is `twemoji_assets`'.

`prepare_putBack` is about every text: the places ascend, a placeholder is laid out in each of them, and
the text with the emoji put back is the original.  An em space of the text's own is not taken for a
placeholder, as only the places that were remembered are looked at.

`Standing` is the invariant of the loop, cluster by cluster: the text so far stands for the clusters it
has been through, and its characters are counted.  Of the clusters no more is assumed than that they are
the text, in order.
-/
import Esmail.Library.Placeholders

namespace Esmail.Emoji

open Placeholders

/-! ## 1. What is an emoji -/

/-- `PLACEHOLDER`. -/
def placeholder : Char := '\u2003'

/-- `VARIATION_SELECTOR_16`. -/
def variationSelector16 : Char := '\uFE0F'

/-- `COMBINING_KEYCAP`. -/
def combiningKeycap : Char := '\u20E3'

/-- The ranges of `is_default_emoji`. -/
def defaultEmoji : List (Nat × Nat) :=
  [(0x1F000, 0x1FAFF),
    (0x231A, 0x231B), (0x23E9, 0x23EC), (0x23F0, 0x23F0), (0x23F3, 0x23F3),
    (0x25FD, 0x25FE), (0x2614, 0x2615), (0x2648, 0x2653),
    (0x267F, 0x267F), (0x2693, 0x2693), (0x26A1, 0x26A1), (0x26AA, 0x26AB),
    (0x26BD, 0x26BE), (0x26C4, 0x26C5), (0x26CE, 0x26CE), (0x26D4, 0x26D4),
    (0x26EA, 0x26EA), (0x26F2, 0x26F3), (0x26F5, 0x26F5), (0x26FA, 0x26FA), (0x26FD, 0x26FD),
    (0x2705, 0x2705), (0x270A, 0x270B), (0x2728, 0x2728), (0x274C, 0x274C), (0x274E, 0x274E),
    (0x2753, 0x2755), (0x2757, 0x2757), (0x2795, 0x2797), (0x27B0, 0x27B0),
    (0x27BF, 0x27BF), (0x2B1B, 0x2B1C), (0x2B50, 0x2B50), (0x2B55, 0x2B55)]

/-- `is_default_emoji`. -/
def isDefaultEmoji (c : Char) : Bool :=
  defaultEmoji.any fun range => range.1 ≤ c.toNat && c.toNat ≤ range.2

/-- `has_emoji_presentation`. -/
def hasEmojiPresentation (cluster : List Char) : Bool :=
  cluster.contains variationSelector16 || cluster.contains combiningKeycap ||
    cluster.head?.any isDefaultEmoji

/-- `str::is_ascii`. -/
def isAscii (s : List Char) : Bool := s.all fun c => c.toNat < 128

/-- `Prepared`: what to lay out, and the emoji by their places in it. -/
structure Prepared where
  text : List Char
  emoji : List (Nat × List Char)
  deriving DecidableEq, Repr

section

variable {Artwork : Type} (fromEmoji : List Char → Option Artwork)
  (graphemes : List Char → List (List Char))

/-- `artwork`: of the cluster as it is, or without its variation selectors. -/
def artwork (cluster : List Char) : Option Artwork :=
  (fromEmoji cluster).or (fromEmoji (cluster.filter (· ≠ variationSelector16)))

/-- `is_emoji`. -/
def isEmoji (cluster : List Char) : Bool :=
  !isAscii cluster && (artwork fromEmoji cluster).isSome && hasEmojiPresentation cluster

/-! ## 2. The text, prepared -/

/-- One cluster, in the loop of `prepare`: what is laid out so far, and how many characters it has. -/
def prepareOne (acc : Prepared × Nat) (cluster : List Char) : Prepared × Nat :=
  if isEmoji fromEmoji cluster then
    (⟨acc.1.text ++ [placeholder], acc.1.emoji ++ [(acc.2, cluster)]⟩, acc.2 + 1)
  else (⟨acc.1.text ++ cluster, acc.1.emoji⟩, acc.2 + cluster.length)

/-- `prepare`. -/
def prepare (original : List Char) : Prepared :=
  if isAscii original then ⟨original, []⟩
  else ((graphemes original).foldl (prepareOne fromEmoji) (⟨[], []⟩, 0)).1

/-- What the loop keeps: the text so far stands for the clusters it has been through, and its
characters are counted. -/
structure Standing (acc : Prepared × Nat) (original : List Char) : Prop where
  stands : StandsFor placeholder acc.1.emoji acc.1.text original
  count : acc.2 = acc.1.text.length

theorem Standing.step {acc : Prepared × Nat} {original : List Char} (h : Standing acc original)
    (cluster : List Char) : Standing (prepareOne fromEmoji acc cluster) (original ++ cluster) := by
  rw [prepareOne]
  split
  · exact ⟨h.count ▸ h.stands.swap cluster, by simp [h.count]⟩
  · exact ⟨h.stands.keep cluster, by simp [h.count]⟩

theorem Standing.foldl {acc : Prepared × Nat} {original : List Char} (h : Standing acc original)
    (clusters : List (List Char)) :
    Standing (clusters.foldl (prepareOne fromEmoji) acc) (original ++ clusters.flatten) := by
  induction clusters generalizing acc original with
  | nil => simpa using h
  | cons cluster clusters ih =>
    have hrest := ih (h.step fromEmoji cluster)
    rwa [List.append_assoc, ← List.flatten_cons] at hrest

/-- The places of the emoji ascend, a placeholder is laid out in each, and with the emoji put back
there the text is the original again.  `hgraphemes` is what is assumed of the clusters: they are the
text, in order. -/
theorem prepare_putBack (original : List Char)
    (hgraphemes : (graphemes original).flatten = original) :
    ((prepare fromEmoji graphemes original).emoji.map Prod.fst).Pairwise (· < ·) ∧
      (∀ emoji ∈ (prepare fromEmoji graphemes original).emoji,
        (prepare fromEmoji graphemes original).text[emoji.1]? = some placeholder) ∧
      putBack (prepare fromEmoji graphemes original).emoji
        (prepare fromEmoji graphemes original).text = original := by
  have hstands : StandsFor placeholder (prepare fromEmoji graphemes original).emoji
      (prepare fromEmoji graphemes original).text original := by
    rw [prepare]
    split
    · exact StandsFor.nil.keep original
    · have hnone : Standing (⟨[], []⟩, 0) [] := ⟨StandsFor.nil, rfl⟩
      have hall := hnone.foldl fromEmoji (graphemes original)
      rw [List.nil_append, hgraphemes] at hall
      exact hall.stands
  exact ⟨hstands.ascending, hstands.here, hstands.back⟩

end

/-- Whether the character belongs to the cluster of the one before it: selectors, joiners, keycaps and
skin tones do. -/
def extending (c : Char) : Bool :=
  c = variationSelector16 || c = '\u200D' || c = combiningKeycap ||
    (0x1F3FB ≤ c.toNat && c.toNat ≤ 0x1F3FF)

/-- The clusters of a text without letters that combine. -/
def plainGraphemes : List Char → List (List Char)
  | [] => []
  | c :: s =>
    if s.head?.any extending then (c :: (plainGraphemes s).headD []) :: (plainGraphemes s).tail
    else [c] :: plainGraphemes s

/-- An em space of the text's own, an emoji of two characters, and a keycap that the artwork has
without its selector. -/
theorem prepare_putBack_emSpace :
    let artworks := fun cluster : List Char =>
      if cluster = ['👍', '🏽'] then some 0 else if cluster = ['1', '\u20E3'] then some 1 else none
    let original := ['a', '\u2003', '👍', '🏽', '1', '\uFE0F', '\u20E3', 'b']
    let prepared := prepare artworks plainGraphemes original
    prepared.emoji = [(2, ['👍', '🏽']), (3, ['1', '\uFE0F', '\u20E3'])] ∧
      prepared.text = ['a', '\u2003', '\u2003', '\u2003', 'b'] ∧
      putBack prepared.emoji prepared.text = original := by
  intro artworks original prepared
  exact ⟨by decide, by decide, (prepare_putBack artworks plainGraphemes original (by decide)).2.2⟩

end Esmail.Emoji
