/-
# The text of an HTML fragment

What a reader of HTML sees of a fragment that consists of text, of a document type, `meta` tags and
`style` elements, of which it sees nothing, and of `pre` elements, which hide a line feed at their
beginning.  A character may be written as it is or as a character reference, by its number or by a
name of the table `names` (`Spells`).

`Reads` is the relation, rule by rule.  `textOf` computes it (`textOf_of_reads`), so a fragment has
one text at most.
-/
import Esmail.Library.Html
import Mathlib.Data.List.TakeWhile

namespace Html

/-! ## 1. How a character is written -/

/-- The value of a digit, in any base up to 16. -/
def digitValue (c : Char) : Nat :=
  if '0' ≤ c ∧ c ≤ '9' then c.toNat - 48
  else if 'a' ≤ c ∧ c ≤ 'f' then c.toNat - 87
  else if 'A' ≤ c ∧ c ≤ 'F' then c.toNat - 55
  else 16

def valueOf (base : Nat) (digits : List Char) : Nat :=
  digits.foldl (fun n c => n * base + digitValue c) 0

/-- The character of a number.  Zero and the numbers from 128 to 159 stand for other ones. -/
def numberedChar (n : Nat) : Option Char :=
  if n.isValidChar ∧ n ≠ 0 ∧ ¬(0x80 ≤ n ∧ n ≤ 0x9F) then some (Char.ofNat n) else none

/-- What marks the base of a number. -/
def bases : List (List Char × Nat) := [([], 10), (['x'], 16), (['X'], 16)]

def isNameChar (c : Char) : Bool := isLetter c || ('0' ≤ c && c ≤ '9')

section Text

variable (names : List (List Char × Char))

/-- The text is read as the character.  A return is read as a line feed, and zero as nothing, where they
are written as they are. -/
inductive Spells : List Char → Char → Prop
  | plain (c : Char) (h : c ∉ ['&', '<', '\r', '\x00']) : Spells [c] c
  | numeric (mark : List Char) (base : Nat) (digits : List Char) (c : Char)
    (hbase : (mark, base) ∈ bases) (hne : digits ≠ []) (hdigits : ∀ d ∈ digits, digitValue d < base)
    (hc : numberedChar (valueOf base digits) = some c) :
    Spells ('&' :: '#' :: (mark ++ (digits ++ [';']))) c
  | named (name : List Char) (c : Char) (hname : ∀ d ∈ name, isNameChar d = true)
    (hc : names.lookup name = some c) : Spells ('&' :: (name ++ [';'])) c

/-- A text, character by character. -/
inductive Spelled : List Char → List Char → Prop
  | nil : Spelled [] []
  | cons {s html t : List Char} {c : Char} (hs : Spells names s c) (h : Spelled html t) :
    Spelled (s ++ html) (c :: t)

/-! ## 2. What is seen of a fragment -/

def doctype : List Char := "<!doctype html>".toList

def metaName : List Char := "meta".toList

def preName : List Char := "pre".toList

/-- What a `pre` element shows of its text. -/
def preText : List Char → List Char
  | '\n' :: t => t
  | t => t

theorem preText_of_ne {c : Char} (hc : c ≠ '\n') (t : List Char) : preText (c :: t) = c :: t := by
  unfold preText
  split
  · next heq => exact absurd (List.cons.inj heq).1 hc
  · rfl

/-- The text of a fragment. -/
inductive Reads : List Char → List Char → Prop
  | nil : Reads [] []
  | text {s html t : List Char} {c : Char} (hs : Spells names s c) (h : Reads html t) :
    Reads (s ++ html) (c :: t)
  | doctype {html t : List Char} (h : Reads html t) : Reads (Html.doctype ++ html) t
  | metaTag {name value html t : List Char} (hname : PlainName name) (h : Reads html t) :
    Reads (openTagText metaName [⟨name, value⟩] ++ html) t
  | style {css html t : List Char} (hcss : '<' ∉ css) (h : Reads html t) :
    Reads (openTagText styleName [] ++ css ++ closeTagText styleName ++ html) t
  | pre {inner shown html t : List Char} (hinner : Spelled names inner shown) (h : Reads html t) :
    Reads (openTagText preName [] ++ inner ++ closeTagText preName ++ html) (preText shown ++ t)

theorem Spelled.reads {html t : List Char} (h : Spelled names html t) : Reads names html t := by
  induction h with
  | nil => exact .nil
  | cons hs _ ih => exact .text hs ih

/-- A text that is written character by character. -/
theorem spelled_flatMap {enc : Char → List Char} {seen : Char → Char}
    (henc : ∀ c, Spells names (enc c) (seen c)) (s : List Char) :
    Spelled names (s.flatMap enc) (s.map seen) := by
  induction s with
  | nil => exact .nil
  | cons c s ih => exact .cons (henc c) ih

/-! ## 3. The reader -/

/-- A number that is over at a semicolon, and how many characters it has. -/
def numberAhead (base : Nat) (s : List Char) : Option (Char × Nat) :=
  let digits := s.takeWhile fun c => digitValue c < base
  if digits ≠ [] ∧ (s.drop digits.length).head? = some ';' then
    (numberedChar (valueOf base digits)).map fun c => (c, digits.length + 1)
  else none

/-- The reference behind an `&`, and how many characters it has. -/
def charReference (s : List Char) : Option (Char × Nat) :=
  if s.head? = some '#' then
    let s := s.tail
    if s.head? = some 'x' ∨ s.head? = some 'X' then
      (numberAhead 16 s.tail).map fun r => (r.1, r.2 + 2)
    else (numberAhead 10 s).map fun r => (r.1, r.2 + 1)
  else
    let name := s.takeWhile isNameChar
    if (s.drop name.length).head? = some ';' then
      (names.lookup name).map fun c => (c, name.length + 1)
    else none

/-- The character that is read here, and how many more there are of it. -/
def charAhead (c : Char) (s : List Char) : Char × Nat :=
  if c = '&' then (charReference names s).getD ('&', 0) else (c, 0)

inductive TextMode
  /-- In text, with so many characters of a reference left; at the beginning of a `pre` element? -/
  | text (left : Nat) (pre : Bool)
  /-- In a tag; that of a `pre` element? -/
  | tag (pre : Bool)
  | style
  deriving DecidableEq, Repr

def textFrom : TextMode → List Char → List Char
  | _, [] => []
  | .text (left + 1) pre, _ :: s => textFrom (.text left pre) s
  | .text 0 pre, c :: s =>
    if c = '<' then
      if ['s', 't', 'y', 'l', 'e', '>'].isPrefixOf s then textFrom .style s
      else textFrom (.tag (['p', 'r', 'e', '>'].isPrefixOf s)) s
    else
      let r := charAhead names c s
      if pre ∧ r.1 = '\n' then textFrom (.text r.2 false) s
      else r.1 :: textFrom (.text r.2 false) s
  | .tag pre, c :: s => if c = '>' then textFrom (.text 0 pre) s else textFrom (.tag pre) s
  | .style, c :: s =>
    if (closeTagText styleName).isPrefixOf (c :: s) then textFrom (.tag false) s
    else textFrom .style s

/-- The text of a fragment. -/
def textOf (html : List Char) : List Char := textFrom names (.text 0 false) html

/-! ## 4. What it reads -/

theorem numberAhead_append {base : Nat} {digits : List Char} (hne : digits ≠ [])
    (hdigits : ∀ d ∈ digits, digitValue d < base) (hbase : base ≤ 16) (html : List Char) :
    numberAhead base (digits ++ ';' :: html) =
      (numberedChar (valueOf base digits)).map fun c => (c, digits.length + 1) := by
  have hstop : ¬ digitValue ';' < base := by
    have h16 : digitValue ';' = 16 := by decide
    omega
  have htake : (digits ++ ';' :: html).takeWhile (fun c => digitValue c < base) = digits := by
    rw [List.takeWhile_append_of_pos fun d hd => decide_eq_true (hdigits d hd),
      List.takeWhile_cons_of_neg (by simpa using hstop), List.append_nil]
  rw [numberAhead]
  simp [htake, hne]

theorem charReference_named {name : List Char} {c : Char}
    (hname : ∀ d ∈ name, isNameChar d = true) (hc : names.lookup name = some c) (html : List Char) :
    charReference names (name ++ ';' :: html) = some (c, name.length + 1) := by
  have hhash : ¬ (name ++ ';' :: html).head? = some '#' := by
    cases name with
    | nil => simp
    | cons d name =>
      intro h
      obtain rfl : d = '#' := by simpa using h
      exact absurd (hname '#' List.mem_cons_self) (by decide)
  have htake : (name ++ ';' :: html).takeWhile isNameChar = name := by
    rw [List.takeWhile_append_of_pos hname, List.takeWhile_cons_of_neg (by decide), List.append_nil]
  rw [charReference, if_neg hhash]
  simp [htake, hc]

/-- How a character is written is how it is read. -/
theorem charAhead_of_spells {s : List Char} {c : Char} (h : Spells names s c) :
    ∃ x rest, s = x :: rest ∧ x ≠ '<' ∧ ∀ html, charAhead names x (rest ++ html) = (c, rest.length) := by
  cases h with
  | plain c h =>
    simp only [List.mem_cons, List.not_mem_nil, or_false, not_or] at h
    exact ⟨c, [], rfl, h.2.1, fun html => by rw [charAhead, if_neg h.1]; rfl⟩
  | numeric mark base digits c hbase hne hdigits hc =>
    refine ⟨'&', _, rfl, by decide, fun html => ?_⟩
    simp only [bases, List.mem_cons, Prod.mk.injEq, List.not_mem_nil, or_false] at hbase
    rcases hbase with ⟨rfl, rfl⟩ | ⟨rfl, rfl⟩ | ⟨rfl, rfl⟩
    · obtain ⟨d, digits, rfl⟩ := List.exists_cons_of_ne_nil hne
      have hd := hdigits d List.mem_cons_self
      have hx : d ≠ 'x' := by
        rintro rfl
        exact absurd hd (by decide)
      have hX : d ≠ 'X' := by
        rintro rfl
        exact absurd hd (by decide)
      have hahead := numberAhead_append hne hdigits (by omega) html
      simp only [List.cons_append] at hahead
      simp [charAhead, charReference, hx, hX, hahead, hc]
    · have hahead := numberAhead_append hne hdigits (by omega) html
      simp [charAhead, charReference, hahead, hc]
    · have hahead := numberAhead_append hne hdigits (by omega) html
      simp [charAhead, charReference, hahead, hc]
  | named name c hname hc =>
    refine ⟨'&', name ++ [';'], rfl, by decide, fun html => ?_⟩
    rw [List.append_assoc, List.singleton_append, charAhead, if_pos rfl,
      charReference_named names hname hc, List.length_append]
    rfl

@[simp] theorem textFrom_nil (m : TextMode) : textFrom names m [] = [] := by
  cases m <;> rfl

theorem textFrom_text (pre : Bool) (c : Char) (s : List Char) :
    textFrom names (.text 0 pre) (c :: s) =
      if c = '<' then
        if ['s', 't', 'y', 'l', 'e', '>'].isPrefixOf s then textFrom names .style s
        else textFrom names (.tag (['p', 'r', 'e', '>'].isPrefixOf s)) s
      else if pre ∧ (charAhead names c s).1 = '\n' then
        textFrom names (.text (charAhead names c s).2 false) s
      else (charAhead names c s).1 :: textFrom names (.text (charAhead names c s).2 false) s := rfl

theorem textFrom_inTag (pre : Bool) (c : Char) (s : List Char) :
    textFrom names (.tag pre) (c :: s) =
      if c = '>' then textFrom names (.text 0 pre) s else textFrom names (.tag pre) s := rfl

theorem textFrom_inStyle (c : Char) (s : List Char) :
    textFrom names .style (c :: s) =
      if (closeTagText styleName).isPrefixOf (c :: s) then textFrom names (.tag false) s
      else textFrom names .style s := rfl

theorem textFrom_skip (p html : List Char) (pre : Bool) :
    textFrom names (.text p.length pre) (p ++ html) = textFrom names (.text 0 pre) html := by
  induction p with
  | nil => rfl
  | cons c p ih => exact ih

theorem textFrom_spells {s : List Char} {c : Char} (h : Spells names s c) (html : List Char)
    (pre : Bool) :
    textFrom names (.text 0 pre) (s ++ html) =
      if pre = true ∧ c = '\n' then textFrom names (.text 0 false) html
      else c :: textFrom names (.text 0 false) html := by
  obtain ⟨x, rest, rfl, hx, hahead⟩ := charAhead_of_spells names h
  rw [List.cons_append, textFrom_text, if_neg hx]
  simp only [hahead, textFrom_skip]

theorem textFrom_tag {p : List Char} (h : '>' ∉ p) (html : List Char) (pre : Bool) :
    textFrom names (.tag pre) (p ++ '>' :: html) = textFrom names (.text 0 pre) html := by
  induction p with
  | nil => rw [List.nil_append, textFrom_inTag, if_pos rfl]
  | cons c p ih =>
    obtain ⟨hc, hp⟩ := List.ne_and_not_mem_of_not_mem_cons h
    rw [List.cons_append, textFrom_inTag, if_neg (Ne.symm hc), ih hp]

theorem textFrom_style {css : List Char} (h : '<' ∉ css) (html : List Char) :
    textFrom names .style (css ++ (closeTagText styleName ++ html)) =
      textFrom names (.text 0 false) html := by
  induction css with
  | nil =>
    have hclose : closeTagText styleName ++ html = '<' :: (("/style".toList) ++ '>' :: html) := rfl
    rw [List.nil_append, hclose, textFrom_inStyle, if_pos (by simp [closeTagText, styleName])]
    exact textFrom_tag names (by decide) html false
  | cons c css ih =>
    obtain ⟨hc, hcss⟩ := List.ne_and_not_mem_of_not_mem_cons h
    have hnot : (closeTagText styleName).isPrefixOf (c :: (css ++ (closeTagText styleName ++ html))) =
        false := by
      show (('<' == c) && _) = false
      rw [beq_false_of_ne hc, Bool.false_and]
    rw [List.cons_append, textFrom_inStyle, if_neg (by simp [hnot]), ih hcss]

theorem textFrom_spelled {inner shown : List Char} (h : Spelled names inner shown) (html : List Char) :
    textFrom names (.text 0 false) (inner ++ html) = shown ++ textFrom names (.text 0 false) html := by
  induction h with
  | nil => rfl
  | cons hs _ ih =>
    rw [List.append_assoc, textFrom_spells names hs, if_neg (by simp), ih]
    rfl

/-- Behind the tag of a `pre` element, whose end tag is still to come. -/
theorem textFrom_pre {inner shown : List Char} (h : Spelled names inner shown) (html : List Char) :
    textFrom names (.text 0 true) (inner ++ '<' :: html) =
      preText shown ++ textFrom names (.text 0 false) ('<' :: html) := by
  cases h with
  | nil => simp [textFrom_text, preText]
  | @cons s inner shown c hs hrest =>
    rw [List.append_assoc, textFrom_spells names hs]
    by_cases hc : c = '\n'
    · rw [if_pos ⟨rfl, hc⟩, hc, preText]
      exact textFrom_spelled names hrest _
    · rw [if_neg fun h => hc h.2, preText_of_ne hc, textFrom_spelled names hrest]
      rfl

theorem not_mem_of_plainName {s : List Char} (h : PlainName s) : '>' ∉ s := fun hmem =>
  absurd (h.2 '>' hmem) (by decide)

theorem not_mem_escapeValue (s : List Char) : '>' ∉ s.flatMap escapeValueChar := by
  intro hmem
  obtain ⟨c, -, hin⟩ := List.mem_flatMap.mp hmem
  exact (not_mem_escapeValueChar c).2 hin

/-- The text of a fragment is what is computed. -/
theorem textOf_of_reads {html t : List Char} (h : Reads names html t) : textOf names html = t := by
  unfold textOf
  induction h with
  | nil => rfl
  | text hs _ ih => rw [textFrom_spells names hs, if_neg (by simp), ih]
  | @doctype html t _ ih =>
    have htag : doctype ++ html = '<' :: ("!doctype html".toList ++ '>' :: html) := rfl
    rw [htag, textFrom_text, if_pos rfl, if_neg (by simp), textFrom_tag names (by decide)]
    exact ih
  | @metaTag name value html t hname _ ih =>
    have htag : openTagText metaName [⟨name, value⟩] ++ html =
        '<' :: (metaName ++ (' ' :: name ++ '=' :: '"' :: value.flatMap escapeValueChar ++ ['"']) ++
          '>' :: html) := by
      simp [openTagText, Attr.serialise]
    have hinside : '>' ∉ metaName ++
        (' ' :: name ++ '=' :: '"' :: value.flatMap escapeValueChar ++ ['"']) := by
      have hmeta : '>' ∉ metaName := by decide
      simp [hmeta, not_mem_of_plainName hname, not_mem_escapeValue value]
    rw [htag, textFrom_text, if_pos rfl, if_neg (by simp [metaName]), textFrom_tag names hinside]
    exact ih
  | @style css html t hcss _ ih =>
    have htag : openTagText styleName [] ++ css ++ closeTagText styleName ++ html =
        '<' :: ((['s', 't', 'y', 'l', 'e', '>'] ++ css) ++ (closeTagText styleName ++ html)) := by
      simp [openTagText, styleName]
    rw [htag, textFrom_text, if_pos rfl, if_pos (by simp), textFrom_style names (by simp [hcss])]
    exact ih
  | @pre inner shown html t hinner _ ih =>
    have htag : openTagText preName [] ++ inner ++ closeTagText preName ++ html =
        '<' :: (preName ++ '>' :: (inner ++ '<' :: ('/' :: preName ++ '>' :: html))) := by
      simp [openTagText, closeTagText]
    rw [htag, textFrom_text, if_pos rfl, if_neg (by simp [preName]), textFrom_tag names (by decide)]
    have hopen : ['p', 'r', 'e', '>'].isPrefixOf
        (preName ++ '>' :: (inner ++ '<' :: ('/' :: preName ++ '>' :: html))) = true := by
      simp [preName]
    rw [hopen, textFrom_pre names hinner, textFrom_text, if_pos rfl, if_neg (by simp),
      textFrom_tag names (by decide)]
    exact congrArg (preText shown ++ ·) ih

end Text

end Html
