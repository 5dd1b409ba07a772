/-
# XML documents: writing an element tree, and reading it back

An element tree is told by its walk, one character of text at a time.  The reader is a reader of
XML 1.0: it takes a text only if it is WELL FORMED, so every character is one that the standard
allows (`isChar`), every tag and attribute is spelled as the grammar says, no attribute is given
twice, a reference is to one of the five predefined entities, `]]>` is not in the text, the tags
match, and there is one root.  Ends of lines and white space in values are made uniform, as the
standard has it.

What the reader does not know (a prolog, comments, sections of character data, processing
instructions, numbered references) it refuses.  A text that it takes is well formed, and a text
with a character that is not allowed is taken by no reader of XML.
-/
import Mathlib.Tactic.Common
import Mathlib.Data.List.Basic
import Mathlib.Data.Option.Basic

namespace Xml

/-! ## 1. Characters -/

/-- The characters of a document: no surrogate is one, no control but tab and the ends of lines, and
neither is U+FFFE or U+FFFF. -/
def isChar (c : Char) : Bool :=
  c.toNat == 0x9 || c.toNat == 0xA || c.toNat == 0xD || (0x20 ≤ c.toNat && c.toNat ≤ 0xD7FF) ||
    (0xE000 ≤ c.toNat && c.toNat ≤ 0xFFFD) || (0x10000 ≤ c.toNat && c.toNat ≤ 0x10FFFF)

def isSpace (c : Char) : Bool := c == ' ' || c == '\t' || c == '\n' || c == '\r'

/-- A table of ranges holds a character. -/
def within (ranges : List (Nat × Nat)) (c : Char) : Bool :=
  ranges.any fun r => r.1 ≤ c.toNat && c.toNat ≤ r.2

/-- `NameStartChar`. -/
def nameStarts : List (Nat × Nat) :=
  [(0x3A, 0x3A), (0x41, 0x5A), (0x5F, 0x5F), (0x61, 0x7A), (0xC0, 0xD6), (0xD8, 0xF6), (0xF8, 0x2FF),
    (0x370, 0x37D), (0x37F, 0x1FFF), (0x200C, 0x200D), (0x2070, 0x218F), (0x2C00, 0x2FEF),
    (0x3001, 0xD7FF), (0xF900, 0xFDCF), (0xFDF0, 0xFFFD), (0x10000, 0xEFFFF)]

/-- `NameChar`. -/
def nameChars : List (Nat × Nat) :=
  nameStarts ++ [(0x2D, 0x2E), (0x30, 0x39), (0xB7, 0xB7), (0x300, 0x36F), (0x203F, 0x2040)]

def isNameChar (c : Char) : Bool := within nameChars c

def isName : List Char → Bool
  | [] => false
  | c :: s => within nameStarts c && s.all isNameChar

/-! ## 2. Element trees, and how they are written -/

structure Attr where
  name : List Char
  value : List Char
  deriving DecidableEq, Repr

/-- A step of the walk through an element tree. -/
inductive Event
  | char (c : Char)
  | openTag (name : List Char) (attrs : List Attr)
  | closeTag (name : List Char)
  | emptyTag (name : List Char) (attrs : List Attr)
  deriving DecidableEq, Repr

/-- The predefined entities. -/
def escapeChar (c : Char) : List Char :=
  if c = '&' then "&amp;".toList
  else if c = '<' then "&lt;".toList
  else if c = '>' then "&gt;".toList
  else if c = '"' then "&quot;".toList
  else if c = '\'' then "&apos;".toList
  else [c]

def escape (s : List Char) : List Char := s.flatMap escapeChar

def Attr.write (a : Attr) : List Char := ' ' :: (a.name ++ '=' :: '"' :: (escape a.value ++ ['"']))

/-- What ends a tag. -/
def tailOf (empty : Bool) : List Char := if empty then ['/', '>'] else ['>']

def writeTag (name : List Char) (attrs : List Attr) (empty : Bool) : List Char :=
  '<' :: (name ++ (attrs.flatMap Attr.write ++ tailOf empty))

def Event.write : Event → List Char
  | .char c => escapeChar c
  | .openTag name attrs => writeTag name attrs false
  | .closeTag name => '<' :: '/' :: (name ++ ['>'])
  | .emptyTag name attrs => writeTag name attrs true

def write (evs : List Event) : List Char := evs.flatMap Event.write

/-- The tags match, where these elements are open, the innermost first. -/
def nests : List (List Char) → List Event → Bool
  | [], evs => evs.isEmpty
  | _ :: _, [] => false
  | n :: ns, .char _ :: evs => nests (n :: ns) evs
  | n :: ns, .openTag m _ :: evs => nests (m :: n :: ns) evs
  | n :: ns, .closeTag m :: evs => n == m && nests ns evs
  | n :: ns, .emptyTag _ _ :: evs => nests (n :: ns) evs

/-- There is one element that holds everything. -/
def isDocument : List Event → Bool
  | .openTag name _ :: evs => nests [name] evs
  | [.emptyTag _ _] => true
  | _ => false

/-! ## 3. The reader -/

/-- The reference behind an `&`, and what follows it. -/
def readReference (s : List Char) : Option (Char × List Char) :=
  if "amp;".toList.isPrefixOf s then some ('&', s.drop 4)
  else if "lt;".toList.isPrefixOf s then some ('<', s.drop 3)
  else if "gt;".toList.isPrefixOf s then some ('>', s.drop 3)
  else if "quot;".toList.isPrefixOf s then some ('"', s.drop 5)
  else if "apos;".toList.isPrefixOf s then some ('\'', s.drop 5)
  else none

/-- A character that is not markup, or the one that a reference names. -/
def readChar (c : Char) (s : List Char) : Option (Char × List Char) :=
  if c = '&' then readReference s else if c = '<' then none else some (c, s)

/-- White space in a value is read as a blank. -/
def blankOf (c : Char) : Char := if isSpace c then ' ' else c

/-- A value, behind its quote. -/
def readValue (quote : Char) : Nat → List Char → Option (List Char × List Char)
  | 0, _ => none
  | _, [] => none
  | fuel + 1, c :: s =>
    if c = quote then some ([], s)
    else do
      let (d, s) ← readChar (blankOf c) s
      let (value, s) ← readValue quote fuel s
      return (d :: value, s)

def readAttr (s : List Char) : Option (Attr × List Char) := do
  let name := s.takeWhile isNameChar
  guard (isName name)
  match (s.dropWhile isNameChar).dropWhile isSpace with
  | '=' :: s =>
    match s.dropWhile isSpace with
    | quote :: s =>
      guard (quote = '"' ∨ quote = '\'')
      let (value, s) ← readValue quote s.length s
      return (⟨name, value⟩, s)
    | [] => none
  | _ => none

/-- Behind the name of a tag: its attributes, whether it is the tag of an empty element, and the
rest. -/
def readAttrs : Nat → List Char → Option (List Attr × Bool × List Char)
  | 0, _ => none
  | fuel + 1, s =>
    match s.dropWhile isSpace with
    | '>' :: s => some ([], false, s)
    | '/' :: '>' :: s => some ([], true, s)
    | t =>
      if t.length < s.length then do
        let (a, t) ← readAttr t
        let (attrs, empty, t) ← readAttrs fuel t
        return (a :: attrs, empty, t)
      else none

/-- A tag, behind its `<`. -/
def readTag (s : List Char) : Option (Event × List Char) :=
  match s with
  | '/' :: s => do
    let name := s.takeWhile isNameChar
    guard (isName name)
    match (s.dropWhile isNameChar).dropWhile isSpace with
    | '>' :: s => some (.closeTag name, s)
    | _ => none
  | s => do
    let name := s.takeWhile isNameChar
    guard (isName name)
    let (attrs, empty, s) ← readAttrs s.length (s.dropWhile isNameChar)
    guard (attrs.map (·.name)).Nodup
    return (if empty then .emptyTag name attrs else .openTag name attrs, s)

/-- A tag or a character of the text. -/
def readEvent (c : Char) (s : List Char) : Option (Event × List Char) :=
  if c = '<' then readTag s
  else if "]]>".toList.isPrefixOf (c :: s) then none
  else (readChar c s).map fun r => (.char r.1, r.2)

def readEvents : Nat → List Char → Option (List Event)
  | _, [] => some []
  | 0, _ :: _ => none
  | fuel + 1, c :: s => do
    let (e, s) ← readEvent c s
    let evs ← readEvents fuel s
    return e :: evs

/-- The ends of lines, made uniform. -/
def lineEnds : List Char → List Char
  | [] => []
  | '\r' :: '\n' :: s => '\n' :: lineEnds s
  | c :: s => (if c = '\r' then '\n' else c) :: lineEnds s

/-- The element tree of a document. -/
def read (s : List Char) : Option (List Event) := do
  guard (s.all isChar)
  let s := lineEnds s
  let evs ← readEvents s.length s
  guard (isDocument evs)
  return evs

/-- Only a text of allowed characters is a document. -/
theorem isChar_of_read {s : List Char} (h : (read s).isSome) : ∀ c ∈ s, isChar c := by
  obtain ⟨evs, h⟩ := Option.isSome_iff_exists.mp h
  simp only [read, guard, Option.bind_eq_bind] at h
  split at h
  · next hall => exact List.all_eq_true.mp hall
  · exact absurd h (by simp [failure])

/-! ## 4. What a tree that is written looks like -/

structure Attr.WellFormed (a : Attr) : Prop where
  name : isName a.name
  value : ∀ c ∈ a.value, isChar c ∧ (isSpace c → c = ' ')

structure TagWellFormed (name : List Char) (attrs : List Attr) : Prop where
  isName : isName name
  wellFormed : ∀ a ∈ attrs, a.WellFormed
  nodup : (attrs.map (·.name)).Nodup

def Event.WellFormed : Event → Prop
  | .char c => isChar c ∧ c ≠ '\r'
  | .openTag name attrs => TagWellFormed name attrs
  | .closeTag name => isName name
  | .emptyTag name attrs => TagWellFormed name attrs

def WellFormed (evs : List Event) : Prop := ∀ e ∈ evs, e.WellFormed

@[simp] theorem write_nil : write [] = [] := rfl

@[simp] theorem write_cons (e : Event) (evs : List Event) : write (e :: evs) = e.write ++ write evs :=
  List.flatMap_cons

/-- What can be written as it is, in a text or in a value. -/
def Written (s : List Char) : Prop := ∀ c ∈ s, isChar c ∧ c ≠ '\r'

theorem written_append {s t : List Char} (hs : Written s) (ht : Written t) : Written (s ++ t) :=
  fun c hc => (List.mem_append.mp hc).elim (hs c) (ht c)

theorem written_cons {c : Char} {s : List Char} (hc : isChar c ∧ c ≠ '\r') (hs : Written s) :
    Written (c :: s) :=
  written_append (s := [c]) (fun _ hd => List.mem_singleton.mp hd ▸ hc) hs

theorem written_flatMap {α : Type} {xs : List α} {f : α → List Char} (h : ∀ x ∈ xs, Written (f x)) :
    Written (xs.flatMap f) := by
  intro c hc
  obtain ⟨x, hx, hcx⟩ := List.mem_flatMap.mp hc
  exact h x hx c hcx

theorem written_of_all {s : List Char} (h : (s.all fun c => isChar c && c != '\r') = true) :
    Written s := fun c hc => by simpa using List.all_eq_true.mp h c hc

theorem written_escapeChar {c : Char} (h : isChar c ∧ c ≠ '\r') : Written (escapeChar c) := by
  unfold escapeChar
  split_ifs
  iterate 5 exact written_of_all (by decide)
  exact fun d hd => List.mem_singleton.mp hd ▸ h

/-- A name has no character that is markup, and none that is not allowed. -/
theorem isChar_of_isNameChar {c : Char} (h : isNameChar c) : isChar c ∧ c ≠ '\r' := by
  constructor
  · simp only [isNameChar, within, nameChars, nameStarts, List.any_append, List.any_cons, List.any_nil,
      Bool.or_eq_true, Bool.and_eq_true, decide_eq_true_eq, Bool.or_false] at h
    simp only [isChar, Bool.or_eq_true, Bool.and_eq_true, beq_iff_eq, decide_eq_true_eq]
    omega
  · rintro rfl
    exact absurd h (by decide)

theorem isNameChar_of_isName {name : List Char} (h : isName name) : ∀ c ∈ name, isNameChar c := by
  cases name with
  | nil => simp
  | cons c s =>
    simp only [isName, Bool.and_eq_true] at h
    intro d hd
    rcases List.mem_cons.mp hd with rfl | hd
    · exact (List.any_append ..).trans (by rw [show (nameStarts.any _) = true from h.1, Bool.true_or])
    · exact List.all_eq_true.mp h.2 d hd

theorem written_name {name : List Char} (h : isName name) : Written name :=
  fun c hc => isChar_of_isNameChar (isNameChar_of_isName h c hc)

theorem written_attr {a : Attr} (h : a.WellFormed) : Written a.write := by
  have hvalue : Written (escape a.value) := written_flatMap fun c hc => written_escapeChar <| by
    obtain ⟨hchar, hspace⟩ := h.value c hc
    refine ⟨hchar, ?_⟩
    rintro rfl
    exact absurd (hspace (by decide)) (by decide)
  refine written_cons (by decide) (written_append (written_name h.name) ?_)
  exact written_cons (by decide) (written_cons (by decide)
    (written_append hvalue (written_of_all (by decide))))

theorem written_tag {name : List Char} {attrs : List Attr} (h : TagWellFormed name attrs)
    (empty : Bool) : Written (writeTag name attrs empty) := by
  have htail : Written (tailOf empty) := written_of_all (by cases empty <;> decide)
  exact written_cons (by decide) (written_append (written_name h.isName)
    (written_append (written_flatMap fun a ha => written_attr (h.wellFormed a ha)) htail))

theorem written_event {e : Event} (h : e.WellFormed) : Written e.write := by
  cases e with
  | char c => exact written_escapeChar h
  | openTag name attrs => exact written_tag h false
  | closeTag name =>
    exact written_cons (by decide) (written_cons (by decide)
      (written_append (written_name h) (written_of_all (by decide))))
  | emptyTag name attrs => exact written_tag h true

theorem lineEnds_written : ∀ {s : List Char}, Written s → lineEnds s = s
  | [], _ => rfl
  | c :: s, h => by
    have hc := (h c List.mem_cons_self).2
    have ih := lineEnds_written fun d hd => h d (List.mem_cons_of_mem c hd)
    rw [lineEnds, if_neg hc, ih]
    rintro _ rfl
    exact absurd rfl hc

/-! ## 5. The round trip -/

theorem takeWhile_name {name : List Char} (h : ∀ c ∈ name, isNameChar c) {c : Char}
    (hc : isNameChar c = false) (s : List Char) :
    (name ++ c :: s).takeWhile isNameChar = name ∧ (name ++ c :: s).dropWhile isNameChar = c :: s := by
  constructor
  · rw [List.takeWhile_append_of_pos h, List.takeWhile_cons, hc]
    simp
  · rw [List.dropWhile_append_of_pos h, List.dropWhile_cons, hc]
    simp

theorem readChar_escapeChar (c : Char) (s : List Char) : ∃ d t, escapeChar c ++ s = d :: t ∧
    readChar d t = some (c, s) ∧ d ≠ '<' ∧ d ≠ '>' ∧ d ≠ '"' ∧ (d = c ∨ d = '&') := by
  have href : ∀ p, readReference (p ++ s) = some (c, s) →
      ∃ d t, '&' :: p ++ s = d :: t ∧ readChar d t = some (c, s) ∧ d ≠ '<' ∧ d ≠ '>' ∧ d ≠ '"' ∧
        (d = c ∨ d = '&') :=
    fun p hp => ⟨'&', p ++ s, rfl, by rw [readChar, if_pos rfl, hp], by decide, by decide, by decide,
      .inr rfl⟩
  unfold escapeChar
  split_ifs with hamp hlt hgt hquot hapos
  · exact href "amp;".toList (by simp [readReference, hamp])
  · exact href "lt;".toList (by simp [readReference, hlt])
  · exact href "gt;".toList (by simp [readReference, hgt])
  · exact href "quot;".toList (by simp [readReference, hquot])
  · exact href "apos;".toList (by simp [readReference, hapos])
  · exact ⟨c, s, rfl, by rw [readChar, if_neg hamp, if_neg hlt], hlt, hgt, hquot, .inl rfl⟩

theorem length_escapeChar_pos (c : Char) : 0 < (escapeChar c).length := by
  unfold escapeChar
  split_ifs
  iterate 5 decide
  exact Nat.one_pos

theorem readValue_escape (s : List Char) : ∀ (value : List Char) (fuel : Nat),
    (∀ c ∈ value, isSpace c → c = ' ') → (escape value).length < fuel →
      readValue '"' fuel (escape value ++ '"' :: s) = some (value, s)
  | [], fuel + 1, _, _ => rfl
  | c :: value, fuel + 1, hspace, hfuel => by
    obtain ⟨d, t, heq, hread, -, -, hquot, hd⟩ := readChar_escapeChar c (escape value ++ '"' :: s)
    have hblank : blankOf d = d := by
      unfold blankOf
      split
      · next hsp =>
        rcases hd with rfl | rfl
        · exact (hspace d List.mem_cons_self hsp).symm
        · exact absurd hsp (by decide)
      · rfl
    have hlen : (escape value).length < fuel := by
      have hpos := length_escapeChar_pos c
      rw [escape, List.flatMap_cons, List.length_append, ← escape] at hfuel
      omega
    have ih := readValue_escape s value fuel (fun e he => hspace e (List.mem_cons_of_mem c he)) hlen
    rw [escape, List.flatMap_cons, List.append_assoc, ← escape, heq, readValue, if_neg hquot, hblank,
      hread]
    simp [ih]

/-- An attribute, behind its blank. -/
theorem readAttr_write {a : Attr} (h : a.WellFormed) (s : List Char) :
    readAttr (a.name ++ '=' :: '"' :: (escape a.value ++ '"' :: s)) = some (a, s) := by
  obtain ⟨htake, hdrop⟩ := takeWhile_name (isNameChar_of_isName h.name) (c := '=') (by decide)
    ('"' :: (escape a.value ++ '"' :: s))
  have hvalue : readValue '"' (escape a.value ++ '"' :: s).length (escape a.value ++ '"' :: s) =
      some (a.value, s) := by
    refine readValue_escape s a.value _ (fun c hc => (h.value c hc).2) ?_
    rw [List.length_append, List.length_cons]
    omega
  have hequals : ('=' :: '"' :: (escape a.value ++ '"' :: s)).dropWhile isSpace =
      '=' :: '"' :: (escape a.value ++ '"' :: s) := rfl
  have hquot : ('"' :: (escape a.value ++ '"' :: s)).dropWhile isSpace =
      '"' :: (escape a.value ++ '"' :: s) := rfl
  simp only [readAttr, htake, hdrop, h.name, hequals, hquot, guard, if_true, true_or, hvalue]
  rfl

theorem readAttrs_write (empty : Bool) (s : List Char) : ∀ (attrs : List Attr) (fuel : Nat),
    (∀ a ∈ attrs, a.WellFormed) → attrs.length < fuel →
      readAttrs fuel (attrs.flatMap Attr.write ++ (tailOf empty ++ s)) = some (attrs, empty, s)
  | [], fuel + 1, _, _ => by cases empty <;> rfl
  | a :: attrs, fuel + 1, h, hfuel => by
    have ha := h a List.mem_cons_self
    have ih := readAttrs_write empty s attrs fuel (fun b hb => h b (List.mem_cons_of_mem a hb))
      (Nat.lt_of_succ_lt_succ hfuel)
    have hattr := readAttr_write ha (attrs.flatMap Attr.write ++ (tailOf empty ++ s))
    obtain ⟨c, cs, hname⟩ : ∃ c cs, a.name = c :: cs := by
      cases hname : a.name with
      | nil => exact absurd ha.name (by simp [hname, isName])
      | cons c cs => exact ⟨c, cs, rfl⟩
    have hc : isNameChar c := isNameChar_of_isName ha.name c (by simp [hname])
    have hnot : ∀ d, isNameChar d = false → c ≠ d := by
      rintro d hd rfl
      rw [hc] at hd
      exact absurd hd (by decide)
    have hspace : isSpace c = false := by
      simp [isSpace, hnot ' ' (by decide), hnot '\t' (by decide), hnot '\n' (by decide),
        hnot '\r' (by decide)]
    rw [hname] at hattr
    simp only [List.cons_append] at hattr
    rw [List.flatMap_cons, Attr.write, hname]
    simp only [List.cons_append, List.append_assoc, List.nil_append]
    rw [readAttrs, List.dropWhile_cons, if_pos (by decide), List.dropWhile_cons, hspace]
    simp only [Bool.false_eq_true, if_false]
    split
    · next heq => exact absurd (List.cons.inj heq).1 (hnot '>' (by decide))
    · next heq => exact absurd (List.cons.inj heq).1 (hnot '/' (by decide))
    · rw [if_pos (by simp), hattr]
      simp [ih]

/-- What stands behind the name of a tag ends it. -/
theorem head_tail (attrs : List Attr) (empty : Bool) (s : List Char) :
    ∃ c t, attrs.flatMap Attr.write ++ (tailOf empty ++ s) = c :: t ∧ isNameChar c = false := by
  cases attrs with
  | nil => cases empty <;> exact ⟨_, _, rfl, by decide⟩
  | cons a attrs => exact ⟨_, _, rfl, by decide⟩

theorem length_attrs_le (attrs : List Attr) : attrs.length ≤ (attrs.flatMap Attr.write).length := by
  induction attrs with
  | nil => exact Nat.le_refl 0
  | cons a attrs ih =>
    rw [List.flatMap_cons, Attr.write, List.cons_append, List.length_cons, List.length_cons,
      List.length_append]
    omega

theorem readTag_write {name : List Char} {attrs : List Attr} (h : TagWellFormed name attrs)
    (empty : Bool) (s : List Char) :
    readTag (name ++ (attrs.flatMap Attr.write ++ (tailOf empty ++ s))) =
      some (if empty then .emptyTag name attrs else .openTag name attrs, s) := by
  have hall := isNameChar_of_isName h.isName
  have hslash : ∀ t, name ++ (attrs.flatMap Attr.write ++ (tailOf empty ++ s)) ≠ '/' :: t := by
    cases hname : name with
    | nil => exact absurd h.isName (by simp [hname, isName])
    | cons c cs =>
      intro t heq
      have hc := hall c (by simp [hname])
      rw [(List.cons.inj heq).1] at hc
      exact absurd hc (by decide)
  obtain ⟨c, t, hct, hc⟩ := head_tail attrs empty s
  obtain ⟨htake, hdrop⟩ := takeWhile_name hall hc t
  rw [← hct] at htake hdrop
  have hfuel : attrs.length < (name ++ (attrs.flatMap Attr.write ++ (tailOf empty ++ s))).length := by
    have hattrs := length_attrs_le attrs
    have htail : 0 < (tailOf empty).length := by cases empty <;> decide
    simp only [List.length_append]
    omega
  have hread := readAttrs_write empty s attrs _ h.wellFormed hfuel
  unfold readTag
  split
  · next heq => exact absurd heq (hslash _)
  · simp only [htake, hdrop, h.isName, hread, guard, if_true, Option.bind_eq_bind, Option.bind_some,
      if_pos h.nodup]
    rfl

theorem readTag_close {name : List Char} (h : isName name) (s : List Char) :
    readTag ('/' :: (name ++ '>' :: s)) = some (.closeTag name, s) := by
  obtain ⟨htake, hdrop⟩ := takeWhile_name (isNameChar_of_isName h) (c := '>') (by decide) s
  have hend : ('>' :: s).dropWhile isSpace = '>' :: s := rfl
  simp only [readTag, htake, hdrop, h, hend, guard, if_true]
  rfl

/-- No `>` begins what is written. -/
theorem write_ne_end : ∀ (evs : List Event) (t : List Char), write evs ≠ '>' :: t
  | [], _ => by simp
  | e :: evs, t => by
    intro h
    rw [write_cons] at h
    cases e with
    | char c =>
      obtain ⟨d, u, heq, -, -, hend, -⟩ := readChar_escapeChar c (write evs)
      rw [Event.write, heq] at h
      exact hend (List.cons.inj h).1
    | openTag | closeTag | emptyTag => exact absurd (List.cons.inj h).1 (by decide)

/-- Nor do `]]>` stand in it where an event begins. -/
theorem not_ends_section (evs : List Event) : ¬"]]>".toList <+: write evs := by
  have hstep : ∀ evs t, write evs = ']' :: t → ∃ evs', t = write evs' := by
    intro evs t h
    cases evs with
    | nil => exact absurd h (by simp)
    | cons e evs =>
      rw [write_cons] at h
      cases e with
      | char c =>
        refine ⟨evs, ?_⟩
        simp only [Event.write, escapeChar] at h
        split_ifs at h
        iterate 5 exact absurd (List.cons.inj h).1 (by decide)
        exact (List.cons.inj h).2.symm
      | openTag | closeTag | emptyTag => exact absurd (List.cons.inj h).1 (by decide)
  rintro ⟨t, ht⟩
  obtain ⟨evs₁, h₁⟩ := hstep evs _ ht.symm
  obtain ⟨evs₂, h₂⟩ := hstep evs₁ _ h₁.symm
  exact write_ne_end evs₂ t h₂.symm

theorem readEvent_write {e : Event} (he : e.WellFormed) (evs : List Event) :
    ∃ c s, write (e :: evs) = c :: s ∧ readEvent c s = some (e, write evs) := by
  have hsection := not_ends_section (e :: evs)
  rw [write_cons] at hsection ⊢
  cases e with
  | char c =>
    obtain ⟨d, t, heq, hread, hlt, -⟩ := readChar_escapeChar c (write evs)
    rw [Event.write] at hsection ⊢
    refine ⟨d, t, heq, ?_⟩
    rw [heq] at hsection
    rw [readEvent, if_neg hlt, if_neg (by rwa [List.isPrefixOf_iff_prefix]), hread]
    rfl
  | openTag name attrs =>
    refine ⟨'<', name ++ (attrs.flatMap Attr.write ++ (tailOf false ++ write evs)), ?_,
      readTag_write he false _⟩
    simp [Event.write, writeTag]
  | closeTag name =>
    refine ⟨'<', '/' :: (name ++ '>' :: write evs), ?_, readTag_close he _⟩
    simp [Event.write]
  | emptyTag name attrs =>
    refine ⟨'<', name ++ (attrs.flatMap Attr.write ++ (tailOf true ++ write evs)), ?_,
      readTag_write he true _⟩
    simp [Event.write, writeTag]

theorem readEvents_write : ∀ (evs : List Event) (fuel : Nat), WellFormed evs →
    (write evs).length ≤ fuel → readEvents fuel (write evs) = some evs
  | [], fuel, _, _ => by cases fuel <;> rfl
  | e :: evs, fuel, h, hfuel => by
    obtain ⟨c, s, hwrite, hread⟩ := readEvent_write (h e List.mem_cons_self) evs
    have hlen : (write evs).length < (c :: s).length := by
      rw [← hwrite, write_cons, List.length_append]
      have hpos : 0 < e.write.length := by
        cases e with
        | char c => exact length_escapeChar_pos c
        | openTag | closeTag | emptyTag => exact Nat.succ_pos _
      omega
    rw [hwrite] at hfuel ⊢
    obtain ⟨fuel, rfl⟩ : ∃ n, fuel = n + 1 := Nat.exists_eq_succ_of_ne_zero (by
      rw [List.length_cons] at hfuel
      omega)
    have ih := readEvents_write evs fuel (fun f hf => h f (List.mem_cons_of_mem e hf)) (by omega)
    simp [readEvents, hread, ih]

/-- THE ROUND TRIP: the document that an element tree is written to is well formed, and read as
this tree. -/
theorem read_write {evs : List Event} (h : WellFormed evs) (hdoc : isDocument evs) :
    read (write evs) = some evs := by
  have hwritten : Written (write evs) := written_flatMap fun e he => written_event (h e he)
  have hchars : (write evs).all isChar = true := List.all_eq_true.mpr fun c hc => (hwritten c hc).1
  have hevents := readEvents_write evs _ h (Nat.le_refl _)
  simp [read, hchars, lineEnds_written hwritten, hevents, hdoc, guard]

end Xml
