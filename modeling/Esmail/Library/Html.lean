/-
# HTML fragments: writing an element tree, and reading it back

An element tree is told by its walk: the events in document order.  Two kinds of content make the
walk worth a model.  ESCAPED content, text and attribute values, is written with references and
can hold anything; both kinds of bracket are escaped in either.  RAW content, the text of a `style`
element, is written as it is, and ends at the first thing that looks like the end tag.  So a `<`
that is written in escaped content never is a tag, and one in raw content may be.

The reader is the tokenizer of the HTML standard as far as it matters for such fragments: tags and
their attributes in any spelling, the references that the writer uses, and raw text for `style`
(no other element that is kept raw is looked at).  It reads every text, also one that no tree was
written to.  `read_serialise` is the round trip.
-/
import Esmail.Library.Lexer

namespace Html

/-! ## 1. Element trees, and how they are written -/

structure Attr where
  name : List Char
  value : List Char
  deriving DecidableEq, Repr

/-- A step of the walk through an element tree. -/
inductive Event
  | char (c : Char)
  | openTag (name : List Char) (attrs : List Attr)
  | closeTag (name : List Char)
  /-- A whole `style` element: its contents are one text. -/
  | style (attrs : List Attr) (text : List Char)
  deriving DecidableEq, Repr

/-- The no-break space, which is written as a reference. -/
def nbsp : Char := Char.ofNat 0xA0

def escapeChar (c : Char) : List Char :=
  if c = '&' then "&amp;".toList
  else if c = '<' then "&lt;".toList
  else if c = '>' then "&gt;".toList
  else if c = nbsp then "&nbsp;".toList
  else [c]

def escapeValueChar (c : Char) : List Char :=
  if c = '&' then "&amp;".toList
  else if c = '"' then "&quot;".toList
  else if c = '<' then "&lt;".toList
  else if c = '>' then "&gt;".toList
  else if c = nbsp then "&nbsp;".toList
  else [c]

def Attr.serialise (a : Attr) : List Char :=
  ' ' :: a.name ++ '=' :: '"' :: a.value.flatMap escapeValueChar ++ ['"']

def openTagText (name : List Char) (attrs : List Attr) : List Char :=
  '<' :: name ++ attrs.flatMap Attr.serialise ++ ['>']

def closeTagText (name : List Char) : List Char := '<' :: '/' :: name ++ ['>']

def styleName : List Char := "style".toList

def Event.serialise : Event → List Char
  | .char c => escapeChar c
  | .openTag name attrs => openTagText name attrs
  | .closeTag name => closeTagText name
  | .style attrs text => openTagText styleName attrs ++ text ++ closeTagText styleName

def serialise (evs : List Event) : List Char := evs.flatMap Event.serialise

@[simp] theorem serialise_singleton (e : Event) : serialise [e] = e.serialise :=
  List.flatMap_singleton ..

theorem serialise_append (l₁ l₂ : List Event) :
    serialise (l₁ ++ l₂) = serialise l₁ ++ serialise l₂ := List.flatMap_append

theorem not_mem_escapeChar (c : Char) : '<' ∉ escapeChar c := by
  unfold escapeChar
  split_ifs with hamp hlt hgt hnbsp
  · decide
  · decide
  · decide
  · decide
  · exact fun h => hlt (List.mem_singleton.mp h).symm

/-- A value has no bracket in it, of either kind. -/
theorem not_mem_escapeValueChar (c : Char) : '<' ∉ escapeValueChar c ∧ '>' ∉ escapeValueChar c := by
  unfold escapeValueChar
  split_ifs with hamp hquot hlt hgt hnbsp
  · decide
  · decide
  · decide
  · decide
  · decide
  · exact ⟨fun h => hlt (List.mem_singleton.mp h).symm, fun h => hgt (List.mem_singleton.mp h).symm⟩

/-! ## 2. What a tree that is written looks like -/

def isSpace (c : Char) : Bool := c == ' ' || c == '\n' || c == '\t' || c == '\x0C' || c == '\r'

def lowerChar (c : Char) : Char := if 'A' ≤ c ∧ c ≤ 'Z' then Char.ofNat (c.toNat + 32) else c

def isLetter (c : Char) : Bool := ('a' ≤ c && c ≤ 'z') || ('A' ≤ c && c ≤ 'Z')

/-- The characters of the names that are written. -/
def isPlainNameChar (c : Char) : Bool := ('a' ≤ c && c ≤ 'z') || ('0' ≤ c && c ≤ '9') || c == '-'

def PlainName (name : List Char) : Prop :=
  (∃ c s, name = c :: s ∧ 'a' ≤ c ∧ c ≤ 'z') ∧ ∀ c ∈ name, isPlainNameChar c

theorem PlainName.of_all {c : Char} {s : List Char} (hlow : 'a' ≤ c) (hhigh : c ≤ 'z')
    (h : (c :: s).all isPlainNameChar = true) : PlainName (c :: s) :=
  ⟨⟨c, s, rfl, hlow, hhigh⟩, fun d hd => List.all_eq_true.mp h d hd⟩

/-- Whether an end tag of `style` starts here: the name, in any case, and what ends a name. -/
def endsRaw (s : List Char) : Bool :=
  (s.take 7).map lowerChar == "</style".toList &&
    match s.drop 7 with
    | [] => false
    | c :: _ => isSpace c || c == '/' || c == '>'

/-- No end tag of `style` starts inside the text. -/
def RawText (text : List Char) : Prop :=
  ∀ s t, text = s ++ t → t ≠ [] → endsRaw (t ++ closeTagText styleName) = false

def Event.WellFormed : Event → Prop
  | .char _ => True
  | .openTag name attrs => PlainName name ∧ name ≠ styleName ∧ ∀ a ∈ attrs, PlainName a.name
  | .closeTag name => PlainName name ∧ name ≠ styleName
  | .style attrs text => (∀ a ∈ attrs, PlainName a.name) ∧ RawText text

/-- What is well formed is what an element tree of ordinary tags is written from. -/
def WellFormed (evs : List Event) : Prop := ∀ e ∈ evs, e.WellFormed

theorem lowerChar_ne_bracket {c : Char} (h : c ≠ '<') : lowerChar c ≠ '<' := by
  have hall : ∀ n, n < 91 → 65 ≤ n → Char.ofNat (n + 32) ≠ '<' := by decide
  unfold lowerChar
  split
  · next hup =>
    have hA : 'A'.toNat ≤ c.toNat := hup.1
    have hZ : c.toNat ≤ 'Z'.toNat := hup.2
    exact hall c.toNat (Nat.lt_succ_of_le hZ) hA
  · exact h

theorem rawText_of_no_bracket {text : List Char} (h : '<' ∉ text) : RawText text := by
  intro s t htext ht
  obtain ⟨c, t, rfl⟩ := List.exists_cons_of_ne_nil ht
  have hc : c ≠ '<' := by
    rintro rfl
    exact h (by rw [htext]; simp)
  simp [endsRaw, lowerChar_ne_bracket hc]

/-! ## 3. The reader -/

/-- The reference behind an `&`, and the number of characters it has. -/
def referenceAhead (s : List Char) : Option (Char × Nat) :=
  if "amp;".toList.isPrefixOf s then some ('&', 4)
  else if "lt;".toList.isPrefixOf s then some ('<', 3)
  else if "gt;".toList.isPrefixOf s then some ('>', 3)
  else if "quot;".toList.isPrefixOf s then some ('"', 5)
  else if "nbsp;".toList.isPrefixOf s then some (nbsp, 5)
  else none

/-- A tag, as far as it is read. -/
structure Tag where
  close : Bool
  name : List Char
  attrs : List Attr
  deriving DecidableEq, Repr

inductive Mode
  | start
  /-- A character, `left` characters of its reference before the end. -/
  | char (c : Char) (left : Nat)
  | opened
  | name (tag : Tag)
  /-- Before the name of an attribute. -/
  | between (tag : Tag)
  | attrName (tag : Tag) (attr : List Char)
  | afterAttrName (tag : Tag) (attr : List Char)
  | beforeValue (tag : Tag) (attr : List Char)
  | value (tag : Tag) (attr : List Char) (quote : Option Char) (value : List Char) (left : Nat)
  | tagDone (tag : Tag)
  | raw (attrs : List Attr) (text : List Char)
  /-- Inside the end tag of a `style` element. -/
  | rawEnd (attrs : List Attr) (text : List Char)
  | rawDone (attrs : List Attr) (text : List Char)
  | bogusComment
  | bogusDone
  deriving DecidableEq, Repr

namespace Mode

def first (c : Char) (s : List Char) : Mode :=
  if c = '<' then
    match s with
    | [] => .char c 0
    | d :: s' =>
      if isLetter d then .opened
      else if d = '/' then
        match s' with
        | [] => .char c 0
        | e :: _ => if isLetter e then .opened else .bogusComment
      else if d = '!' ∨ d = '?' then .bogusComment
      else .char c 0
  else if c = '&' then
    match referenceAhead s with
    | some (d, n) => .char d n
    | none => .char c 0
  else .char c 0

/-- What a tag becomes at its `>`. -/
def closed (tag : Tag) : Mode :=
  if !tag.close ∧ tag.name = styleName then .raw tag.attrs [] else .tagDone tag

/-- The name of a tag or an attribute is over. -/
def nameStep (c : Char) (tag : Tag) (go : Mode) (space : Mode) : Mode :=
  if isSpace c then space
  else if c = '/' then .between tag
  else if c = '>' then closed tag
  else go

def addAttr (tag : Tag) (attr value : List Char) : Tag :=
  { tag with attrs := tag.attrs ++ [⟨attr, value⟩] }

def valueStep (tag : Tag) (attr : List Char) (quote : Option Char) (value : List Char)
    (left : Nat) (c : Char) (s : List Char) : Mode :=
  if left ≠ 0 then .value tag attr quote value (left - 1)
  else if quote = some c then .between (addAttr tag attr value)
  else if quote = none ∧ isSpace c then .between (addAttr tag attr value)
  else if quote = none ∧ c = '>' then closed (addAttr tag attr value)
  else if c = '&' then
    match referenceAhead s with
    | some (d, n) => .value tag attr quote (value ++ [d]) n
    | none => .value tag attr quote (value ++ [c]) 0
  else .value tag attr quote (value ++ [c]) 0

def step : Mode → Char → List Char → Option Mode
  | .start, c, s => some (first c s)
  | .char c (left + 1), _, _ => some (.char c left)
  | .opened, c, _ =>
    if c = '/' then some (.name ⟨true, [], []⟩) else some (.name ⟨false, [lowerChar c], []⟩)
  | .name tag, c, _ =>
    some (nameStep c tag (.name { tag with name := tag.name ++ [lowerChar c] }) (.between tag))
  | .between tag, c, _ => some (nameStep c tag (.attrName tag [lowerChar c]) (.between tag))
  | .attrName tag attr, c, _ =>
    if c = '=' then some (.beforeValue tag attr)
    else some (nameStep c (addAttr tag attr []) (.attrName tag (attr ++ [lowerChar c]))
      (.afterAttrName tag attr))
  | .afterAttrName tag attr, c, _ =>
    if c = '=' then some (.beforeValue tag attr)
    else some (nameStep c (addAttr tag attr []) (.attrName (addAttr tag attr []) [lowerChar c])
      (.afterAttrName tag attr))
  | .beforeValue tag attr, c, s =>
    if isSpace c then some (.beforeValue tag attr)
    else if c = '"' ∨ c = '\'' then some (.value tag attr (some c) [] 0)
    else some (valueStep tag attr none [] 0 c s)
  | .value tag attr quote val left, c, s => some (valueStep tag attr quote val left c s)
  | .raw attrs text, c, s =>
    if endsRaw (c :: s) then some (.rawEnd attrs text) else some (.raw attrs (text ++ [c]))
  | .rawEnd attrs text, c, _ =>
    if c = '>' then some (.rawDone attrs text) else some (.rawEnd attrs text)
  | .bogusComment, c, _ => if c = '>' then some .bogusDone else some .bogusComment
  | _, _, _ => none

/-- What a lexeme that ends in this mode says about the tree.  A `style` element that the text
ends in is closed there; a tag that it ends in is nothing. -/
def event : Mode → Option Event
  | .char c _ => some (.char c)
  | .tagDone tag => some (if tag.close then .closeTag tag.name else .openTag tag.name tag.attrs)
  | .raw attrs text | .rawEnd attrs text | .rawDone attrs text => some (.style attrs text)
  | _ => none

end Mode

def reader : Lexer Mode := ⟨.start, Mode.step, fun _ _ => by simp [Mode.step]⟩

/-- The element tree of a fragment. -/
def read (s : List Char) : List Event := (reader.lex s).filterMap fun lexeme => lexeme.1.event

/-! ## 4. The round trip -/

/-- What is read of a lexeme and what follows it. -/
theorem read_of_eats {s p : List Char} {m : Mode} {e : Event} (h : reader.Eats s .start p m)
    (hp : p ≠ []) (hstop : ∀ c s, m.step c s = none) (he : m.event = some e) :
    read (p ++ s) = e :: read s := by
  have hlex := Lexer.Eats.lex_eq (L := reader) h hp hstop
  simp [read, hlex, he]

theorem eats_char (c : Char) (n : Nat) : ∀ (p s : List Char), p.length = n →
    reader.Eats s (.char c n) p (.char c 0)
  | [], s, h => by
    cases h
    rfl
  | d :: p, s, h => by
    cases h
    exact ⟨.char c p.length, rfl, eats_char c _ p s rfl⟩

theorem read_char (c : Char) (s : List Char) :
    read (escapeChar c ++ s) = .char c :: read s := by
  have hone : ∀ d n p, Mode.first d (p ++ s) = .char c n → p.length = n →
      read (d :: p ++ s) = .char c :: read s := by
    intro d n p hfirst hlen
    refine read_of_eats (m := .char c 0) ?_ (by simp) (fun _ _ => rfl) rfl
    exact ⟨.char c n, congrArg some hfirst, eats_char c n p s hlen⟩
  unfold escapeChar
  split
  · next h =>
    subst h
    exact hone '&' 4 "amp;".toList (by simp [Mode.first, referenceAhead]) rfl
  · split
    · next h =>
      subst h
      exact hone '&' 3 "lt;".toList (by simp [Mode.first, referenceAhead]) rfl
    · split
      · next h =>
        subst h
        exact hone '&' 3 "gt;".toList (by simp [Mode.first, referenceAhead]) rfl
      · split
        · next h =>
          subst h
          exact hone '&' 5 "nbsp;".toList (by simp [Mode.first, referenceAhead]) rfl
        · next hamp hlt hgt hnbsp =>
          exact hone c 0 [] (by simp [Mode.first, hamp, hlt]) rfl

/-- What the reader does with a character of a plain name. -/
structure IsNameChar (c : Char) : Prop where
  lower : lowerChar c = c
  not_space : isSpace c = false
  not_slash : c ≠ '/'
  not_end : c ≠ '>'
  not_equals : c ≠ '='

theorem isNameChar_of_plain {c : Char} (h : isPlainNameChar c) : IsNameChar c := by
  have hall : ∀ n, n < 123 → isPlainNameChar (Char.ofNat n) →
      lowerChar (Char.ofNat n) = Char.ofNat n ∧ isSpace (Char.ofNat n) = false ∧
        Char.ofNat n ≠ '/' ∧ Char.ofNat n ≠ '>' ∧ Char.ofNat n ≠ '=' := by decide
  have hlt : c.toNat < 123 := by
    simp only [isPlainNameChar, Bool.or_eq_true, Bool.and_eq_true, decide_eq_true_eq,
      beq_iff_eq] at h
    rcases h with (⟨_, hz⟩ | ⟨_, h9⟩) | rfl
    · exact Nat.lt_succ_of_le (show c.toNat ≤ 'z'.toNat from hz)
    · exact Nat.lt_of_le_of_lt (show c.toNat ≤ '9'.toNat from h9) (by decide)
    · decide
  have hc := hall c.toNat hlt
  rw [Char.ofNat_toNat] at hc
  obtain ⟨h₁, h₂, h₃, h₄, h₅⟩ := hc h
  exact ⟨h₁, h₂, h₃, h₄, h₅⟩

theorem nameStep_plain {c : Char} (h : IsNameChar c) (tag : Tag) (go space : Mode) :
    Mode.nameStep c tag go space = go := by
  simp [Mode.nameStep, h.not_space, h.not_slash, h.not_end]

theorem eats_name (s : List Char) : ∀ (cs : List Char) (tag : Tag), (∀ c ∈ cs, isPlainNameChar c) →
    reader.Eats s (.name tag) cs (.name { tag with name := tag.name ++ cs })
  | [], tag, _ => by
    rw [List.append_nil]
    rfl
  | c :: cs, tag, h => by
    have hc := isNameChar_of_plain (h c List.mem_cons_self)
    have ih := eats_name s cs { tag with name := tag.name ++ [c] }
      fun d hd => h d (List.mem_cons_of_mem _ hd)
    rw [List.append_assoc] at ih
    refine ⟨_, ?_, ih⟩
    simp only [reader, Mode.step, nameStep_plain hc, hc.lower]

theorem eats_attrName (s : List Char) (tag : Tag) : ∀ (cs attr : List Char),
    (∀ c ∈ cs, isPlainNameChar c) → reader.Eats s (.attrName tag attr) cs (.attrName tag (attr ++ cs))
  | [], attr, _ => by
    rw [List.append_nil]
    rfl
  | c :: cs, attr, h => by
    have hc := isNameChar_of_plain (h c List.mem_cons_self)
    have ih := eats_attrName s tag cs (attr ++ [c]) fun d hd => h d (List.mem_cons_of_mem _ hd)
    rw [List.append_assoc] at ih
    refine ⟨_, ?_, ih⟩
    simp only [reader, Mode.step, nameStep_plain hc, hc.lower, if_neg hc.not_equals]

/-- The characters of a reference in a value are skipped. -/
theorem eats_left (s : List Char) (tag : Tag) (attr : List Char) (q : Option Char) (v : List Char) :
    ∀ (p : List Char), reader.Eats s (.value tag attr q v p.length) p (.value tag attr q v 0)
  | [] => rfl
  | _ :: p => ⟨.value tag attr q v p.length, by simp [reader, Mode.step, Mode.valueStep],
      eats_left s tag attr q v p⟩

theorem eats_valueChar (s : List Char) (tag : Tag) (attr v : List Char) (c : Char) :
    reader.Eats s (.value tag attr (some '"') v 0) (escapeValueChar c)
      (.value tag attr (some '"') (v ++ [c]) 0) := by
  have href : ∀ p, referenceAhead (p ++ s) = some (c, p.length) →
      reader.Eats s (.value tag attr (some '"') v 0) ('&' :: p)
        (.value tag attr (some '"') (v ++ [c]) 0) := by
    intro p hp
    refine ⟨.value tag attr (some '"') (v ++ [c]) p.length, ?_, eats_left s tag attr _ _ p⟩
    simp [reader, Mode.step, Mode.valueStep, hp]
  unfold escapeValueChar
  split
  · next h =>
    subst h
    exact href "amp;".toList (by simp [referenceAhead])
  · split
    · next h =>
      subst h
      exact href "quot;".toList (by simp [referenceAhead])
    · split
      · next h =>
        subst h
        exact href "lt;".toList (by simp [referenceAhead])
      · split
        · next h =>
          subst h
          exact href "gt;".toList (by simp [referenceAhead])
        · split
          · next h =>
            subst h
            exact href "nbsp;".toList (by simp [referenceAhead])
          · next hamp hquot _ _ _ =>
            exact ⟨_, by simp [reader, Mode.step, Mode.valueStep, hamp, Ne.symm hquot], rfl⟩

theorem eats_value (s : List Char) (tag : Tag) (attr : List Char) : ∀ (cs v : List Char),
    reader.Eats s (.value tag attr (some '"') v 0) (cs.flatMap escapeValueChar)
      (.value tag attr (some '"') (v ++ cs) 0)
  | [], v => by
    rw [List.append_nil]
    rfl
  | c :: cs, v => by
    have ih := eats_value s tag attr cs (v ++ [c])
    rw [List.append_assoc] at ih
    exact (eats_valueChar _ tag attr v c).append ih

/-- An attribute, after the name of the tag or after another attribute. -/
theorem eats_attr (s : List Char) (tag : Tag) (a : Attr) (ha : PlainName a.name) {m : Mode}
    (hm : ∀ s, m.step ' ' s = some (.between tag)) :
    reader.Eats s m a.serialise (.between (Mode.addAttr tag a.name a.value)) := by
  obtain ⟨name, value⟩ := a
  obtain ⟨⟨c, cs, hname, -⟩, hplain⟩ := ha
  dsimp only at hname hplain
  subst hname
  have hc := isNameChar_of_plain (hplain c List.mem_cons_self)
  have hvalue : reader.Eats s (.value tag (c :: cs) (some '"') [] 0)
      (value.flatMap escapeValueChar ++ ['"']) (.between (Mode.addAttr tag (c :: cs) value)) :=
    (eats_value _ tag (c :: cs) value []).append
      ⟨_, by simp [reader, Mode.step, Mode.valueStep], rfl⟩
  have hname : reader.Eats s (.attrName tag [c])
      (cs ++ '=' :: '"' :: (value.flatMap escapeValueChar ++ ['"']))
      (.between (Mode.addAttr tag (c :: cs) value)) := by
    refine (eats_attrName _ tag cs [c] fun d hd => hplain d (List.mem_cons_of_mem _ hd)).append ?_
    exact ⟨.beforeValue tag (c :: cs), rfl, .value tag (c :: cs) (some '"') [] 0, rfl, hvalue⟩
  unfold Attr.serialise
  rw [List.append_assoc, List.cons_append, List.cons_append]
  refine ⟨.between tag, hm _, .attrName tag [c], ?_, ?_⟩
  · simp only [reader, Mode.step, nameStep_plain hc, hc.lower]
  · simpa using hname

theorem eats_attrs (s : List Char) : ∀ (attrs : List Attr) (tag : Tag),
    (∀ a ∈ attrs, PlainName a.name) → reader.Eats s (.between tag) (attrs.flatMap Attr.serialise)
      (.between { tag with attrs := tag.attrs ++ attrs })
  | [], tag, _ => by
    rw [List.append_nil]
    rfl
  | a :: attrs, tag, h => by
    have ih := eats_attrs s attrs (Mode.addAttr tag a.name a.value)
      fun b hb => h b (List.mem_cons_of_mem _ hb)
    simp only [Mode.addAttr, List.append_assoc] at ih
    exact (eats_attr _ tag a (h a List.mem_cons_self) fun _ => rfl).append ih

/-- An open tag, up to and with its `>`. -/
theorem eats_openTag (s : List Char) {name : List Char} {attrs : List Attr} (hname : PlainName name)
    (hattrs : ∀ a ∈ attrs, PlainName a.name) :
    reader.Eats s .start (openTagText name attrs) (Mode.closed ⟨false, name, attrs⟩) := by
  obtain ⟨⟨c, cs, rfl, hlow, hhigh⟩, hplain⟩ := hname
  have hc := isNameChar_of_plain (hplain c List.mem_cons_self)
  have hletter : isLetter c := by simp [isLetter, hlow, hhigh]
  have hcs : ∀ s, reader.Eats s (.name ⟨false, [c], []⟩) cs (.name ⟨false, c :: cs, []⟩) :=
    fun s => eats_name s cs ⟨false, [c], []⟩ fun d hd => hplain d (List.mem_cons_of_mem _ hd)
  have hrest : ∀ s, reader.Eats s (.name ⟨false, c :: cs, []⟩)
      (attrs.flatMap Attr.serialise ++ ['>']) (Mode.closed ⟨false, c :: cs, attrs⟩) := by
    intro s
    cases attrs with
    | nil => exact ⟨_, rfl, rfl⟩
    | cons a attrs =>
      rw [List.flatMap_cons, List.append_assoc]
      refine (eats_attr _ _ a (hattrs a List.mem_cons_self) fun _ => rfl).append ?_
      refine (eats_attrs _ attrs _ fun b hb => hattrs b (List.mem_cons_of_mem _ hb)).append ?_
      exact ⟨_, rfl, rfl⟩
  unfold openTagText
  rw [List.append_assoc]
  refine ⟨.opened, ?_, .name ⟨false, [c], []⟩, ?_, (hcs _).append (hrest s)⟩
  · simp [reader, Mode.step, Mode.first, hletter]
  · simp [reader, Mode.step, hc.not_slash, hc.lower]

theorem eats_closeTag (s : List Char) {name : List Char} (hname : PlainName name) :
    reader.Eats s .start (closeTagText name) (.tagDone ⟨true, name, []⟩) := by
  obtain ⟨⟨c, cs, rfl, hlow, hhigh⟩, hplain⟩ := hname
  have hletter : isLetter c := by simp [isLetter, hlow, hhigh]
  refine ⟨.opened, ?_, .name ⟨true, [], []⟩, rfl, ?_⟩
  · have hslash : isLetter '/' = false := by decide
    simp [reader, Mode.step, Mode.first, hletter, hslash]
  · exact (eats_name _ (c :: cs) ⟨true, [], []⟩ hplain).append ⟨_, rfl, rfl⟩

theorem plainName_style : PlainName styleName :=
  .of_all (c := 's') (s := "tyle".toList) (by decide) (by decide) (by decide)

/-- The text of a `style` element, as far as the end tag. -/
theorem eats_raw (s : List Char) (attrs : List Attr) : ∀ (t done : List Char),
    (∀ u v, t = u ++ v → v ≠ [] → endsRaw (v ++ s) = false) →
      reader.Eats s (.raw attrs done) t (.raw attrs (done ++ t))
  | [], done, _ => by
    rw [List.append_nil]
    rfl
  | c :: t, done, h => by
    have ih := eats_raw s attrs t (done ++ [c]) fun u v htext hv => h (c :: u) v (by rw [htext]; rfl) hv
    rw [List.append_assoc] at ih
    have hc := h [] (c :: t) rfl (by simp)
    refine ⟨.raw attrs (done ++ [c]), ?_, ih⟩
    rw [List.cons_append] at hc
    simp [reader, Mode.step, hc]

theorem eats_rawEnd (s : List Char) (attrs : List Attr) (text : List Char) :
    reader.Eats s (.raw attrs text) (closeTagText styleName) (.rawDone attrs text) :=
  ⟨.rawEnd attrs text, rfl, _, rfl, _, rfl, _, rfl, _, rfl, _, rfl, _, rfl, _, rfl, rfl⟩

/-- Whether an end tag starts is decided by eight characters. -/
theorem endsRaw_append {v s : List Char} (h : 8 ≤ v.length) : endsRaw (v ++ s) = endsRaw v := by
  have htake : (v ++ s).take 7 = v.take 7 := List.take_append_of_le_length (by omega)
  have hdrop : (v ++ s).drop 7 = v.drop 7 ++ s := List.drop_append_of_le_length (by omega)
  obtain ⟨c, w, hw⟩ := List.exists_cons_of_ne_nil
    (l := v.drop 7) (by simp only [ne_eq, List.drop_eq_nil_iff]; omega)
  simp [endsRaw, htake, hdrop, hw]

theorem length_styleName : styleName.length = 5 := by
  unfold styleName
  rw [String.toList_ofList]
  rfl

theorem read_event (s : List Char) : ∀ {e : Event}, e.WellFormed →
    read (e.serialise ++ s) = e :: read s
  | .char c, _ => read_char c s
  | .openTag name attrs, ⟨hname, hstyle, hattrs⟩ => by
    refine read_of_eats (m := .tagDone ⟨false, name, attrs⟩) ?_ (by simp [Event.serialise, openTagText])
      (fun _ _ => rfl) rfl
    have h := eats_openTag s hname hattrs
    rw [Mode.closed, if_neg fun hraw => hstyle hraw.2] at h
    exact h
  | .closeTag name, ⟨hname, _⟩ =>
    read_of_eats (eats_closeTag s hname) (by simp [Event.serialise, closeTagText]) (fun _ _ => rfl) rfl
  | .style attrs text, ⟨hattrs, htext⟩ => by
    refine read_of_eats (m := .rawDone attrs text) ?_ (by simp [Event.serialise, openTagText])
      (fun _ _ => rfl) rfl
    rw [Event.serialise, List.append_assoc]
    have hopen := eats_openTag (text ++ closeTagText styleName ++ s) plainName_style hattrs
    rw [Mode.closed, if_pos ⟨rfl, rfl⟩] at hopen
    refine hopen.append (Lexer.Eats.append (n := .raw attrs text) ?_ (eats_rawEnd s attrs text))
    refine eats_raw _ attrs text [] fun u v htail hv => ?_
    have hlen : 8 ≤ (v ++ closeTagText styleName).length := by
      simp [closeTagText, length_styleName]
    rw [← List.append_assoc, endsRaw_append hlen]
    exact htext u v htail hv

/-- THE ROUND TRIP: what was written is read. -/
theorem read_serialise : ∀ {evs : List Event}, WellFormed evs → read (serialise evs) = evs
  | [], _ => rfl
  | e :: evs, h => by
    rw [serialise, List.flatMap_cons, read_event _ (h e List.mem_cons_self)]
    exact congrArg _ (read_serialise fun e' he' => h e' (List.mem_cons_of_mem _ he'))

end Html
