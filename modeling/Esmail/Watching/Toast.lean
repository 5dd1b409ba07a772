/-
# The markup of a toast

`notify.rs`.  What a sender chooses, the sender and the subject of a mail, is made one line, cut, and
escaped.  The line has no control character in it; XML has none to spare either, and not allowed in it
besides are the two noncharacters U+FFFE and U+FFFF, which are no controls.

`toast_reads_iff` is about every toast.  What a field is made of is one line, of at most 120 characters
and with single blanks inside it only, and making it a line again changes nothing; and the markup is a
document, with the two lines of text in it, from which a click finds the account, exactly where no
noncharacter of a field is shown.

A line is written by walking the field once (`lineFrom`), so that what is shown of it can be counted
without making the line: `width` counts characters and words.  A line that is tidy is not changed
(`lineFrom_tidy`), and a cut leaves it tidy (`tidy_take`).  The markup is what its elements are written to
(`toastXml_eq_write`), and `Library/Xml.lean` reads back what is written of characters that XML allows; so
what remains is which characters are shown (`mem_shownOf`).

Of the encoding of the launch arguments it is assumed that the pair of this account is read back, and is
written in printable ASCII.
-/
import Esmail.Library.Xml
import Esmail.Library.RustSplit
import Esmail.Watching.Notify
import Mathlib.Data.Bool.AllAny

namespace Esmail.Watching

open RustText

/-! ## 1. One line of text -/

/-- What is no part of a word. -/
def isBlank (c : Char) : Bool := isControl c || isWhitespace c

/-- Where a walk through a field is: before the first word, in one, or behind one. -/
inductive Place
  | start
  | word
  | gap
  deriving DecidableEq, Repr

/-- What a character puts on the line. -/
def Place.put (p : Place) (c : Char) : List Char :=
  if isBlank c then [] else if p = .gap then [' ', c] else [c]

def Place.next (p : Place) (c : Char) : Place :=
  if isBlank c then (if p = .start then .start else .gap) else .word

/-- The words, one blank between two of them. -/
def lineFrom : Place → List Char → List Char
  | _, [] => []
  | p, c :: s => p.put c ++ lineFrom (p.next c) s

theorem lineFrom_blank {c : Char} (hc : isBlank c = true) (p : Place) (s : List Char) :
    lineFrom p (c :: s) = lineFrom (if p = .start then .start else .gap) s := by
  rw [lineFrom, Place.put, Place.next, if_pos hc, if_pos hc, List.nil_append]

theorem lineFrom_char {c : Char} (hc : isBlank c = false) (p : Place) (s : List Char) :
    lineFrom p (c :: s) = (if p = .gap then [' ', c] else [c]) ++ lineFrom .word s := by
  have hnot : ¬isBlank c = true := by simp [hc]
  rw [lineFrom, Place.put, Place.next, if_neg hnot, if_neg hnot]

/-- `sanitize_toast_field`, of characters that are spaces or not. -/
def noControls (s : List Char) : List Char := s.map fun c => if isControl c then ' ' else c

theorem isWhitespace_noControls (c : Char) :
    isWhitespace (if isControl c then ' ' else c) = isBlank c := by
  cases h : isControl c with
  | true => simp [isBlank, h, isWhitespace]
  | false => simp [isBlank, h]

/-- The words of a field, joined: from behind a word, in one (`word` is what is read of it), and from
the start. -/
theorem join_splitWhitespace : ∀ (s : List Char),
    (∀ w, join [' '] (w :: splitWhitespaceFrom [] (noControls s)) = w ++ lineFrom .gap s) ∧
      (∀ word, word ≠ [] → splitWhitespaceFrom word (noControls s) ≠ [] ∧
        join [' '] (splitWhitespaceFrom word (noControls s)) = word.reverse ++ lineFrom .word s) ∧
      join [' '] (splitWhitespaceFrom [] (noControls s)) = lineFrom .start s
  | [] => by
    refine ⟨fun w => ?_, fun word hword => ?_, rfl⟩
    · simp [noControls, splitWhitespaceFrom, join, lineFrom]
    · simp [noControls, splitWhitespaceFrom, join, lineFrom, hword]
  | c :: s => by
    obtain ⟨hgap, hword, hstart⟩ := join_splitWhitespace s
    have hblank := isWhitespace_noControls c
    cases hc : isBlank c with
    | true =>
      rw [hc] at hblank
      have hsplit : ∀ word, splitWhitespaceFrom word (noControls (c :: s)) =
          if word = [] then splitWhitespaceFrom [] (noControls s)
          else word.reverse :: splitWhitespaceFrom [] (noControls s) := fun word => by
        rw [noControls, List.map_cons, splitWhitespaceFrom, hblank, ← noControls]
        simp
      have hline := lineFrom_blank hc
      refine ⟨fun w => ?_, fun word hne => ?_, ?_⟩
      · rw [hsplit, if_pos rfl, hgap, hline]
        rfl
      · rw [hsplit, if_neg hne, hgap, hline]
        exact ⟨List.cons_ne_nil _ _, rfl⟩
      · rw [hsplit, if_pos rfl, hstart, hline]
        rfl
    | false =>
      rw [hc] at hblank
      have hsame : (if isControl c then ' ' else c) = c := by
        have hcontrol : isControl c = false := (Bool.or_eq_false_iff.mp hc).1
        rw [hcontrol]
        rfl
      have hsplit : ∀ word, splitWhitespaceFrom word (noControls (c :: s)) =
          splitWhitespaceFrom (c :: word) (noControls s) := fun word => by
        rw [noControls, List.map_cons, splitWhitespaceFrom, hblank, hsame, ← noControls]
        simp
      have hline := lineFrom_char hc
      have hc' := hword [c] (by simp)
      refine ⟨fun w => ?_, fun word _ => ?_, ?_⟩
      · rw [hsplit, join_cons hc'.1, hc'.2, hline]
        simp
      · obtain ⟨hne, hjoin⟩ := hword (c :: word) (by simp)
        rw [hsplit, hline]
        exact ⟨hne, by rw [hjoin]; simp⟩
      · rw [hsplit, hc'.2, hline]
        rfl

/-- What is shown of a field. -/
def shownOf (s : List Char) : List Char :=
  if (lineFrom .start s).length ≤ maxFieldLen then lineFrom .start s
  else (lineFrom .start s).take (maxFieldLen - 1) ++ ['…']

theorem toList_sanitizeToastField (input : String) :
    (sanitizeToastField input).toList = shownOf input.toList := by
  have hline : (" ".intercalate ((splitWhitespaceFrom [] (input.toList.map fun c =>
      if isControl c then ' ' else c)).map String.ofList)).toList = lineFrom .start input.toList := by
    rw [String.toList_intercalate, List.map_map]
    have hid : String.toList ∘ String.ofList = id := funext fun s => String.toList_ofList
    rw [hid, List.map_id]
    exact (join_splitWhitespace input.toList).2.2
  simp only [sanitizeToastField, truncateChars, hline, shownOf]
  split
  · exact hline
  · rw [String.toList_ofList]

/-! ## 2. What a line looks like -/

/-- Words with one blank between two of them, no other blank, and none at the end; `afterBlank` says
whether a blank stands before. -/
def Tidy : Bool → List Char → Prop
  | afterBlank, [] => afterBlank = false
  | afterBlank, c :: s =>
    (c = ' ' ∧ afterBlank = false ∧ Tidy true s) ∨ (isBlank c = false ∧ Tidy false s)

theorem isBlank_space : isBlank ' ' = true := by decide

theorem isBlank_ellipsis : isBlank '…' = false := by decide

theorem tidy_lineFrom : ∀ (s : List Char), Tidy false (lineFrom .word s) ∧
    Tidy false (lineFrom .gap s) ∧ (lineFrom .start s = [] ∨ Tidy true (lineFrom .start s))
  | [] => ⟨rfl, rfl, .inl rfl⟩
  | c :: s => by
    obtain ⟨hword, hgap, hstart⟩ := tidy_lineFrom s
    cases hc : isBlank c with
    | true =>
      have hline := fun p => lineFrom_blank hc p s
      rw [hline, hline, hline]
      exact ⟨hgap, hgap, hstart⟩
    | false =>
      have hline := fun p => lineFrom_char hc p s
      rw [hline, hline, hline]
      exact ⟨.inr ⟨hc, hword⟩, .inl ⟨rfl, rfl, .inr ⟨hc, hword⟩⟩, .inr (.inr ⟨hc, hword⟩)⟩

/-- A line that is tidy is not changed. -/
theorem lineFrom_tidy : ∀ {s : List Char}, (Tidy false s → lineFrom .word s = s) ∧
    (Tidy true s → lineFrom .start s = s ∧ lineFrom .gap s = ' ' :: s)
  | [] => ⟨fun _ => rfl, fun h => absurd h (by simp [Tidy])⟩
  | c :: s => by
    obtain ⟨hword, hgap⟩ := lineFrom_tidy (s := s)
    constructor
    · rintro (⟨rfl, -, h⟩ | ⟨hc, h⟩)
      · rw [lineFrom_blank isBlank_space]
        exact (hgap h).2
      · rw [lineFrom_char hc, hword h]
        rfl
    · rintro (⟨-, h, -⟩ | ⟨hc, h⟩)
      · exact absurd h (by decide)
      · rw [lineFrom_char hc, lineFrom_char hc, hword h]
        exact ⟨rfl, rfl⟩

/-- Wherever a tidy line is cut, it is tidy with the dots. -/
theorem tidy_take : ∀ (n : Nat) {afterBlank : Bool} {s : List Char}, Tidy afterBlank s →
    Tidy afterBlank (s.take n ++ ['…'])
  | 0, _, _, _ => .inr ⟨isBlank_ellipsis, rfl⟩
  | _ + 1, _, [], _ => .inr ⟨isBlank_ellipsis, rfl⟩
  | n + 1, _, _ :: _, .inl ⟨hc, hafter, h⟩ => .inl ⟨hc, hafter, tidy_take n h⟩
  | n + 1, _, _ :: _, .inr ⟨hc, h⟩ => .inr ⟨hc, tidy_take n h⟩

theorem tidy_shownOf (s : List Char) : shownOf s = [] ∨ Tidy true (shownOf s) := by
  unfold shownOf
  rcases (tidy_lineFrom s).2.2 with h | h
  · rw [h]
    exact .inl rfl
  · split
    · exact .inr h
    · exact .inr (tidy_take _ h)

theorem length_shownOf (s : List Char) : (shownOf s).length ≤ maxFieldLen := by
  unfold shownOf
  split
  · assumption
  · rw [List.length_append, List.length_take, List.length_singleton]
    have : 0 < maxFieldLen := by decide
    omega

theorem shownOf_shownOf (s : List Char) : shownOf (shownOf s) = shownOf s := by
  have hline : lineFrom .start (shownOf s) = shownOf s := by
    rcases tidy_shownOf s with h | h
    · rw [h]
      rfl
    · exact (lineFrom_tidy.2 h).1
  rw [shownOf, hline, if_pos (length_shownOf s)]

/-- What the title and the body of a toast are made of: at most 120 characters, none of them a control,
and blanks, single ones, only inside. -/
structure OneLine (s : List Char) : Prop where
  length : s.length ≤ 120
  no_control : ∀ c ∈ s, isControl c = false
  spaces : ∀ c ∈ s, isWhitespace c → c = ' '
  single : ¬[' ', ' '] <:+: s
  inner : s.head? ≠ some ' ' ∧ s.getLast? ≠ some ' '

theorem Tidy.chars : ∀ {afterBlank : Bool} {s : List Char}, Tidy afterBlank s →
    ∀ c ∈ s, c = ' ' ∨ isBlank c = false
  | _, _ :: _, h, c, hc => by
    rcases List.mem_cons.mp hc with rfl | hmem
    · exact h.imp (·.1) (·.1)
    · rcases h with ⟨-, -, h⟩ | ⟨-, h⟩ <;> exact h.chars c hmem

/-- The end of a tidy line is tidy. -/
theorem Tidy.drop {v : List Char} : ∀ {afterBlank : Bool} {u : List Char}, Tidy afterBlank (u ++ v) →
    ∃ afterBlank, Tidy afterBlank v
  | afterBlank, [], h => ⟨afterBlank, h⟩
  | _, _ :: _, h => by rcases h with ⟨-, -, h⟩ | ⟨-, h⟩ <;> exact h.drop

theorem oneLine_shownOf (s : List Char) : OneLine (shownOf s) := by
  have hlen := length_shownOf s
  rcases tidy_shownOf s with h | h
  · rw [h]
    exact ⟨by simp, by simp, by simp, by simp, by simp⟩
  · have hblank : ∀ c ∈ shownOf s, c = ' ' ∨ isBlank c = false := h.chars
    refine ⟨hlen, fun c hc => ?_, fun c hc hspace => ?_, ?_, ?_, ?_⟩
    · rcases hblank c hc with rfl | hc
      · decide
      · exact (Bool.or_eq_false_iff.mp hc).1
    · refine (hblank c hc).resolve_right fun hc => ?_
      rw [(Bool.or_eq_false_iff.mp hc).2] at hspace
      exact absurd hspace (by decide)
    · rintro ⟨u, v, huv⟩
      rw [← huv, List.append_assoc] at h
      obtain ⟨b, ⟨-, -, h⟩ | ⟨h, -⟩⟩ := h.drop
      · rcases h with ⟨-, h, -⟩ | ⟨h, -⟩ <;> exact absurd h (by decide)
      · exact absurd h (by decide)
    · cases hs : shownOf s with
      | nil => simp
      | cons c t =>
        rw [hs] at h
        rintro heq
        cases heq
        rcases h with ⟨-, h, -⟩ | ⟨h, -⟩ <;> exact absurd h (by decide)
    · intro hlast
      obtain ⟨u, hu⟩ := List.getLast?_eq_some_iff.mp hlast
      rw [hu] at h
      obtain ⟨b, ⟨-, -, h⟩ | ⟨h, -⟩⟩ := h.drop
      · exact absurd h (by simp [Tidy])
      · exact absurd h (by decide)

/-! ## 3. What is shown of a field -/

/-- The words that begin. -/
def wordsFrom : Bool → List Char → Nat
  | _, [] => 0
  | inWord, c :: s =>
    if isBlank c then wordsFrom false s else (if inWord then 0 else 1) + wordsFrom true s

/-- How many characters the line of a field has: those of its words, and one between two words. -/
def width (s : List Char) : Nat :=
  (s.filter fun c => !isBlank c).length + (wordsFrom false s - 1)

theorem length_lineFrom : ∀ (s : List Char),
    (lineFrom .word s).length = (s.filter fun c => !isBlank c).length + wordsFrom true s ∧
      (lineFrom .gap s).length = (s.filter fun c => !isBlank c).length + wordsFrom false s ∧
      (lineFrom .start s).length = width s
  | [] => ⟨rfl, rfl, rfl⟩
  | c :: s => by
    obtain ⟨hword, hgap, hstart⟩ := length_lineFrom s
    rw [width] at hstart ⊢
    cases hc : isBlank c with
    | true =>
      have hline := fun p => lineFrom_blank hc p s
      rw [hline, hline, hline]
      simp [wordsFrom, hc, hgap, hstart]
    | false =>
      have hline := fun p => lineFrom_char hc p s
      rw [hline, hline, hline]
      simp [wordsFrom, hc, hword]
      omega

theorem lineFrom_append : ∀ (p : Place) (s t : List Char),
    lineFrom p (s ++ t) = lineFrom p s ++ lineFrom (s.foldl Place.next p) t
  | _, [], _ => rfl
  | p, c :: s, t => by
    rw [List.cons_append, lineFrom, lineFrom_append (p.next c) s t, lineFrom, List.append_assoc]
    rfl

/-- The line up to a character of a word, which begins the whole line. -/
theorem lineFrom_upTo {x : Char} (hx : isBlank x = false) (p : Place) (before after : List Char) :
    ∃ u v, lineFrom p (before ++ [x]) = u ++ [x] ∧
      lineFrom p (before ++ x :: after) = u ++ x :: v := by
  let gap := if before.foldl Place.next p = .gap then [' '] else []
  have hchar : ∀ t, lineFrom (before.foldl Place.next p) (x :: t) =
      gap ++ x :: lineFrom .word t := fun t => by
    rw [lineFrom_char hx]
    simp only [gap]
    split <;> rfl
  refine ⟨lineFrom p before ++ gap, lineFrom .word after, ?_, ?_⟩
  · rw [lineFrom_append, hchar, List.append_assoc]
    rfl
  · rw [lineFrom_append, hchar, List.append_assoc]

/-- A character of a word is put on the line by itself, and ends what is put there. -/
theorem put_cut {p : Place} {c x : Char} (hx : isBlank x = false) {u w : List Char}
    (h : p.put c = u ++ x :: w) : x = c ∧ w = [] := by
  have hspace : ' ' ≠ x := by
    rintro rfl
    exact absurd hx (by decide)
  unfold Place.put at h
  split at h
  · exact absurd h (by simp)
  · split at h
    · rcases u with _ | ⟨y, _ | ⟨z, u⟩⟩
      · exact absurd (List.cons.inj h).1 hspace
      · obtain ⟨-, htail⟩ := List.cons.inj h
        obtain ⟨hc, hw⟩ := List.cons.inj htail
        exact ⟨hc.symm, hw.symm⟩
      · simp at h
    · rcases u with _ | ⟨y, u⟩
      · obtain ⟨hc, hw⟩ := List.cons.inj h
        exact ⟨hc.symm, hw.symm⟩
      · simp at h

/-- What stands on a line stands in the field. -/
theorem lineFrom_cut {x : Char} (hx : isBlank x = false) : ∀ (p : Place) {s u v : List Char},
    lineFrom p s = u ++ x :: v → ∃ before after, s = before ++ x :: after ∧
      lineFrom p (before ++ [x]) = u ++ [x]
  | _, [], u, v, h => by simp [lineFrom] at h
  | p, c :: s, u, v, h => by
    have hlater : ∀ w, u = p.put c ++ w → lineFrom (p.next c) s = w ++ x :: v →
        ∃ before after, c :: s = before ++ x :: after ∧ lineFrom p (before ++ [x]) = u ++ [x] := by
      intro w hu hw
      obtain ⟨before, after, rfl, hline⟩ := lineFrom_cut hx (p.next c) hw
      refine ⟨c :: before, after, rfl, ?_⟩
      rw [List.cons_append, lineFrom, hline, hu, List.append_assoc]
    rw [lineFrom] at h
    rcases List.append_eq_append_iff.mp h with ⟨w, hu, hw⟩ | ⟨w, hput, hw⟩
    · exact hlater w hu hw
    · cases w with
      | nil => exact hlater [] (by simpa using hput.symm) hw.symm
      | cons y w =>
        obtain ⟨rfl, -⟩ := List.cons.inj hw
        obtain ⟨rfl, rfl⟩ := put_cut hx hput
        exact ⟨[], s, rfl, by rw [List.nil_append, lineFrom, hput, lineFrom, List.append_nil]⟩

/-- What a toast shows of a field, by what stands before it in the field. -/
theorem mem_shownOf {x : Char} (hx : isBlank x = false) (hdots : x ≠ '…') (s : List Char) :
    x ∈ shownOf s ↔ ∃ before after, s = before ++ x :: after ∧
      (width (before ++ [x]) < maxFieldLen ∨ width s ≤ maxFieldLen) := by
  have hwidth : ∀ t, (lineFrom .start t).length = width t := fun t => (length_lineFrom t).2.2
  have hone : 0 < maxFieldLen := by decide
  unfold shownOf
  rw [hwidth]
  constructor
  · intro hmem
    split at hmem
    · next hle =>
      obtain ⟨u, v, hline⟩ := List.append_of_mem hmem
      obtain ⟨before, after, hs, -⟩ := lineFrom_cut hx .start hline
      exact ⟨before, after, hs, .inr hle⟩
    · have htake := (List.mem_append.mp hmem).resolve_right fun h => hdots (List.mem_singleton.mp h)
      obtain ⟨u, v, hcut⟩ := List.append_of_mem htake
      have hline : lineFrom .start s = u ++ x :: (v ++ (lineFrom .start s).drop (maxFieldLen - 1)) := by
        conv_lhs => rw [← List.take_append_drop (maxFieldLen - 1) (lineFrom .start s), hcut]
        simp
      obtain ⟨before, after, hs, hupTo⟩ := lineFrom_cut hx .start hline
      refine ⟨before, after, hs, .inl ?_⟩
      have hlen := congrArg List.length hcut
      rw [List.length_take, List.length_append, List.length_cons] at hlen
      rw [← hwidth, hupTo, List.length_append, List.length_singleton]
      omega
  · rintro ⟨before, after, rfl, hshown⟩
    obtain ⟨u, v, hupTo, hline⟩ := lineFrom_upTo hx .start before after
    split
    · rw [hline]
      simp
    · next hgt =>
      have hlt := hshown.resolve_right hgt
      rw [← hwidth, hupTo, List.length_append, List.length_singleton] at hlt
      refine List.mem_append_left _ ?_
      rw [hline, List.take_append, List.mem_append]
      refine .inr ?_
      obtain ⟨n, hn⟩ : ∃ n, maxFieldLen - 1 - u.length = n + 1 :=
        Nat.exists_eq_succ_of_ne_zero (by omega)
      rw [hn, List.take_succ_cons]
      exact List.mem_cons_self

/-! ## 4. The launch arguments and the markup -/

/-- `url::form_urlencoded`, of which a single pair is written. -/
structure FormUrlencoded where
  /-- `Serializer::append_pair`, then `finish`. -/
  serialize : String → String → String
  parse : String → List (String × String)

/-- What is documented of the encoding: a pair is read back, and it is written in printable ASCII. -/
structure FormUrlencoded.Carries (form : FormUrlencoded) (key value : String) : Prop where
  parse : form.parse (form.serialize key value) = [(key, value)]
  ascii : ∀ c ∈ (form.serialize key value).toList, 0x20 < c.toNat ∧ c.toNat < 0x7F

/-- `launch_arguments`. -/
def launchArguments (form : FormUrlencoded) (accountId : String) : String :=
  form.serialize "account" accountId

/-- `account_from_launch_arguments`. -/
def accountFromLaunchArguments (form : FormUrlencoded) (arguments : String) : Option String :=
  (((form.parse arguments).find? fun pair => pair.1 == "account").map (·.2)).filter fun id =>
    !id.isEmpty

/-- `xml_escape`. -/
def xmlEscape (text : String) : String :=
  String.ofList <| text.toList.flatMap fun c =>
    match c with
    | '&' => "&amp;".toList
    | '<' => "&lt;".toList
    | '>' => "&gt;".toList
    | '"' => "&quot;".toList
    | '\'' => "&apos;".toList
    | c => [c]

/-- `toast_xml`. -/
def toastXml (form : FormUrlencoded) (title body accountId : String) : String :=
  "<toast launch=\"" ++ xmlEscape (launchArguments form accountId) ++
    "\"><visual><binding template=\"ToastGeneric\"><text>" ++ xmlEscape title ++
    "</text><text>" ++ xmlEscape body ++
    "</text></binding></visual><audio src=\"ms-winsoundevent:Notification.Mail\"/></toast>"

/-- The elements of a toast. -/
def toastDocument (launch title body : List Char) : List Xml.Event :=
  [.openTag "toast".toList [⟨"launch".toList, launch⟩], .openTag "visual".toList [],
    .openTag "binding".toList [⟨"template".toList, "ToastGeneric".toList⟩],
    .openTag "text".toList []] ++ title.map .char ++
  [.closeTag "text".toList, .openTag "text".toList []] ++ body.map .char ++
  [.closeTag "text".toList, .closeTag "binding".toList, .closeTag "visual".toList,
    .emptyTag "audio".toList [⟨"src".toList, "ms-winsoundevent:Notification.Mail".toList⟩],
    .closeTag "toast".toList]

/-- The markup is a document with these elements, the two lines of text are these, and a click opens
this account. -/
def ToastReads (form : FormUrlencoded) (title body accountId : String) : Prop :=
  ∃ launch, Xml.read (toastXml form title body accountId).toList =
      some (toastDocument launch title.toList body.toList) ∧
    accountFromLaunchArguments form (String.ofList launch) = some accountId

theorem toList_xmlEscape (text : String) : (xmlEscape text).toList = Xml.escape text.toList := by
  rw [xmlEscape, String.toList_ofList, Xml.escape]
  refine congrArg (List.flatMap · text.toList) (funext fun c => ?_)
  unfold Xml.escapeChar
  split
  all_goals first | rfl | simp_all

theorem write_chars (s : List Char) : Xml.write (s.map .char) = Xml.escape s := by
  rw [Xml.write, Xml.escape, List.flatMap_map]
  rfl

/-- The markup is what its elements are written to. -/
theorem toastXml_eq_write (form : FormUrlencoded) (title body accountId : String) :
    (toastXml form title body accountId).toList =
      Xml.write (toastDocument (launchArguments form accountId).toList title.toList body.toList) := by
  have happ : ∀ s t, Xml.write (s ++ t) = Xml.write s ++ Xml.write t := fun s t => List.flatMap_append
  have hlaunch : ∀ launch evs, Xml.write (.openTag "toast".toList [⟨"launch".toList, launch⟩] :: evs) =
      "<toast launch=\"".toList ++ (Xml.escape launch ++ '"' :: '>' :: Xml.write evs) := by
    intro launch evs
    rw [Xml.write_cons, Xml.Event.write, Xml.writeTag, List.flatMap_singleton, Xml.Attr.write]
    simp only [Xml.tailOf, List.append_assoc, List.cons_append, List.nil_append]
    rfl
  have hopen : "\"><visual><binding template=\"ToastGeneric\"><text>".toList =
      '"' :: '>' :: Xml.write [.openTag "visual".toList [],
        .openTag "binding".toList [⟨"template".toList, "ToastGeneric".toList⟩],
        .openTag "text".toList []] := by decide
  have hnext : "</text><text>".toList =
      Xml.write [.closeTag "text".toList, .openTag "text".toList []] := by decide
  have hclose :
      "</text></binding></visual><audio src=\"ms-winsoundevent:Notification.Mail\"/></toast>".toList =
      Xml.write [.closeTag "text".toList, .closeTag "binding".toList, .closeTag "visual".toList,
        .emptyTag "audio".toList [⟨"src".toList, "ms-winsoundevent:Notification.Mail".toList⟩],
        .closeTag "toast".toList] := by decide
  rw [toastDocument, happ, happ, happ, happ, write_chars, write_chars, hlaunch, ← hnext, ← hclose]
  unfold toastXml
  simp only [String.toList_append, toList_xmlEscape]
  rw [hopen]
  simp only [List.append_assoc, List.cons_append]

/-! ## 5. When the markup is a document -/

theorem nests_chars (n : List Char) (ns : List (List Char)) (s : List Char) (evs : List Xml.Event) :
    Xml.nests (n :: ns) (s.map .char ++ evs) = Xml.nests (n :: ns) evs := by
  induction s with
  | nil => rfl
  | cons c s ih => exact ih

theorem isDocument_toastDocument (launch title body : List Char) :
    Xml.isDocument (toastDocument launch title body) := by
  have hend : Xml.nests ["text".toList, "binding".toList, "visual".toList, "toast".toList]
      [.closeTag "text".toList, .closeTag "binding".toList, .closeTag "visual".toList,
        .emptyTag "audio".toList [⟨"src".toList, "ms-winsoundevent:Notification.Mail".toList⟩],
        .closeTag "toast".toList] = true := by decide
  simp only [toastDocument, List.append_assoc, List.cons_append, List.nil_append, Xml.isDocument,
    Xml.nests, nests_chars, beq_self_eq_true, Bool.true_and]
  exact hend

theorem wellFormed_toastDocument {launch title body : List Char}
    (hlaunch : ∀ c ∈ launch, 0x20 < c.toNat ∧ c.toNat < 0x7F) (htitle : Xml.Written title)
    (hbody : Xml.Written body) : Xml.WellFormed (toastDocument launch title body) := by
  have hchars : ∀ {s : List Char}, Xml.Written s → Xml.WellFormed (s.map .char) := by
    intro s hs e he
    obtain ⟨c, hc, rfl⟩ := List.mem_map.mp he
    exact hs c hc
  have hattr : Xml.Attr.WellFormed ⟨"launch".toList, launch⟩ := by
    refine ⟨(by decide : Xml.isName "launch".toList = true), fun c hc => ?_⟩
    have hrange := hlaunch c hc
    constructor
    · simp only [Xml.isChar, Bool.or_eq_true, Bool.and_eq_true, beq_iff_eq, decide_eq_true_eq]
      omega
    · intro hspace
      simp only [Xml.isSpace, Bool.or_eq_true, beq_iff_eq] at hspace
      rcases hspace with ((rfl | rfl) | rfl) | rfl <;> exact absurd hrange.1 (by decide)
  have hfixed : ∀ {name value : List Char}, Xml.isName name → (value.all fun c =>
      Xml.isChar c && (!Xml.isSpace c || c == ' ')) = true → Xml.Attr.WellFormed ⟨name, value⟩ := by
    intro name value hname hvalue
    refine ⟨hname, fun c hc => ?_⟩
    have := List.all_eq_true.mp hvalue c hc
    simp only [Bool.and_eq_true, Bool.or_eq_true, Bool.not_eq_true', beq_iff_eq] at this
    exact ⟨this.1, fun hspace => this.2.resolve_left (by simp [hspace])⟩
  have hplain : ∀ {name : List Char}, Xml.isName name → Xml.TagWellFormed name [] := fun hname =>
    ⟨hname, by simp, by simp⟩
  have hone : ∀ {name : List Char} {a : Xml.Attr}, Xml.isName name → a.WellFormed →
      Xml.TagWellFormed name [a] := fun hname ha =>
    ⟨hname, fun b hb => List.mem_singleton.mp hb ▸ ha, by simp⟩
  intro e he
  simp only [toastDocument, List.mem_append, List.mem_cons, List.not_mem_nil, or_false] at he
  rcases he with (((h | h) | h) | h) | h
  · rcases h with rfl | rfl | rfl | rfl
    · exact hone (by decide) hattr
    · exact hplain (by decide)
    · exact hone (by decide) (hfixed (by decide) (by decide))
    · exact hplain (by decide)
  · exact hchars htitle e h
  · rcases h with rfl | rfl
    · exact (by decide : Xml.isName "text".toList = true)
    · exact hplain (by decide)
  · exact hchars hbody e h
  · rcases h with rfl | rfl | rfl | rfl | rfl
    · exact (by decide : Xml.isName "text".toList = true)
    · exact (by decide : Xml.isName "binding".toList = true)
    · exact (by decide : Xml.isName "visual".toList = true)
    · exact hone (by decide) (hfixed (by decide) (by decide))
    · exact (by decide : Xml.isName "toast".toList = true)

/-- A line of text is all in the markup, and what is written as a reference is allowed anyway. -/
theorem isChar_of_toastXml {form : FormUrlencoded} {title body accountId : String}
    (h : ∀ c ∈ (toastXml form title body accountId).toList, Xml.isChar c) :
    ∀ c ∈ title.toList ++ body.toList, Xml.isChar c := by
  intro c hc
  have hevent : Xml.Event.char c ∈
      toastDocument (launchArguments form accountId).toList title.toList body.toList := by
    rcases List.mem_append.mp hc with hc | hc <;> simp [toastDocument, hc]
  have hmem : ∀ d ∈ Xml.escapeChar c, Xml.isChar d := fun d hd => h d <| by
    rw [toastXml_eq_write]
    exact List.mem_flatMap.mpr ⟨.char c, hevent, hd⟩
  unfold Xml.escapeChar at hmem
  split_ifs at hmem
  iterate 5
    subst_vars
    decide
  exact hmem c (List.mem_singleton_self c)

/-- The account comes back whatever the lines of text hold; the rest is a matter of the characters. -/
theorem toastReads_iff {form : FormUrlencoded} {accountId : String} (hid : accountId ≠ "")
    (hform : form.Carries "account" accountId) {title body : String}
    (hreturn : '\r' ∉ title.toList ++ body.toList) :
    ToastReads form title body accountId ↔ ∀ c ∈ title.toList ++ body.toList, Xml.isChar c := by
  constructor
  · rintro ⟨launch, hread, -⟩
    have hchars := Xml.isChar_of_read (Option.isSome_iff_exists.mpr ⟨_, hread⟩)
    exact isChar_of_toastXml hchars
  · intro hchars
    have hwritten : ∀ text : String, (∀ c ∈ text.toList, c ∈ title.toList ++ body.toList) →
        Xml.Written text.toList := by
      intro text hsub c hc
      refine ⟨hchars c (hsub c hc), ?_⟩
      rintro rfl
      exact hreturn (hsub _ hc)
    have htitle := hwritten title fun c hc => List.mem_append_left _ hc
    have hbody := hwritten body fun c hc => List.mem_append_right _ hc
    refine ⟨(launchArguments form accountId).toList, ?_, ?_⟩
    · rw [toastXml_eq_write]
      exact Xml.read_write (wellFormed_toastDocument hform.ascii htitle hbody)
        (isDocument_toastDocument _ _ _)
    · have hne : accountId.isEmpty = false := by simpa using hid
      rw [String.ofList_toList, launchArguments, accountFromLaunchArguments, hform.parse]
      simp [Option.filter, hne]

/-- U+FFFE and U+FFFF: no controls, and not allowed in XML. -/
def isNoncharacter (c : Char) : Bool := c.toNat == 0xFFFE || c.toNat == 0xFFFF

/-- A noncharacter of the field is shown: it is among what is left when the line is cut, or the line is
not cut. -/
def ShowsNoncharacter (field : List Char) : Prop :=
  ∃ before c after, field = before ++ c :: after ∧ isNoncharacter c ∧
    (width (before ++ [c]) < maxFieldLen ∨ width field ≤ maxFieldLen)

/-- The fields that a toast is made of. -/
def toastFields (label : String) : List MailHeader → List String
  | [header] => [label, header.sender, header.subject]
  | _ => [label]

theorem isChar_iff {c : Char} (h : isControl c = false) :
    Xml.isChar c ↔ isNoncharacter c = false := by
  have hvalid := c.valid
  simp only [UInt32.isValidChar, Nat.isValidChar] at hvalid
  change c.toNat < 0xD800 ∨ 0xDFFF < c.toNat ∧ c.toNat < 0x110000 at hvalid
  simp only [isControl, Bool.or_eq_false_iff, Bool.and_eq_false_iff, decide_eq_false_iff_not] at h
  simp only [Xml.isChar, isNoncharacter, Bool.or_eq_true, Bool.and_eq_true, Bool.or_eq_false_iff,
    beq_iff_eq, beq_eq_false_iff_ne, decide_eq_true_eq]
  omega

theorem isBlank_of_isNoncharacter {c : Char} (h : isNoncharacter c) : isBlank c = false ∧ c ≠ '…' := by
  simp only [isNoncharacter, Bool.or_eq_true, beq_iff_eq] at h
  constructor
  · simp only [isBlank, isControl, isWhitespace, Bool.or_eq_false_iff, Bool.and_eq_false_iff,
      beq_eq_false_iff_ne, decide_eq_false_iff_not]
    omega
  · rintro rfl
    exact absurd h (by decide)

theorem showsNoncharacter_iff (s : List Char) :
    ShowsNoncharacter s ↔ ∃ c ∈ shownOf s, isNoncharacter c := by
  constructor
  · rintro ⟨before, c, after, hs, hc, hshown⟩
    obtain ⟨hblank, hdots⟩ := isBlank_of_isNoncharacter hc
    exact ⟨c, (mem_shownOf hblank hdots s).mpr ⟨before, after, hs, hshown⟩, hc⟩
  · rintro ⟨c, hmem, hc⟩
    obtain ⟨hblank, hdots⟩ := isBlank_of_isNoncharacter hc
    obtain ⟨before, after, hs, hshown⟩ := (mem_shownOf hblank hdots s).mp hmem
    exact ⟨before, c, after, hs, hc, hshown⟩

/-- A character of the app's own texts. -/
def IsOwn (c : Char) : Prop := 0x20 ≤ c.toNat ∧ c.toNat < 0x7F

instance (c : Char) : Decidable (IsOwn c) := inferInstanceAs (Decidable (_ ∧ _))

theorem isOwn_toString (n : Nat) : ∀ c ∈ (toString n).toList, IsOwn c := by
  intro c hc
  rw [show toString n = n.repr from rfl, Nat.toList_repr] at hc
  have hdigit := Nat.isDigit_of_mem_toDigits (by decide) (by decide) hc
  simp only [Char.isDigit, Bool.and_eq_true, decide_eq_true_eq] at hdigit
  have h0 : '0'.toNat ≤ c.toNat := hdigit.1
  have h9 : c.toNat ≤ '9'.toNat := hdigit.2
  exact ⟨Nat.le_trans (by decide) h0, Nat.lt_of_le_of_lt h9 (by decide)⟩

/-- A character of the lines of a toast is the app's own or is shown of a field. -/
def Made (fields : List String) (s : List Char) : Prop :=
  ∀ c ∈ s, IsOwn c ∨ ∃ field ∈ fields, c ∈ shownOf field.toList

theorem made_own {fields : List String} {s : List Char} (h : ∀ c ∈ s, IsOwn c) : Made fields s :=
  fun c hc => .inl (h c hc)

theorem made_text {fields : List String} (text : String)
    (h : text.toList.all fun c => decide (IsOwn c)) : Made fields text.toList :=
  made_own (List.all_iff_forall_prop.mp h)

theorem made_field {fields : List String} {field : String} (h : field ∈ fields) :
    Made fields (sanitizeToastField field).toList := fun c hc =>
  .inr ⟨field, h, by rwa [← toList_sanitizeToastField]⟩

theorem made_append {fields : List String} {s t : List Char} (hs : Made fields s)
    (ht : Made fields t) : Made fields (s ++ t) :=
  fun c hc => (List.mem_append.mp hc).elim (hs c) (ht c)

theorem made_orElse {fields : List String} {text other : String} (ht : Made fields text.toList)
    (ho : Made fields other.toList) :
    Made fields (if text.isEmpty then other else text).toList := by
  split
  · exact ho
  · exact ht

theorem mem_orElse {text : String} {c : Char} (h : c ∈ text.toList) (other : String) :
    c ∈ (if text.isEmpty then other else text).toList := by
  split
  · next hempty =>
    rw [String.isEmpty_iff] at hempty
    rw [hempty] at h
    exact absurd h (by simp)
  · exact h

/-- The lines of a toast are made of its fields, and show all that is to be shown of them. -/
theorem made_toast {label : String} {headers : List MailHeader} {title body : String}
    (h : buildAccountNotification label headers = some (title, body)) :
    Made (toastFields label headers) (title.toList ++ body.toList) ∧
      ∀ field ∈ toastFields label headers, ∀ c ∈ shownOf field.toList,
        c ∈ title.toList ++ body.toList := by
  obtain ⟨⟨title₀, body₀⟩, hbuild, heq⟩ := Option.map_eq_some_iff.mp h
  have hlabel : label ∈ toastFields label headers := by
    unfold toastFields
    split <;> exact List.mem_cons_self
  -- the label is put before the title, unless there is nothing to show of it
  have hput : Made (toastFields label headers) (title₀.toList ++ body₀.toList) →
      Made (toastFields label headers) (title.toList ++ body.toList) ∧
        (∀ c ∈ shownOf label.toList, c ∈ title.toList) ∧
        ∀ c ∈ title₀.toList ++ body₀.toList, c ∈ title.toList ++ body.toList := by
    intro hmade
    simp only at heq
    split at heq
    · next hempty =>
      obtain ⟨rfl, rfl⟩ := Prod.mk.inj heq
      rw [String.isEmpty_iff] at hempty
      refine ⟨hmade, fun c hc => ?_, fun c hc => hc⟩
      rw [← toList_sanitizeToastField, hempty] at hc
      exact absurd hc (by simp)
    · obtain ⟨rfl, rfl⟩ := Prod.mk.inj heq
      have hcolon : Made (toastFields label headers) (": ").toList := made_text ": " (by decide)
      simp only [String.toList_append, List.append_assoc]
      refine ⟨made_append (made_field hlabel) (made_append hcolon hmade), fun c hc => ?_,
        fun c hc => ?_⟩
      · rw [toList_sanitizeToastField]
        exact List.mem_append_left _ hc
      · exact List.mem_append_right _ (List.mem_append_right _ hc)
  match headers with
  | [] => exact absurd hbuild (by simp [buildNotification])
  | [header] =>
    simp only [buildNotification, Option.some.injEq, Prod.mk.injEq] at hbuild
    obtain ⟨htitle, hbody⟩ := hbuild
    have hfield : ∀ field ∈ toastFields label [header],
        Made (toastFields label [header]) (sanitizeToastField field).toList := fun _ => made_field
    have hfrom : Made (toastFields label [header]) ("New mail from ").toList :=
      made_text "New mail from " (by decide)
    have hsender := made_orElse (hfield header.sender (by simp [toastFields]))
      (made_text "someone" (by decide))
    have hsubject := made_orElse (hfield header.subject (by simp [toastFields]))
      (made_text "(no subject)" (by decide))
    obtain ⟨hmade, hlab, hrest⟩ := hput (by
      rw [← htitle, ← hbody, String.toList_append]
      exact made_append (made_append hfrom hsender) hsubject)
    refine ⟨hmade, fun field hfield c hc => ?_⟩
    simp only [toastFields, List.mem_cons, List.not_mem_nil, or_false] at hfield
    rcases hfield with rfl | rfl | rfl
    · exact List.mem_append_left _ (hlab c hc)
    · refine hrest c (List.mem_append_left _ ?_)
      rw [← toList_sanitizeToastField] at hc
      rw [← htitle, String.toList_append]
      exact List.mem_append_right _ (mem_orElse hc _)
    · refine hrest c (List.mem_append_right _ ?_)
      rw [← toList_sanitizeToastField] at hc
      rw [← hbody]
      exact mem_orElse hc _
  | first :: second :: more =>
    simp only [buildNotification, Option.some.injEq, Prod.mk.injEq] at hbuild
    obtain ⟨htitle, hbody⟩ := hbuild
    obtain ⟨hmade, hlab, -⟩ := hput (by
      rw [← htitle, ← hbody, String.toList_append]
      exact made_append (made_text _ (by decide))
        (made_append (made_own (isOwn_toString _)) (made_text _ (by decide))))
    refine ⟨hmade, fun field hfield c hc => ?_⟩
    rw [List.mem_singleton.mp hfield] at hc
    exact List.mem_append_left _ (hlab c hc)

/-- The markup of every toast is a document, but for a noncharacter that is shown; and what a field is
made of is one line.

The first part needs no condition.  The second is an equivalence, as a noncharacter that is shown is in the
markup, and no reader of XML takes it. -/
theorem toast_reads_iff {form : FormUrlencoded} {accountId label title body : String}
    {headers : List MailHeader} (hid : accountId ≠ "") (hform : form.Carries "account" accountId)
    (h : buildAccountNotification label headers = some (title, body)) :
    (∀ input, OneLine (sanitizeToastField input).toList ∧
      sanitizeToastField (sanitizeToastField input) = sanitizeToastField input) ∧
    (ToastReads form title body accountId ↔
      ∀ field ∈ toastFields label headers, ¬ShowsNoncharacter field.toList) := by
  obtain ⟨hmade, hall⟩ := made_toast h
  have hcontrol : ∀ {field : String}, ∀ c ∈ shownOf field.toList, isControl c = false :=
    fun c hc => (oneLine_shownOf _).no_control c hc
  constructor
  · intro input
    constructor
    · rw [toList_sanitizeToastField]
      exact oneLine_shownOf _
    · rw [← String.toList_inj, toList_sanitizeToastField, toList_sanitizeToastField, shownOf_shownOf]
  · have hreturn : '\r' ∉ title.toList ++ body.toList := fun hmem => by
      rcases hmade _ hmem with hown | ⟨field, -, hc⟩
      · exact absurd hown.1 (by decide)
      · exact absurd (hcontrol _ hc) (by decide)
    rw [toastReads_iff hid hform hreturn]
    constructor
    · intro hchars field hfield hshows
      obtain ⟨c, hc, hnon⟩ := (showsNoncharacter_iff _).mp hshows
      have := (isChar_iff (hcontrol c hc)).mp (hchars c (hall field hfield c hc))
      rw [hnon] at this
      exact absurd this (by decide)
    · intro hnone c hc
      rcases hmade c hc with hown | ⟨field, hfield, hshown⟩
      · simp only [Xml.isChar, Bool.or_eq_true, Bool.and_eq_true, beq_iff_eq, decide_eq_true_eq]
        unfold IsOwn at hown
        omega
      · refine (isChar_iff (hcontrol c hshown)).mpr ?_
        by_contra hnon
        exact hnone field hfield
          ((showsNoncharacter_iff _).mpr ⟨c, hshown, by simpa using hnon⟩)

/-! ## 6. A toast -/

def formChar (c : Char) : List Char :=
  if c.isAlphanum || c == '*' || c == '-' || c == '.' || c == '_' then [c]
  else if c = ' ' then ['+']
  else '%' :: [c.toNat / 16, c.toNat % 16].map fun n => "0123456789ABCDEF".toList.getD n '0'

def formDecode : List Char → List Char
  | '%' :: high :: low :: s =>
    Char.ofNat (16 * "0123456789ABCDEF".toList.idxOf high + "0123456789ABCDEF".toList.idxOf low) ::
      formDecode s
  | c :: s => (if c = '+' then ' ' else c) :: formDecode s
  | [] => []

/-- The encoding, as far as ASCII goes. -/
def asciiForm : FormUrlencoded where
  serialize key value :=
    String.ofList (key.toList.flatMap formChar ++ '=' :: value.toList.flatMap formChar)
  parse arguments :=
    ((split '&' arguments.toList).filter (· ≠ [])).map fun pair =>
      match splitOnce '=' pair with
      | some (key, value) => (String.ofList (formDecode key), String.ofList (formDecode value))
      | none => (String.ofList (formDecode pair), "")

theorem asciiForm_carries : asciiForm.Carries "account" "a@h" :=
  ⟨by decide, List.all_iff_forall_prop.mp (by decide)⟩

/-- A mail from Bob, whose subject would end the line of text. -/
def hostileHeader : MailHeader := ⟨1, "</text> & co", "Bob", "me", "", "", []⟩

theorem toast_reads_hostile :
    ToastReads asciiForm "Work: New mail from Bob" "</text> & co" "a@h" := by
  have hbuild : buildAccountNotification "Work" [hostileHeader] =
      some ("Work: New mail from Bob", "</text> & co") := by decide
  refine ((toast_reads_iff (by decide) asciiForm_carries hbuild).2).mpr ?_
  have hplain : ((toastFields "Work" [hostileHeader]).all fun field =>
      field.toList.all fun c => !isNoncharacter c) = true := by decide
  rintro field hfield ⟨before, c, after, hs, hc, -⟩
  have := List.all_eq_true.mp (List.all_eq_true.mp hplain field hfield) c (by simp [hs])
  rw [hc] at this
  exact absurd this (by decide)

/-- Nothing keeps U+FFFE out of a subject, or out of the markup. -/
theorem noncharacter_is_shown : ∃ headers title body,
    buildAccountNotification "Work" headers = some (title, body) ∧
      asciiForm.Carries "account" "a@h" ∧ ¬ToastReads asciiForm title body "a@h" := by
  refine ⟨[⟨1, "\uFFFE", "Bob", "me", "", "", []⟩], "Work: New mail from Bob", "\uFFFE", by decide,
    asciiForm_carries, ?_⟩
  rintro ⟨launch, hread, -⟩
  have hchars := isChar_of_toastXml (Xml.isChar_of_read (Option.isSome_iff_exists.mpr ⟨_, hread⟩))
  exact absurd (hchars (Char.ofNat 0xFFFE) (by decide)) (by decide)

end Esmail.Watching
