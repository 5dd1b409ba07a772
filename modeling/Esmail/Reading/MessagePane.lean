/-
# The document of the reading pane

`document`, `notice` and what they are made of in `core_glue/reading.rs`, the links they carry in
`core_glue/links.rs`, and what `app/reader.rs` asks of them.  The header block and its attachment links
are put behind the first `</style>` of a body that `render_message` has made; everything a message says
of itself goes through `escape`.

`render_reads` is what an HTML reader finds: the document that the body is, with the pane's own style
sheets and one header block put in, in which every field of the message is text.  And what a click on a
link of the block does is what its label says, for the attachment beside it (`clicks_header`).

How a date reads in the local zone is a parameter, as for a row of the list.
-/
import Esmail.Library.HtmlPieces
import Esmail.Reading.Links
import Esmail.Rendering.Document
import Mathlib.Data.Nat.Digits.Defs

namespace Esmail.MessagePane

open RustText Html Links
open Watching (isControl)

/-! ## 1. Palettes -/

/-- `Palette`. -/
structure Palette where
  dark : Bool
  background : Nat
  text : Nat
  muted : Nat
  headerBackground : Nat
  headerBorder : Nat
  link : Nat
  deriving DecidableEq, Repr

/-- `Palette::LIGHT`. -/
def Palette.light : Palette := ⟨false, 0xffffff, 0x1a1a1a, 0x555555, 0xf3f3f3, 0xd8d8d8, 0x0b57d0⟩

/-- `Palette::DARK`. -/
def Palette.darkPalette : Palette :=
  ⟨true, 0x202020, 0xe6e6e6, 0xb0b0b0, 0x2b2b2b, 0x3c3c3c, 0x8ab4f8⟩

/-- `Appearance`. -/
structure Appearance where
  palette : Palette
  originalColours : Bool
  deriving DecidableEq, Repr

/-- `sets_own_backgrounds`. -/
def setsOwnBackgrounds (body : List Char) : Bool :=
  ["background", "bgcolor"].any fun needle => containsText (body.map toAsciiLowercase) needle.toList

/-- `Appearance::themes_body`. -/
def Appearance.themesBody (a : Appearance) (body : List Char) : Bool :=
  a.palette.dark && !a.originalColours && !setsOwnBackgrounds body

/-- A colour, as `{:06x}` writes it. -/
def colour (rgb : Nat) : List Char :=
  let digits := Nat.toDigits 16 rgb
  '#' :: (List.replicate (6 - digits.length) '0' ++ digits)

/-- The rules of `header_style`. -/
def headerRules (p : Palette) : List Char :=
  ".esmail-head\x7bbackground:".toList ++ colour p.headerBackground ++
    ";border-bottom:1px solid ".toList ++ colour p.headerBorder ++
    ";margin:-12px -12px 12px -12px;padding:12px\x7d.esmail-head .subject\x7bfont-size:18px;font-weight:bold;margin-bottom:6px;color:".toList ++
    colour p.text ++ "\x7d.esmail-head .field\x7bcolor:".toList ++ colour p.muted ++
    ";font-size:13px\x7d.esmail-head .field b\x7bcolor:".toList ++ colour p.text ++
    "\x7d.esmail-head .attachment\x7bfont-size:13px;margin-top:4px;color:".toList ++ colour p.muted ++
    "\x7d.esmail-head a\x7bcolor:".toList ++ colour p.link ++ "\x7d".toList

/-- `header_style`. -/
def headerStyle (p : Palette) : List Char := styleOpen ++ headerRules p ++ styleClose

/-- The rules of `body_style`. -/
def bodyRules (p : Palette) : List Char :=
  "body\x7bbackground:".toList ++ colour p.background ++ ";color:".toList ++ colour p.text ++
    "\x7da\x7bcolor:".toList ++ colour p.link ++ "\x7d".toList

/-- `body_style`. -/
def bodyStyle (p : Palette) : List Char := styleOpen ++ bodyRules p ++ styleClose

/-! ## 2. The header block -/

/-- A number as an `f64`: above 53 bits it is rounded to even. -/
def asF64 (n : Nat) : Nat :=
  let ulp := 2 ^ (Nat.log2 n - 52)
  let low := n % ulp
  let floor := n / ulp
  if 2 * low > ulp ∨ (2 * low = ulp ∧ floor % 2 = 1) then (floor + 1) * ulp else floor * ulp

/-- The tenths of a fraction, as `{:.1}` rounds them: to even. -/
def tenths (n d : Nat) : Nat :=
  let floor := 10 * n / d
  let low := 10 * n % d
  if 2 * low > d ∨ (2 * low = d ∧ floor % 2 = 1) then floor + 1 else floor

/-- What `{:.1}` writes of a number of tenths. -/
def oneDecimal (t : Nat) : List Char := Nat.toDigits 10 (t / 10) ++ '.' :: Nat.toDigits 10 (t % 10)

/-- `format_size`. -/
def formatSize (bytes : Nat) : List Char :=
  let bytes := asF64 bytes
  if 1024 * 1024 ≤ bytes then oneDecimal (tenths bytes (1024 * 1024)) ++ " MB".toList
  else if 1024 ≤ bytes then oneDecimal (tenths bytes 1024) ++ " KB".toList
  else Nat.toDigits 10 bytes ++ " B".toList

/-- `save_href`. -/
def saveHref (n : Nat) : List Char := attachmentScheme.toList ++ ":save/".toList ++ Nat.toDigits 10 n

/-- `open_href`. -/
def openHref (n : Nat) : List Char := attachmentScheme.toList ++ ":open/".toList ++ Nat.toDigits 10 n

/-- `save_all_href`. -/
def saveAllHref : List Char := attachmentScheme.toList ++ ":save-all".toList

/-- `reconnect_href`. -/
def reconnectHref (account : Nat) : List Char :=
  reconnectScheme.toList ++ ":".toList ++ Nat.toDigits 10 account

/-- `escape`. -/
def escape (text : String) : List Char := text.toList.flatMap escapeMarkup

/-- `field`. -/
def field (name value : String) : List Char :=
  if value = "" then []
  else "<div class=\"field\"><b>".toList ++ name.toList ++ ":</b> ".toList ++ escape value ++
    "</div>".toList

/-- The line of an attachment. -/
def attachmentLine (attachment : Attachment) (n : Nat) : List Char :=
  "<div class=\"attachment\"><b>".toList ++ escape attachment.filename ++ "</b> (".toList ++
    formatSize attachment.data.length ++ ") <a href=\"".toList ++ saveHref n ++
    "\">Save</a> <a href=\"".toList ++ openHref n ++ "\">Open</a></div>".toList

/-- `attachment_list`. -/
def attachmentList (attachments : List Attachment) : List Char :=
  if attachments = [] then []
  else "<div class=\"attachments\">".toList ++
    attachments.zipIdx.flatMap (fun a => attachmentLine a.1 a.2) ++
    (if 1 < attachments.length then
      "<div class=\"attachment\"><a href=\"".toList ++ saveAllHref ++ "\">Save all</a></div>".toList
    else []) ++ "</div>".toList

section

variable (localDateTime : LocalDateTime)

/-- The date that the block shows. -/
def shownDate (header : MailHeader) : String :=
  match localDateTime header.date with
  | some (day, time) => day ++ " " ++ time
  | none => header.date

/-- The subject that the block shows. -/
def shownSubject (header : MailHeader) : String :=
  if header.subject = "" then "(no subject)" else header.subject

/-- `header_block`. -/
def headerBlock (header : MailHeader) (attachments : List Attachment) : List Char :=
  "<div class=\"esmail-head\"><div class=\"subject\">".toList ++ escape (shownSubject header) ++
    "</div>".toList ++ field "From" header.sender ++ field "To" header.recipient ++
    field "Date" (shownDate localDateTime header) ++ attachmentList attachments ++ "</div>".toList

/-- `document`. -/
def document (header : MailHeader) (body : List Char) (attachments : List Attachment)
    (palette : Palette) (themedBody : Bool) : List Char :=
  let styles := headerStyle palette ++ if themedBody then bodyStyle palette else []
  let block := headerBlock localDateTime header attachments
  match findText styleClose body with
  | some (before, after) => before ++ styleClose ++ styles ++ block ++ after
  | none => styles ++ block ++ body

/-- `render` of `app/reader.rs`, for a message. -/
def render (appearance : Appearance) (header : MailHeader) (body : List Char)
    (attachments : List Attachment) : List Char :=
  document localDateTime header body attachments appearance.palette (appearance.themesBody body)

end

/-- `notice`. -/
def notice (text : String) (action : Option (String × String)) (palette : Palette) : List Char :=
  let link := match action with
    | none => []
    | some (label, href) =>
      "<p><a style=\"color:".toList ++ colour palette.link ++ "\" href=\"".toList ++ escape href ++
        "\">".toList ++ escape label ++ "</a></p>".toList
  "<!doctype html><meta charset=\"utf-8\"><body style=\"font-family:'Segoe UI',sans-serif;font-size:14px;color:".toList ++
    colour palette.muted ++ ";margin:24px\">".toList ++ escape text ++ link ++ "</body>".toList

/-! ## 3. The tree of a block -/

def divName : List Char := ['d', 'i', 'v']

def boldName : List Char := ['b']

def anchorName : List Char := ['a']

def paragraphName : List Char := ['p']

def bodyName : List Char := ['b', 'o', 'd', 'y']

def className : List Char := ['c', 'l', 'a', 's', 's']

def hrefName : List Char := ['h', 'r', 'e', 'f']

def styleAttr : List Char := ['s', 't', 'y', 'l', 'e']

def divTree (cls : String) (inner : List Event) : List Event :=
  element divName [⟨className, cls.toList⟩] inner

def boldTree (text : List Char) : List Event := element boldName [] (chars text)

def linkTree (href : List Char) (label : String) : List Event :=
  element anchorName [⟨hrefName, href⟩] (chars label.toList)

def fieldTree (name value : String) : List Event :=
  if value = "" then []
  else divTree "field" (boldTree (name.toList ++ [':']) ++ chars (' ' :: value.toList))

def attachmentTree (attachment : Attachment) (n : Nat) : List Event :=
  divTree "attachment" (boldTree attachment.filename.toList ++
    (chars (" (".toList ++ formatSize attachment.data.length ++ ") ".toList) ++
      (linkTree (saveHref n) "Save" ++ (chars [' '] ++ linkTree (openHref n) "Open"))))

def attachmentsTree (attachments : List Attachment) : List Event :=
  if attachments = [] then []
  else divTree "attachments" (attachments.zipIdx.flatMap (fun a => attachmentTree a.1 a.2) ++
    if 1 < attachments.length then divTree "attachment" (linkTree saveAllHref "Save all") else [])

/-- The header block as a tree: every field of the message is text. -/
def headerTree (localDateTime : LocalDateTime) (header : MailHeader) (attachments : List Attachment) :
    List Event :=
  divTree "esmail-head" (divTree "subject" (chars (shownSubject header).toList) ++
    (fieldTree "From" header.sender ++ (fieldTree "To" header.recipient ++
      (fieldTree "Date" (shownDate localDateTime header) ++ attachmentsTree attachments))))

/-- A notice as a tree. -/
def noticeTree (text : String) (action : Option (String × String)) (palette : Palette) :
    List Event :=
  let link := match action with
    | none => []
    | some (label, href) =>
      element paragraphName [] (element anchorName
        [⟨styleAttr, "color:".toList ++ colour palette.link⟩, ⟨hrefName, href.toList⟩]
        (chars label.toList))
  .openTag metaName [⟨charsetName, utf8Name⟩] ::
    element bodyName [⟨styleAttr, "font-family:'Segoe UI',sans-serif;font-size:14px;color:".toList ++
      colour palette.muted ++ ";margin:24px".toList⟩] (chars text.toList ++ link)

/-! ## 4. Each piece reads as its tree -/

theorem plainName_div : PlainName divName := .of_all (by decide) (by decide) (by decide)

theorem plainName_bold : PlainName boldName := .of_all (by decide) (by decide) (by decide)

theorem plainName_anchor : PlainName anchorName := .of_all (by decide) (by decide) (by decide)

theorem plainName_className : PlainName className :=
  .of_all (by decide) (by decide) (by decide)

theorem plainName_href : PlainName hrefName := .of_all (by decide) (by decide) (by decide)

theorem plainName_styleAttr : PlainName styleAttr :=
  .of_all (by decide) (by decide) (by decide)

theorem plainName_meta : PlainName metaName := .of_all (by decide) (by decide) (by decide)

theorem plainName_charset : PlainName charsetName := .of_all (by decide) (by decide) (by decide)

/-- How a `div` of the block ends. -/
theorem divClose : "</div>".toList = closeTagText divName := by decide

/-- A `div` of a class. -/
theorem readsAs_div {cls : String} {s : List Char} {inner : List Event} (h : ReadsAs s inner) :
    ReadsAs (markupTag divName [⟨className, cls.toList⟩] ++ s ++ closeTagText divName)
      (divTree cls inner) :=
  readsAs_element plainName_div (by decide)
    (fun _ ha => List.mem_singleton.mp ha ▸ plainName_className) h

theorem readsAs_bold {s text : List Char} (h : ReadsAs s (chars text)) :
    ReadsAs (markupTag boldName [] ++ s ++ closeTagText boldName) (boldTree text) :=
  readsAs_element plainName_bold (by decide) (fun _ ha => absurd ha List.not_mem_nil) h

theorem readsAs_link {label : String} (href : List Char)
    (hlabel : ∀ c ∈ label.toList, c ≠ '&' ∧ c ≠ '<') :
    ReadsAs (markupTag anchorName [⟨hrefName, href⟩] ++ label.toList ++ closeTagText anchorName)
      (linkTree href label) :=
  readsAs_element plainName_anchor (by decide)
    (fun _ ha => List.mem_singleton.mp ha ▸ plainName_href) (readsAs_plain hlabel)

theorem readsAs_escape (text : String) : ReadsAs (escape text) (chars text.toList) := readsAs_text _

/-- A field of the block; its name is one of the three. -/
theorem readsAs_field {name : String} (hname : ∀ c ∈ name.toList, c ≠ '&' ∧ c ≠ '<')
    (value : String) : ReadsAs (field name value) (fieldTree name value) := by
  have hopen : "<div class=\"field\"><b>".toList =
      markupTag divName [⟨className, "field".toList⟩] ++ markupTag boldName [] := by decide
  have hmid : ":</b> ".toList = [':'] ++ closeTagText boldName ++ [' '] := by decide
  unfold field fieldTree
  split
  · exact .nil
  · have hbold : ReadsAs (markupTag boldName [] ++ (name.toList ++ [':']) ++ closeTagText boldName)
        (boldTree (name.toList ++ [':'])) := by
      refine readsAs_bold (readsAs_plain fun c hc => ?_)
      rcases List.mem_append.mp hc with hc | hc
      · exact hname c hc
      · cases List.mem_singleton.mp hc
        decide
    have hvalue : ReadsAs (' ' :: escape value) (chars (' ' :: value.toList)) :=
      (readsAs_plainChar (by decide) (by decide)).append (readsAs_escape value)
    have h : ReadsAs (markupTag divName [⟨className, "field".toList⟩] ++
        (markupTag boldName [] ++ (name.toList ++ [':']) ++ closeTagText boldName ++
          (' ' :: escape value)) ++ closeTagText divName)
        (divTree "field" (boldTree (name.toList ++ [':']) ++ chars (' ' :: value.toList))) :=
      readsAs_div (hbold.append hvalue)
    rw [hopen, hmid, divClose]
    simpa only [List.append_assoc, List.cons_append, List.nil_append] using h

/-- The digits of a number. -/
theorem mem_toDigits {b : Nat} (hb : 1 < b) : ∀ (n : Nat) {c : Char}, c ∈ Nat.toDigits b n →
    ∃ d < b, c = d.digitChar := by
  intro n
  induction n using Nat.strongRecOn with
  | _ n ih =>
    intro c hc
    rw [Nat.toDigits_eq_if hb] at hc
    split at hc
    · rename_i hlt
      exact ⟨n, hlt, List.mem_singleton.mp hc⟩
    · rename_i hge
      rcases List.mem_append.mp hc with hc | hc
      · exact ih (n / b) (Nat.div_lt_self (by omega) hb) hc
      · exact ⟨n % b, Nat.mod_lt _ (by omega), List.mem_singleton.mp hc⟩

/-- The characters that numbers, sizes and links are written with. -/
def Quiet (s : List Char) : Prop := ∀ c ∈ s, c ≠ '&' ∧ c ≠ '<' ∧ c ≠ '>' ∧ c ≠ '"'

theorem Quiet.append {s t : List Char} (hs : Quiet s) (ht : Quiet t) : Quiet (s ++ t) := by
  intro c hc
  rcases List.mem_append.mp hc with hc | hc
  · exact hs c hc
  · exact ht c hc

theorem quiet_toDigits {b : Nat} (hb : 1 < b) (hb' : b ≤ 16) (n : Nat) : Quiet (Nat.toDigits b n) := by
  intro c hc
  obtain ⟨d, hd, rfl⟩ := mem_toDigits hb n hc
  have hall : ∀ d < 16, d.digitChar ≠ '&' ∧ d.digitChar ≠ '<' ∧ d.digitChar ≠ '>' ∧
      d.digitChar ≠ '"' := by decide
  exact hall d (by omega)

/-- Quiet text is written as it is. -/
theorem Quiet.escape {s : List Char} (h : Quiet s) : s.flatMap escapeMarkup = s := by
  induction s with
  | nil => rfl
  | cons c s ih =>
    obtain ⟨hamp, hlt, hgt, hquot⟩ := h c List.mem_cons_self
    rw [List.flatMap_cons, ih fun d hd => h d (List.mem_cons_of_mem _ hd)]
    simp [escapeMarkup, hamp, hlt, hgt, hquot]

theorem Quiet.plain {s : List Char} (h : Quiet s) : ∀ c ∈ s, c ≠ '&' ∧ c ≠ '<' :=
  fun c hc => ⟨(h c hc).1, (h c hc).2.1⟩

-- Decided over the list: the instance that the whole of Mathlib brings looks at every character there is.
instance (s : List Char) : Decidable (Quiet s) := List.decidableBAll _ s

/-- A literal is looked at as the characters it stands for, not as its bytes. -/
theorem quiet_literal {s : List Char}
    (h : (s.all fun c => c != '&' && c != '<' && c != '>' && c != '"') = true) :
    Quiet (String.ofList s).toList := by
  rw [String.toList_ofList]
  intro c hc
  simpa [and_assoc] using List.all_eq_true.mp h c hc

theorem quiet_saveHref (n : Nat) : Quiet (saveHref n) :=
  .append (.append (by decide) (by decide)) (quiet_toDigits (by decide) (by decide) n)

theorem quiet_openHref (n : Nat) : Quiet (openHref n) :=
  .append (.append (by decide) (by decide)) (quiet_toDigits (by decide) (by decide) n)

theorem quiet_oneDecimal (t : Nat) : Quiet (oneDecimal t) := by
  have hpoint : Quiet ['.'] := by decide
  exact (quiet_toDigits (by decide) (by decide) _).append
    (hpoint.append (quiet_toDigits (by decide) (by decide) _))

theorem quiet_formatSize (bytes : Nat) : Quiet (formatSize bytes) := by
  unfold formatSize
  simp only
  split
  · exact (quiet_oneDecimal _).append (by decide)
  · split
    · exact (quiet_oneDecimal _).append (by decide)
    · exact (quiet_toDigits (by decide) (by decide) _).append (by decide)

theorem quiet_colour (rgb : Nat) : Quiet (colour rgb) := by
  have hmark : Quiet ['#'] := by decide
  have hzero : Quiet (List.replicate (6 - (Nat.toDigits 16 rgb).length) '0') := by
    intro c hc
    rw [List.eq_of_mem_replicate hc]
    decide
  exact hmark.append (hzero.append (quiet_toDigits (by decide) (by decide) rgb))

/-- The tag of a link, whose target needs no escape. -/
theorem linkTag {href : List Char} (h : Quiet href) :
    "<a href=\"".toList ++ href ++ "\">".toList = markupTag anchorName [⟨hrefName, href⟩] := by
  have hopen : "<a href=\"".toList = '<' :: anchorName ++ (' ' :: hrefName ++ ['=', '"']) := by
    decide
  have hclose : "\">".toList = ['"', '>'] := by decide
  rw [hopen, hclose]
  simp [markupTag, Attr.markup, h.escape]

/-- A link of the block. -/
def linkText (href : List Char) (label : String) : List Char :=
  markupTag anchorName [⟨hrefName, href⟩] ++ label.toList ++ closeTagText anchorName

theorem attachmentLine_eq (attachment : Attachment) (n : Nat) :
    attachmentLine attachment n =
      markupTag divName [⟨className, "attachment".toList⟩] ++
        (markupTag boldName [] ++ escape attachment.filename ++ closeTagText boldName ++
          (" (".toList ++ formatSize attachment.data.length ++ ") ".toList ++
            (linkText (saveHref n) "Save" ++ ([' '] ++ linkText (openHref n) "Open")))) ++
        closeTagText divName := by
  have hopen : "<div class=\"attachment\"><b>".toList =
      markupTag divName [⟨className, "attachment".toList⟩] ++ markupTag boldName [] := by decide
  have hname : "</b> (".toList = closeTagText boldName ++ " (".toList := by decide
  have hsize : ") <a href=\"".toList = ") ".toList ++ "<a href=\"".toList := by decide
  have hsave : "\">Save</a> <a href=\"".toList = "\">".toList ++ ("Save".toList ++
      (closeTagText anchorName ++ ([' '] ++ "<a href=\"".toList))) := by decide
  have hlast : "\">Open</a></div>".toList = "\">".toList ++ ("Open".toList ++
      (closeTagText anchorName ++ closeTagText divName)) := by decide
  unfold attachmentLine linkText
  rw [hopen, hname, hsize, hsave, hlast, ← linkTag (quiet_saveHref n), ← linkTag (quiet_openHref n)]
  simp only [List.append_assoc]

theorem readsAs_attachmentLine (attachment : Attachment) (n : Nat) :
    ReadsAs (attachmentLine attachment n) (attachmentTree attachment n) := by
  have hparens : ReadsAs (" (".toList ++ formatSize attachment.data.length ++ ") ".toList)
      (chars (" (".toList ++ formatSize attachment.data.length ++ ") ".toList)) := by
    refine readsAs_plain (Quiet.plain (.append (.append ?_ (quiet_formatSize _)) ?_)) <;> decide
  have hspace : ReadsAs [' '] (chars [' ']) := readsAs_plainChar (by decide) (by decide)
  have hlinks : ReadsAs (linkText (saveHref n) "Save" ++ ([' '] ++ linkText (openHref n) "Open"))
      (linkTree (saveHref n) "Save" ++ (chars [' '] ++ linkTree (openHref n) "Open")) :=
    (readsAs_link (saveHref n) (Quiet.plain (by decide))).append
      (hspace.append (readsAs_link (openHref n) (Quiet.plain (by decide))))
  rw [attachmentLine_eq]
  exact readsAs_div ((readsAs_bold (readsAs_escape attachment.filename)).append (hparens.append hlinks))

/-- The line that saves them all. -/
def saveAllLine : List Char :=
  "<div class=\"attachment\"><a href=\"".toList ++ saveAllHref ++ "\">Save all</a></div>".toList

theorem readsAs_saveAllLine :
    ReadsAs saveAllLine (divTree "attachment" (linkTree saveAllHref "Save all")) := by
  have hline : saveAllLine = markupTag divName [⟨className, "attachment".toList⟩] ++
      linkText saveAllHref "Save all" ++ closeTagText divName := by decide
  rw [hline]
  exact readsAs_div (readsAs_link saveAllHref (Quiet.plain (by decide)))

theorem readsAs_attachmentList (attachments : List Attachment) :
    ReadsAs (attachmentList attachments) (attachmentsTree attachments) := by
  have hopen : "<div class=\"attachments\">".toList =
      markupTag divName [⟨className, "attachments".toList⟩] := by decide
  have hlines : ReadsAs (attachments.zipIdx.flatMap fun a => attachmentLine a.1 a.2)
      (attachments.zipIdx.flatMap fun a => attachmentTree a.1 a.2) :=
    ReadsAs.flatMap fun a _ => readsAs_attachmentLine a.1 a.2
  have hsaveAll : ReadsAs (if 1 < attachments.length then saveAllLine else [])
      (if 1 < attachments.length then divTree "attachment" (linkTree saveAllHref "Save all")
        else []) := by
    split
    · exact readsAs_saveAllLine
    · exact .nil
  unfold attachmentList attachmentsTree
  split
  · exact .nil
  · rw [hopen, divClose, List.append_assoc (markupTag _ _)]
    exact readsAs_div (hlines.append hsaveAll)

/-- The header block reads as its tree, whatever the message says. -/
theorem readsAs_headerBlock (localDateTime : LocalDateTime) (header : MailHeader)
    (attachments : List Attachment) :
    ReadsAs (headerBlock localDateTime header attachments)
      (headerTree localDateTime header attachments) := by
  have hopen : "<div class=\"esmail-head\"><div class=\"subject\">".toList =
      markupTag divName [⟨className, "esmail-head".toList⟩] ++
        markupTag divName [⟨className, "subject".toList⟩] := by decide
  have hfield : ∀ name ∈ ["From", "To", "Date"], ∀ value,
      ReadsAs (field name value) (fieldTree name value) := by
    intro name hname value
    refine readsAs_field (Quiet.plain ?_) value
    simp only [List.mem_cons, List.not_mem_nil, or_false] at hname
    rcases hname with rfl | rfl | rfl <;> decide
  have hsubject : ReadsAs (markupTag divName [⟨className, "subject".toList⟩] ++
      escape (shownSubject header) ++ closeTagText divName)
      (divTree "subject" (chars (shownSubject header).toList)) :=
    readsAs_div (readsAs_escape _)
  have hfields : ReadsAs (field "From" header.sender ++ (field "To" header.recipient ++
      (field "Date" (shownDate localDateTime header) ++ attachmentList attachments)))
      (fieldTree "From" header.sender ++ (fieldTree "To" header.recipient ++
        (fieldTree "Date" (shownDate localDateTime header) ++ attachmentsTree attachments))) :=
    (hfield "From" (by simp) _).append ((hfield "To" (by simp) _).append
      ((hfield "Date" (by simp) _).append (readsAs_attachmentList attachments)))
  have hblock : headerBlock localDateTime header attachments =
      markupTag divName [⟨className, "esmail-head".toList⟩] ++
        (markupTag divName [⟨className, "subject".toList⟩] ++ escape (shownSubject header) ++
          closeTagText divName ++ (field "From" header.sender ++ (field "To" header.recipient ++
            (field "Date" (shownDate localDateTime header) ++ attachmentList attachments)))) ++
        closeTagText divName := by
    unfold headerBlock
    rw [hopen, divClose]
    simp only [List.append_assoc]
  rw [hblock]
  exact readsAs_div (hsubject.append hfields)

/-! ## 5. The document reads as the body with the block in it -/

/-- The document up to its style sheet. -/
def documentLead : List Char :=
  doctype ++ ('\n' :: (openTagText metaName [⟨charsetName, utf8Name⟩] ++
    ('\n' :: openTagText styleName [])))

/-- What a reader finds of the document before the body. -/
def documentHead : List Event :=
  [.char '\n', .openTag metaName [⟨charsetName, utf8Name⟩], .char '\n',
    .style [] documentStyle.toList]

theorem wrapDocument_lead (body : List Char) : wrapDocument body =
    documentLead ++ (documentStyle.toList ++ (styleClose ++ '\n' :: body)) := by
  rw [wrapDocument_eq]
  unfold documentLead
  simp only [List.append_assoc, List.cons_append]
  rfl

/-- No element ends in the lead. -/
theorem no_styleClose_lead (s u v : List Char) (hlead : documentLead = u ++ v) (hv : v ≠ []) :
    ¬styleClose <+: v ++ s := by
  have hmarks : ∀ v ∈ documentLead.tails, v ≠ [] → v.head? = some '<' →
      (v.drop 1).head? ≠ some '/' ∧ v.drop 1 ≠ [] := by decide
  obtain ⟨c, w, rfl⟩ := List.exists_cons_of_ne_nil hv
  intro hpre
  have hclose : styleClose = '<' :: '/' :: "style>".toList := by decide
  rw [hclose, List.cons_append, List.cons_prefix_cons] at hpre
  obtain ⟨rfl, hpre⟩ := hpre
  obtain ⟨hslash, hw⟩ := hmarks ('<' :: w) ((List.mem_tails _ _).mpr ⟨u, hlead.symm⟩) hv rfl
  obtain ⟨d, w, rfl⟩ := List.exists_cons_of_ne_nil hw
  rw [List.cons_append, List.cons_prefix_cons] at hpre
  exact hslash (congrArg some hpre.1.symm)

/-- The first `</style>` of a rendered message is that of the document's own style sheet. -/
theorem findText_wrapDocument (body : List Char) :
    findText styleClose (wrapDocument body) = some (documentLead ++ documentStyle.toList, '\n' :: body) := by
  rw [wrapDocument_lead, findText_append (no_styleClose_lead _),
    findText_append (no_styleClose (rawText_of_no_bracket documentStyle_no_bracket)),
    findText_here styleClose _ (by decide)]
  simp

/-- The block of a rendered message stands behind the head of the document. -/
theorem document_wrapDocument (localDateTime : LocalDateTime) (header : MailHeader) (body : List Char)
    (attachments : List Attachment) (palette : Palette) (themedBody : Bool) :
    document localDateTime header (wrapDocument body) attachments palette themedBody =
      documentLead ++ documentStyle.toList ++ styleClose ++
        (headerStyle palette ++ if themedBody then bodyStyle palette else []) ++
        headerBlock localDateTime header attachments ++ '\n' :: body := by
  rw [document, findText_wrapDocument]

/-- The head of the document, whatever follows it. -/
theorem readsAs_documentHead :
    ReadsAs (documentLead ++ documentStyle.toList ++ styleClose) documentHead := by
  have hdoctype : doctype = '<' :: '!' :: "doctype html".toList ++ ['>'] := by decide
  have hfeed : ReadsAs ['\n'] [.char '\n'] := readsAs_plainChar (by decide) (by decide)
  have hmeta : ReadsAs (openTagText metaName [⟨charsetName, utf8Name⟩])
      [.openTag metaName [⟨charsetName, utf8Name⟩]] := by
    refine ReadsAs.event (e := .openTag metaName [⟨charsetName, utf8Name⟩]) ⟨plainName_meta, ?_, ?_⟩
    · decide
    · exact fun _ ha => List.mem_singleton.mp ha ▸ plainName_charset
  have hstyle := readsAs_style documentStyle_no_bracket
  have hlead : ReadsAs doctype [] := by
    rw [hdoctype]
    exact readsAs_declaration (by decide)
  have hall := hlead.append (hfeed.append (hmeta.append (hfeed.append hstyle)))
  have htext : documentLead ++ documentStyle.toList ++ styleClose = doctype ++ (['\n'] ++
      (openTagText metaName [⟨charsetName, utf8Name⟩] ++ (['\n'] ++
        (openTagText styleName [] ++ documentStyle.toList ++ closeTagText styleName)))) := by
    unfold documentLead
    simp only [List.append_assoc, List.cons_append, List.nil_append]
    rfl
  rw [htext]
  exact hall

/-- Quiet rules are read as a style sheet. -/
theorem Quiet.readsAs_style {rules : List Char} (h : Quiet rules) :
    ReadsAs (styleOpen ++ rules ++ styleClose) [.style [] rules] :=
  Html.readsAs_style fun hmem => (h '<' hmem).2.1 rfl

-- The sheet has literals longer than the default depth allows.
set_option maxRecDepth 1000 in
theorem quiet_headerRules (p : Palette) : Quiet (headerRules p) := by
  unfold headerRules
  repeat refine .append ?_ ?_
  all_goals
    first
    | with_reducible exact quiet_colour _
    | exact quiet_literal (by decide)

theorem quiet_bodyRules (p : Palette) : Quiet (bodyRules p) := by
  unfold bodyRules
  repeat refine .append ?_ ?_
  all_goals
    first
    | with_reducible exact quiet_colour _
    | exact quiet_literal (by decide)

theorem readsAs_headerStyle (p : Palette) : ReadsAs (headerStyle p) [.style [] (headerRules p)] :=
  (quiet_headerRules p).readsAs_style

theorem readsAs_bodyStyle (p : Palette) : ReadsAs (bodyStyle p) [.style [] (bodyRules p)] :=
  (quiet_bodyRules p).readsAs_style

/-! ## 6. What the links of the block do -/

/-- The targets of the links of a tree. -/
def hrefs (evs : List Event) : List (List Char) :=
  evs.filterMap fun e => match e with
    | .openTag name attrs =>
      if name = anchorName then (attrs.find? fun a => a.name = hrefName).map Attr.value else none
    | _ => none

/-- What clicks on the links of a tree do. -/
def clicks (evs : List Event) : List LinkAction := (hrefs evs).map fun h => classify (String.ofList h)

/-- What the links of `n` attachments are to do. -/
def attachmentActions (n : Nat) : List LinkAction :=
  (List.range n).flatMap (fun i => [.saveAttachment i, .openAttachment i]) ++
    if 1 < n then [.saveAllAttachments] else []

theorem hrefs_append (s t : List Event) : hrefs (s ++ t) = hrefs s ++ hrefs t := List.filterMap_append

theorem hrefs_cons (e : Event) (evs : List Event) : hrefs (e :: evs) = hrefs [e] ++ hrefs evs :=
  hrefs_append [e] evs

theorem hrefs_chars (s : List Char) : hrefs (chars s) = [] := by
  simp [hrefs, chars, List.filterMap_map]

/-- Only the links of an element that is no link itself. -/
theorem hrefs_element {name : List Char} (attrs : List Attr) (inner : List Event)
    (hname : name ≠ anchorName) : hrefs (element name attrs inner) = hrefs inner := by
  unfold element
  rw [hrefs_cons, hrefs_append]
  simp [hrefs, hname]

theorem hrefs_div (cls : String) (inner : List Event) : hrefs (divTree cls inner) = hrefs inner :=
  hrefs_element _ inner (by decide)

/-- A link around a text. -/
theorem hrefs_anchor (attrs : List Attr) (text : List Char) :
    hrefs (element anchorName attrs (chars text)) =
      ((attrs.find? fun a => a.name = hrefName).map Attr.value).toList := by
  unfold element
  rw [hrefs_cons, hrefs_append, hrefs_chars]
  simp only [hrefs, List.filterMap_cons, if_pos, List.filterMap_nil, List.nil_append]
  cases attrs.find? fun a => a.name = hrefName <;> rfl

theorem hrefs_link (href : List Char) (label : String) : hrefs (linkTree href label) = [href] :=
  hrefs_anchor _ _

theorem hrefs_field (name value : String) : hrefs (fieldTree name value) = [] := by
  have hbold : hrefs (boldTree (name.toList ++ [':'])) = [] :=
    (hrefs_element _ _ (by decide)).trans (hrefs_chars _)
  unfold fieldTree
  split
  · rfl
  · rw [hrefs_div, hrefs_append, hbold, hrefs_chars]
    rfl

theorem hrefs_attachment (a : Attachment) (n : Nat) :
    hrefs (attachmentTree a n) = [saveHref n, openHref n] := by
  have hbold : hrefs (boldTree a.filename.toList) = [] :=
    (hrefs_element _ _ (by decide)).trans (hrefs_chars _)
  unfold attachmentTree
  simp only [hrefs_div, hrefs_append, hbold, hrefs_chars, hrefs_link]
  rfl

/-- No field of a message is a link; the links of the block are those of the attachments. -/
theorem hrefs_header (localDateTime : LocalDateTime) (header : MailHeader)
    (attachments : List Attachment) : hrefs (headerTree localDateTime header attachments) =
      (List.range attachments.length).flatMap (fun i => [saveHref i, openHref i]) ++
        if 1 < attachments.length then [saveAllHref] else [] := by
  have hlines : hrefs (attachments.zipIdx.flatMap fun a => attachmentTree a.1 a.2) =
      (List.range attachments.length).flatMap fun i => [saveHref i, openHref i] := by
    have hindices : List.range attachments.length = attachments.zipIdx.map Prod.snd := by
      rw [List.range_eq_range', List.zipIdx_map_snd]
    rw [hindices, List.flatMap_map]
    generalize attachments.zipIdx = as
    induction as with
    | nil => rfl
    | cons a as ih => rw [List.flatMap_cons, hrefs_append, hrefs_attachment, ih, List.flatMap_cons]
  unfold headerTree
  simp only [hrefs_div, hrefs_append, hrefs_chars, hrefs_field, List.nil_append]
  unfold attachmentsTree
  split
  · next hnone =>
    subst hnone
    rfl
  · rw [hrefs_div, hrefs_append, hlines]
    split
    · rw [hrefs_div, hrefs_link]
    · rfl

/-! A number in a link is read back. -/

theorem toDigit_digitChar {d : Nat} (hd : d < 10) : toDigit 10 d.digitChar = some d := by
  have hall : ∀ d < 10, toDigit 10 d.digitChar = some d := by decide
  exact hall d hd

/-- The digits of a number that fits are read as the number. -/
theorem foldlM_toDigits (max : Nat) : ∀ (n : Nat), n ≤ max →
    (Nat.toDigits 10 n).foldlM (fun n c => do
      let digit ← toDigit 10 c
      if n * 10 + digit ≤ max then some (n * 10 + digit) else none) 0 = some n := by
  intro n
  induction n using Nat.strongRecOn with
  | _ n ih =>
    intro hmax
    rw [Nat.toDigits_eq_if (by decide)]
    split
    · rename_i hlt
      simp [toDigit_digitChar hlt, hmax]
    · rename_i hge
      have hsum : n / 10 * 10 + n % 10 = n := by omega
      rw [List.foldlM_append, ih (n / 10) (by omega) (by omega)]
      simp [toDigit_digitChar (Nat.mod_lt n (by decide : 10 > 0)), hsum, hmax]

theorem parseUsize_toDigits {n : Nat} (h : n < 2 ^ 64) : parseUsize (Nat.toDigits 10 n) = some n := by
  have hne : Nat.toDigits 10 n ≠ [] := Nat.toDigits_ne_nil
  obtain ⟨c, s, hs⟩ := List.exists_cons_of_ne_nil hne
  have hplus : c ≠ '+' := by
    obtain ⟨d, hd, rfl⟩ := mem_toDigits (by decide : 1 < 10) n (hs ▸ List.mem_cons_self)
    have hall : ∀ d < 10, d.digitChar ≠ '+' := by decide
    exact hall d hd
  have hfold := foldlM_toDigits (2 ^ 64 - 1) n (by omega)
  unfold parseUsize fromStrRadix
  rw [hs] at hfold ⊢
  split
  · next heq =>
    cases heq
    exact absurd rfl hplus
  · rw [if_neg (List.cons_ne_nil c s)]
    exact hfold

/-- A character of the links that the block carries. -/
def OfLink (c : Char) : Prop :=
  c.utf8Size = 1 ∧ isControl c = false ∧ isWhitespace c = false ∧ c ≠ '/' ∧ c ≠ ':'

instance (c : Char) : Decidable (OfLink c) :=
  inferInstanceAs (Decidable (_ ∧ _ ∧ _ ∧ _ ∧ _))

theorem ofLink_toDigits (n : Nat) : ∀ c ∈ Nat.toDigits 10 n, OfLink c := by
  intro c hc
  obtain ⟨d, hd, rfl⟩ := mem_toDigits (by decide : 1 < 10) n hc
  have hall : ∀ d < 10, OfLink d.digitChar := by decide
  exact hall d hd

theorem utf8Len_ofLink {s : List Char} (h : ∀ c ∈ s, OfLink c) : utf8Len s = s.length := by
  induction s with
  | nil => rfl
  | cons c s ih =>
    rw [utf8Len_cons, (h c List.mem_cons_self).1, ih fun d hd => h d (List.mem_cons_of_mem _ hd)]
    exact Nat.add_comm 1 _

theorem splitOnce_at {c : Char} {s : List Char} (h : c ∉ s) (t : List Char) :
    splitOnce c (s ++ c :: t) = some (s, t) := by
  have hs := bne_of_not_mem h
  unfold splitOnce
  rw [List.dropWhile_append_of_pos hs, List.takeWhile_append_of_pos hs]
  simp

/-- No character of a link is one that a link is refused for. -/
def Solid (s : List Char) : Prop := ∀ c ∈ s, isControl c = false ∧ isWhitespace c = false

instance (s : List Char) : Decidable (Solid s) := List.decidableBAll _ s

/-- A link of the block passes the checks, whatever number it ends in. -/
theorem clean_link {scheme verb digits : List Char} (hfront : Solid (scheme ++ ':' :: verb))
    (hshort : utf8Len (scheme ++ ':' :: verb) ≤ 100) (hdigits : ∀ c ∈ digits, OfLink c)
    (hlen : digits.length ≤ 20) :
    trim (scheme ++ ':' :: (verb ++ digits)) = scheme ++ ':' :: (verb ++ digits) ∧
      ¬(utf8Len (scheme ++ ':' :: (verb ++ digits)) > maxLinkBytes ∨
        (scheme ++ ':' :: (verb ++ digits)).any fun c => isControl c || isWhitespace c) := by
  have hlink : scheme ++ ':' :: (verb ++ digits) = (scheme ++ ':' :: verb) ++ digits := by simp
  rw [hlink]
  generalize scheme ++ ':' :: verb = front at hfront hshort
  have hsolid : Solid (front ++ digits) := by
    intro c hc
    rcases List.mem_append.mp hc with hc | hc
    · exact hfront c hc
    · exact ⟨(hdigits c hc).2.1, (hdigits c hc).2.2.1⟩
  have hbytes := utf8Len_ofLink hdigits
  refine ⟨trim_eq_self ?_ ?_, ?_⟩
  · exact fun c hc => (hsolid c (List.mem_of_mem_head? hc)).2
  · exact fun c hc => (hsolid c (List.mem_of_mem_getLast? hc)).2
  · rintro (hlong | hany)
    · rw [utf8Len_append, hbytes] at hlong
      unfold maxLinkBytes at hlong
      omega
    · obtain ⟨c, hc, hbad⟩ := List.any_eq_true.mp hany
      simp [hsolid c hc] at hbad

/-- An attachment link is read as one. -/
theorem classify_attachmentScheme {verb digits : List Char}
    (hfront : Solid (attachmentScheme.toList ++ ':' :: verb))
    (hshort : utf8Len (attachmentScheme.toList ++ ':' :: verb) ≤ 100)
    (hdigits : ∀ c ∈ digits, OfLink c) (hlen : digits.length ≤ 20) :
    classify (String.ofList (attachmentScheme.toList ++ ':' :: (verb ++ digits))) =
      attachment (verb ++ digits) := by
  obtain ⟨htrim, hclean⟩ := clean_link hfront hshort hdigits hlen
  have hlower : String.ofList (attachmentScheme.toList.map toAsciiLowercase) = attachmentScheme := by
    decide
  unfold classify
  simp only [String.toList_ofList, htrim, if_neg hclean]
  rw [splitOnce_at (by decide)]
  simp only [hlower]
  rw [if_neg, if_neg, if_pos trivial]
  · decide
  · rintro ⟨hweb | hweb, -⟩ <;> exact absurd hweb (by decide)

/-- The digits of an index are at most twenty. -/
theorem length_digits {n : Nat} (h : n < 2 ^ 64) : (Nat.toDigits 10 n).length ≤ 20 :=
  Nat.toDigits_length 10 n 20 (by decide) (Nat.lt_trans h (by decide))

theorem classify_saveHref {n : Nat} (h : n < 2 ^ 64) :
    classify (String.ofList (saveHref n)) = .saveAttachment n := by
  have hverb : ":save/".toList = ':' :: "save/".toList := by decide
  have hsave : "save/".toList = "save".toList ++ ['/'] := by decide
  have hclick : classify (String.ofList (attachmentScheme.toList ++ ':' :: ("save/".toList ++
      Nat.toDigits 10 n))) = attachment ("save/".toList ++ Nat.toDigits 10 n) :=
    classify_attachmentScheme (by decide) (by decide) (ofLink_toDigits n)
      (length_digits h)
  unfold saveHref
  rw [hverb, List.append_assoc, List.cons_append, hclick, hsave, List.append_assoc,
    List.singleton_append]
  unfold attachment
  rw [splitOnce_at (by decide)]
  simp [parseUsize_toDigits h]

theorem classify_openHref {n : Nat} (h : n < 2 ^ 64) :
    classify (String.ofList (openHref n)) = .openAttachment n := by
  have hverb : ":open/".toList = ':' :: "open/".toList := by decide
  have hopen : "open/".toList = "open".toList ++ ['/'] := by decide
  have hother : "open".toList ≠ "save".toList := by decide
  have hclick : classify (String.ofList (attachmentScheme.toList ++ ':' :: ("open/".toList ++
      Nat.toDigits 10 n))) = attachment ("open/".toList ++ Nat.toDigits 10 n) :=
    classify_attachmentScheme (by decide) (by decide) (ofLink_toDigits n)
      (length_digits h)
  unfold openHref
  rw [hverb, List.append_assoc, List.cons_append, hclick, hopen, List.append_assoc,
    List.singleton_append]
  unfold attachment
  rw [splitOnce_at (by decide)]
  simp only [if_neg hother, parseUsize_toDigits h]
  rfl

theorem classify_saveAllHref : classify (String.ofList saveAllHref) = .saveAllAttachments := by
  decide

/-- The Reconnect link of an account is read as its. -/
theorem classify_reconnectHref {account : Nat} (h : account < 2 ^ 64) :
    classify (String.ofList (reconnectHref account)) = .reconnect account := by
  have hfront : Solid (reconnectScheme.toList ++ [':']) := by decide
  obtain ⟨htrim, hclean⟩ := clean_link hfront (by decide) (ofLink_toDigits account)
    (length_digits h)
  have hlower : String.ofList (reconnectScheme.toList.map toAsciiLowercase) = reconnectScheme := by
    decide
  have hlink : reconnectHref account = reconnectScheme.toList ++ ':' :: Nat.toDigits 10 account := by
    have hcolon : ":".toList = [':'] := by decide
    unfold reconnectHref
    rw [hcolon, List.append_assoc, List.singleton_append]
  rw [List.nil_append] at htrim hclean
  rw [hlink]
  unfold classify
  simp only [String.toList_ofList, htrim, if_neg hclean]
  rw [splitOnce_at (by decide)]
  simp only [hlower, parseUsize_toDigits h]
  rw [if_neg, if_neg, if_neg, if_pos trivial]
  · rfl
  · decide
  · decide
  · rintro ⟨hweb | hweb, -⟩ <;> exact absurd hweb (by decide)

/-- What clicks on the block's links do: each is of the attachment it stands beside. -/
theorem clicks_header (localDateTime : LocalDateTime) (header : MailHeader)
    {attachments : List Attachment} (h : attachments.length ≤ 2 ^ 64) :
    clicks (headerTree localDateTime header attachments) = attachmentActions attachments.length := by
  have hlines : ∀ is : List Nat, (∀ i ∈ is, i < 2 ^ 64) →
      (is.flatMap fun i => [saveHref i, openHref i]).map (fun h => classify (String.ofList h)) =
        is.flatMap fun i => [.saveAttachment i, .openAttachment i] := by
    intro is
    induction is with
    | nil => exact fun _ => rfl
    | cons i is ih =>
      intro his
      have hi := his i List.mem_cons_self
      rw [List.flatMap_cons, List.map_append, ih fun j hj => his j (List.mem_cons_of_mem _ hj),
        List.flatMap_cons, List.map_cons, List.map_singleton, classify_saveHref hi,
        classify_openHref hi]
  unfold clicks attachmentActions
  rw [hrefs_header, List.map_append, hlines _ fun i hi => by
    have := List.mem_range.mp hi
    omega]
  split
  · rw [List.map_singleton, classify_saveAllHref]
  · rfl

/-! ## 7. The pane -/

/-- The style sheets of the pane. -/
def paneStyles (appearance : Appearance) (body : List Char) : List Event :=
  .style [] (headerRules appearance.palette) ::
    if appearance.themesBody body then [.style [] (bodyRules appearance.palette)] else []

/-- **A message on the screen.**  Whatever the message is and says of itself, an HTML reader finds in the
document of the pane what it finds in the rendered message, with the pane's style sheets and one header
block put in between its head and its body: in the block every field is text, and its links do to the
attachments of the message what stands beside them. -/
theorem render_reads (clean : List Char → List Event) (encode : List UInt8 → List Char)
    (cleanText : List Char → List Char) (parseMail : List UInt8 → Except (List Char) ParsedMail)
    (raw : List UInt8) (localDateTime : LocalDateTime) (appearance : Appearance) (header : MailHeader)
    {attachments : List Attachment} (hfit : attachments.length ≤ 2 ^ 64) :
    ∃ rest, read (renderMessage clean encode cleanText parseMail raw) = documentHead ++ rest ∧
      read (render localDateTime appearance header
        (renderMessage clean encode cleanText parseMail raw) attachments) =
          documentHead ++ (paneStyles appearance (renderMessage clean encode cleanText parseMail raw) ++
            (headerTree localDateTime header attachments ++ rest)) ∧
      clicks (headerTree localDateTime header attachments) = attachmentActions attachments.length := by
  obtain ⟨body, hbody⟩ : ∃ body, renderMessage clean encode cleanText parseMail raw = wrapDocument body :=
    ⟨_, rfl⟩
  rw [hbody]
  refine ⟨read ('\n' :: body), ?_, ?_, clicks_header localDateTime header hfit⟩
  · rw [wrapDocument_lead, ← readsAs_documentHead ('\n' :: body)]
    simp only [List.append_assoc]
  · have hthemed : ReadsAs (if appearance.themesBody (wrapDocument body) then bodyStyle appearance.palette
        else []) (if appearance.themesBody (wrapDocument body) then
          [.style [] (bodyRules appearance.palette)] else []) := by
      split
      · exact readsAs_bodyStyle appearance.palette
      · exact .nil
    have hstyles : ReadsAs (headerStyle appearance.palette ++
        if appearance.themesBody (wrapDocument body) then bodyStyle appearance.palette else [])
        (paneStyles appearance (wrapDocument body)) :=
      (readsAs_headerStyle appearance.palette).append hthemed
    have hall := readsAs_documentHead.append
      (hstyles.append (readsAs_headerBlock localDateTime header attachments))
    have hread := hall ('\n' :: body)
    rw [render, document_wrapDocument]
    simp only [List.append_assoc] at hread ⊢
    exact hread

/-- A tag whose values need no escape. -/
theorem Attr.markup_of_quiet {name value : List Char} (h : Quiet value) :
    Attr.markup ⟨name, value⟩ = ' ' :: name ++ '=' :: '"' :: value ++ ['"'] := by
  unfold Attr.markup
  rw [h.escape]

/-- The style of a notice. -/
def noticeStyle (palette : Palette) : List Char :=
  "font-family:'Segoe UI',sans-serif;font-size:14px;color:".toList ++ colour palette.muted ++
    ";margin:24px".toList

theorem quiet_noticeStyle (palette : Palette) : Quiet (noticeStyle palette) :=
  .append (.append (quiet_literal (by decide)) (quiet_colour _)) (quiet_literal (by decide))

/-- The link of a notice. -/
theorem readsAs_noticeLink (label href : String) (palette : Palette) :
    ReadsAs ("<p><a style=\"color:".toList ++ colour palette.link ++ "\" href=\"".toList ++
        escape href ++ "\">".toList ++ escape label ++ "</a></p>".toList)
      (element paragraphName [] (element anchorName
        [⟨styleAttr, "color:".toList ++ colour palette.link⟩, ⟨hrefName, href.toList⟩]
        (chars label.toList))) := by
  have hparagraph : PlainName paragraphName := .of_all (by decide) (by decide) (by decide)
  have hattrs : ∀ a ∈ [(⟨styleAttr, "color:".toList ++ colour palette.link⟩ : Attr),
      ⟨hrefName, href.toList⟩], PlainName a.name := by
    intro a ha
    simp only [List.mem_cons, List.not_mem_nil, or_false] at ha
    rcases ha with rfl | rfl
    · exact plainName_styleAttr
    · exact plainName_href
  have hlink := readsAs_element plainName_anchor (by decide) hattrs (readsAs_escape label)
  have hall := readsAs_element hparagraph (by decide) (fun _ ha => absurd ha List.not_mem_nil)
    hlink
  have hquiet : Quiet ("color:".toList ++ colour palette.link) :=
    .append (by decide) (quiet_colour _)
  have hopen : "<p><a style=\"color:".toList = markupTag paragraphName [] ++ ('<' :: anchorName ++
      (' ' :: styleAttr ++ '=' :: '"' :: "color:".toList)) := by decide
  have hmid : "\" href=\"".toList = '"' :: (' ' :: hrefName ++ ['=', '"']) := by decide
  have hend : "\">".toList = ['"', '>'] := by decide
  have hclose : "</a></p>".toList = closeTagText anchorName ++ closeTagText paragraphName := by
    decide
  rw [hopen, hmid, hend, hclose]
  unfold markupTag at hall ⊢
  simp only [List.flatMap_cons, List.flatMap_nil, Attr.markup_of_quiet hquiet] at hall
  simpa [Attr.markup, escape] using hall

theorem render_reads_of_markup :
    let header : MailHeader := ⟨1, "<script>", "<a href=x>", "", "", "", []⟩
    let body := renderMessage (fun _ => []) (fun _ => []) id (fun _ => .error []) []
    ∃ rest, read body = documentHead ++ rest ∧
      read (render (fun _ => none) ⟨.darkPalette, false⟩ header body [⟨"\"", "", []⟩]) =
        documentHead ++ (paneStyles ⟨.darkPalette, false⟩ body ++
          (headerTree (fun _ => none) header [⟨"\"", "", []⟩] ++ rest)) ∧
      clicks (headerTree (fun _ => none) header [⟨"\"", "", []⟩]) = attachmentActions 1 :=
  render_reads _ _ _ _ [] _ _ _ (by decide)

/-- The pane's notice reads as its text and its link, and nothing of them is a mark. -/
theorem readsAs_notice (text : String) (action : Option (String × String)) (palette : Palette) :
    ReadsAs (notice text action palette) (noticeTree text action palette) := by
  have hdoctype : ReadsAs ('<' :: '!' :: "doctype html".toList ++ ['>']) [] :=
    readsAs_declaration (by decide)
  have hmeta : ReadsAs (markupTag metaName [⟨charsetName, utf8Name⟩])
      [.openTag metaName [⟨charsetName, utf8Name⟩]] := by
    refine readsAs_markupTag plainName_meta ?_ ?_
    · decide
    · exact fun _ ha => List.mem_singleton.mp ha ▸ plainName_charset
  have hlink : ReadsAs (match action with
      | none => []
      | some (label, href) =>
        "<p><a style=\"color:".toList ++ colour palette.link ++ "\" href=\"".toList ++ escape href ++
          "\">".toList ++ escape label ++ "</a></p>".toList)
      (match action with
      | none => []
      | some (label, href) =>
        element paragraphName [] (element anchorName
          [⟨styleAttr, "color:".toList ++ colour palette.link⟩, ⟨hrefName, href.toList⟩]
          (chars label.toList))) := by
    rcases action with - | ⟨label, href⟩
    · exact .nil
    · exact readsAs_noticeLink label href palette
  have hbody : ReadsAs (markupTag bodyName [⟨styleAttr, noticeStyle palette⟩] ++ (escape text ++ _) ++
      closeTagText bodyName) _ :=
    readsAs_element (.of_all (by decide) (by decide) (by decide)) (by decide)
      (fun _ ha => List.mem_singleton.mp ha ▸ plainName_styleAttr) ((readsAs_escape text).append hlink)
  have hall := hdoctype.append (hmeta.append hbody)
  have hopen : "<!doctype html><meta charset=\"utf-8\"><body style=\"font-family:'Segoe UI',sans-serif;font-size:14px;color:".toList =
      '<' :: '!' :: "doctype html".toList ++ ['>'] ++ (markupTag metaName [⟨charsetName, utf8Name⟩] ++
        ('<' :: bodyName ++ (' ' :: styleAttr ++ '=' :: '"' ::
          "font-family:'Segoe UI',sans-serif;font-size:14px;color:".toList))) := by
    rw [String.toList_ofList, String.toList_ofList, String.toList_ofList]
    rfl
  have hmargin : ";margin:24px\">".toList = ";margin:24px".toList ++ ['"', '>'] := by decide
  have hclose : "</body>".toList = closeTagText bodyName := by decide
  have htag : markupTag bodyName [⟨styleAttr, noticeStyle palette⟩] =
      '<' :: bodyName ++ (' ' :: styleAttr ++ '=' :: '"' :: noticeStyle palette ++ ['"', '>']) := by
    unfold markupTag
    rw [List.flatMap_singleton, Attr.markup_of_quiet (quiet_noticeStyle palette)]
    simp
  unfold notice noticeTree
  rw [hopen, hmargin, hclose]
  rw [htag] at hall
  unfold noticeStyle at hall
  simp only [List.append_assoc, List.cons_append, List.nil_append] at hall ⊢
  exact hall

/-- **A failed sign-in on the screen.**  Whatever the notice says and however its link is labelled, an
HTML reader finds it as text; and a click on the link opens the form of the account it is about. -/
theorem notice_reconnects (text label : String) (palette : Palette) {account : Nat}
    (hfit : account < 2 ^ 64) :
    let action := some (label, String.ofList (reconnectHref account))
    read (notice text action palette) = noticeTree text action palette ∧
      clicks (noticeTree text action palette) = [.reconnect account] := by
  refine ⟨(readsAs_notice text _ palette).read, ?_⟩
  have hlinks : hrefs (noticeTree text (some (label, String.ofList (reconnectHref account))) palette) =
      [reconnectHref account] := by
    unfold noticeTree
    rw [hrefs_cons, hrefs_element _ _ (by decide), hrefs_append, hrefs_chars,
      hrefs_element _ _ (by decide), hrefs_anchor]
    have hmeta : metaName ≠ anchorName := by decide
    simp [hrefs, styleAttr, hrefName, hmeta]
  unfold clicks
  rw [hlinks, List.map_singleton, classify_reconnectHref hfit]

theorem notice_reconnects_of_first :
    read (notice "<b>" (some ("Reconnect", String.ofList (reconnectHref 0))) .light) =
        noticeTree "<b>" (some ("Reconnect", String.ofList (reconnectHref 0))) .light ∧
      clicks (noticeTree "<b>" (some ("Reconnect", String.ofList (reconnectHref 0))) .light) =
        [.reconnect 0] :=
  notice_reconnects "<b>" "Reconnect" .light (by decide)

end Esmail.MessagePane
