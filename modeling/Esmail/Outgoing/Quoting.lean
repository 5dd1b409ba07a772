/-
# What a reply quotes of a plain text

A plain text is written into HTML to be shown (`render.rs`), and a reply quotes what a second cleaner
makes of the document (`compose.rs`): the text that is seen, written as HTML once more.  Nothing
undoes that, so the quote is the text only where HTML writes every character as it is.

`quotes_text_iff` is about every message that is shown as a plain text, and about reply, reply to all and
forward alike: they quote the text line by line and with every character kept, exactly where it has no
`&`, `<`, `>`, no no-break space and no zero.

The document reads as the text in a `pre` (`reads_renderMessage`, in `Rendering/Document.lean`), so the
second cleaner writes what is seen of that (`plainText_renderMessage`); its lines are those of the text,
rewritten (`quoteOriginal_lines`), as no end of a line is rewritten and nothing else is rewritten to one
(`keepsLines_quotedChar`).  Lines that are rewritten are the same exactly where all of their characters
are.

Of `ammonia` two things are assumed: that `clean_text` writes each character as something HTML reads as
that character, and that the cleaner without any tag writes the text of what it reads, escaped.  How a
message is parsed is a parameter.
-/
import Esmail.Library.TextLines
import Esmail.Library.Utf8
import Esmail.Outgoing.Reply
import Esmail.Rendering.Document

namespace Esmail.Compose

open RustText Html

/-! ## 1. What a quote should be -/

/-- What comes before the quoted lines. -/
def attribution (original : MailHeader) : String :=
  "\n\nOn " ++ original.date ++ ", " ++ original.sender ++ " wrote:\n"

/-- A line of a quote that quotes nothing. -/
def isBlankQuote (line : List Char) : Bool := line == [] || line == ['>', ' ']

/-- The quoted block is the lines of the text, apart from blank lines at either end. -/
def QuotesText (original : MailHeader) (text : List Char) (draft : Draft) : Prop :=
  ∃ block, draft.text.body = attribution original ++ String.ofList block ∧
    inner isBlankQuote (split '\n' block) =
      (inner List.isEmpty (lines text)).map (['>', ' '] ++ ·)

/-- The characters that are not quoted as they are. -/
def unquotable : List Char := ['&', '<', '>', nbsp, '\x00']

/-- A character as HTML can show it: there is no reference for zero. -/
def shownChar (c : Char) : Char := if c = '\x00' then Char.ofNat 0xFFFD else c

/-- A character as it is quoted. -/
def quotedChar (c : Char) : List Char := escapeChar (shownChar c)

theorem escapeChar_eq_self {c : Char} (h : c ∉ ['&', '<', '>', nbsp]) : escapeChar c = [c] := by
  simp only [List.mem_cons, List.not_mem_nil, or_false, not_or] at h
  obtain ⟨hamp, hlt, hgt, hnbsp⟩ := h
  rw [escapeChar, if_neg hamp, if_neg hlt, if_neg hgt, if_neg hnbsp]

theorem quotedChar_eq_self_iff (c : Char) : quotedChar c = [c] ↔ c ∉ unquotable := by
  have hescaped : unquotable.all (fun d => quotedChar d ≠ [d]) = true := by decide
  constructor
  · exact fun hsame hmem => of_decide_eq_true (List.all_eq_true.mp hescaped c hmem) hsame
  · intro h
    simp only [unquotable, List.mem_cons, List.not_mem_nil, or_false, not_or] at h
    obtain ⟨hamp, hlt, hgt, hnbsp, hzero⟩ := h
    rw [quotedChar, shownChar, if_neg hzero]
    exact escapeChar_eq_self (by simp [hamp, hlt, hgt, hnbsp])

/-- The ends of lines are quoted as they are, and no other character is quoted as one. -/
theorem keepsLines_quotedChar : KeepsLines quotedChar where
  feed := by decide
  carriage := by decide
  other := by
    intro c hfeed hreturn
    have hescaped : unquotable.all (fun d =>
        quotedChar d ≠ [] ∧ '\n' ∉ quotedChar d ∧ '\r' ∉ quotedChar d) = true := by decide
    by_cases hc : c ∈ unquotable
    · exact of_decide_eq_true (List.all_eq_true.mp hescaped c hc)
    · rw [(quotedChar_eq_self_iff c).mpr hc]
      simp [Ne.symm hfeed, Ne.symm hreturn]

theorem isEmpty_quoted (line : List Char) : (line.flatMap quotedChar).isEmpty = line.isEmpty := by
  rw [Bool.eq_iff_iff, List.isEmpty_iff, List.isEmpty_iff]
  exact keepsLines_quotedChar.flatMap_eq_nil line

/-! ## 2. The lines of a quote -/

/-- The line feed that a `pre` element hides is a blank line. -/
theorem inner_lines_preText (text : List Char) :
    inner List.isEmpty (lines (preText text)) = inner List.isEmpty (lines text) := by
  unfold preText
  split
  · next t =>
    rw [lines_feed]
    exact (inner_append List.isEmpty [[]] (lines t) (by simp)).symm
  · rfl

theorem preText_map_shownChar (text : List Char) :
    preText (text.map shownChar) = (preText text).map shownChar := by
  cases text with
  | nil => rfl
  | cons c text =>
    by_cases hc : c = '\n'
    · rw [hc]
      rfl
    · have hshown : shownChar c ≠ '\n' := by
        rw [shownChar]
        split
        · decide
        · exact hc
      rw [List.map_cons, preText_of_ne hshown, preText_of_ne hc, List.map_cons]

/-- The lines that are quoted of what is seen of a text below three empty lines. -/
theorem inner_split_quoted (text : List Char) :
    inner isBlankQuote (split '\n' (join ['\n']
        ((lines (('\n' :: '\n' :: '\n' :: preText text).flatMap quotedChar)).map (['>', ' '] ++ ·)))) =
      ((inner List.isEmpty (lines text)).map (List.flatMap quotedChar)).map (['>', ' '] ++ ·) := by
  have hlines : lines (('\n' :: '\n' :: '\n' :: preText text).flatMap quotedChar) =
      ([] :: [] :: [] :: lines (preText text)).map (List.flatMap quotedChar) := by
    rw [lines_flatMap keepsLines_quotedChar, lines_feed, lines_feed, lines_feed]
  have hnone : ∀ piece ∈ (([] :: [] :: [] :: lines (preText text)).map
      (List.flatMap quotedChar)).map (['>', ' '] ++ ·), '\n' ∉ piece := by
    rw [← hlines]
    intro piece hpiece
    obtain ⟨line, hline, rfl⟩ := List.mem_map.mp hpiece
    simp [feed_not_mem_lines hline]
  have hblank : ∀ line : List Char, isBlankQuote (['>', ' '] ++ line) = line.isEmpty := by
    rintro (- | ⟨c, line⟩) <;> rfl
  have hfront : inner List.isEmpty ([] :: [] :: [] :: lines (preText text)) =
      inner List.isEmpty (lines text) :=
    (inner_append List.isEmpty [[], [], []] _ (by simp)).trans (inner_lines_preText text)
  rw [hlines, split_join_self (by simp) hnone, inner_map _ hblank, inner_map _ isEmpty_quoted, hfront]

section Quoting

variable {names : List (List Char × Char)} {clean : List Char → List Event}
  {encode : List UInt8 → List Char} {cleanText : List Char → List Char} {enc : Char → List Char}
  {parseMail : List UInt8 → Except (List Char) ParsedMail} {plainText : String → String}
  {raw : List UInt8} {parsed : ParsedMail} {text : List Char}

/-- The second cleaner writes what is seen of the document once more. -/
theorem plainText_renderMessage
    (hclean : ∀ s, cleanText s = s.flatMap enc) (henc : ∀ c, Spells names (enc c) (shownChar c))
    (hplain : ∀ html t, html.head? = some '<' → Reads names html t →
      plainText (String.ofList html) = String.ofList (t.flatMap escapeChar))
    (hparse : parseMail raw = .ok parsed) (hhtml : parsed.findHtml = none)
    (htext : parsed.findText = some text) :
    (plainText (String.ofList (renderMessage clean encode cleanText parseMail raw))).toList =
      ('\n' :: '\n' :: '\n' :: preText text).flatMap quotedChar := by
  have hreads : Reads names (renderMessage clean encode cleanText parseMail raw)
      ('\n' :: '\n' :: '\n' :: preText (text.map shownChar)) :=
    reads_renderMessage hclean henc hparse hhtml htext
  have hhead : (renderMessage clean encode cleanText parseMail raw).head? = some '<' := by
    unfold renderMessage
    exact head?_wrapDocument _
  rw [hplain _ _ hhead hreads, String.toList_ofList, preText_map_shownChar]
  simp only [List.flatMap_cons, List.flatMap_map]
  rfl

/-- The lines quoted are those of the text, rewritten. -/
theorem quoteOriginal_lines (original : MailHeader)
    (hclean : ∀ s, cleanText s = s.flatMap enc) (henc : ∀ c, Spells names (enc c) (shownChar c))
    (hplain : ∀ html t, html.head? = some '<' → Reads names html t →
      plainText (String.ofList html) = String.ofList (t.flatMap escapeChar))
    (hparse : parseMail raw = .ok parsed) (hhtml : parsed.findHtml = none)
    (htext : parsed.findText = some text) :
    ∃ block, quoteOriginal plainText original
          (String.ofList (renderMessage clean encode cleanText parseMail raw)) =
        attribution original ++ String.ofList block ∧
      inner isBlankQuote (split '\n' block) =
        ((inner List.isEmpty (lines text)).map (List.flatMap quotedChar)).map (['>', ' '] ++ ·) := by
  refine ⟨_, rfl, ?_⟩
  rw [plainText_renderMessage hclean henc hplain hparse hhtml htext]
  exact inner_split_quoted text

/-- The lines of a text stay as they are exactly where its characters do. -/
theorem inner_lines_quoted_iff (text : List Char) :
    (inner List.isEmpty (lines text)).map (List.flatMap quotedChar) =
        inner List.isEmpty (lines text) ↔
      ∀ c ∈ text, c ∉ unquotable := by
  have hne := keepsLines_quotedChar.ne_nil
  constructor
  · intro hsame c hc
    by_cases hend : c = '\n' ∨ c = '\r'
    · rcases hend with rfl | rfl <;> decide
    · obtain ⟨hfeed, hreturn⟩ := not_or.mp hend
      obtain ⟨line, hline, hin⟩ := exists_line hfeed hreturn hc
      have hinner : line ∈ inner List.isEmpty (lines text) := by
        refine mem_inner _ ?_ hline
        rw [Bool.eq_false_iff, ne_eq, List.isEmpty_iff]
        exact List.ne_nil_of_mem hin
      have hkept : line.flatMap quotedChar = line :=
        List.map_inj_left.mp (hsame.trans (List.map_id _).symm) line hinner
      exact (quotedChar_eq_self_iff c).mp ((flatMap_eq_self_iff hne line).mp hkept c hin)
  · intro h
    have hkept : text.flatMap quotedChar = text :=
      (flatMap_eq_self_iff hne text).mpr fun c hc => (quotedChar_eq_self_iff c).mpr (h c hc)
    rw [← inner_map _ isEmpty_quoted, ← lines_flatMap keepsLines_quotedChar, hkept]

/-- A draft that quotes the document shown for a text quotes the text exactly where HTML writes all of
its characters as they are. -/
theorem quotesText_iff {original : MailHeader} {draft : Draft}
    (hclean : ∀ s, cleanText s = s.flatMap enc) (henc : ∀ c, Spells names (enc c) (shownChar c))
    (hplain : ∀ html t, html.head? = some '<' → Reads names html t →
      plainText (String.ofList html) = String.ofList (t.flatMap escapeChar))
    (hparse : parseMail raw = .ok parsed) (hhtml : parsed.findHtml = none)
    (htext : parsed.findText = some text)
    (hbody : draft.text.body = quoteOriginal plainText original
      (String.ofList (renderMessage clean encode cleanText parseMail raw))) :
    QuotesText original text draft ↔ ∀ c ∈ text, c ∉ unquotable := by
  have hlines : ∃ block, draft.text.body = attribution original ++ String.ofList block ∧
      inner isBlankQuote (split '\n' block) =
        ((inner List.isEmpty (lines text)).map (List.flatMap quotedChar)).map (['>', ' '] ++ ·) := by
    rw [hbody]
    exact quoteOriginal_lines original hclean henc hplain hparse hhtml htext
  obtain ⟨block, hquote, hblock⟩ := hlines
  have hinj : Function.Injective (['>', ' '] ++ · : List Char → List Char) :=
    List.append_right_injective _
  rw [← inner_lines_quoted_iff, ← (List.map_injective_iff.mpr hinj).eq_iff, ← hblock]
  constructor
  · rintro ⟨block', hbody', hlines⟩
    have hsame : block' = block := by
      have hboth := congrArg String.toList (hbody'.symm.trans hquote)
      simpa using hboth
    rw [← hsame, hlines]
  · exact fun hlines => ⟨block, hquote, hlines⟩

/-- Whatever the message is, where it is shown as a plain text: a reply, a reply to all and a forward
quote the text, line by line and with every character kept, exactly where it has no `&`, `<`, `>`, no
no-break space and no zero. -/
theorem quotes_text_iff (original : MailHeader) (myAddress : String)
    (hclean : ∀ s, cleanText s = s.flatMap enc) (henc : ∀ c, Spells names (enc c) (shownChar c))
    (hplain : ∀ html t, html.head? = some '<' → Reads names html t →
      plainText (String.ofList html) = String.ofList (t.flatMap escapeChar))
    (hparse : parseMail raw = .ok parsed) (hhtml : parsed.findHtml = none)
    (htext : parsed.findText = some text) :
    let shown := String.ofList (renderMessage clean encode cleanText parseMail raw)
    ∀ draft ∈ [reply plainText original shown, replyAll plainText original shown myAddress,
        forward plainText original shown],
      (QuotesText original text draft ↔ ∀ c ∈ text, c ∉ unquotable) := by
  intro shown draft hdraft
  have hbody : draft.text.body = quoteOriginal plainText original shown := by
    simp only [List.mem_cons, List.not_mem_nil, or_false] at hdraft
    rcases hdraft with rfl | rfl | rfl <;> rfl
  exact quotesText_iff hclean henc hplain hparse hhtml htext hbody

end Quoting

/-! ## 3. Two messages -/

/-- The named references that `ammonia::clean_text` writes, and the decimal ones. -/
def cleanNames : List (List Char × Char) :=
  [(['l', 't'], '<'), (['g', 't'], '>'), (['q', 'u', 'o', 't'], '"'), (['a', 'p', 'o', 's'], '\''),
    (['g', 'r', 'a', 'v', 'e'], Char.ofNat 0x60), (['a', 'm', 'p'], '&')]

def cleanNumbers : List (List Char × Char) :=
  [(['4', '7'], '/'), (['6', '1'], '='), (['3', '2'], ' '), (['9'], '\t'), (['1', '0'], '\n'),
    (['1', '2'], '\x0C'), (['1', '3'], '\r'), (['6', '5', '5', '3', '3'], '\x00')]

/-- A character as it writes it. -/
def cleanChar (c : Char) : List Char :=
  match cleanNames.find? fun p => p.2 = c with
  | some p => '&' :: (p.1 ++ [';'])
  | none =>
    match cleanNumbers.find? fun p => p.2 = c with
    | some p => '&' :: '#' :: (p.1 ++ [';'])
    | none => [c]

theorem spells_cleanChar (c : Char) : Spells cleanNames (cleanChar c) (shownChar c) := by
  have hnames : cleanNames.all (fun p => p.1.all isNameChar ∧
      cleanNames.lookup p.1 = some (shownChar p.2)) = true := by decide
  have hnumbers : cleanNumbers.all (fun p => p.1 ≠ [] ∧ p.1.all (fun d => digitValue d < 10) ∧
      numberedChar (valueOf 10 p.1) = some (shownChar p.2)) = true := by decide
  rw [cleanChar]
  cases hname : cleanNames.find? fun p => p.2 = c with
  | some p =>
    have hall := List.all_eq_true.mp hnames p (List.mem_of_find?_eq_some hname)
    obtain ⟨hchars, hlookup⟩ := of_decide_eq_true hall
    obtain rfl : p.2 = c := by simpa using List.find?_some hname
    exact .named p.1 _ (List.all_eq_true.mp hchars) hlookup
  | none =>
    cases hnumber : cleanNumbers.find? fun p => p.2 = c with
    | some p =>
      have hall := List.all_eq_true.mp hnumbers p (List.mem_of_find?_eq_some hnumber)
      obtain ⟨hne, hdigits, hvalue⟩ := of_decide_eq_true hall
      obtain rfl : p.2 = c := by simpa using List.find?_some hnumber
      refine .numeric [] 10 p.1 _ (by decide) hne (fun d hd => ?_) hvalue
      exact of_decide_eq_true (List.all_eq_true.mp hdigits d hd)
    | none =>
      rw [List.find?_eq_none] at hname hnumber
      simp only [cleanNames, cleanNumbers, List.forall_mem_cons, decide_eq_true_eq] at hname hnumber
      have hzero : c ≠ '\x00' := fun h => by simp [h] at hnumber
      have hreturn : c ≠ '\r' := fun h => by simp [h] at hnumber
      have hamp : c ≠ '&' := fun h => by simp [h] at hname
      have hlt : c ≠ '<' := fun h => by simp [h] at hname
      rw [shownChar, if_neg hzero]
      exact .plain c (by simp [hamp, hlt, hreturn, hzero])

/-- `ammonia`'s cleaner without any tag, as far as fragments are read. -/
def plainTextOf (html : String) : String :=
  String.ofList ((textOf cleanNames html.toList).flatMap escapeChar)

theorem plainTextOf_reads (html t : List Char) (h : Reads cleanNames html t) :
    plainTextOf (String.ofList html) = String.ofList (t.flatMap escapeChar) := by
  rw [plainTextOf, String.toList_ofList, textOf_of_reads cleanNames h]

/-- A message of one part, a plain text. -/
def plainMail (text : List Char) : ParsedMail := { mimetype := ParsedMail.textPlain, body := some text }

theorem find_plainMail (text : List Char) :
    (plainMail text).findHtml = none ∧ (plainMail text).findText = some text := by
  have hne : ParsedMail.textPlain ≠ ParsedMail.textHtml := by
    unfold ParsedMail.textPlain ParsedMail.textHtml
    rw [String.toList_ofList, String.toList_ofList]
    decide
  constructor
  · unfold ParsedMail.findHtml plainMail
    rw [ParsedMail.findBody, if_neg hne]
    rfl
  · unfold ParsedMail.findText plainMail
    rw [ParsedMail.findBody, if_pos rfl]

/-- Its header. -/
def dinnerHeader : MailHeader :=
  { uid := 1, subject := "Dinner", sender := "Ann <ann@x.org>", recipient := "me@x.org"
    date := "Mon, 1 Jan 2026 12:00:00 +0000", messageId := "", flags := [] }

/-- It as it comes from the server. -/
def rawMail (text : List Char) : List UInt8 :=
  encodeUtf8 ("Content-Type: text/plain; charset=utf-8\r\n\r\n".toList ++ text)

/-- The parser, as far as this one message goes. -/
def parsesTo (text : List Char) (raw : List UInt8) : Except (List Char) ParsedMail :=
  if raw = rawMail text then .ok (plainMail text) else .error "another message".toList

theorem parsesTo_rawMail (text : List Char) : parsesTo text (rawMail text) = .ok (plainMail text) :=
  if_pos rfl

/-- The document shown for it. -/
def shownFor (text : List Char) : String :=
  String.ofList (renderMessage (fun _ => []) (fun _ => []) (List.flatMap cleanChar) (parsesTo text)
    (rawMail text))

/-- An appointment is quoted as it is. -/
theorem quotes_text_seven :
    QuotesText dinnerHeader ['a', 't', '\n', '7']
        (reply plainTextOf dinnerHeader (shownFor ['a', 't', '\n', '7'])) ∧
      QuotesText dinnerHeader ['a', 't', '\n', '7']
        (replyAll plainTextOf dinnerHeader (shownFor ['a', 't', '\n', '7']) "me@x.org") ∧
      QuotesText dinnerHeader ['a', 't', '\n', '7']
        (forward plainTextOf dinnerHeader (shownFor ['a', 't', '\n', '7'])) := by
  have hall : ['a', 't', '\n', '7'].all (fun c => c ∉ unquotable) = true := by decide
  have hquoted : ∀ draft ∈ [reply plainTextOf dinnerHeader (shownFor ['a', 't', '\n', '7']),
      replyAll plainTextOf dinnerHeader (shownFor ['a', 't', '\n', '7']) "me@x.org",
      forward plainTextOf dinnerHeader (shownFor ['a', 't', '\n', '7'])],
      QuotesText dinnerHeader ['a', 't', '\n', '7'] draft := fun draft hdraft =>
    (quotes_text_iff dinnerHeader "me@x.org" (fun _ => rfl) spells_cleanChar
      (fun html t _ h => plainTextOf_reads html t h) (parsesTo_rawMail _) (find_plainMail _).1 (find_plainMail _).2
      draft hdraft).mpr fun c hc => of_decide_eq_true (List.all_eq_true.mp hall c hc)
  refine ⟨hquoted _ ?_, hquoted _ ?_, hquoted _ ?_⟩
  · exact List.mem_cons_self
  · exact List.mem_cons_of_mem _ List.mem_cons_self
  · exact List.mem_cons_of_mem _ (List.mem_cons_of_mem _ List.mem_cons_self)

/-- A comparison is not: its sign is quoted as a reference. -/
theorem sign_quoted_as_reference :
    let text := ['a', '<', 'b']
    let draft := reply plainTextOf dinnerHeader (shownFor text)
    (∃ block, draft.text.body = attribution dinnerHeader ++ String.ofList block ∧
        inner isBlankQuote (split '\n' block) = [['>', ' ', 'a', '&', 'l', 't', ';', 'b']]) ∧
      ¬ QuotesText dinnerHeader text draft := by
  intro text draft
  have hplain : ∀ html t, html.head? = some '<' → Reads cleanNames html t →
      plainTextOf (String.ofList html) = String.ofList (t.flatMap escapeChar) :=
    fun html t _ h => plainTextOf_reads html t h
  obtain ⟨hhtml, htext⟩ := find_plainMail text
  constructor
  · have hquote : ∃ block, quoteOriginal plainTextOf dinnerHeader (shownFor text) =
          attribution dinnerHeader ++ String.ofList block ∧
        inner isBlankQuote (split '\n' block) = ((inner List.isEmpty (lines text)).map
          (List.flatMap quotedChar)).map (['>', ' '] ++ ·) :=
      quoteOriginal_lines dinnerHeader (fun _ => rfl) spells_cleanChar hplain (parsesTo_rawMail _) hhtml htext
    obtain ⟨block, hbody, hlines⟩ := hquote
    exact ⟨block, hbody, hlines.trans (by decide)⟩
  · rw [quotesText_iff (fun _ => rfl) spells_cleanChar hplain (parsesTo_rawMail _) hhtml htext rfl]
    exact fun h => h '<' (by simp [text]) (by decide)

end Esmail.Compose
