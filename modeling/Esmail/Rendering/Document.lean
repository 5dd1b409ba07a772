/-
# The document that a message is shown as

`render_message` of `render.rs`: the body that was picked, made safe to show, inside a document that
brings a style sheet of its own.  The parser of messages, the two cleaners of `ammonia` and the
`base64` encoder are parameters.

`reads_wrapDocument` is what a reader sees of the document, whatever the body is: three empty lines, which
are the lines above it, and the body.  The document is taken tag by tag (`wrapDocument_eq`), and none of
the style sheet is seen, as it has no `<` in it.  `reads_renderMessage` goes on to a plain text, which is
seen as it is, but for a line feed at its beginning, which a `pre` hides.

What a reader sees is `Reads` of `Library/HtmlText.lean`; how a browser lays it out is not modelled.
-/
import Esmail.Library.HtmlText
import Esmail.Rendering.Parts
import Esmail.Rendering.Sanitize

namespace Esmail

open RustText Html

/-! ## 1. Rendering -/

/-- The style sheet of `wrap_document`. -/
def documentStyle : String :=
  "\n  body \x7b\n" ++
  "    font-family: -apple-system, \"Segoe UI\", Roboto, Helvetica, Arial, sans-serif;\n" ++
  "    font-size: 14px;\n" ++
  "    line-height: 1.4;\n" ++
  "    color: #1a1a1a;\n" ++
  "    margin: 12px;\n" ++
  "    max-width: 100%;\n" ++
  "    overflow-wrap: break-word;\n" ++
  "  \x7d\n" ++
  "  img \x7b max-width: 100%; height: auto; \x7d\n" ++
  "  pre \x7b white-space: pre-wrap; font-family: inherit; \x7d\n"

/-- `wrap_document`. -/
def wrapDocument (body : List Char) : List Char :=
  "<!doctype html>\n<meta charset=\"utf-8\">\n<style>".toList ++ documentStyle.toList ++
    "</style>\n".toList ++ body

section Rendering

variable (clean : List Char → List Event) (encode : List UInt8 → List Char)
  (cleanText : List Char → List Char)

/-- `render_parsed`, where `cleanText` is `ammonia::clean_text`. -/
def renderParsed (parsed : ParsedMail) : List Char :=
  match parsed.findHtml with
  | some html => sanitize clean (resolveCidParts encode html parsed)
  | none =>
    match parsed.findText with
    | some text => "<pre>".toList ++ cleanText text ++ "</pre>".toList
    | none => "<p><em>(this message has no readable body)</em></p>".toList

/-- `render_message`, where `parseMail` is `mailparse::parse_mail`. -/
def renderMessage (parseMail : List UInt8 → Except (List Char) ParsedMail) (raw : List UInt8) :
    List Char :=
  let bodyHtml :=
    match parseMail raw with
    | .ok parsed => renderParsed clean encode cleanText parsed
    | .error e => "<p>Could not parse this message: ".toList ++ cleanText e ++ "</p>".toList
  wrapDocument bodyHtml

end Rendering

/-! ## 2. What is seen of it -/

theorem documentStyle_no_bracket : '<' ∉ documentStyle.toList := by
  unfold documentStyle
  simp only [String.toList_append, List.mem_append, not_or]
  refine ⟨⟨⟨⟨⟨⟨⟨⟨⟨⟨?_, ?_⟩, ?_⟩, ?_⟩, ?_⟩, ?_⟩, ?_⟩, ?_⟩, ?_⟩, ?_⟩, ?_⟩
  all_goals
    rw [String.toList_ofList]
    decide

def charsetName : List Char := ['c', 'h', 'a', 'r', 's', 'e', 't']

def utf8Name : List Char := ['u', 't', 'f', '-', '8']

/-- The document, tag by tag. -/
theorem wrapDocument_eq (body : List Char) :
    wrapDocument body = doctype ++ ('\n' :: (openTagText metaName [⟨charsetName, utf8Name⟩] ++
      ('\n' :: (openTagText styleName [] ++ documentStyle.toList ++ closeTagText styleName ++
        ('\n' :: body))))) := by
  have hhead : "<!doctype html>\n<meta charset=\"utf-8\">\n<style>".toList =
      doctype ++ ('\n' :: (openTagText metaName [⟨charsetName, utf8Name⟩] ++
        ('\n' :: openTagText styleName []))) := by
    rw [String.toList_ofList]
    rfl
  have htail : "</style>\n".toList = closeTagText styleName ++ ['\n'] := by
    rw [String.toList_ofList]
    rfl
  unfold wrapDocument
  rw [hhead, htail]
  simp

theorem head?_wrapDocument (body : List Char) : (wrapDocument body).head? = some '<' := by
  rw [wrapDocument_eq, List.head?_append]
  unfold doctype
  rw [String.toList_ofList]
  rfl

/-- A reader sees the body, and an empty line for each line above it. -/
theorem reads_wrapDocument {names : List (List Char × Char)} {body t : List Char}
    (h : Reads names body t) :
    Reads names (wrapDocument body) ('\n' :: '\n' :: '\n' :: t) := by
  have hfeed : ∀ {html t : List Char}, Reads names html t →
      Reads names ('\n' :: html) ('\n' :: t) := fun {_ _} h => .text (.plain '\n' (by decide)) h
  have hname : PlainName charsetName := .of_all (by decide) (by decide) (by decide)
  rw [wrapDocument_eq]
  exact .doctype (hfeed (.metaTag hname (hfeed (.style documentStyle_no_bracket (hfeed h)))))

/-- A plain text is seen as it is, except for a line feed at its beginning. -/
theorem reads_renderMessage {names : List (List Char × Char)} {clean : List Char → List Event}
    {encode : List UInt8 → List Char} {cleanText : List Char → List Char} {enc : Char → List Char}
    {seen : Char → Char} {parseMail : List UInt8 → Except (List Char) ParsedMail} {raw : List UInt8}
    {parsed : ParsedMail} {text : List Char} (hclean : ∀ s, cleanText s = s.flatMap enc)
    (henc : ∀ c, Spells names (enc c) (seen c)) (hparse : parseMail raw = .ok parsed)
    (hhtml : parsed.findHtml = none) (htext : parsed.findText = some text) :
    Reads names (renderMessage clean encode cleanText parseMail raw)
      ('\n' :: '\n' :: '\n' :: preText (text.map seen)) := by
  have hbody : renderParsed clean encode cleanText parsed =
      openTagText preName [] ++ text.flatMap enc ++ closeTagText preName ++ [] := by
    have hopen : "<pre>".toList = openTagText preName [] := by decide
    have hclose : "</pre>".toList = closeTagText preName := by decide
    unfold renderParsed
    simp only [hhtml, htext]
    rw [hclean, hopen, hclose, List.append_nil]
  unfold renderMessage
  simp only [hparse]
  rw [hbody]
  have hpre := Reads.pre (spelled_flatMap names henc text) .nil
  rw [List.append_nil (preText _)] at hpre
  exact reads_wrapDocument hpre

end Esmail
