/-
# The parts of a message

What `render.rs` reads of a parsed message: the tree of its parts, the body that is rendered, and
the inline images that are put into it as `data:` URLs.

The tree is what `mailparse` answers: the headers are already values, and a body is there where its
transfer encoding (and, for a text, its character set) could be decoded.  The `base64` encoder is a
parameter.
-/
import Esmail.Library.Substitution
import Esmail.Library.RustText

namespace Esmail

open RustText

/-! ## 1. Parsed messages -/

/-- `mailparse::DispositionType`. -/
inductive DispositionType
  | inline
  | attachment
  | formData
  | extension (name : String)
  deriving DecidableEq, Repr

/-- `mailparse::ParsedMail`, as far as it is read: `mimetype` and `name` are those of `ctype`,
`disposition` and `filename` are what `get_content_disposition` makes of its header, `bodyRaw` and
`body` are `get_body_raw` and `get_body`. -/
structure ParsedMail where
  mimetype : List Char
  name : Option String := none
  disposition : DispositionType := .inline
  filename : Option String := none
  contentIdHeader : Option (List Char) := none
  bodyRaw : Option (List UInt8) := none
  body : Option (List Char) := none
  subparts : List ParsedMail := []

namespace ParsedMail

mutual

/-- `all_parts`: the part and everything below it, in document order. -/
def allParts : ParsedMail → List ParsedMail
  | part@⟨_, _, _, _, _, _, _, subparts⟩ => part :: allPartsOf subparts

def allPartsOf : List ParsedMail → List ParsedMail
  | [] => []
  | part :: parts => part.allParts ++ allPartsOf parts

end

mutual

/-- `find_html` and `find_text`: the body of the first part of a type that can be decoded. -/
def findBody (mimetype : List Char) : ParsedMail → Option (List Char)
  | part@⟨_, _, _, _, _, _, _, subparts⟩ =>
    if part.mimetype = mimetype then part.body else findBodyOf mimetype subparts

def findBodyOf (mimetype : List Char) : List ParsedMail → Option (List Char)
  | [] => none
  | part :: parts =>
    match part.findBody mimetype with
    | some body => some body
    | none => findBodyOf mimetype parts

end

def textHtml : List Char := "text/html".toList

def textPlain : List Char := "text/plain".toList

/-- `find_html`. -/
def findHtml (root : ParsedMail) : Option (List Char) := root.findBody textHtml

/-- `find_text`. -/
def findText (root : ParsedMail) : Option (List Char) := root.findBody textPlain

/-- `content_id`. -/
def contentId (part : ParsedMail) : Option (List Char) :=
  part.contentIdHeader.map fun raw => trimEnd (· == '>') ((trim raw).dropWhile (· == '<'))

/-! ## 2. Inline images -/

section Images

variable (encode : List UInt8 → List Char)

/-- The `data:` URL of a part with these bytes, where `encode` is the standard engine of
`base64`. -/
def dataUrl (part : ParsedMail) (bytes : List UInt8) : List Char :=
  "data:".toList ++ (part.mimetype ++ (";base64,".toList ++ encode bytes))

/-- What a part with a `Content-ID` is to be replaced by: its id and its URL. -/
def inlineImage (part : ParsedMail) : Option (List Char × List Char) :=
  match part.contentId with
  | none => none
  | some cid =>
    match part.bodyRaw with
    | none => none
    | some bytes => some (cid, part.dataUrl encode bytes)

end Images

end ParsedMail

/-- `cid:`. -/
def cidColon : List Char := "cid:".toList

section Resolving

variable (encode : List UInt8 → List Char)

/-- One round of the loop of `resolve_cid_parts`. -/
def resolvePart (html : List Char) (part : ParsedMail) : List Char :=
  match part.inlineImage encode with
  | none => html
  | some (cid, url) => replace (cidColon ++ cid) url html

/-- The loop, over a list of parts. -/
def resolveParts (html : List Char) (parts : List ParsedMail) : List Char :=
  parts.foldl (resolvePart encode) html

/-- `resolve_cid_parts`. -/
def resolveCidParts (html : List Char) (root : ParsedMail) : List Char :=
  resolveParts encode html root.allParts

end Resolving

end Esmail
