/-
# The filter for the CSS of a message

The model of `css.rs`.  The text of a `<style>` element is parsed, and what is allowed is WRITTEN
AGAIN from slices of the source text: a selector list, a media query and a value are the texts of
their tokens, trimmed (`trim` of Rust's standard library), between fixed glue.

`StyleSheetParser`, `RuleBodyParser` and the tokens are cssparser's, that is, those of CSS Syntax
Level 3; the callbacks are the program's.
-/
import Esmail.Library.CssSyntax
import Esmail.Library.RustSplit

namespace Esmail

open RustText Css

/-! ## 1. The pieces -/

/-- `is_safe_text`. -/
def isSafeText (text : List Char) : Bool :=
  !text.isEmpty && !text.any fun c => c == '<' || c == '{' || c == '}'

/-- `consume_text`: the source text of the tokens, trimmed. -/
def consumeText (ts : List Token) : List Char := trim (textOf ts)

/-- The value of a declaration, and what is behind it: it runs up to a `!` outside every bracket. -/
def valueTokens (ts : List Token) : List Token × List Token := upTo (· == .punct '!') [] ts

/-- The tokens up to the last one outside every bracket: a block that comes last is cut off behind
its opening bracket. -/
def upToLastOuter : List Char → List Token → List Token
  | _, [] => []
  | stack, t :: ts =>
    let rest := upToLastOuter (t.kind.nest stack) ts
    if stack = [] ∨ rest ≠ [] then t :: rest else []

/-- The text of the value.  At a `!` the parser is reset to its state before that token, and that
state, behind a bracket, is the one in which the bracket's contents are still to be skipped. -/
def valueText (ts : List Token) : List Char :=
  let value := valueTokens ts
  consumeText (if value.2 = [] then value.1 else upToLastOuter [] value.1)

/-- `parse_value` for the tokens behind the colon of a declaration; `none` where it fails, also
because something is left behind the value and `!important`. -/
def parseValue (allowed : List (List Char)) (name : List Char) (ts : List Token) :
    Option (List Char) :=
  let name := lower name
  if name ∈ allowed then
    let value := valueText ts
    let behind := (valueTokens ts).2
    let important := afterImportant behind
    let lowered := lower value
    if !isSafeText value || containsText lowered "expression(".toList ||
        containsText lowered "javascript:".toList then none
    else if skipSpace (important.getD behind) ≠ [] then none
    else some (name ++ ':' :: value ++ (if important.isSome then " !important".toList else []) ++ [';'])
  else none

/-! ## 2. The rules -/

/-- A declaration block: `Context::Declarations`, in which every at-rule fails. -/
def filterItem (allowed : List (List Char)) : RawItem → Option (List Char)
  | .declaration name value => parseValue allowed name value
  | _ => none

/-- A style rule, from its prelude and its block. -/
def filterStyle (allowed : List (List Char)) (prelude : List Token) (block : Option (List Token)) :
    Option (List Char) :=
  let selectors := consumeText prelude
  if isSafeText selectors then
    match block with
    | none => none
    | some block =>
      let declarations := ((items block).filterMap (filterItem allowed)).flatten
      if declarations = [] then none
      else some (selectors ++ " \x7b ".toList ++ declarations ++ " \x7d\n".toList)
  else none

/-- A rule inside `@media`: `Context::Media`, in which every at-rule fails. -/
def filterMediaItem (allowed : List (List Char)) : RawRule → Option (List Char)
  | .qualified prelude block => filterStyle allowed prelude block
  | .atRule _ _ _ => none

/-- A rule of the sheet: `Context::Top`. -/
def filterRule (allowed : List (List Char)) : RawRule → Option (List Char)
  | .qualified prelude block => filterStyle allowed prelude block
  | .atRule name prelude block =>
    if lower name = "media".toList then
      let query := consumeText prelude
      if isSafeText query then
        match block with
        | none => none
        | some block =>
          let inner := ((rules block).filterMap (filterMediaItem allowed)).flatten
          if inner = [] then none
          else some ("@media ".toList ++ query ++ " \x7b\n".toList ++ inner ++ "\x7d".toList)
      else none
    else none

/-- `filter_stylesheet`. -/
def filterStylesheet (allowed : List (List Char)) (css : List Char) : List Char :=
  ((rules (tokenize css)).filterMap (filterRule allowed)).flatMap (· ++ ['\n'])

/-- A text that is left over ends in a line break. -/
theorem filterStylesheet_end (allowed : List (List Char)) (css : List Char) :
    filterStylesheet allowed css = [] ∨ ∃ s, filterStylesheet allowed css = s ++ ['\n'] := by
  unfold filterStylesheet
  generalize (rules (tokenize css)).filterMap (filterRule allowed) = kept
  rcases List.eq_nil_or_concat' kept with rfl | ⟨init, rule, rfl⟩
  · exact .inl rfl
  · refine .inr ⟨init.flatMap (· ++ ['\n']) ++ rule, ?_⟩
    simp [List.flatMap_append]

/-! ## 3. The allowlist of the program -/

/-- `allowed_style_properties`. -/
def allowedStyleProperties : List (List Char) :=
  ["color", "background", "background-color", "background-image", "background-position",
    "background-repeat", "background-size", "opacity",
    "margin", "margin-top", "margin-right", "margin-bottom", "margin-left",
    "padding", "padding-top", "padding-right", "padding-bottom", "padding-left",
    "border", "border-top", "border-right", "border-bottom", "border-left",
    "border-width", "border-style", "border-color", "border-radius",
    "border-top-left-radius", "border-top-right-radius", "border-bottom-left-radius",
    "border-bottom-right-radius", "border-top-width", "border-right-width",
    "border-bottom-width", "border-left-width", "border-top-style", "border-right-style",
    "border-bottom-style", "border-left-style", "border-top-color", "border-right-color",
    "border-bottom-color", "border-left-color", "border-collapse", "border-spacing",
    "width", "height", "max-width", "max-height", "min-width", "min-height",
    "box-shadow", "box-sizing",
    "font", "font-family", "font-size", "font-weight", "font-style", "font-variant",
    "line-height", "letter-spacing", "text-align", "text-decoration", "text-transform",
    "text-indent", "text-shadow", "white-space", "word-break", "word-wrap",
    "overflow-wrap", "word-spacing",
    "display", "visibility", "vertical-align", "float", "clear", "overflow", "table-layout",
    "list-style", "list-style-type", "list-style-image", "list-style-position",
    "cursor"].map String.toList

end Esmail
