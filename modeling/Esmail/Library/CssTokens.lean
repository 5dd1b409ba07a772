/-
# CSS Syntax Level 3: the tokens

The tokenizer of CSS Syntax Module Level 3, section 4.3, as a `Lexer`: a mode for every place in
"consume a token" and the algorithms it calls, with their lookahead (`startsIdent`,
`startsNumber`, `validEscape`) as the same predicates on what follows.  Nothing is preprocessed:
the newlines are LF, FF, CR and CR LF, and U+0000 is a name code point, as its replacement is.

A token keeps its source text, so the texts of a list of tokens are a slice of the source, and
whether it is `settled`: whatever follows, it is not changed by more than the one space that ends
an escape.  A string, a comment or a URL that the text ends in is not settled, nor is whitespace.
-/
import Esmail.Library.Lexer

namespace Css

/-! ## 1. Code points and lookahead -/

def isNewline (c : Char) : Bool := c == '\n' || c == '\r' || c == '\x0C'

def isWhitespace (c : Char) : Bool := isNewline c || c == ' ' || c == '\t'

def isDigit (c : Char) : Bool := '0' ≤ c && c ≤ '9'

def isHexDigit (c : Char) : Bool := isDigit c || ('a' ≤ c && c ≤ 'f') || ('A' ≤ c && c ≤ 'F')

def isNameStart (c : Char) : Bool :=
  ('a' ≤ c && c ≤ 'z') || ('A' ≤ c && c ≤ 'Z') || c == '_' || 0x80 ≤ c.toNat || c.toNat == 0

def isNameChar (c : Char) : Bool := isNameStart c || isDigit c || c == '-'

def isQuote (c : Char) : Bool := c == '"' || c == '\''

/-- The code points that end an unquoted URL as a bad one. -/
def isBadInUrl (c : Char) : Bool :=
  isQuote c || c == '(' || (1 ≤ c.toNat && c.toNat ≤ 8) || c.toNat == 0x0B || (0x0E ≤ c.toNat && c.toNat ≤ 0x1F) ||
    c.toNat == 0x7F

/-- Whether what follows a backslash makes an escape: anything but a newline, the end included. -/
def validEscape : List Char → Bool
  | [] => true
  | c :: _ => !isNewline c

/-- "Would start an ident sequence". -/
def startsIdent : List Char → Bool
  | [] => false
  | c :: s =>
    if c == '-' then
      match s with
      | [] => false
      | d :: s' => isNameStart d || d == '-' || (d == '\\' && validEscape s')
    else isNameStart c || (c == '\\' && validEscape s)

def startsDigit : List Char → Bool
  | [] => false
  | c :: _ => isDigit c

/-- "Starts with a number", behind a sign. -/
def startsUnsigned : List Char → Bool
  | [] => false
  | c :: s => isDigit c || (c == '.' && startsDigit s)

/-- Whether an exponent follows the `e` of a number. -/
def startsExponent : List Char → Bool
  | [] => false
  | c :: s => isDigit c || ((c == '+' || c == '-') && startsDigit s)

/-- Whether a name goes on here, as a hash token asks. -/
def startsNameChar : List Char → Bool
  | [] => false
  | c :: s => isNameChar c || (c == '\\' && validEscape s)

/-- Whether a quote comes next, after whitespace: then `url(` is a function. -/
def quoteAhead : List Char → Bool
  | [] => false
  | c :: s => if isWhitespace c then quoteAhead s else isQuote c

/-- The code point of an escape's hexadecimal value. -/
def escapedChar (n : Nat) : Char :=
  if n = 0 ∨ 0x10FFFF < n ∨ (0xD800 ≤ n ∧ n ≤ 0xDFFF) then Char.ofNat 0xFFFD else Char.ofNat n

def hexValue (c : Char) : Nat :=
  if isDigit c then c.toNat - '0'.toNat
  else if 'a' ≤ c then c.toNat - 'a'.toNat + 10 else c.toNat - 'A'.toNat + 10

/-- ASCII case folding, for the keywords of CSS. -/
def lower (s : List Char) : List Char :=
  s.map fun c => if 'A' ≤ c ∧ c ≤ 'Z' then Char.ofNat (c.toNat + 32) else c

/-! ## 2. The modes -/

/-- Where a text with escapes is. -/
inductive Esc
  | plain
  /-- Behind a backslash. -/
  | escape
  /-- Behind `digits` hexadecimal digits of an escape. -/
  | hex (digits value : Nat)
  /-- Behind a CR that belongs to the escape, before its LF. -/
  | cr
  deriving DecidableEq, Repr

/-- Which token a name belongs to. -/
inductive NameOf
  | ident
  | atKeyword
  | hash
  | dimension
  deriving DecidableEq, Repr

inductive NumberPart
  | sign
  | integer
  | point
  | fraction
  | mark
  | exponent
  deriving DecidableEq, Repr

inductive UrlPart
  | leading
  | body
  | trailing
  deriving DecidableEq, Repr

inductive Mode
  | start
  | whitespace
  | commentOpen
  | comment (star : Bool)
  | commentEnd
  | string (quote : Char) (esc : Esc)
  | stringEnd
  | name (of : NameOf) (esc : Esc) (value : List Char)
  | function (name : List Char)
  | number (part : NumberPart)
  | percentage
  | url (part : UrlPart) (esc : Esc)
  | urlEnd
  | badUrl (escaped : Bool)
  | badUrlEnd
  /-- A token of a fixed text, `left` characters before its end: `-->`, `<!--`, `~=`. -/
  | fixed (text : List Char) (left : Nat)
  /-- A delimiter, bracket, colon, semicolon or comma. -/
  | punct (c : Char)
  deriving DecidableEq, Repr

namespace Mode

/-- "Consume a token": the first character. -/
def first (c : Char) (s : List Char) : Mode :=
  if isWhitespace c then .whitespace
  else if c = '/' ∧ s.head? = some '*' then .commentOpen
  else if isQuote c then .string c .plain
  else if c = '#' then if startsNameChar s then .name .hash .plain [] else .punct c
  else if c = '+' then if startsUnsigned s then .number .sign else .punct c
  else if c = '-' then
    if startsUnsigned s then .number .sign
    else if ['-', '>'].isPrefixOf s then .fixed ['-', '-', '>'] 2
    else if startsIdent (c :: s) then .name .ident .plain [c]
    else .punct c
  else if c = '.' then if startsDigit s then .number .point else .punct c
  else if c = '<' ∧ ['!', '-', '-'].isPrefixOf s then .fixed ['<', '!', '-', '-'] 3
  else if c = '@' ∧ startsIdent s then .name .atKeyword .plain []
  else if c = '\\' ∧ validEscape s then .name .ident .escape []
  else if isDigit c then .number .integer
  else if isNameStart c then .name .ident .plain [c]
  else if c ∈ ['~', '|', '^', '$', '*'] ∧ s.head? = some '=' then .fixed [c, '='] 1
  else .punct c

/-- A text with escapes goes on: where it is, and the code point that is complete now. -/
def unescape (esc : Esc) (c : Char) (s : List Char) : Option (Esc × List Char) :=
  match esc with
  | .plain => none
  | .escape =>
    if isHexDigit c then some (.hex 1 (hexValue c), [])
    else if c = '\r' ∧ s.head? = some '\n' then some (.cr, [])
    else some (.plain, [c])
  | .hex digits value =>
    if isHexDigit c ∧ digits < 6 then some (.hex (digits + 1) (16 * value + hexValue c), [])
    else if c = '\r' ∧ s.head? = some '\n' then some (.cr, [escapedChar value])
    else if isWhitespace c then some (.plain, [escapedChar value])
    else none
  | .cr => some (.plain, [])

/-- What is still to be added to a name that ends inside an escape; a backslash that the text ends in
stands for U+FFFD. -/
def pendingChar : Esc → List Char
  | .hex _ value => [escapedChar value]
  | .escape => ['\uFFFD']
  | _ => []

/-- "Consume an ident sequence", and what "consume an ident-like token" makes of a bracket. -/
def nameStep (of : NameOf) (esc : Esc) (value : List Char) (c : Char) (s : List Char) :
    Option Mode :=
  match unescape esc c s with
  | some (esc', done) => some (.name of esc' (value ++ done))
  | none =>
    let value := value ++ pendingChar esc
    if isNameChar c then some (.name of .plain (value ++ [c]))
    else if c = '\\' ∧ validEscape s then some (.name of .escape value)
    else if of = .ident ∧ c = '(' then
      if lower value = ['u', 'r', 'l'] ∧ !quoteAhead s then some (.url .leading .plain)
      else some (.function value)
    else none

/-- "Consume a string token".  A newline ends it, as a bad string; behind a backslash it does
not. -/
def stringStep (quote : Char) (esc : Esc) (c : Char) (s : List Char) : Option Mode :=
  match unescape esc c s with
  | some (esc', _) => some (.string quote esc')
  | none =>
    if c = quote then some .stringEnd
    else if isNewline c then none
    else if c = '\\' then some (.string quote .escape)
    else some (.string quote .plain)

/-- The unit behind a number. -/
def unitStep (c : Char) (s : List Char) : Option Mode :=
  if c = '%' then some .percentage
  else if startsIdent (c :: s) then
    if c = '\\' then some (.name .dimension .escape []) else some (.name .dimension .plain [c])
  else none

/-- "Consume a number", and the unit behind it. -/
def numberStep (part : NumberPart) (c : Char) (s : List Char) : Option Mode :=
  let exponent := (c = 'e' ∨ c = 'E') ∧ startsExponent s
  match part with
  | .sign => if c = '.' then some (.number .point) else some (.number .integer)
  | .integer =>
    if isDigit c then some (.number .integer)
    else if c = '.' ∧ startsDigit s then some (.number .point)
    else if exponent then some (.number .mark)
    else unitStep c s
  | .point => some (.number .fraction)
  | .fraction =>
    if isDigit c then some (.number .fraction)
    else if exponent then some (.number .mark)
    else unitStep c s
  | .mark => if isDigit c then some (.number .exponent) else some (.number .mark)
  | .exponent => if isDigit c then some (.number .exponent) else unitStep c s

/-- "Consume the remnants of a bad url". -/
def badUrlStep (escaped : Bool) (c : Char) (s : List Char) : Mode :=
  if escaped then .badUrl false
  else if c = ')' then .badUrlEnd
  else if c = '\\' ∧ validEscape s then .badUrl true
  else .badUrl false

/-- "Consume a url token". -/
def urlStep (part : UrlPart) (esc : Esc) (c : Char) (s : List Char) : Mode :=
  match unescape esc c s with
  | some (esc', _) => .url .body esc'
  | none =>
    if c = ')' then .urlEnd
    else if isWhitespace c then
      if part = .leading then .url .leading .plain else .url .trailing .plain
    else if part = .trailing then badUrlStep false c s
    else if isBadInUrl c then .badUrl false
    else if c = '\\' then if validEscape s then .url .body .escape else .badUrl false
    else .url .body .plain

def step : Mode → Char → List Char → Option Mode
  | .start, c, s => some (first c s)
  | .whitespace, c, _ => if isWhitespace c then some .whitespace else none
  | .commentOpen, _, _ => some (.comment false)
  | .comment star, c, _ =>
    if star ∧ c = '/' then some .commentEnd else some (.comment (c == '*'))
  | .string quote esc, c, s => stringStep quote esc c s
  | .name of esc value, c, s => nameStep of esc value c s
  | .number part, c, s => numberStep part c s
  | .url part esc, c, s => some (urlStep part esc c s)
  | .badUrl escaped, c, s => some (badUrlStep escaped c s)
  | .fixed text (left + 1), _, _ => some (.fixed text left)
  | _, _, _ => none

/-- Whether a lexeme that ends in this mode is complete. -/
def settled : Mode → Bool
  | .start | .whitespace | .commentOpen | .comment _ | .string _ _ | .url _ _ | .badUrl _ => false
  | .name _ esc _ => esc ≠ .escape ∧ esc ≠ .cr
  | .number part => part ≠ .sign ∧ part ≠ .point ∧ part ≠ .mark
  | .fixed _ left => left = 0
  | _ => true

end Mode

/-- The tokenizer. -/
def tokenizer : Lexer Mode := ⟨.start, Mode.step, fun _ _ => by simp [Mode.step]⟩

/-! ## 3. Tokens -/

/-- What the grammar reads of a token.  The numeric tokens, `hash`, the URL and the string tokens
play no part in it beyond being one token. -/
inductive Kind
  | whitespace
  | comment
  | string
  | ident (name : List Char)
  | function (name : List Char)
  | atKeyword (name : List Char)
  | hash
  | numeric
  | url
  | badUrl
  | cdo
  | cdc
  | matching
  | punct (c : Char)
  deriving DecidableEq, Repr

structure Token where
  kind : Kind
  text : List Char
  settled : Bool
  deriving DecidableEq, Repr

/-- The token a lexeme is.  A string that a newline broke is a token of the same kind: the grammar
below does not look at it. -/
def Mode.kind : Mode → Kind
  | .whitespace => .whitespace
  | .commentOpen | .comment _ | .commentEnd => .comment
  | .string _ _ | .stringEnd => .string
  | .name .ident esc value => .ident (value ++ pendingChar esc)
  | .name .atKeyword esc value => .atKeyword (value ++ pendingChar esc)
  | .name .hash _ _ => .hash
  | .name .dimension _ _ | .number _ | .percentage => .numeric
  | .function value => .function value
  | .url _ _ | .urlEnd => .url
  | .badUrl _ | .badUrlEnd => .badUrl
  | .fixed text _ => if text = ['-', '-', '>'] then .cdc else if text.head? = some '<' then .cdo else .matching
  | .start => .punct '\x00'
  | .punct c => .punct c

def tokenOf (lexeme : Mode × List Char) : Token :=
  ⟨lexeme.1.kind, lexeme.2, lexeme.1.settled⟩

def tokenize (s : List Char) : List Token := (tokenizer.lex s).map tokenOf

/-- The source text of a list of tokens. -/
def textOf (ts : List Token) : List Char := ts.flatMap Token.text

end Css
