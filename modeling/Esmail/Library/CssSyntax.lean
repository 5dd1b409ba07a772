/-
# CSS Syntax Level 3: rules and declarations

The parser of CSS Syntax Module Level 3, section 5.4, over a flat list of tokens.  A rule or a
declaration ends at a token of some kind OUTSIDE every bracket that was opened in it; `upTo` is
that one operation, with the stack of open brackets, and everything else is told in terms of it:
the prelude of a rule, its block, a declaration, what is skipped as invalid.

What is read is raw: the tokens of preludes, blocks and values.  Whether they make sense is the
reader's business.
-/
import Esmail.Library.CssTokens

namespace Css

/-! ## 1. Brackets -/

/-- The bracket a token opens, by what closes it. -/
def Kind.closer : Kind → Option Char
  | .function _ => some ')'
  | .punct c => if c = '(' then some ')' else if c = '[' then some ']' else if c = '{' then some '}' else none
  | _ => none

/-- The brackets that are open behind a token.  A closing bracket that does not match the
innermost open one is a token like any other. -/
def Kind.nest (k : Kind) (stack : List Char) : List Char :=
  match k.closer with
  | some c => c :: stack
  | none =>
    match stack with
    | [] => []
    | c :: rest => if k = .punct c then rest else c :: rest

/-- The tokens before the first one outside every bracket that `stop` holds of, and the rest. -/
def upTo (stop : Kind → Bool) : List Char → List Token → List Token × List Token
  | _, [] => ([], [])
  | stack, t :: ts =>
    if stack = [] ∧ stop t.kind then ([], t :: ts)
    else (t :: (upTo stop (t.kind.nest stack) ts).1, (upTo stop (t.kind.nest stack) ts).2)

/-- The brackets that are open at the end of a list of tokens. -/
def openAfter (stack : List Char) (ts : List Token) : List Char :=
  ts.foldl (fun stack t => t.kind.nest stack) stack

def isSpace (k : Kind) : Bool := k == .whitespace || k == .comment

def skipSpace (ts : List Token) : List Token := ts.dropWhile fun t => isSpace t.kind

theorem upTo_length (stop : Kind → Bool) : ∀ (stack : List Char) (ts : List Token),
    (upTo stop stack ts).1.length + (upTo stop stack ts).2.length = ts.length
  | _, [] => rfl
  | stack, t :: ts => by
    unfold upTo
    split
    · simp
    · have ih := upTo_length stop (t.kind.nest stack) ts
      simp only [List.length_cons]
      omega

/-! ## 2. Lists of rules -/

/-- A rule as it is read; `block` is `none` where the text, or a semicolon, ends it first. -/
inductive RawRule
  | atRule (name : List Char) (prelude : List Token) (block : Option (List Token))
  | qualified (prelude : List Token) (block : Option (List Token))
  deriving DecidableEq, Repr

/-- What separates rules: whitespace, comments, and the markers of HTML comments. -/
def isBetweenRules (k : Kind) : Bool := isSpace k || k == .cdo || k == .cdc

/-- The block that starts behind a `{`, and what follows its `}`. -/
def block (ts : List Token) : List Token × List Token :=
  ((upTo (· == .punct '}') [] ts).1, (upTo (· == .punct '}') [] ts).2.drop 1)

def endsAtRulePrelude (k : Kind) : Bool := k == .punct ';' || k == .punct '{'

/-- "Consume an at-rule", behind its keyword, and what follows it. -/
def atRule (name : List Char) (ts : List Token) : RawRule × List Token :=
  let p := upTo endsAtRulePrelude [] ts
  match p.2 with
  | [] => (.atRule name p.1 none, [])
  | t :: rest =>
    if t.kind = .punct '{' then (.atRule name p.1 (some (block rest).1), (block rest).2)
    else (.atRule name p.1 none, rest)

/-- "Consume a qualified rule", and what follows it. -/
def qualifiedRule (ts : List Token) : RawRule × List Token :=
  let p := upTo (· == .punct '{') [] ts
  match p.2 with
  | [] => (.qualified p.1 none, [])
  | _ :: rest => (.qualified p.1 (some (block rest).1), (block rest).2)

/-- "Consume a list of rules", as far as the fuel goes. -/
def rulesFuel : Nat → List Token → List RawRule
  | 0, _ => []
  | fuel + 1, ts =>
    match ts.dropWhile fun t => isBetweenRules t.kind with
    | [] => []
    | t :: rest =>
      match t.kind with
      | .atKeyword name => (atRule name rest).1 :: rulesFuel fuel (atRule name rest).2
      | _ => (qualifiedRule (t :: rest)).1 :: rulesFuel fuel (qualifiedRule (t :: rest)).2

def rules (ts : List Token) : List RawRule := rulesFuel (ts.length + 1) ts

/-! ## 3. The contents of a block of declarations -/

inductive RawItem
  /-- A declaration, with the tokens behind its colon. -/
  | declaration (name : List Char) (value : List Token)
  | atRule (rule : RawRule)
  /-- Anything else, up to the next semicolon. -/
  | invalid
  deriving DecidableEq, Repr

def isBetweenItems (k : Kind) : Bool := isSpace k || k == .punct ';' || k == .punct '}'

/-- A declaration, behind its name: the colon, and the value. -/
def declarationOf (name : List Char) (ts : List Token) : RawItem :=
  match skipSpace ts with
  | [] => .invalid
  | t :: value => if t.kind = .punct ':' then .declaration name value else .invalid

def itemsFuel : Nat → List Token → List RawItem
  | 0, _ => []
  | fuel + 1, ts =>
    match ts.dropWhile fun t => isBetweenItems t.kind with
    | [] => []
    | t :: rest =>
      match t.kind with
      | .atKeyword name => .atRule (atRule name rest).1 :: itemsFuel fuel (atRule name rest).2
      | .ident name =>
        declarationOf name (upTo (· == .punct ';') [] rest).1 ::
          itemsFuel fuel ((upTo (· == .punct ';') [] rest).2.drop 1)
      | _ => .invalid :: itemsFuel fuel ((upTo (· == .punct ';') [] (t :: rest)).2.drop 1)

def items (ts : List Token) : List RawItem := itemsFuel (ts.length + 1) ts

/-- "!important" at the end of a value: what is behind it, or nothing changed. -/
def afterImportant (ts : List Token) : Option (List Token) :=
  match skipSpace ts with
  | [] => none
  | bang :: rest =>
    if bang.kind = .punct '!' then
      match skipSpace rest with
      | [] => none
      | t :: rest' =>
        match t.kind with
        | .ident name => if lower name = "important".toList then some rest' else none
        | _ => none
    else none

end Css
