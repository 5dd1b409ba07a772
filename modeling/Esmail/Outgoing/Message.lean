/-
# Messages being written, and their windows

The model of `ComposeState` in `compose.rs` and of the compose window, `ComposeApp` in
`compose/mod.rs`.  A window edits a message and ASKS the main window for everything else; what it
asks for is a request, which the main window handles later.

A `Stamp` is not in the program.  It says of a text which message it is a version of, and how old
that version is: every change of a window's text takes a new number from one clock.  Stamps are
copied with the text, read by nothing that the program decides, and make "the same message" and "a
newer version" sayable.
-/
import Mathlib.Tactic.Common
import Mathlib.Data.List.AList

namespace Esmail

abbrev ComposeId := Nat

/-- A row of a table: SQLite's `INTEGER PRIMARY KEY`. -/
abbrev Row := Nat

abbrev AccountId := String

structure Stamp where
  msg : Nat
  rev : Nat
  deriving DecidableEq, Repr

/-- What the user types. -/
structure Text where
  recipient : String := ""
  cc : String := ""
  bcc : String := ""
  subject : String := ""
  body : String := ""
  attachments : List (String × List UInt8) := []
  deriving DecidableEq, Repr

structure ComposeState where
  text : Text
  accountId : Option AccountId
  draftId : Option Row
  stamp : Stamp
  deriving DecidableEq, Repr

/-- `ComposeState::with_account`. -/
def ComposeState.withAccount (state : ComposeState) (id : Option AccountId) : ComposeState :=
  { state with accountId := id }

/-- `has_content`. -/
def hasContent (state : ComposeState) : Bool :=
  [state.text.recipient, state.text.cc, state.text.bcc, state.text.subject, state.text.body].any
      (fun field => !field.isEmpty) ||
    !state.text.attachments.isEmpty

/-! ## 1. What is said between a compose window and the main window -/

/-- `compose::Request`. -/
inductive Request
  | send (state : ComposeState)
  | saveDraft (state : ComposeState) (explicit : Bool)
  | discard
  | closed
  deriving DecidableEq, Repr

/-- The messages of the main window to a compose window. -/
inductive ComposeMsg
  | sending
  | failed (error : String)
  | sent
  | draftSaved
  deriving DecidableEq, Repr

/-! ## 2. The compose window -/

/-- `Typed`: what the window compares to tell whether there is anything to save. -/
structure Typed where
  sender : Option AccountId
  recipient : String
  cc : String
  bcc : String
  subject : String
  body : String
  attachments : Nat
  deriving DecidableEq, Repr

/-- `ComposeApp`.  The account chosen and the text are in the form; `state` is what the window was
opened with, of which only the threading headers and the draft's row still count. -/
structure Window where
  id : ComposeId
  state : ComposeState
  sender : Option AccountId
  text : Text
  saved : Typed
  sending : Bool
  /-- The version in the form. -/
  stamp : Stamp
  deriving DecidableEq, Repr

namespace Window

def typed (w : Window) : Typed :=
  ⟨w.sender, w.text.recipient, w.text.cc, w.text.bcc, w.text.subject, w.text.body,
    w.text.attachments.length⟩

/-- `ComposeApp::new`: the account of the message, if it is configured, else the first one. -/
def new (id : ComposeId) (accounts : List AccountId) (state : ComposeState) : Window :=
  let sender :=
    match state.accountId with
    | some account => if account ∈ accounts then some account else accounts.head?
    | none => accounts.head?
  let w : Window := ⟨id, state, sender, state.text, ⟨none, "", "", "", "", "", 0⟩, false, state.stamp⟩
  { w with saved := w.typed }

def edited (w : Window) : Bool := w.typed ≠ w.saved

def snapshot (w : Window) : ComposeState :=
  { w.state with text := w.text, accountId := w.sender, stamp := w.stamp }

/-- The user changes the text, or the account.  The form is read-only while the message is being
sent. -/
def edit (w : Window) (text : Text) (sender : Option AccountId) (rev : Nat) : Option Window :=
  if w.sending then none
  else some { w with text := text, sender := sender, stamp := { w.stamp with rev := rev } }

/-- `attachments_read`: files that were picked have been read, also while the form is locked. -/
def attachmentsRead (w : Window) (files : List (String × List UInt8)) (rev : Nat) : Window :=
  { w with
    text := { w.text with attachments := w.text.attachments ++ files }
    stamp := { w.stamp with rev := rev } }

/-- `save_draft`. -/
def saveDraft (w : Window) (explicit : Bool) : Window × List Request :=
  ({ w with saved := w.typed }, [.saveDraft w.snapshot explicit])

/-- `send`. -/
def send (w : Window) : List Request := if w.sending then [] else [.send w.snapshot]

/-- `timer`. -/
def timer (w : Window) : Window × List Request :=
  if !w.sending && w.edited && hasContent w.snapshot then w.saveDraft false else (w, [])

/-- The answer to "Save this message as a draft?". -/
inductive Close
  | save
  | cancel
  | discard
  deriving DecidableEq, Repr

/-- `close_requested`: what is asked before the window goes, `none` where it stays.  Dropping the
window asks for `closed`. -/
def closeRequested (w : Window) (choice : Close) : Option (List Request) :=
  if w.sending || !w.edited then some [.closed]
  else
    match choice with
    | .save => some [.saveDraft w.snapshot true, .closed]
    | .discard => some [.discard, .closed]
    | .cancel => none

/-- `update`, for a message of the main window: the window as it is then, `none` where it closes. -/
def update (w : Window) : ComposeMsg → Option Window
  | .sending => some { w with sending := true }
  | .failed _ => some { w with sending := false }
  | .sent => none
  | .draftSaved => some w

end Window

end Esmail
