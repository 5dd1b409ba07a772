/-
# What a compose window takes for unsaved

`ComposeApp` of `compose/mod.rs` with its form, and one handler for each of its messages.  (The
`Window` of `Outgoing/Message.lean` is what the outbox needs of it; `snapshot_window` and
`edited_window` tie the two.)  Whether the message was changed since it was last handed over is judged
on a summary, `Typed`, in which the attachments are counted only.

So the judgement can be trusted as long as no change of the attachments brings back their number without
bringing back the attachments (`Counted`), and no longer: `unedited_is_handed` says both, of every run.
An attachment that is replaced by another one is lost when the window closes
(`replaced_attachment_unsaved`).

Two invariants carry it.  `Remembers`, of every run: what is remembered is the summary of the message last
handed over.  `Matching`, of the runs with `Counted`: as many attachments as were handed over ARE those
handed over.  A message that is not edited has the remembered summary, so its fields and account are the
ones handed over, and by the second its attachments too (`faithful_of_matching`).  A step hands the
message over, or it edits it; these are the two cases of every lemma (`step_cases`).
-/
import Mathlib.Data.List.Induction
import Esmail.Library.Machine
import Esmail.Outgoing.Message

namespace Esmail.Writing

open Transition

/-! ## 1. The window -/

/-- The fields the user types into. -/
inductive Field
  | recipient
  | cc
  | bcc
  | subject
  | body
  deriving DecidableEq, Repr

def Field.isRecipient : Field → Bool
  | .recipient | .cc | .bcc => true
  | .subject | .body => false

/-- The widgets that hold what the user enters; `sender` is the selected row of the From list. -/
structure Form where
  sender : Option Nat
  recipient : String
  cc : String
  bcc : String
  subject : String
  body : String
  deriving DecidableEq, Repr

def Form.setText (form : Form) (field : Field) (text : String) : Form :=
  match field with
  | .recipient => { form with recipient := text }
  | .cc => { form with cc := text }
  | .bcc => { form with bcc := text }
  | .subject => { form with subject := text }
  | .body => { form with body := text }

abbrev Attached := String × List UInt8

/-- `FileRead`: a file's name and bytes, or why it could not be read. -/
abbrev FileRead := Except String Attached

/-- `Typed`: what the window compares. -/
structure Typed where
  form : Form
  attachments : Nat
  deriving DecidableEq, Repr

structure ComposeApp where
  form : Form
  /-- The account ids, in the order of the From list. -/
  accounts : List AccountId
  /-- The threading headers and the draft's row; the text is in the form. -/
  state : ComposeState
  attachments : List Attached
  /-- What was last saved as a draft, or what the window opened with. -/
  saved : Typed
  sending : Bool
  status : String
  deriving DecidableEq, Repr

namespace ComposeApp

def typed (app : ComposeApp) : Typed := ⟨app.form, app.attachments.length⟩

/-- Whether the message differs from what was last saved. -/
def edited (app : ComposeApp) : Bool := app.typed ≠ app.saved

/-- The account of the row that is selected. -/
def sender (app : ComposeApp) : Option AccountId := app.form.sender.bind (app.accounts[·]?)

/-- The message as it stands now. -/
def snapshot (app : ComposeApp) : ComposeState :=
  { app.state with
    text := ⟨app.form.recipient, app.form.cc, app.form.bcc, app.form.subject, app.form.body,
      app.attachments⟩
    accountId := app.sender }

/-- The row that is selected at first: that of the message's account, else the first there is. -/
def firstRow (accounts : List AccountId) (accountId : Option AccountId) : Option Nat :=
  let row := (accountId.bind fun id => accounts.findIdx? (· = id)).getD 0
  if row < accounts.length then some row else none

/-- `ComposeApp::new`. -/
def new (accounts : List AccountId) (init : ComposeState) : ComposeApp :=
  let text := init.text
  let app : ComposeApp :=
    { form := ⟨firstRow accounts init.accountId, text.recipient, text.cc, text.bcc, text.subject,
        text.body⟩
      accounts := accounts
      state := { init with text := { text with attachments := [] } }
      attachments := text.attachments
      saved := ⟨⟨none, "", "", "", "", ""⟩, 0⟩
      sending := false
      status := "" }
  { app with saved := app.typed }

/-! ## 2. Its handlers -/

def saveDraft (app : ComposeApp) (explicit : Bool) : ComposeApp × List Request :=
  ({ app with saved := app.typed }, [.saveDraft app.snapshot explicit])

def send (app : ComposeApp) : ComposeApp × List Request :=
  if app.sending then (app, []) else (app, [.send app.snapshot])

/-- `discard`, with the answer to "Discard this message?".  A window that goes asks for `closed`. -/
def discard (app : ComposeApp) (confirmed : Bool) : ComposeApp × List Request :=
  if hasContent app.snapshot && !confirmed then (app, []) else (app, [.discard, .closed])

/-- `close_requested`, with the answer to "Save this message as a draft?". -/
def closeRequested (app : ComposeApp) (choice : Window.Close) : ComposeApp × List Request :=
  if app.sending || !app.edited then (app, [.closed])
  else
    match choice with
    | .save => ((app.saveDraft true).1, (app.saveDraft true).2 ++ [.closed])
    | .discard => (app, [.discard, .closed])
    | .cancel => (app, [])

/-- The files among those picked that could be read. -/
def filesRead (read : List FileRead) : List Attached :=
  read.filterMap fun file => match file with
    | .ok attachment => some attachment
    | .error _ => none

/-- Why the others could not. -/
def problems (read : List FileRead) : List String :=
  read.filterMap fun file => match file with
    | .ok _ => none
    | .error problem => some problem

def attachmentsRead (app : ComposeApp) (read : List FileRead) : ComposeApp :=
  { app with
    attachments := app.attachments ++ filesRead read
    status := "\n".intercalate (problems read) }

/-- `remove_attachment`, with the row selected in the list. -/
def removeAttachment (app : ComposeApp) (selected : Option Nat) : ComposeApp :=
  match selected.filter (· < app.attachments.length) with
  | some row => { app with attachments := app.attachments.eraseIdx row }
  | none => app

def timer (app : ComposeApp) : ComposeApp × List Request :=
  if !app.sending && app.edited && hasContent app.snapshot then app.saveDraft false else (app, [])

/-- A message of the main window. -/
def told (app : ComposeApp) : ComposeMsg → ComposeApp × List Request
  | .sending => ({ app with sending := true, status := "Sending..." }, [])
  | .failed error =>
    ({ app with
        sending := false
        status := "Send failed: " ++ error ++ "\nThe message is kept, so you can send it again." }, [])
  | .sent => (app, [.closed])
  | .draftSaved => ({ app with status := "Draft saved." }, [])

end ComposeApp

/-! ## 3. A window at work -/

/-- What happens to a window.  The form is read-only while the message is being sent, except that a
suggestion may still be taken. -/
inductive Action
  | type (field : Field) (text : String)
  | acceptSuggestion (field : Field) (completed : String)
  | fromChanged (row : Nat)
  | attachmentsRead (read : List FileRead)
  | removeAttachment (selected : Option Nat)
  | send
  | saveDraft
  | discard (confirmed : Bool)
  | closeRequested (choice : Window.Close)
  | timer
  | told (msg : ComposeMsg)

namespace ComposeApp

/-- `update`; what the user cannot do at the time is `none`. -/
def update (app : ComposeApp) : Action → Option (ComposeApp × List Request)
  | .type field text =>
    if app.sending then none else some ({ app with form := app.form.setText field text }, [])
  | .acceptSuggestion field completed =>
    if field.isRecipient then some ({ app with form := app.form.setText field completed }, [])
    else none
  | .fromChanged row =>
    if app.sending || app.accounts.length ≤ row then none
    else some ({ app with form := { app.form with sender := some row } }, [])
  | .attachmentsRead read => some (app.attachmentsRead read, [])
  | .removeAttachment selected => some (app.removeAttachment selected, [])
  | .send => some app.send
  | .saveDraft => some (app.saveDraft true)
  | .discard confirmed => some (app.discard confirmed)
  | .closeRequested choice => some (app.closeRequested choice)
  | .timer => some app.timer
  | .told msg => some (app.told msg)

end ComposeApp

/-- A window, the message it opened with and what it has asked the main window for. -/
structure Work where
  app : ComposeApp
  opening : ComposeState
  asked : List Request
  deriving DecidableEq, Repr

/-- The message of the last `SaveDraft` among the requests. -/
def lastDraft (asked : List Request) : Option ComposeState :=
  asked.foldl (fun last request => match request with
    | .saveDraft state _ => some state
    | _ => last) none

namespace Work

/-- The message last handed to `save_draft`, or the one the window opened with. -/
def handed (w : Work) : ComposeState := (lastDraft w.asked).getD w.opening

/-- The window opens with the message as its form shows it. -/
def start (accounts : List AccountId) (init : ComposeState) : Work :=
  ⟨ComposeApp.new accounts init, (ComposeApp.new accounts init).snapshot, []⟩

def step (w : Work) (a : Action) : Option Work :=
  if .closed ∈ w.asked then none
  else (w.app.update a).map fun (app, requests) =>
    { w with app := app, asked := w.asked ++ requests }

def machine : Machine Work Action where
  Init w := ∃ accounts init, w = start accounts init
  step := step

/-- The step does not bring the number of the attachments back to that of the message last handed
over unless it brings back the attachments. -/
def Counted (w : Work) : Action → Prop
  | .attachmentsRead read =>
    (w.app.attachments ++ ComposeApp.filesRead read).length = w.handed.text.attachments.length →
      w.app.attachments ++ ComposeApp.filesRead read = w.handed.text.attachments
  | .removeAttachment (some row) =>
    row < w.app.attachments.length →
      (w.app.attachments.eraseIdx row).length = w.handed.text.attachments.length →
        w.app.attachments.eraseIdx row = w.handed.text.attachments
  | _ => True

end Work

/-! ## 4. The window the outbox knows -/

/-- The summary with the account instead of its row. -/
def Typed.byAccount (accounts : List AccountId) (t : Typed) : Esmail.Typed :=
  ⟨t.form.sender.bind (accounts[·]?), t.form.recipient, t.form.cc, t.form.bcc, t.form.subject,
    t.form.body, t.attachments⟩

/-- Different rows are different accounts. -/
theorem account_inj {accounts : List AccountId} (hnodup : accounts.Nodup) {a b : Option Nat}
    (ha : ∀ row ∈ a, row < accounts.length) (hb : ∀ row ∈ b, row < accounts.length)
    (h : a.bind (accounts[·]?) = b.bind (accounts[·]?)) : a = b := by
  cases a with
  | none =>
    cases b with
    | none => rfl
    | some row => simp [List.getElem?_eq_getElem (hb row rfl)] at h
  | some row =>
    cases b with
    | none => simp [List.getElem?_eq_getElem (ha row rfl)] at h
    | some row' =>
      have hsame : accounts[row]? = accounts[row']? := h
      rw [(List.getElem?_inj (ha row rfl) hnodup).mp hsame]

theorem Typed.byAccount_inj {accounts : List AccountId} (hnodup : accounts.Nodup) {t u : Typed}
    (ht : ∀ row ∈ t.form.sender, row < accounts.length)
    (hu : ∀ row ∈ u.form.sender, row < accounts.length)
    (h : t.byAccount accounts = u.byAccount accounts) : t = u := by
  rcases t with ⟨⟨row, _, _, _, _, _⟩, _⟩
  rcases u with ⟨⟨row', _, _, _, _, _⟩, _⟩
  simp only [Typed.byAccount, Esmail.Typed.mk.injEq] at h
  obtain ⟨hrows, rfl, rfl, rfl, rfl, rfl, rfl⟩ := h
  have hrow : row = row' := account_inj hnodup ht hu hrows
  rw [hrow]

namespace ComposeApp

/-- The window of `Outgoing/Message.lean` that shows the same. -/
def window (id : ComposeId) (app : ComposeApp) : Window :=
  { id := id
    state := app.state
    sender := app.sender
    text := app.snapshot.text
    saved := app.saved.byAccount app.accounts
    sending := app.sending
    stamp := app.state.stamp }

theorem snapshot_window (id : ComposeId) (app : ComposeApp) :
    (app.window id).snapshot = app.snapshot := rfl

/-- The two judge alike, where the accounts of the From list are different ones. -/
theorem edited_window (id : ComposeId) {app : ComposeApp} (hnodup : app.accounts.Nodup)
    (hrow : ∀ row ∈ app.form.sender, row < app.accounts.length)
    (hsaved : ∀ row ∈ app.saved.form.sender, row < app.accounts.length) :
    (app.window id).edited = app.edited := by
  have htyped : (app.window id).typed = app.typed.byAccount app.accounts := rfl
  have hiff : (app.window id).typed = (app.window id).saved ↔ app.typed = app.saved := by
    rw [htyped]
    exact ⟨Typed.byAccount_inj hnodup hrow hsaved, fun h => by rw [h]; rfl⟩
  simp [Window.edited, edited, hiff]

end ComposeApp

/-! ## 5. What a step does to the message and to what is remembered of it -/

theorem lastDraft_append (asked requests : List Request) :
    lastDraft (asked ++ requests) = (lastDraft requests).or (lastDraft asked) := by
  induction requests using List.reverseRecOn with
  | nil => simp [lastDraft]
  | append_singleton rs r ih =>
    rw [← List.append_assoc]
    unfold lastDraft at ih ⊢
    rw [List.foldl_append, ih, List.foldl_append]
    cases r <;> simp

/-- The attachments an action leaves. -/
def attachmentsAfter (app : ComposeApp) : Action → List Attached
  | .attachmentsRead read => app.attachments ++ ComposeApp.filesRead read
  | .removeAttachment selected => (app.removeAttachment selected).attachments
  | _ => app.attachments

/-- The message is handed over and remembered as it is. -/
structure HandsOver (app app' : ComposeApp) (requests : List Request) : Prop where
  draft : lastDraft requests = some app.snapshot
  saved : app'.saved = app.typed
  form : app'.form = app.form
  attachments : app'.attachments = app.attachments

/-- Nothing is handed over, and what is remembered stays. -/
structure Edits (app : ComposeApp) (a : Action) (app' : ComposeApp) (requests : List Request) :
    Prop where
  draft : lastDraft requests = none
  saved : app'.saved = app.saved
  attachments : app'.attachments = attachmentsAfter app a

theorem handsOver_saveDraft (app : ComposeApp) (explicit : Bool) :
    HandsOver app (app.saveDraft explicit).1 (app.saveDraft explicit).2 :=
  ⟨rfl, rfl, rfl, rfl⟩

theorem update_cases {app app' : ComposeApp} {a : Action} {requests : List Request}
    (h : app.update a = some (app', requests)) :
    app'.accounts = app.accounts ∧ app'.state = app.state ∧
      (HandsOver app app' requests ∨ Edits app a app' requests) := by
  cases a with
  | type field text =>
    simp only [ComposeApp.update] at h
    split at h
    · simp at h
    · obtain ⟨rfl, rfl⟩ : _ ∧ _ := by simpa using h
      exact ⟨rfl, rfl, Or.inr ⟨rfl, rfl, rfl⟩⟩
  | acceptSuggestion field completed =>
    simp only [ComposeApp.update] at h
    split at h
    · obtain ⟨rfl, rfl⟩ : _ ∧ _ := by simpa using h
      exact ⟨rfl, rfl, Or.inr ⟨rfl, rfl, rfl⟩⟩
    · simp at h
  | fromChanged row =>
    simp only [ComposeApp.update] at h
    split at h
    · simp at h
    · obtain ⟨rfl, rfl⟩ : _ ∧ _ := by simpa using h
      exact ⟨rfl, rfl, Or.inr ⟨rfl, rfl, rfl⟩⟩
  | attachmentsRead read =>
    obtain ⟨rfl, rfl⟩ : _ ∧ _ := by simpa [ComposeApp.update] using h
    exact ⟨rfl, rfl, Or.inr ⟨rfl, rfl, rfl⟩⟩
  | removeAttachment selected =>
    obtain ⟨rfl, rfl⟩ : _ ∧ _ := by simpa [ComposeApp.update] using h
    refine ⟨?_, ?_, Or.inr ⟨rfl, ?_, rfl⟩⟩ <;> unfold ComposeApp.removeAttachment <;> split <;> rfl
  | send =>
    simp only [ComposeApp.update, ComposeApp.send, Option.some.injEq] at h
    split at h <;>
    · obtain ⟨rfl, rfl⟩ : _ ∧ _ := by simpa using h
      exact ⟨rfl, rfl, Or.inr ⟨rfl, rfl, rfl⟩⟩
  | saveDraft =>
    simp only [ComposeApp.update, Option.some.injEq] at h
    rw [Prod.ext_iff] at h
    obtain ⟨rfl, rfl⟩ := h
    exact ⟨rfl, rfl, Or.inl (handsOver_saveDraft app true)⟩
  | discard confirmed =>
    simp only [ComposeApp.update, ComposeApp.discard, Option.some.injEq] at h
    split at h <;>
    · obtain ⟨rfl, rfl⟩ : _ ∧ _ := by simpa using h
      exact ⟨rfl, rfl, Or.inr ⟨rfl, rfl, rfl⟩⟩
  | closeRequested choice =>
    simp only [ComposeApp.update, ComposeApp.closeRequested, Option.some.injEq] at h
    split at h
    · obtain ⟨rfl, rfl⟩ : _ ∧ _ := by simpa using h
      exact ⟨rfl, rfl, Or.inr ⟨rfl, rfl, rfl⟩⟩
    · cases choice with
      | save =>
        rw [Prod.ext_iff] at h
        obtain ⟨rfl, rfl⟩ := h
        exact ⟨rfl, rfl, Or.inl ⟨rfl, rfl, rfl, rfl⟩⟩
      | cancel =>
        obtain ⟨rfl, rfl⟩ : _ ∧ _ := by simpa using h
        exact ⟨rfl, rfl, Or.inr ⟨rfl, rfl, rfl⟩⟩
      | discard =>
        obtain ⟨rfl, rfl⟩ : _ ∧ _ := by simpa using h
        exact ⟨rfl, rfl, Or.inr ⟨rfl, rfl, rfl⟩⟩
  | timer =>
    simp only [ComposeApp.update, ComposeApp.timer, Option.some.injEq] at h
    split at h
    · rw [Prod.ext_iff] at h
      obtain ⟨rfl, rfl⟩ := h
      exact ⟨rfl, rfl, Or.inl (handsOver_saveDraft app false)⟩
    · obtain ⟨rfl, rfl⟩ : _ ∧ _ := by simpa using h
      exact ⟨rfl, rfl, Or.inr ⟨rfl, rfl, rfl⟩⟩
  | told msg =>
    simp only [ComposeApp.update, Option.some.injEq] at h
    cases msg <;>
    · obtain ⟨rfl, rfl⟩ : _ ∧ _ := by simpa [ComposeApp.told] using h
      exact ⟨rfl, rfl, Or.inr ⟨rfl, rfl, rfl⟩⟩

namespace Work

theorem step_cases {w w' : Work} {a : Action} (h : w.step a = some w') :
    ∃ requests, w.app.update a = some (w'.app, requests) ∧ w'.opening = w.opening ∧
      w'.asked = w.asked ++ requests := by
  unfold step at h
  split at h
  · simp at h
  · obtain ⟨⟨app, requests⟩, hu, rfl⟩ := Option.map_eq_some_iff.mp h
    exact ⟨requests, hu, rfl, rfl⟩

/-- What is remembered is the summary of the message last handed over, which was a message of this
window. -/
def Remembers (w : Work) : Prop :=
  ∃ old : ComposeApp, old.accounts = w.app.accounts ∧ old.state = w.app.state ∧
    w.handed = old.snapshot ∧ w.app.saved = old.typed

/-- As many attachments as were handed over are the attachments that were handed over. -/
def Matching (w : Work) : Prop :=
  w.app.attachments.length = w.handed.text.attachments.length →
    w.app.attachments = w.handed.text.attachments

theorem handed_eq_of_handsOver {w w' : Work} {requests : List Request}
    (hask : w'.asked = w.asked ++ requests) (h : HandsOver w.app w'.app requests) :
    w'.handed = w.app.snapshot := by
  unfold handed
  rw [hask, lastDraft_append, h.draft]
  rfl

theorem handed_eq_of_edits {w w' : Work} {a : Action} {requests : List Request}
    (hop : w'.opening = w.opening) (hask : w'.asked = w.asked ++ requests)
    (h : Edits w.app a w'.app requests) : w'.handed = w.handed := by
  unfold handed
  rw [hask, hop, lastDraft_append, h.draft]
  rfl

theorem remembers_step {w w' : Work} {a : Action} (hw : w.Remembers) (h : w.step a = some w') :
    w'.Remembers := by
  obtain ⟨requests, hu, hop, hask⟩ := step_cases h
  obtain ⟨hacc, hstate, hover | hedit⟩ := update_cases hu
  · exact ⟨w.app, hacc.symm, hstate.symm, handed_eq_of_handsOver hask hover, hover.saved⟩
  · obtain ⟨old, h1, h2, h3, h4⟩ := hw
    refine ⟨old, h1.trans hacc.symm, h2.trans hstate.symm, ?_, hedit.saved.trans h4⟩
    rw [handed_eq_of_edits hop hask hedit, h3]

theorem remembers_start (accounts : List AccountId) (init : ComposeState) :
    (start accounts init).Remembers :=
  ⟨ComposeApp.new accounts init, rfl, rfl, rfl, rfl⟩

theorem remembers_of_reach {ok : Work → Action → Prop} {w : Work} (h : machine.Reach ok w) :
    w.Remembers := by
  refine Machine.Reach.invariant (P := Remembers) ?_
    (fun w a w' _ hw _ hst => remembers_step hw hst) h
  rintro _ ⟨accounts, init, rfl⟩
  exact remembers_start accounts init

/-- A step under the condition leaves the attachments matching. -/
theorem matching_step {w w' : Work} {a : Action} (hw : w.Matching) (hok : w.Counted a)
    (h : w.step a = some w') : w'.Matching := by
  obtain ⟨requests, hu, hop, hask⟩ := step_cases h
  obtain ⟨-, -, hover | hedit⟩ := update_cases hu
  · intro _
    rw [handed_eq_of_handsOver hask hover, hover.attachments]
    rfl
  · unfold Matching
    rw [handed_eq_of_edits hop hask hedit, hedit.attachments]
    cases a with
    | attachmentsRead read => exact hok
    | removeAttachment selected =>
      cases selected with
      | none => exact hw
      | some row =>
        by_cases hr : row < w.app.attachments.length
        · simpa [attachmentsAfter, ComposeApp.removeAttachment, Option.filter, hr] using hok hr
        · simpa [attachmentsAfter, ComposeApp.removeAttachment, Option.filter, hr, Matching]
            using hw
    | _ => exact hw

theorem matching_of_reach {w : Work} (h : machine.Reach Counted w) : w.Matching := by
  refine Machine.Reach.invariant (P := Matching) ?_
    (fun w a w' _ hw hok hst => matching_step hw hok hst) h
  rintro _ ⟨accounts, init, rfl⟩ _
  rfl

/-! ## 6. When a window that is not edited has lost nothing -/

/-- A message that is not edited is the message last handed over. -/
def Faithful (w : Work) : Prop := w.app.edited = false → w.app.snapshot = w.handed

/-- The fields and the account are those of the message last handed over. -/
def SameFields (w : Work) : Prop := w.app.form = w.app.saved.form

theorem typed_eq_of_not_edited {app : ComposeApp} (h : app.edited = false) :
    app.typed = app.saved := by
  simpa [ComposeApp.edited] using h

theorem snapshot_congr {app old : ComposeApp} (hacc : old.accounts = app.accounts)
    (hstate : old.state = app.state) (hform : app.form = old.form)
    (hatt : app.attachments = old.attachments) : app.snapshot = old.snapshot := by
  simp [ComposeApp.snapshot, ComposeApp.sender, hacc, hstate, hform, hatt]

theorem faithful_of_matching {w : Work} (hr : w.Remembers) (hm : w.Matching) : w.Faithful := by
  intro he
  obtain ⟨old, hacc, hstate, hhanded, hsaved⟩ := hr
  have htyped : w.app.typed = old.typed := (typed_eq_of_not_edited he).trans hsaved
  have hform : w.app.form = old.form := congrArg Typed.form htyped
  have hcount : w.app.attachments.length = old.attachments.length :=
    congrArg Typed.attachments htyped
  have hatt : w.app.attachments = old.attachments := by
    simpa [hhanded, ComposeApp.snapshot] using hm (by simpa [hhanded, ComposeApp.snapshot] using hcount)
  rw [hhanded]
  exact snapshot_congr hacc hstate hform hatt

/-- Removing and adding attachments are the only steps that `Counted` speaks of. -/
theorem step_not_counted {w w' : Work} {a : Action} (hc : ¬ w.Counted a)
    (h : w.step a = some w') :
    w'.app.form = w.app.form ∧ w'.app.saved = w.app.saved ∧ w'.handed = w.handed ∧
      w'.app.attachments.length = w.handed.text.attachments.length ∧
      w'.app.attachments ≠ w.handed.text.attachments := by
  obtain ⟨requests, hu, hop, hask⟩ := step_cases h
  cases a with
  | attachmentsRead read =>
    simp only [Counted, Classical.not_imp] at hc
    obtain ⟨happ, rfl⟩ : w.app.attachmentsRead read = w'.app ∧ [] = requests := by
      simpa [ComposeApp.update] using hu
    have hhanded : w'.handed = w.handed := by simp [handed, hask, hop]
    rw [← happ]
    exact ⟨rfl, rfl, hhanded, hc.1, hc.2⟩
  | removeAttachment selected =>
    cases selected with
    | none => exact absurd trivial hc
    | some row =>
      simp only [Counted, Classical.not_imp] at hc
      obtain ⟨hrow, hlen, hne⟩ := hc
      obtain ⟨happ, rfl⟩ : w.app.removeAttachment (some row) = w'.app ∧ [] = requests := by
        simpa [ComposeApp.update] using hu
      have hhanded : w'.handed = w.handed := by simp [handed, hask, hop]
      have hrem : w.app.removeAttachment (some row) =
          { w.app with attachments := w.app.attachments.eraseIdx row } := by
        simp [ComposeApp.removeAttachment, Option.filter, hrow]
      rw [← happ, hrem]
      exact ⟨rfl, rfl, hhanded, hlen, hne⟩
  | _ => exact absurd trivial hc

/-- Whatever is typed, chosen, attached, removed, saved and autosaved: as long as no step brings
back the number of the attachments without the attachments, a message that is not edited is the one
last handed over; and a step that does, with the fields as they were handed over, leaves a message
that is another one and not edited. -/
theorem unedited_is_handed {w : Work} (h : machine.Reach Machine.any w) :
    (machine.Reach Counted w → w.Faithful) ∧
      ∀ a w', w.SameFields → ¬ w.Counted a → w.step a = some w' → ¬ w'.Faithful := by
  refine ⟨fun h => faithful_of_matching (remembers_of_reach h) (matching_of_reach h), ?_⟩
  intro a w' hsame hc hst hfaithful
  have hr : w.Remembers := remembers_of_reach h
  obtain ⟨hform, hsaved, hhanded, hlen, hne⟩ := step_not_counted hc hst
  obtain ⟨old, -, -, hold, hold'⟩ := hr
  have hcount : w.app.saved.attachments = w.handed.text.attachments.length := by
    rw [hold', hold]
    rfl
  have hedited : w'.app.edited = false := by
    have hfield : w'.app.form = w'.app.saved.form := by rw [hform, hsaved, hsame]
    have hnum : w'.app.attachments.length = w'.app.saved.attachments := by
      rw [hsaved, hcount, hlen]
    have htyped : w'.app.typed = w'.app.saved := by
      unfold ComposeApp.typed
      rw [hnum, hfield]
    simpa [ComposeApp.edited] using htyped
  have hsnap : w'.app.snapshot = w.handed := by rw [hfaithful hedited, hhanded]
  exact hne (congrArg (fun state => state.text.attachments) hsnap)

instance (w : Work) : (a : Action) → Decidable (Counted w a)
  | .attachmentsRead _ | .removeAttachment (some _) => inferInstanceAs (Decidable (_ → _))
  | .type .. | .acceptSuggestion .. | .fromChanged _ | .removeAttachment none | .send | .saveDraft
  | .discard _ | .closeRequested _ | .timer | .told _ => isTrue trivial

/-- A reply with one attachment, as it opens. -/
def withPlan : Work :=
  start ["home"] ⟨⟨"ann@example.org", "", "", "Plan", "Here it is.", [("plan.txt", [1])]⟩, none, none,
    ⟨0, 0⟩⟩

/-- A second file is attached, and both are saved by the timer. -/
theorem unedited_is_handed_autosaved :
    ∃ w, machine.Reach Counted w ∧ w.app.attachments.length = 2 ∧
      w.app.edited = false ∧ w.app.snapshot = w.handed := by
  obtain ⟨w, hr, hp⟩ := Machine.exists_reach_of_trace machine Counted
    [.attachmentsRead [.ok ("map.txt", [2]), .error "old.txt is not a file"], .timer]
    (fun w => w.app.attachments.length = 2 && !w.app.edited) ⟨_, _, (rfl : withPlan = _)⟩
    (by decide)
  simp only [Bool.and_eq_true, decide_eq_true_eq, Bool.not_eq_true'] at hp
  have hany : machine.Reach Machine.any w := hr.mono fun _ _ _ => trivial
  exact ⟨w, hr, hp.1, hp.2, (unedited_is_handed hany).1 hr hp.2⟩

/-- The one attachment is taken off and another file attached: the window closes without a word. -/
theorem replaced_attachment_unsaved :
    ¬ ∀ w, machine.Reach Machine.any w → w.app.edited = false → w.app.snapshot = w.handed := by
  intro hall
  obtain ⟨w, hr, hp⟩ := Machine.exists_reach_of_trace machine Machine.any
    [.removeAttachment (some 0), .attachmentsRead [.ok ("final.txt", [2])]]
    (fun w => !w.app.edited && w.app.snapshot ≠ w.handed &&
      (w.app.closeRequested .cancel).2 = [.closed]) ⟨_, _, (rfl : withPlan = _)⟩
    (by decide)
  simp only [Bool.and_eq_true, decide_eq_true_eq, Bool.not_eq_true'] at hp
  exact hp.1.2 (hall w hr hp.1.1)

end Work

end Esmail.Writing
