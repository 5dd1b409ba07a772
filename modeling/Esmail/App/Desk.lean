/-
# The status bar and the search results

What the core shows beside the list: one operation under way, the bulk action that is counted, and the
results of a search with the place each of them comes from.  `Desk` is that part of the core, and
`Desk.handle` what an event does to it; `desk_handleImapEvent` says that the pump does just this.
-/
import Esmail.App.Pump

namespace Esmail.App

/-! ## 1. The part of the core -/

structure Desk where
  progress : Option ProgressView
  bulkAction : Option BulkAction
  searchResults : Option (List MailHeader)
  searchOrigins : List (AccountId × String)

namespace Desk

/-- An operation of the kind is over. -/
def clear (d : Desk) (kind : ProgressKind) : Desk :=
  if d.progress.any fun v => v.kind = kind then { d with progress := none } else d

/-- One message of a bulk action is answered for. -/
def advance (d : Desk) (kind : ProgressKind) (uid : Nat) : Desk :=
  match d.bulkAction with
  | none => d
  | some action =>
    if action.kind ≠ kind ∨ uid ∉ action.pending then d
    else if action.pending.erase uid = ∅ then { d with bulkAction := none }.clear kind
    else
      { d with
        bulkAction := some { action with pending := action.pending.erase uid }
        progress := some ⟨kind,
          .counted (action.total - (action.pending.erase uid).card) action.total⟩ }

/-- There is no search. -/
def noSearch (d : Desk) : Desk := { d with searchResults := none, searchOrigins := [] }

/-- The results that do not stand for the message. -/
def dropResult (d : Desk) (account : AccountId) (mailbox : String) (uid : Nat) : Desk :=
  match d.searchResults with
  | some results =>
    let kept := (results.zip d.searchOrigins).filter fun r : MailHeader × AccountId × String =>
      !(decide (r.1.uid = uid) && decide (r.2 = (account, mailbox)))
    { d with searchResults := some (kept.map Prod.fst), searchOrigins := kept.map Prod.snd }
  | none => d

/-- Whether a report says that its operation has come to its end. -/
def finished : Progress → Bool
  | .counted current total => current = total
  | .indeterminate => false

/-- A report of an operation under way. -/
def report (d : Desk) (active : Option AccountId) (account : AccountId) (kind : ProgressKind)
    (update : Progress) : Desk :=
  if kind ≠ .index ∨ active = some account then
    if kind = .index ∧ finished update = true then d.clear .index
    else { d with progress := some ⟨kind, update⟩ }
  else d

/-- An event of an account that has a session. -/
def handle (d : Desk) (active : Option AccountId) (account : AccountId) : ImapEvent → Desk
  | .connected => if active.isNone then d.noSearch else d
  | .error _ => d.clear .index
  | .progress kind update => d.report active account kind update
  | .exported _ | .exportFailed _ => d.clear .export
  | .appended _ | .appendFailed _ _ => d.clear .append
  | .flagsUpdated mailbox uid flags _ =>
    let d := d.advance .flags uid
    { d with
      searchResults := d.searchResults.map
        (AppCore.flagResults d.searchOrigins account mailbox uid flags) }
  | .flagsUpdateFailed _ uid _ _ => d.advance .flags uid
  | .moved mailbox uid _ _ => (d.advance .move uid).dropResult account mailbox uid
  | .moveFailed _ uid _ _ => d.advance .move uid
  | _ => d

end Desk

namespace AppCore

def desk (core : AppCore) : Desk :=
  ⟨core.progress, core.bulkAction, core.searchResults, core.searchOrigins⟩

/-! ## 2. What the functions make of it -/

@[simp] theorem desk_modifyView (core : AppCore) (account : AccountId) (f : AccountView → AccountView) :
    (core.modifyView account f).desk = core.desk := rfl

@[simp] theorem desk_sendImapTo (core : AppCore) (account : AccountId) (cmd : ImapCommand) :
    (core.sendImapTo account cmd).desk = core.desk := rfl

@[simp] theorem desk_sendImap (core : AppCore) (cmd : ImapCommand) :
    (core.sendImap cmd).desk = core.desk := by
  unfold sendImap
  split <;> rfl

@[simp] theorem desk_fetchHeaders (core : AppCore) (mailbox : String) (page : Nat) :
    (core.fetchHeaders mailbox page).desk = core.desk :=
  desk_sendImap _ _

@[simp] theorem desk_sendDb (core : AppCore) (cmd : Cache.Command) :
    (core.sendDb cmd).desk = core.desk := by
  unfold sendDb
  split <;> rfl

@[simp] theorem desk_pushAccountBanner (core : AppCore) (account : AccountId) (message : String) :
    (core.pushAccountBanner account message).desk = core.desk := by
  unfold pushAccountBanner
  split <;> rfl

theorem desk_clearProgress (core : AppCore) (kind : ProgressKind) :
    (core.clearProgress kind).desk = core.desk.clear kind := by
  unfold clearProgress Desk.clear
  have hkind : (core.desk.progress.any fun v => decide (v.kind = kind)) =
      core.progress.any fun v => decide (v.kind = kind) := rfl
  rw [hkind]
  split <;> rfl

theorem desk_advanceBulkAction (core : AppCore) (kind : ProgressKind) (uid : Nat) :
    (core.advanceBulkAction kind uid).desk = core.desk.advance kind uid := by
  unfold advanceBulkAction Desk.advance
  rcases hbulk : core.bulkAction with _ | action
  · simp only [desk, hbulk]
  · simp only [desk, hbulk]
    split
    · simp only [hbulk]
    · split
      · exact desk_clearProgress { core with bulkAction := none } kind
      · rfl

/-- Another account that comes on screen has no search. -/
theorem desk_activate (core : AppCore) (account : AccountId) (mailbox : String) :
    (core.activate account mailbox).desk =
      if core.active = some account then core.desk else core.desk.noSearch := by
  unfold activate
  by_cases h : core.active = some account
  · simp only [h, ne_eq, not_true_eq_false, if_false, if_true, desk_fetchHeaders]
    rfl
  · simp only [h, ne_eq, not_false_eq_true, if_true, if_false, desk_fetchHeaders]
    rfl

theorem desk_leaveScreen (core : AppCore) :
    core.leaveScreen.desk =
      ((({ core.desk with bulkAction := none }.clear .flags).clear .move).clear .index).noSearch := by
  rw [← show ({ core with active := none, bulkAction := none } : AppCore).desk =
    { core.desk with bulkAction := none } from rfl, ← desk_clearProgress, ← desk_clearProgress,
    ← desk_clearProgress]
  rfl

theorem desk_dropSession (core : AppCore) (account : AccountId) :
    (core.dropSession account).desk = core.desk := by
  unfold dropSession
  simp only []
  split <;> rfl

/-- Only an account that was on screen takes something with it. -/
theorem desk_disconnectAccount (core : AppCore) (account : AccountId) :
    (core.disconnectAccount account).desk =
      if core.active = some account then
        ((({ core.desk with bulkAction := none }.clear .flags).clear .move).clear .index).noSearch
      else core.desk := by
  have hactive : (core.dropSession account).active = core.active :=
    (core.dropSession_spec account).2.2.2.1
  unfold disconnectAccount
  simp only [hactive]
  split
  · have hleft := desk_leaveScreen (core.dropSession account)
    rw [desk_dropSession] at hleft
    refine Eq.trans ?_ hleft
    unfold activateConnected
    split
    · next next _ =>
      refine (desk_activate (core.dropSession account).leaveScreen next.id "INBOX").trans ?_
      split
      · rfl
      · rw [hleft]
        rfl
    · rfl
  · exact desk_dropSession core account

theorem desk_markConnected (core : AppCore) (account : AccountId) :
    (core.markConnected account).desk = core.desk := rfl

theorem desk_onConnected (core : AppCore) (account : AccountId) :
    (core.onConnected account).desk =
      if core.active.isNone then core.desk.noSearch else core.desk := by
  have hactive : (core.markConnected account).active = core.active :=
    (core.markConnected_spec account).2.1
  unfold onConnected
  simp only [hactive]
  split
  · next hnone =>
    rw [desk_activate, hactive, desk_markConnected]
    rw [if_neg (by rw [Option.isNone_iff_eq_none.mp hnone]; simp)]
  · split
    · rw [desk_fetchHeaders, desk_markConnected]
    · rfl

theorem desk_onProgress (core : AppCore) (account : AccountId) (kind : ProgressKind)
    (update : Progress) :
    (core.onProgress account kind update).desk = core.desk.report core.active account kind update := by
  unfold onProgress Desk.report
  extract_lets isFinished indexingDone
  have hfinished : isFinished = Desk.finished update := by cases update <;> rfl
  simp only [indexingDone, hfinished]
  split
  · split
    · exact desk_clearProgress core .index
    · rfl
  · rfl

theorem desk_onBody (core : AppCore) (account : AccountId) (uid : Nat) (html : String)
    (attachments : List Attachment) (reqId : Nat) :
    (core.onBody account uid html attachments reqId).desk = core.desk := by
  unfold onBody
  split <;> rfl

theorem desk_onBodyFailed (out : Outside) (core : AppCore) (account : AccountId) (uid reqId : Nat)
    (error : String) : (onBodyFailed out core account uid reqId error).desk = core.desk := by
  unfold onBodyFailed
  rw [desk_pushAccountBanner]
  split <;> rfl

theorem desk_onNewHeaders (core : AppCore) (account : AccountId) :
    (core.onNewHeaders account).desk = core.desk := by
  unfold onNewHeaders
  simp only []
  split <;> rfl

theorem desk_onHeaders (core : AppCore) (account : AccountId) (mailbox : String)
    (headers : List MailHeader) (page totalPages reqId : Nat) (state : MailboxState) :
    (core.onHeaders account mailbox headers page totalPages reqId state).desk = core.desk := by
  unfold onHeaders
  rw [desk_sendDb]
  split <;> rfl

theorem desk_countSeen (core : AppCore) (account : AccountId) (mailbox : String)
    (wasSeen : Option Bool) (nowSeen : Bool) :
    (core.countSeen account mailbox wasSeen nowSeen).desk = core.desk := by
  unfold countSeen
  split <;> rfl

theorem desk_onFlagsUpdated (core : AppCore) (account : AccountId) (mailbox : String) (uid : Nat)
    (flags : List String) (reqId : Nat) :
    (core.onFlagsUpdated account mailbox uid flags).desk =
      core.desk.handle core.active account (.flagsUpdated mailbox uid flags reqId) := by
  unfold onFlagsUpdated
  simp only [desk_sendDb, desk_countSeen, Desk.handle]
  rw [← desk_advanceBulkAction]
  rfl

theorem desk_dropResult (core : AppCore) (account : AccountId) (mailbox : String) (uid : Nat) :
    (core.dropResult account mailbox uid).desk = core.desk.dropResult account mailbox uid := by
  unfold dropResult Desk.dropResult
  rcases hresults : core.searchResults with _ | results
  · simp only [desk, hresults]
  · simp only [desk, hresults]

theorem desk_deselect (core : AppCore) (account : AccountId) (uid : Nat) (dest : String) :
    (core.deselect account uid dest).desk = core.desk := by
  unfold deselect
  simp only []
  split
  · split <;> rfl
  · rfl

theorem desk_countMoved (core : AppCore) (account : AccountId) (mailbox dest : String)
    (wasUnread : Bool) : (core.countMoved account mailbox dest wasUnread).desk = core.desk := by
  unfold countMoved
  split <;> rfl

theorem desk_onMoved (core : AppCore) (account : AccountId) (mailbox : String) (uid : Nat)
    (dest : String) :
    (core.onMoved account mailbox uid dest).desk =
      (core.desk.advance .move uid).dropResult account mailbox uid := by
  unfold onMoved
  simp only [desk_sendDb, desk_countMoved, desk_deselect, desk_dropResult]
  rw [← desk_advanceBulkAction]
  rfl

/-! ## 3. What an event makes of it -/

/-- An event of an account without a session does nothing; any other does what `Desk.handle` says. -/
theorem desk_handleImapEvent (out : Outside) (core : AppCore) (account : AccountId)
    (evt : ImapEvent) :
    (core.handleImapEvent out account evt).desk =
      if (core.view account).isNone then core.desk
      else core.desk.handle core.active account evt := by
  unfold handleImapEvent
  split
  · rfl
  · cases evt with
    | connected => exact desk_onConnected core account
    | error error =>
      simp only [onError, desk_pushAccountBanner, desk_modifyView]
      exact desk_clearProgress core .index
    | progress kind update => exact desk_onProgress core account kind update
    | exported path => exact desk_clearProgress core .export
    | exportFailed error =>
      rw [desk_pushAccountBanner]
      exact desk_clearProgress core .export
    | appended mailbox => exact desk_clearProgress core .append
    | appendFailed mailbox error =>
      rw [desk_pushAccountBanner]
      exact desk_clearProgress core .append
    | flagsUpdated mailbox uid flags reqId =>
      exact desk_onFlagsUpdated core account mailbox uid flags reqId
    | flagsUpdateFailed mailbox uid error reqId =>
      rw [desk_pushAccountBanner]
      exact desk_advanceBulkAction core .flags uid
    | moved mailbox uid dest reqId => exact desk_onMoved core account mailbox uid dest
    | moveFailed mailbox uid error reqId =>
      rw [desk_pushAccountBanner]
      exact desk_advanceBulkAction core .move uid
    | headers mailbox headers page totalPages reqId state =>
      exact desk_onHeaders core account mailbox headers page totalPages reqId state
    | body uid html attachments reqId => exact desk_onBody core account uid html attachments reqId
    | bodyFailed uid reqId error => exact desk_onBodyFailed out core account uid reqId error
    | newHeaders mailbox headers => exact desk_onNewHeaders core account
    | mailData mailbox header body attachments => exact desk_sendDb core _
    | headersFrom mailbox headers => exact desk_sendDb core _
    | _ => rfl

end AppCore

end Esmail.App
