/-
# The application core

`AppCore` of `app/mod.rs` with the data of `app/state.rs` and the status bar of `app/progress.rs`:
what is on screen (one mailbox of the active account), and one view for each account's session.  A
session is the sending end of its command queue; its events come back over one channel that all
sessions share (`App/Pump.lean`).

Two things here are not in the program, and nothing that the program decides reads them.  A header
in the list carries the account and the mailbox of the reply it came with, and a session carries
a number, which tells it from an earlier one of the same account.
-/
import Mathlib.Data.Finset.Card
import Esmail.Cache.Commands

namespace Esmail.App

/-! ## 1. What the core is made of -/

/-- `Auth`; a Google sign-in is known by the token source it shares. -/
inductive Auth
  | password (password : String)
  | oauth (source : Nat)
  deriving DecidableEq, Repr

/-- `AccountConfig`, as far as the core reads it. -/
structure AccountConfig where
  id : AccountId
  displayName : String
  deriving DecidableEq, Repr

/-- `ProgressKind`. -/
inductive ProgressKind
  | index
  | flags
  | move
  | append
  | export
  | attachment
  | send
  deriving DecidableEq, Repr

/-- `ProgressKind::is_bulk`. -/
def ProgressKind.isBulk (kind : ProgressKind) : Bool :=
  kind = .index || kind = .flags || kind = .move

/-- `Progress`. -/
inductive Progress
  | counted (current total : Nat)
  | indeterminate
  deriving DecidableEq, Repr

/-- `ProgressView`. -/
structure ProgressView where
  kind : ProgressKind
  progress : Progress
  deriving DecidableEq, Repr

/-- `BulkAction`. -/
structure BulkAction where
  kind : ProgressKind
  total : Nat
  pending : Finset Nat
  deriving DecidableEq

/-- `Banner`. -/
structure Banner where
  id : Nat
  message : String
  deriving DecidableEq, Repr

/-- `ConnState`. -/
inductive ConnState
  | connecting
  | connected
  | disconnected
  | failed (error : String)
  deriving DecidableEq, Repr

/-- `SpecialUse`. -/
inductive SpecialUse
  | inbox
  | sent
  | drafts
  | trash
  | archive
  | junk
  deriving DecidableEq, Repr

/-- `MailboxInfo`. -/
structure MailboxInfo where
  name : String
  delimiter : Option String
  specialUse : Option SpecialUse
  noselect : Bool
  deriving DecidableEq, Repr

/-- `MailboxRow`. -/
structure MailboxRow where
  depth : Nat
  label : String
  fullName : Option String
  specialUse : Option SpecialUse
  key : String
  hasChildren : Bool
  deriving DecidableEq, Repr

/-- `ImapCommand`, as far as the core sends them. -/
inductive ImapCommand
  | connect
  | fetchMailboxes
  | fetchHeaders (mailbox : String) (page reqId : Nat)
  | fetchBody (mailbox : String) (uid reqId : Nat)
  | fetchUnreadCounts (mailboxes : List String)
  deriving DecidableEq, Repr

/-- `AccountSession`: the queue of its commands. -/
structure AccountSession where
  id : AccountId
  label : String
  imapTx : List ImapCommand
  number : Nat
  deriving DecidableEq, Repr

/-- How many commands wait for an actor at most. -/
def commandQueue : Nat := 32

/-- `try_send` on the session's queue. -/
def AccountSession.trySend (session : AccountSession) (cmd : ImapCommand) : AccountSession :=
  if session.imapTx.length < commandQueue then { session with imapTx := session.imapTx ++ [cmd] }
  else session

/-- `AccountView`. -/
structure AccountView where
  session : AccountSession
  state : ConnState
  mailboxRows : List MailboxRow
  unreadCounts : Table String Nat
  auth : Auth
  pendingPersist : Option (AccountConfig × Auth)
  deriving DecidableEq

def AccountView.id (view : AccountView) : AccountId := view.session.id

def AccountView.label (view : AccountView) : String := view.session.label

/-- What a view says of its session: of which account it is, which of the account's, and what is to
be saved once it has connected. -/
def AccountView.owner (view : AccountView) :
    AccountId × Nat × Option (AccountConfig × Auth) :=
  (view.id, view.session.number, view.pendingPersist)

/-- `Changes`. -/
structure Changes where
  readingPane : Option String := none
  persistAccounts : List AccountId := []
  deriving DecidableEq, Repr

/-- A header of the list, with the account and the mailbox of the reply that brought it. -/
structure ListedHeader where
  header : MailHeader
  source : AccountId × String
  deriving DecidableEq, Repr

/-- `AppCore`.  `dbTx` is the queue of the cache's commands, of which `dbCapacity` fit. -/
structure AppCore where
  changes : Changes := {}
  dbTx : List Cache.Command := []
  dbCapacity : Nat
  accounts : List AccountView := []
  active : Option AccountId := none
  status : String := "Ready"
  banners : List Banner := []
  nextBannerId : Nat := 0
  selectedMailbox : String := "INBOX"
  headers : List ListedHeader := []
  selectedUid : Option Nat := none
  selectedUids : Finset Nat := ∅
  selectAnchor : Option Nat := none
  pendingMarkSeen : Option (Nat × Nat) := none
  currentPage : Nat := 1
  totalPages : Nat := 1
  currentAttachments : List Attachment := []
  currentMessageHtml : String := ""
  nextReqId : Nat := 0
  currentHeadersReq : Nat := 0
  currentBodyReq : Nat := 0
  searchQuery : String := ""
  searchResults : Option (List MailHeader) := none
  searchOrigins : List (AccountId × String) := []
  searchAllAccounts : Bool := false
  headersStale : Bool := false
  progress : Option ProgressView := none
  bulkAction : Option BulkAction := none

namespace AppCore

/-! ## 2. Views -/

/-- `AppCore::take_changes`. -/
def takeChanges (core : AppCore) : AppCore × Changes := ({ core with changes := {} }, core.changes)

def showInReadingPane (core : AppCore) (html : String) : AppCore :=
  { core with changes := { core.changes with readingPane := some html } }

/-- `AppCore::view`. -/
def view (core : AppCore) (account : AccountId) : Option AccountView :=
  core.accounts.find? fun v => v.id = account

/-- `iter_mut().find(..)`: the first that is found is changed. -/
def modifyFirst {α : Type} (p : α → Bool) (f : α → α) : List α → List α
  | [] => []
  | x :: xs => if p x then f x :: xs else x :: modifyFirst p f xs

/-- `AppCore::view_mut`, and what is done with the view. -/
def modifyView (core : AppCore) (account : AccountId) (f : AccountView → AccountView) : AppCore :=
  { core with accounts := modifyFirst (fun v => v.id = account) f core.accounts }

/-- `AppCore::account_label`. -/
def accountLabel (core : AppCore) (account : AccountId) : String :=
  ((core.view account).map AccountView.label).getD account

/-- `AppCore::mailbox_names`. -/
def mailboxNames (core : AppCore) (account : AccountId) : List String :=
  ((core.view account).map fun v => v.mailboxRows.filterMap MailboxRow.fullName).getD []

/-! ## 3. Sessions and requests -/

/-- `AppCore::open_session`.  The number of the new session comes from outside. -/
def openSession (core : AppCore) (number : Nat) (account : AccountConfig) (auth : Auth)
    (pendingPersist : Option (AccountConfig × Auth)) : AppCore :=
  { core with
    accounts := (core.accounts.filter fun v => v.id ≠ account.id) ++
      [⟨⟨account.id, account.displayName, [.connect], number⟩, .connecting, [], Table.empty, auth,
        pendingPersist⟩] }

/-- `AppCore::take_pending_persist`. -/
def takePendingPersist (core : AppCore) (account : AccountId) :
    AppCore × Option (AccountConfig × Auth) :=
  (core.modifyView account fun v => { v with pendingPersist := none },
    (core.view account).bind AccountView.pendingPersist)

/-- `AppCore::push_banner`. -/
def pushBanner (core : AppCore) (message : String) : AppCore :=
  { core with
    nextBannerId := core.nextBannerId + 1
    banners := core.banners ++ [⟨core.nextBannerId + 1, message⟩] }

/-- `AppCore::push_account_banner`. -/
def pushAccountBanner (core : AppCore) (account : AccountId) (message : String) : AppCore :=
  if 1 < core.accounts.length then core.pushBanner (core.accountLabel account ++ ": " ++ message)
  else core.pushBanner message

/-- `AppCore::send_imap_to`. -/
def sendImapTo (core : AppCore) (account : AccountId) (cmd : ImapCommand) : AppCore :=
  core.modifyView account fun v => { v with session := v.session.trySend cmd }

/-- `AppCore::send_imap`. -/
def sendImap (core : AppCore) (cmd : ImapCommand) : AppCore :=
  match core.active with
  | some account => core.sendImapTo account cmd
  | none => core

/-- `self.db_tx.try_send(..)`. -/
def sendDb (core : AppCore) (cmd : Cache.Command) : AppCore :=
  if core.dbTx.length < core.dbCapacity then { core with dbTx := core.dbTx ++ [cmd] } else core

/-- `AppCore::fetch_headers`, with the request id of `next_req_id`. -/
def fetchHeaders (core : AppCore) (mailbox : String) (page : Nat) : AppCore :=
  { core with nextReqId := core.nextReqId + 1, currentHeadersReq := core.nextReqId + 1 }.sendImap
    (.fetchHeaders mailbox page (core.nextReqId + 1))

/-- `AppCore::fetch_body`. -/
def fetchBody (core : AppCore) (mailbox : String) (uid : Nat) : AppCore :=
  { core with nextReqId := core.nextReqId + 1, currentBodyReq := core.nextReqId + 1 }.sendImap
    (.fetchBody mailbox uid (core.nextReqId + 1))

/-! ## 4. The status bar -/

/-- `AppCore::set_progress`. -/
def setProgress (core : AppCore) (kind : ProgressKind) (progress : Progress) : AppCore :=
  { core with progress := some ⟨kind, progress⟩ }

/-- `AppCore::clear_progress`. -/
def clearProgress (core : AppCore) (kind : ProgressKind) : AppCore :=
  if core.progress.any fun v => v.kind = kind then { core with progress := none } else core

/-- `AppCore::bulk_action_in_flight`. -/
def bulkActionInFlight (core : AppCore) : Bool :=
  core.bulkAction.isSome || core.progress.any fun v => v.kind.isBulk

/-- `AppCore::begin_bulk_action`. -/
def beginBulkAction (core : AppCore) (kind : ProgressKind) (targets : List Nat) : AppCore :=
  if targets.length < 2 then core
  else
    { core with bulkAction := some ⟨kind, targets.length, targets.toFinset⟩ }.setProgress kind
      (.counted 0 targets.length)

/-- `AppCore::advance_bulk_action`. -/
def advanceBulkAction (core : AppCore) (kind : ProgressKind) (uid : Nat) : AppCore :=
  match core.bulkAction with
  | none => core
  | some action =>
    if action.kind ≠ kind ∨ uid ∉ action.pending then core
    else
      let pending := action.pending.erase uid
      if pending = ∅ then { core with bulkAction := none }.clearProgress kind
      else
        { core with bulkAction := some { action with pending := pending } }.setProgress kind
          (.counted (action.total - pending.card) action.total)

/-! ## 5. Which account is on screen -/

/-- What `activate` drops of the account that was on screen before. -/
def clearScreen (core : AppCore) : AppCore :=
  { core with
    searchQuery := ""
    searchResults := none
    searchOrigins := []
    headers := []
    currentMessageHtml := ""
    currentAttachments := [] }.showInReadingPane ""

/-- `AppCore::activate`. -/
def activate (core : AppCore) (account : AccountId) (mailbox : String) : AppCore :=
  let switching := core.active ≠ some account
  let core := { core with active := some account, headersStale := false }
  let core := if switching then core.clearScreen else core
  { core with
    selectedMailbox := mailbox
    selectedUid := none
    selectedUids := ∅
    selectAnchor := none
    pendingMarkSeen := none
    currentPage := 1
    totalPages := 1 }.fetchHeaders mailbox 1

/-- What `disconnect_account` drops where the account was on screen. -/
def leaveScreen (core : AppCore) : AppCore :=
  let core := { core with active := none, bulkAction := none }
  let core := ((core.clearProgress .flags).clearProgress .move).clearProgress .index
  { core with
    headers := []
    searchResults := none
    searchOrigins := []
    headersStale := false
    selectedUid := none
    selectedUids := ∅
    selectAnchor := none
    pendingMarkSeen := none
    currentMessageHtml := ""
    currentAttachments := [] }.showInReadingPane ""

/-- The first of `disconnect_account`: the session goes, and so does the search of all accounts where
one account is left. -/
def dropSession (core : AppCore) (account : AccountId) : AppCore :=
  let core := { core with accounts := core.accounts.filter fun v => v.id ≠ account }
  if core.accounts.length < 2 then { core with searchAllAccounts := false } else core

/-- The last of `disconnect_account`: a connected account comes on screen. -/
def activateConnected (core : AppCore) : AppCore :=
  match core.accounts.find? fun v => v.state = .connected with
  | some next => core.activate next.id "INBOX"
  | none => core

/-- `AppCore::disconnect_account`. -/
def disconnectAccount (core : AppCore) (account : AccountId) : AppCore :=
  let label := core.accountLabel account
  let core := core.dropSession account
  let core := if core.active = some account then core.leaveScreen.activateConnected else core
  { core with status := "Logged out of " ++ label }

/-! ## 6. What the functions leave alone -/

/-- The sessions there are. -/
def sessions (core : AppCore) : List (AccountId × Nat × Option (AccountConfig × Auth)) :=
  core.accounts.map AccountView.owner

/-- Who owns a view is known from the sessions. -/
theorem owner_view (core : AppCore) (account : AccountId) :
    (core.view account).map AccountView.owner = core.sessions.find? fun s => s.1 = account := by
  rw [sessions, List.find?_map]
  rfl

/-- The list on screen and its place, the sessions, and the accounts to be saved are the same. -/
structure Quiet (core core' : AppCore) : Prop where
  headers : core'.headers = core.headers
  active : core'.active = core.active
  selectedMailbox : core'.selectedMailbox = core.selectedMailbox
  sessions : core'.sessions = core.sessions
  persist : core'.changes.persistAccounts = core.changes.persistAccounts

theorem Quiet.refl (core : AppCore) : Quiet core core := ⟨rfl, rfl, rfl, rfl, rfl⟩

theorem Quiet.trans {a b c : AppCore} (h : Quiet a b) (h' : Quiet b c) : Quiet a c :=
  ⟨h'.headers.trans h.headers, h'.active.trans h.active,
    h'.selectedMailbox.trans h.selectedMailbox, h'.sessions.trans h.sessions,
    h'.persist.trans h.persist⟩

theorem map_modifyFirst {α β : Type} {p : α → Bool} {f : α → α} {g : α → β}
    (hg : ∀ x, g (f x) = g x) (l : List α) : (modifyFirst p f l).map g = l.map g := by
  induction l with
  | nil => rfl
  | cons x xs ih =>
    simp only [modifyFirst]
    split
    · rw [List.map_cons, List.map_cons, hg]
    · rw [List.map_cons, List.map_cons, ih]

/-- A view may change, but for what it says of its session. -/
theorem quiet_modifyView (core : AppCore) (account : AccountId) {f : AccountView → AccountView}
    (hf : ∀ v, (f v).owner = v.owner) :
    Quiet core (core.modifyView account f) :=
  ⟨rfl, rfl, rfl, map_modifyFirst hf core.accounts, rfl⟩

theorem quiet_sendImapTo (core : AppCore) (account : AccountId) (cmd : ImapCommand) :
    Quiet core (core.sendImapTo account cmd) := by
  refine quiet_modifyView core account fun v => ?_
  simp only [AccountView.owner, AccountView.id, AccountSession.trySend]
  split <;> rfl

theorem quiet_sendImap (core : AppCore) (cmd : ImapCommand) : Quiet core (core.sendImap cmd) := by
  unfold sendImap
  split
  · exact quiet_sendImapTo core _ cmd
  · exact Quiet.refl core

theorem quiet_fetchHeaders (core : AppCore) (mailbox : String) (page : Nat) :
    Quiet core (core.fetchHeaders mailbox page) := by
  have hquiet := quiet_sendImap
    { core with nextReqId := core.nextReqId + 1, currentHeadersReq := core.nextReqId + 1 }
    (.fetchHeaders mailbox page (core.nextReqId + 1))
  exact ⟨hquiet.headers, hquiet.active, hquiet.selectedMailbox, hquiet.sessions, hquiet.persist⟩

theorem quiet_sendDb (core : AppCore) (cmd : Cache.Command) : Quiet core (core.sendDb cmd) := by
  unfold sendDb
  split <;> exact ⟨rfl, rfl, rfl, rfl, rfl⟩

theorem quiet_pushAccountBanner (core : AppCore) (account : AccountId) (message : String) :
    Quiet core (core.pushAccountBanner account message) := by
  unfold pushAccountBanner
  split <;> exact ⟨rfl, rfl, rfl, rfl, rfl⟩

theorem quiet_clearProgress (core : AppCore) (kind : ProgressKind) :
    Quiet core (core.clearProgress kind) := by
  unfold clearProgress
  split <;> exact ⟨rfl, rfl, rfl, rfl, rfl⟩

theorem quiet_advanceBulkAction (core : AppCore) (kind : ProgressKind) (uid : Nat) :
    Quiet core (core.advanceBulkAction kind uid) := by
  unfold advanceBulkAction
  split
  · exact Quiet.refl core
  · split
    · exact Quiet.refl core
    · simp only []
      split
      · have hquiet := quiet_clearProgress { core with bulkAction := none } kind
        exact ⟨hquiet.headers, hquiet.active, hquiet.selectedMailbox, hquiet.sessions,
          hquiet.persist⟩
      · exact ⟨rfl, rfl, rfl, rfl, rfl⟩

/-- `activate` puts the account and the mailbox on screen, and drops the list of another account. -/
theorem activate_spec (core : AppCore) (account : AccountId) (mailbox : String) :
    (core.activate account mailbox).active = some account ∧
      (core.activate account mailbox).selectedMailbox = mailbox ∧
      (core.activate account mailbox).headers =
        (if core.active = some account then core.headers else []) ∧
      (core.activate account mailbox).sessions = core.sessions ∧
      (core.activate account mailbox).changes.persistAccounts = core.changes.persistAccounts := by
  unfold activate
  by_cases h : core.active = some account
  · have hquiet := quiet_fetchHeaders
      { core with
        active := some account, headersStale := false, selectedMailbox := mailbox
        selectedUid := none, selectedUids := ∅, selectAnchor := none, pendingMarkSeen := none
        currentPage := 1, totalPages := 1 } mailbox 1
    simp only [h, ne_eq, not_true_eq_false, if_false, if_true]
    exact ⟨hquiet.active, hquiet.selectedMailbox, hquiet.headers, hquiet.sessions, hquiet.persist⟩
  · have hquiet := quiet_fetchHeaders
      { ({ core with active := some account, headersStale := false }.clearScreen) with
        selectedMailbox := mailbox
        selectedUid := none, selectedUids := ∅, selectAnchor := none, pendingMarkSeen := none
        currentPage := 1, totalPages := 1 } mailbox 1
    simp only [h, ne_eq, not_false_eq_true, if_true, if_false]
    exact ⟨hquiet.active, hquiet.selectedMailbox, hquiet.headers, hquiet.sessions, hquiet.persist⟩

theorem leaveScreen_spec (core : AppCore) :
    core.leaveScreen.active = none ∧ core.leaveScreen.headers = [] ∧
      core.leaveScreen.sessions = core.sessions ∧
      core.leaveScreen.changes.persistAccounts = core.changes.persistAccounts := by
  have hquiet : Quiet { core with active := none, bulkAction := none }
      (((({ core with active := none, bulkAction := none } : AppCore).clearProgress .flags).clearProgress
        .move).clearProgress .index) :=
    ((quiet_clearProgress _ _).trans (quiet_clearProgress _ _)).trans (quiet_clearProgress _ _)
  exact ⟨hquiet.active, rfl, hquiet.sessions, hquiet.persist⟩

theorem dropSession_spec (core : AppCore) (account : AccountId) :
    (core.dropSession account).sessions = core.sessions.filter (fun s => s.1 ≠ account) ∧
      (core.dropSession account).changes = core.changes ∧
      (core.dropSession account).headers = core.headers ∧
      (core.dropSession account).active = core.active ∧
      (core.dropSession account).selectedMailbox = core.selectedMailbox := by
  have hsessions : ({ core with accounts := core.accounts.filter fun v => v.id ≠ account } :
      AppCore).sessions = core.sessions.filter fun s => s.1 ≠ account := by
    simp only [sessions, List.filter_map]
    rfl
  unfold dropSession
  simp only []
  split
  · exact ⟨hsessions, rfl, rfl, rfl, rfl⟩
  · exact ⟨hsessions, rfl, rfl, rfl, rfl⟩

/-- Where nothing is on screen, a connected account comes there with no list yet. -/
theorem activateConnected_spec (core : AppCore) (hactive : core.active = none)
    (hheaders : core.headers = []) :
    core.activateConnected.headers = [] ∧ core.activateConnected.sessions = core.sessions ∧
      core.activateConnected.changes.persistAccounts = core.changes.persistAccounts := by
  unfold activateConnected
  split
  · next next _ =>
    obtain ⟨-, -, hlist, hsessions, hpersist⟩ := core.activate_spec next.id "INBOX"
    rw [hactive, if_neg (by simp)] at hlist
    exact ⟨hlist, hsessions, hpersist⟩
  · exact ⟨hheaders, rfl, rfl⟩

/-- `disconnect_account` drops the account's sessions.  Where it was on screen, its list goes. -/
theorem disconnectAccount_spec (core : AppCore) (account : AccountId) :
    (core.disconnectAccount account).sessions = core.sessions.filter (fun s => s.1 ≠ account) ∧
      (core.disconnectAccount account).changes.persistAccounts = core.changes.persistAccounts ∧
      ((core.disconnectAccount account).headers = [] ∨
        (core.disconnectAccount account).headers = core.headers ∧
          (core.disconnectAccount account).active = core.active ∧
          (core.disconnectAccount account).selectedMailbox = core.selectedMailbox) := by
  obtain ⟨hsessions, hchanges, hheaders, hactive, hmailbox⟩ := core.dropSession_spec account
  unfold disconnectAccount
  simp only []
  split
  · obtain ⟨hleft, hlist, hs, hp⟩ := (core.dropSession account).leaveScreen_spec
    obtain ⟨hlist', hs', hp'⟩ :=
      (core.dropSession account).leaveScreen.activateConnected_spec hleft hlist
    exact ⟨hs'.trans (hs.trans hsessions), hp'.trans (hp.trans (by rw [hchanges])), .inl hlist'⟩
  · exact ⟨hsessions, by rw [hchanges], .inr ⟨hheaders, hactive, hmailbox⟩⟩

end AppCore

end Esmail.App
