/-
# What the sessions report, applied to the core

`AppCore::pump` of `app/pump.rs`.  `handleImapEvent` is its loop body.  It is given an account and
an event and nothing else: which SESSION of the account the event came from is not known to it.
Cleaning a text for HTML and laying out a mailbox tree come from outside (`Outside`).

`handled_handleImapEvent` says what an event leaves alone, of the sessions, of what is to be saved and
of what is on screen; `foldl_handled` carries such a thing over all events of one call.
-/
import Esmail.App.Core
import Esmail.Mailbox.Server

namespace Esmail.App

/-- `ImapEvent`. -/
inductive ImapEvent
  | connected
  | disconnected
  | error (error : String)
  | mailboxes (mailboxes : List MailboxInfo)
  | headers (mailbox : String) (headers : List MailHeader) (page totalPages reqId : Nat)
      (mailboxState : MailboxState)
  | body (uid : Nat) (html : String) (attachments : List Attachment) (reqId : Nat)
  | bodyFailed (uid reqId : Nat) (error : String)
  | progress (kind : ProgressKind) (progress : Progress)
  | exported (path : String)
  | exportFailed (error : String)
  | mailData (mailbox : String) (header : MailHeader) (body : String) (attachments : List Attachment)
  | mailboxPolled (mailbox : String) (state : MailboxState)
  | newHeaders (mailbox : String) (headers : List MailHeader)
  | headersFrom (mailbox : String) (headers : List MailHeader)
  | appended (mailbox : String)
  | appendFailed (mailbox error : String)
  | pollFailed (error : String)
  | flagsUpdated (mailbox : String) (uid : Nat) (flags : List String) (reqId : Nat)
  | flagsUpdateFailed (mailbox : String) (uid : Nat) (error : String) (reqId : Nat)
  | moved (mailbox : String) (uid : Nat) (dest : String) (reqId : Nat)
  | moveFailed (mailbox : String) (uid : Nat) (error : String) (reqId : Nat)
  | unreadCounts (counts : Table String Nat)
  deriving DecidableEq

/-- `ammonia::clean_text`, and `flatten_tree` of `mailbox_tree`. -/
structure Outside where
  cleanText : String → String
  flattenTree : List MailboxInfo → List MailboxRow

namespace AppCore

/-! ## 1. The arms -/

/-- What `ImapEvent::Connected` does wherever the account is: only one that was added through the form
is saved. -/
def markConnected (core : AppCore) (account : AccountId) : AppCore :=
  let fromForm := (core.view account).any fun v => v.pendingPersist.isSome
  let core := core.modifyView account fun v => { v with state := .connected }
  { core with
    changes :=
      if fromForm then
        { core.changes with persistAccounts := core.changes.persistAccounts ++ [account] }
      else core.changes
    status := "Connected: " ++ core.accountLabel account }.sendImapTo account .fetchMailboxes

/-- `ImapEvent::Connected`. -/
def onConnected (core : AppCore) (account : AccountId) : AppCore :=
  let core := core.markConnected account
  if core.active.isNone then core.activate account "INBOX"
  else if core.active = some account then core.fetchHeaders core.selectedMailbox 1
  else core

/-- `ImapEvent::Error`. -/
def onError (core : AppCore) (account : AccountId) (error : String) : AppCore :=
  ((core.clearProgress .index).modifyView account fun v =>
      if v.state = .connecting ∨ v.state = .disconnected then { v with state := .failed error } else v).pushAccountBanner
    account ("IMAP error: " ++ error)

/-- `ImapEvent::Disconnected`. -/
def onDisconnected (core : AppCore) (account : AccountId) : AppCore :=
  { core.modifyView account fun v => { v with state := .disconnected } with
    status :=
      if core.active = some account then "Connection lost, reconnecting..." else core.status }

/-- `ImapEvent::Mailboxes`. -/
def onMailboxes (out : Outside) (core : AppCore) (account : AccountId) (mailboxes : List MailboxInfo) :
    AppCore :=
  (core.modifyView account fun v => { v with mailboxRows := out.flattenTree mailboxes }).sendImapTo
    account (.fetchUnreadCounts (mailboxes.map MailboxInfo.name))

/-- Whether this is the reply that the reading pane waits for. -/
def awaitsBody (core : AppCore) (account : AccountId) (uid reqId : Nat) : Bool :=
  core.active = some account && reqId = core.currentBodyReq && core.selectedUid = some uid

/-- `ImapEvent::Body`. -/
def onBody (core : AppCore) (account : AccountId) (uid : Nat) (html : String)
    (attachments : List Attachment) (reqId : Nat) : AppCore :=
  if core.awaitsBody account uid reqId then
    { core with currentMessageHtml := html, currentAttachments := attachments }.showInReadingPane html
  else core

/-- `ImapEvent::BodyFailed`. -/
def onBodyFailed (out : Outside) (core : AppCore) (account : AccountId) (uid reqId : Nat)
    (error : String) : AppCore :=
  let msg := "<i>Could not load message: " ++ out.cleanText error ++ "</i>"
  (if core.awaitsBody account uid reqId then
    { core with currentMessageHtml := msg }.showInReadingPane msg
  else core).pushAccountBanner account ("Could not load message: " ++ error)

/-- `ImapEvent::NewHeaders`. -/
def onNewHeaders (core : AppCore) (account : AccountId) : AppCore :=
  let names := core.mailboxNames account
  if names.isEmpty then core else core.sendImapTo account (.fetchUnreadCounts names)

/-- `ImapEvent::UnreadCounts`. -/
def onUnreadCounts (core : AppCore) (account : AccountId) (counts : Table String Nat) : AppCore :=
  core.modifyView account fun v => { v with unreadCounts := counts }

/-- `ImapEvent::Headers`. -/
def onHeaders (core : AppCore) (account : AccountId) (mailbox : String) (headers : List MailHeader)
    (page totalPages reqId : Nat) (state : MailboxState) : AppCore :=
  (if core.active = some account ∧ reqId = core.currentHeadersReq ∧ mailbox = core.selectedMailbox then
    { core with
      headers := headers.map fun h => ⟨h, account, mailbox⟩
      currentPage := page
      totalPages := totalPages
      status := "Page " ++ toString page ++ " of " ++ toString totalPages }
  else core).sendDb (.reportMailboxState account mailbox state.uidValidity state.uidNext)

/-- `ImapEvent::Progress`. -/
def onProgress (core : AppCore) (account : AccountId) (kind : ProgressKind) (update : Progress) :
    AppCore :=
  let finished : Bool :=
    match update with
    | .counted current total => current = total
    | .indeterminate => false
  let indexingDone := kind = .index ∧ finished = true
  if kind ≠ .index ∨ core.active = some account then
    if indexingDone then { core.clearProgress .index with status := "Download complete" }
    else core.setProgress kind update
  else core

/-- The flags of one search result, where it is the message at this place. -/
def flagResults (origins : List (AccountId × String)) (account : AccountId) (mailbox : String)
    (uid : Nat) (flags : List String) (results : List MailHeader) : List MailHeader :=
  results.mapIdx fun i h =>
    if h.uid = uid ∧ origins[i]? = some (account, mailbox) then { h with flags := flags } else h

/-- Whether the list on screen is of this mailbox. -/
def onScreen (core : AppCore) (account : AccountId) (mailbox : String) : Bool :=
  core.active = some account && mailbox = core.selectedMailbox

/-- The message, where it is in the list on screen. -/
def headerOnScreen (core : AppCore) (account : AccountId) (mailbox : String) (uid : Nat) :
    Option MailHeader :=
  if core.onScreen account mailbox then
    (core.headers.find? fun h => h.header.uid = uid).map ListedHeader.header
  else none

/-- The lists on screen, where the server has stored the message's flags. -/
def flagLists (core : AppCore) (account : AccountId) (mailbox : String) (uid : Nat)
    (flags : List String) : AppCore :=
  { core with
    headers :=
      if core.onScreen account mailbox then
        modifyFirst (fun h => h.header.uid = uid)
          (fun h => { h with header := { h.header with flags := flags } }) core.headers
      else core.headers
    searchResults := core.searchResults.map
      (flagResults core.searchOrigins account mailbox uid flags) }

/-- The unread count of a mailbox, where a message of it on screen was and is now seen or not. -/
def countSeen (core : AppCore) (account : AccountId) (mailbox : String) (wasSeen : Option Bool)
    (nowSeen : Bool) : AppCore :=
  match wasSeen with
  | some wasSeen =>
    core.modifyView account fun v =>
      { v with
        unreadCounts := v.unreadCounts.update mailbox fun count =>
          if wasSeen && !nowSeen then count + 1
          else if !wasSeen && nowSeen then count - 1
          else count }
  | none => core

/-- `ImapEvent::FlagsUpdated`. -/
def onFlagsUpdated (core : AppCore) (account : AccountId) (mailbox : String) (uid : Nat)
    (flags : List String) : AppCore :=
  let core := core.advanceBulkAction .flags uid
  let wasSeen := (core.headerOnScreen account mailbox uid).map MailHeader.isSeen
  let nowSeen := flags.any fun f => RustText.eqIgnoreAsciiCase f.toList "\\Seen".toList
  ((core.flagLists account mailbox uid flags).countSeen account mailbox wasSeen nowSeen).sendDb
    (.updateFlags ⟨account, mailbox, uid⟩ flags)

/-- The search results, where the message has left its mailbox. -/
def dropResult (core : AppCore) (account : AccountId) (mailbox : String) (uid : Nat) : AppCore :=
  match core.searchResults with
  | some results =>
    let kept := (results.zip core.searchOrigins).filter fun r : MailHeader × AccountId × String =>
      !(decide (r.1.uid = uid) && decide (r.2 = (account, mailbox)))
    { core with searchResults := some (kept.map Prod.fst), searchOrigins := kept.map Prod.snd }
  | none => core

/-- The selection, where a message of the account on screen has moved. -/
def deselect (core : AppCore) (account : AccountId) (uid : Nat) (dest : String) : AppCore :=
  if core.active = some account then
    let core := { core with
      selectedUids := core.selectedUids.erase uid, status := "Moved to " ++ dest }
    if core.selectedUid = some uid then
      { core with selectedUid := none }.showInReadingPane "<i>Message moved.</i>"
    else core
  else core

/-- The unread counts of the two mailboxes, where an unread message has moved. -/
def countMoved (core : AppCore) (account : AccountId) (mailbox dest : String) (wasUnread : Bool) :
    AppCore :=
  if wasUnread then
    core.modifyView account fun v =>
      { v with
        unreadCounts :=
          (v.unreadCounts.update mailbox fun count => count - 1).update dest fun count => count + 1 }
  else core

/-- `ImapEvent::Moved`. -/
def onMoved (core : AppCore) (account : AccountId) (mailbox : String) (uid : Nat) (dest : String) :
    AppCore :=
  let core := core.advanceBulkAction .move uid
  let wasUnread := (core.headerOnScreen account mailbox uid).any fun h => !h.isSeen
  let core := { core with
    headers :=
      if core.onScreen account mailbox then core.headers.filter fun h => h.header.uid ≠ uid
      else core.headers }
  (((core.dropResult account mailbox uid).deselect account uid dest).countMoved account mailbox dest
    wasUnread).sendDb (.removeMessage ⟨account, mailbox, uid⟩)

/-! ## 2. The events -/

/-- `AppCore::handle_imap_event`. -/
def handleImapEvent (out : Outside) (core : AppCore) (account : AccountId) (evt : ImapEvent) : AppCore :=
  if (core.view account).isNone then core
  else
    match evt with
    | .connected => core.onConnected account
    | .disconnected => core.onDisconnected account
    | .error error => core.onError account error
    | .mailboxes mailboxes => onMailboxes out core account mailboxes
    | .headers mailbox headers page totalPages reqId state =>
      core.onHeaders account mailbox headers page totalPages reqId state
    | .body uid html attachments reqId => core.onBody account uid html attachments reqId
    | .bodyFailed uid reqId error => onBodyFailed out core account uid reqId error
    | .exported path => { core.clearProgress .export with status := "Exported message to " ++ path }
    | .exportFailed error =>
      (core.clearProgress .export).pushAccountBanner account ("Could not export message: " ++ error)
    | .progress kind update => core.onProgress account kind update
    | .mailData mailbox header body attachments =>
      core.sendDb (.indexMail account mailbox header body attachments)
    | .mailboxPolled _ _ => core
    | .newHeaders _ _ => core.onNewHeaders account
    | .appended _ => core.clearProgress .append
    | .appendFailed mailbox error =>
      (core.clearProgress .append).pushAccountBanner account
        ("Sent, but could not save a copy to " ++ mailbox ++ ": " ++ error)
    | .headersFrom mailbox headers => core.sendDb (.indexHeaders account mailbox headers)
    | .pollFailed _ => core
    | .flagsUpdated mailbox uid flags _ => core.onFlagsUpdated account mailbox uid flags
    | .flagsUpdateFailed _ uid error _ =>
      (core.advanceBulkAction .flags uid).pushAccountBanner account
        ("Could not update flags on message " ++ toString uid ++ ": " ++ error)
    | .moved mailbox uid dest _ => core.onMoved account mailbox uid dest
    | .moveFailed _ uid error _ =>
      (core.advanceBulkAction .move uid).pushAccountBanner account
        ("Could not move message " ++ toString uid ++ ": " ++ error)
    | .unreadCounts counts => core.onUnreadCounts account counts

/-- `AppCore::pump`: the events that wait, in order, and what the frontend has to do then. -/
def pump (out : Outside) (core : AppCore) (events : List (AccountId × ImapEvent)) : AppCore × Changes :=
  (events.foldl (fun core e => core.handleImapEvent out e.1 e.2) core).takeChanges

/-! ## 3. What an event leaves alone -/

/-- The place on screen, the sessions and the accounts to be saved are the same, and every header in
the list comes from where a header of the list came from before. -/
structure Narrows (core core' : AppCore) : Prop where
  headers : ∀ h ∈ core'.headers, ∃ h₀ ∈ core.headers, h₀.source = h.source
  active : core'.active = core.active
  selectedMailbox : core'.selectedMailbox = core.selectedMailbox
  sessions : core'.sessions = core.sessions
  persist : core'.changes.persistAccounts = core.changes.persistAccounts

theorem Quiet.narrows {core core' : AppCore} (h : Quiet core core') : Narrows core core' :=
  ⟨fun x hx => ⟨x, h.headers ▸ hx, rfl⟩, h.active, h.selectedMailbox, h.sessions, h.persist⟩

theorem Narrows.trans {a b c : AppCore} (h : Narrows a b) (h' : Narrows b c) : Narrows a c := by
  refine ⟨fun x hx => ?_, h'.active.trans h.active, h'.selectedMailbox.trans h.selectedMailbox,
    h'.sessions.trans h.sessions, h'.persist.trans h.persist⟩
  obtain ⟨y, hy, hyx⟩ := h'.headers x hx
  obtain ⟨z, hz, hzy⟩ := h.headers y hy
  exact ⟨z, hz, hzy.trans hyx⟩

theorem mem_modifyFirst {α : Type} {p : α → Bool} {f : α → α} {l : List α} {x : α}
    (h : x ∈ modifyFirst p f l) : ∃ y ∈ l, x = y ∨ x = f y := by
  induction l with
  | nil => cases h
  | cons y ys ih =>
    simp only [modifyFirst] at h
    split at h
    · rcases List.mem_cons.1 h with h | h
      · exact ⟨y, List.mem_cons_self, .inr h⟩
      · exact ⟨x, List.mem_cons_of_mem _ h, .inl rfl⟩
    · rcases List.mem_cons.1 h with h | h
      · exact ⟨y, List.mem_cons_self, .inl h⟩
      · obtain ⟨z, hz, hx⟩ := ih h
        exact ⟨z, List.mem_cons_of_mem _ hz, hx⟩

theorem narrows_flagLists (core : AppCore) (account : AccountId) (mailbox : String) (uid : Nat)
    (flags : List String) : Narrows core (core.flagLists account mailbox uid flags) := by
  refine ⟨fun h hh => ?_, rfl, rfl, rfl, rfl⟩
  simp only [flagLists] at hh
  split at hh
  · obtain ⟨h₀, hh₀, rfl | rfl⟩ := mem_modifyFirst hh
    · exact ⟨h, hh₀, rfl⟩
    · exact ⟨h₀, hh₀, rfl⟩
  · exact ⟨h, hh, rfl⟩

theorem quiet_countSeen (core : AppCore) (account : AccountId) (mailbox : String)
    (wasSeen : Option Bool) (nowSeen : Bool) :
    Quiet core (core.countSeen account mailbox wasSeen nowSeen) := by
  unfold countSeen
  split
  · exact quiet_modifyView core account fun _ => rfl
  · exact Quiet.refl core

theorem narrows_onFlagsUpdated (core : AppCore) (account : AccountId) (mailbox : String) (uid : Nat)
    (flags : List String) : Narrows core (core.onFlagsUpdated account mailbox uid flags) := by
  refine (quiet_advanceBulkAction core .flags uid).narrows.trans ?_
  refine (narrows_flagLists _ account mailbox uid flags).trans ?_
  exact ((quiet_countSeen _ account mailbox _ _).trans (quiet_sendDb _ _)).narrows

theorem quiet_dropResult (core : AppCore) (account : AccountId) (mailbox : String) (uid : Nat) :
    Quiet core (core.dropResult account mailbox uid) := by
  unfold dropResult
  split <;> exact ⟨rfl, rfl, rfl, rfl, rfl⟩

theorem quiet_deselect (core : AppCore) (account : AccountId) (uid : Nat) (dest : String) :
    Quiet core (core.deselect account uid dest) := by
  unfold deselect
  simp only []
  split
  · split <;> exact ⟨rfl, rfl, rfl, rfl, rfl⟩
  · exact Quiet.refl core

theorem quiet_countMoved (core : AppCore) (account : AccountId) (mailbox dest : String)
    (wasUnread : Bool) : Quiet core (core.countMoved account mailbox dest wasUnread) := by
  unfold countMoved
  split
  · exact quiet_modifyView core account fun _ => rfl
  · exact Quiet.refl core

theorem narrows_onMoved (core : AppCore) (account : AccountId) (mailbox : String) (uid : Nat)
    (dest : String) : Narrows core (core.onMoved account mailbox uid dest) := by
  unfold onMoved
  extract_lets core₁ wasUnread core₂
  have h₂ : Narrows core₁ core₂ := by
    refine ⟨fun h hh => ?_, rfl, rfl, rfl, rfl⟩
    simp only [core₂] at hh
    split at hh
    · exact ⟨h, List.mem_of_mem_filter hh, rfl⟩
    · exact ⟨h, hh, rfl⟩
  refine (quiet_advanceBulkAction core .move uid).narrows.trans (h₂.trans (Quiet.narrows ?_))
  refine (quiet_dropResult core₂ account mailbox uid).trans ?_
  refine (quiet_deselect _ account uid dest).trans ?_
  exact (quiet_countMoved _ account mailbox dest wasUnread).trans (quiet_sendDb _ _)

theorem quiet_onProgress (core : AppCore) (account : AccountId) (kind : ProgressKind)
    (update : Progress) : Quiet core (core.onProgress account kind update) := by
  unfold onProgress
  extract_lets finished indexingDone
  split
  · split
    · have hquiet := quiet_clearProgress core .index
      exact ⟨hquiet.headers, hquiet.active, hquiet.selectedMailbox, hquiet.sessions, hquiet.persist⟩
    · exact ⟨rfl, rfl, rfl, rfl, rfl⟩
  · exact Quiet.refl core

theorem quiet_onError (core : AppCore) (account : AccountId) (error : String) :
    Quiet core (core.onError account error) := by
  unfold onError
  refine ((quiet_clearProgress core .index).trans (quiet_modifyView _ account fun v => ?_)).trans
    (quiet_pushAccountBanner _ account _)
  split <;> rfl

theorem quiet_onDisconnected (core : AppCore) (account : AccountId) :
    Quiet core (core.onDisconnected account) := by
  have hquiet : Quiet core (core.modifyView account fun v => { v with state := .disconnected }) :=
    quiet_modifyView core account fun _ => rfl
  exact ⟨hquiet.headers, hquiet.active, hquiet.selectedMailbox, hquiet.sessions, hquiet.persist⟩

theorem quiet_onMailboxes (out : Outside) (core : AppCore) (account : AccountId)
    (mailboxes : List MailboxInfo) : Quiet core (onMailboxes out core account mailboxes) := by
  refine Quiet.trans ?_ (quiet_sendImapTo _ account _)
  exact quiet_modifyView core account fun _ => rfl

theorem quiet_onBody (core : AppCore) (account : AccountId) (uid : Nat) (html : String)
    (attachments : List Attachment) (reqId : Nat) :
    Quiet core (core.onBody account uid html attachments reqId) := by
  unfold onBody
  split
  · exact ⟨rfl, rfl, rfl, rfl, rfl⟩
  · exact Quiet.refl core

theorem quiet_onBodyFailed (out : Outside) (core : AppCore) (account : AccountId) (uid reqId : Nat)
    (error : String) : Quiet core (onBodyFailed out core account uid reqId error) := by
  refine Quiet.trans ?_ (quiet_pushAccountBanner _ account _)
  split
  · exact ⟨rfl, rfl, rfl, rfl, rfl⟩
  · exact Quiet.refl core

theorem quiet_onNewHeaders (core : AppCore) (account : AccountId) :
    Quiet core (core.onNewHeaders account) := by
  unfold onNewHeaders
  simp only []
  split
  · exact Quiet.refl core
  · exact quiet_sendImapTo core account _

theorem quiet_onUnreadCounts (core : AppCore) (account : AccountId) (counts : Table String Nat) :
    Quiet core (core.onUnreadCounts account counts) :=
  quiet_modifyView core account fun _ => rfl

theorem quiet_onExported (core : AppCore) (path : String) :
    Quiet core { core.clearProgress .export with status := "Exported message to " ++ path } := by
  have hquiet := quiet_clearProgress core .export
  exact ⟨hquiet.headers, hquiet.active, hquiet.selectedMailbox, hquiet.sessions, hquiet.persist⟩

/-- What an event may do to the list and its place: thin the list out, put another list of the place
there, or bring a first account on screen, with no list yet. -/
structure Handled (core core' : AppCore) (account : AccountId) (evt : ImapEvent) : Prop where
  sessions : core'.sessions = core.sessions
  persist : core'.changes.persistAccounts = core.changes.persistAccounts ∨
    (evt = .connected ∧ ((core.view account).any fun v => v.pendingPersist.isSome) = true ∧
      core'.changes.persistAccounts = core.changes.persistAccounts ++ [account])
  screen : core.active = none ∧ core'.headers = [] ∨
    core'.active = core.active ∧ core'.selectedMailbox = core.selectedMailbox ∧
      ∀ h ∈ core'.headers, (∃ h₀ ∈ core.headers, h₀.source = h.source) ∨
        core.active = some h.source.1 ∧ core.selectedMailbox = h.source.2

theorem Narrows.handled {core core' : AppCore} (h : Narrows core core') (account : AccountId)
    (evt : ImapEvent) : Handled core core' account evt :=
  ⟨h.sessions, .inl h.persist,
    .inr ⟨h.active, h.selectedMailbox, fun x hx => .inl (h.headers x hx)⟩⟩

theorem Quiet.handled {core core' : AppCore} (h : Quiet core core') (account : AccountId)
    (evt : ImapEvent) : Handled core core' account evt := h.narrows.handled account evt

/-- An account that connects is to be saved where it was added through the form. -/
theorem markConnected_spec (core : AppCore) (account : AccountId) :
    (core.markConnected account).headers = core.headers ∧
      (core.markConnected account).active = core.active ∧
      (core.markConnected account).selectedMailbox = core.selectedMailbox ∧
      (core.markConnected account).sessions = core.sessions ∧
      (core.markConnected account).changes.persistAccounts =
        core.changes.persistAccounts ++
          (if ((core.view account).any fun v => v.pendingPersist.isSome) = true then [account]
          else []) := by
  unfold markConnected
  extract_lets fromForm core₁
  have h₁ : Quiet core core₁ := quiet_modifyView core account fun _ => rfl
  have h₂ := quiet_sendImapTo
    { core₁ with
      changes :=
        if fromForm = true then
          { core₁.changes with persistAccounts := core₁.changes.persistAccounts ++ [account] }
        else core₁.changes
      status := "Connected: " ++ core₁.accountLabel account } account .fetchMailboxes
  refine ⟨h₂.headers.trans h₁.headers, h₂.active.trans h₁.active,
    h₂.selectedMailbox.trans h₁.selectedMailbox, h₂.sessions.trans h₁.sessions, ?_⟩
  rw [h₂.persist, ← h₁.persist]
  simp only [fromForm]
  split
  · rfl
  · rw [List.append_nil]

theorem handled_onConnected (core : AppCore) (account : AccountId) :
    Handled core (core.onConnected account) account .connected := by
  obtain ⟨hheaders, hactive, hmailbox, hsessions, hpersist⟩ := core.markConnected_spec account
  unfold onConnected
  generalize core.markConnected account = core₁ at *
  -- What is to be saved is settled before the screen is looked at.
  have hsave : ∀ core' : AppCore, core'.changes.persistAccounts = core₁.changes.persistAccounts →
      core'.changes.persistAccounts = core.changes.persistAccounts ∨
        (ImapEvent.connected = .connected ∧
          ((core.view account).any fun v => v.pendingPersist.isSome) = true ∧
          core'.changes.persistAccounts = core.changes.persistAccounts ++ [account]) := by
    intro core' h
    rw [h, hpersist]
    split
    · next hform => exact .inr ⟨rfl, hform, rfl⟩
    · exact .inl (List.append_nil _)
  simp only []
  split
  · next hnone =>
    have hnone : core₁.active = none := Option.isNone_iff_eq_none.1 hnone
    obtain ⟨-, -, hlist, hs, hp⟩ := core₁.activate_spec account "INBOX"
    rw [hnone, if_neg (by simp)] at hlist
    exact ⟨hs.trans hsessions, hsave _ hp, .inl ⟨hactive.symm.trans hnone, hlist⟩⟩
  · split
    · have hquiet := quiet_fetchHeaders core₁ core₁.selectedMailbox 1
      exact ⟨hquiet.sessions.trans hsessions, hsave _ hquiet.persist,
        .inr ⟨hquiet.active.trans hactive, hquiet.selectedMailbox.trans hmailbox,
          fun h hh => .inl ⟨h, hheaders ▸ hquiet.headers ▸ hh, rfl⟩⟩⟩
    · exact ⟨hsessions, hsave _ rfl,
        .inr ⟨hactive, hmailbox, fun h hh => .inl ⟨h, hheaders ▸ hh, rfl⟩⟩⟩

/-- A reply puts its headers on screen only where it is the one that was asked for last, for the
account and the mailbox that are on screen. -/
theorem handled_onHeaders (core : AppCore) (account : AccountId) (mailbox : String)
    (headers : List MailHeader) (page totalPages reqId : Nat) (state : MailboxState) :
    Handled core (core.onHeaders account mailbox headers page totalPages reqId state) account
      (.headers mailbox headers page totalPages reqId state) := by
  unfold onHeaders
  split
  · next hwanted =>
    have hquiet := quiet_sendDb { core with
      headers := headers.map fun h => ⟨h, account, mailbox⟩
      currentPage := page
      totalPages := totalPages
      status := "Page " ++ toString page ++ " of " ++ toString totalPages }
      (.reportMailboxState account mailbox state.uidValidity state.uidNext)
    refine ⟨hquiet.sessions, .inl hquiet.persist,
      .inr ⟨hquiet.active, hquiet.selectedMailbox, fun h hh => .inr ?_⟩⟩
    rw [hquiet.headers] at hh
    obtain ⟨_, _, rfl⟩ := List.mem_map.1 hh
    exact ⟨hwanted.1, hwanted.2.2.symm⟩
  · exact (quiet_sendDb core _).handled account _

/-- What an event of an account that has a session leaves alone. -/
theorem handled_handleImapEvent (out : Outside) (core : AppCore) (account : AccountId)
    (evt : ImapEvent) : Handled core (core.handleImapEvent out account evt) account evt := by
  unfold handleImapEvent
  split
  · exact (Quiet.refl core).handled account evt
  · cases evt with
    | connected => exact handled_onConnected core account
    | disconnected => exact (quiet_onDisconnected core account).handled account _
    | error error => exact (quiet_onError core account error).handled account _
    | mailboxes mailboxes => exact (quiet_onMailboxes out core account mailboxes).handled account _
    | headers mailbox headers page totalPages reqId state =>
      exact handled_onHeaders core account mailbox headers page totalPages reqId state
    | body uid html attachments reqId =>
      exact (quiet_onBody core account uid html attachments reqId).handled account _
    | bodyFailed uid reqId error =>
      exact (quiet_onBodyFailed out core account uid reqId error).handled account _
    | progress kind update => exact (quiet_onProgress core account kind update).handled account _
    | exported path => exact (quiet_onExported core path).handled account _
    | exportFailed error =>
      exact ((quiet_clearProgress core .export).trans
        (quiet_pushAccountBanner _ account _)).handled account _
    | mailData mailbox header body attachments => exact (quiet_sendDb core _).handled account _
    | mailboxPolled mailbox state => exact (Quiet.refl core).handled account _
    | newHeaders mailbox headers => exact (quiet_onNewHeaders core account).handled account _
    | headersFrom mailbox headers => exact (quiet_sendDb core _).handled account _
    | appended mailbox => exact (quiet_clearProgress core .append).handled account _
    | appendFailed mailbox error =>
      exact ((quiet_clearProgress core .append).trans
        (quiet_pushAccountBanner _ account _)).handled account _
    | pollFailed error => exact (Quiet.refl core).handled account _
    | flagsUpdated mailbox uid flags reqId =>
      exact (narrows_onFlagsUpdated core account mailbox uid flags).handled account _
    | flagsUpdateFailed mailbox uid error reqId =>
      exact ((quiet_advanceBulkAction core .flags uid).trans
        (quiet_pushAccountBanner _ account _)).handled account _
    | moved mailbox uid dest reqId =>
      exact (narrows_onMoved core account mailbox uid dest).handled account _
    | moveFailed mailbox uid error reqId =>
      exact ((quiet_advanceBulkAction core .move uid).trans
        (quiet_pushAccountBanner _ account _)).handled account _
    | unreadCounts counts => exact (quiet_onUnreadCounts core account counts).handled account _

/-! ## 4. All events of one call -/

/-- What every event preserves, all the events of a call preserve. -/
theorem foldl_handled {out : Outside} {P : AppCore → Prop} (events : List (AccountId × ImapEvent))
    {core : AppCore}
    (hstep : ∀ core core' e, e ∈ events → P core → Handled core core' e.1 e.2 → P core')
    (h : P core) : P (events.foldl (fun core e => core.handleImapEvent out e.1 e.2) core) := by
  induction events generalizing core with
  | nil => exact h
  | cons e events ih =>
    refine ih (fun c c' e he => hstep c c' e (List.mem_cons_of_mem _ he)) ?_
    exact hstep core _ e List.mem_cons_self h (handled_handleImapEvent out core e.1 e.2)

end AppCore

end Esmail.App
