/-
# The main window: folders, search results and the reading pane

`App` of `app/mod.rs`, as far as the list and the reading pane go: opening folders, paging, refreshing,
searching, selecting, and what the sessions and the cache report.  The list widget keeps a copy of the
rows (`MessageList`); the reading pane keeps what it last showed.

Three things are kept that the program does not have: which request for a body a session has accepted
and not answered (`awaiting`), whose body or failure the reading pane shows (`reader`), and whether the
last selection was of one message (`single`).  Nothing it decides reads them.  The commands for unread
counts, flags and moves, and a session's own, only fill its queue; they come in by `order`, between any
two steps.
-/
import Esmail.App.Pump
import Esmail.Browsing.BodyLoads
import Esmail.Mailbox.Representation

namespace Esmail.Browsing

open Transition
open App (ImapEvent commandQueue)

/-! ## 1. The sessions -/

/-- `FolderRef`. -/
structure FolderRef where
  account : Nat
  mailbox : String
  deriving DecidableEq, Repr

/-- `BodyKey`: account, mailbox, UID. -/
abbrev BodyKey := Nat × String × Nat

/-- `ImapCommand`. -/
inductive ImapCommand
  | connect
  | fetchMailboxes
  | fetchHeaders (mailbox : String) (page reqId : Nat)
  | fetchBody (mailbox : String) (uid reqId : Nat)
  | fetchUnreadCounts (mailboxes : List String)
  | storeFlags (mailbox : String) (uid : Nat) (add remove : List String) (reqId : Nat)
  | moveMessage (mailbox : String) (uid : Nat) (dest : String) (reqId : Nat)
  | bulkDownload (mailbox : String)
  | exportMessage (mailbox : String) (uid : Nat)
  | pollMailbox (mailbox : String)
  | fetchNewHeaders (mailbox : String) (firstUid : Nat)
  deriving DecidableEq, Repr

/-- Whether it asks for a body. -/
def ImapCommand.asksForBody : ImapCommand → Bool
  | .fetchBody _ _ _ => true
  | _ => false

/-- `Core`: the accounts, and the queue of each that has a session. -/
structure Core where
  accounts : List AccountId
  sessions : List (Option (List ImapCommand))
  deriving DecidableEq, Repr

namespace Core

/-- `Core::start`; `credentials` says which accounts have some. -/
def start (accounts : List AccountId) (credentials : AccountId → Bool) : Core where
  accounts := accounts
  sessions := accounts.map fun id => if credentials id then some [.connect] else none

/-- Whether the account has a session whose queue has room. -/
def accepts (core : Core) (account : Nat) : Bool :=
  (core.sessions[account]?).join.any fun queue => queue.length < commandQueue

/-- `Core::send`. -/
def send (core : Core) (account : Nat) (command : ImapCommand) : Core × Bool :=
  match (core.sessions[account]?).join with
  | none => (core, false)
  | some queue =>
    if queue.length < commandQueue then
      ({ core with sessions := core.sessions.set account (some (queue ++ [command])) }, true)
    else (core, false)

/-- The account that `Core::pump` attributes an event of this session to. -/
def accountOf (core : Core) (session : Nat) : Option Nat :=
  (core.accounts[session]?).bind fun id => core.accounts.idxOf? id

/-- Whether the command still waits in the session's queue. -/
def queued (core : Core) (session : Nat) (command : ImapCommand) : Bool :=
  (core.sessions[session]?).join.any fun queue => queue.contains command

end Core

/-! ## 2. The list and the search -/

/-- `MessageList`: its rows, and how many the view has. -/
structure MessageList where
  rows : List RowModel := []
  len : Nat := 0
  deriving DecidableEq, Repr

namespace MessageList

/-- `MessageList::set_rows`. -/
def setRows (_ : MessageList) (rows : List RowModel) : MessageList := ⟨rows, rows.length⟩

/-- `MessageList::extend_rows`. -/
def extendRows (_ : MessageList) (rows : List RowModel) : MessageList := ⟨rows, rows.length⟩

/-- `MessageList::update_rows`. -/
def updateRows (l : MessageList) (rows : List RowModel) : MessageList := { l with rows := rows }

/-- `MessageList::insert_rows`. -/
def insertRows (l : MessageList) (rows : List RowModel) (count : Nat) : MessageList :=
  ⟨rows, l.len + count⟩

/-- `MessageList::remove_rows`. -/
def removeRows (l : MessageList) (rows : List RowModel) (count : Nat) : MessageList :=
  ⟨rows, l.len - count⟩

/-- One edit of a refresh. -/
def applyEdit (rows : List RowModel) (l : MessageList) : Edit → MessageList
  | .removed _ => l.removeRows rows 1
  | .inserted _ => l.insertRows rows 1

/-- `App::show_applied`. -/
def showApplied (l : MessageList) (applied : Applied) (rows : List RowModel) (page : Nat) :
    MessageList :=
  match applied with
  | .page _ => if page = 1 then l.setRows rows else l.extendRows rows
  | .refreshed edits =>
    if edits.isEmpty then l.updateRows rows else edits.foldl (applyEdit rows) l

end MessageList

/-- `SearchHit`. -/
structure SearchHit where
  accountId : AccountId
  mailbox : String
  header : MailHeader
  deriving DecidableEq, Repr

/-- `SearchResults`. -/
structure SearchResults where
  hits : List (FolderRef × MailHeader)
  rows : List RowModel
  deriving DecidableEq, Repr

namespace SearchResults

variable (zone : LocalDateTime)

/-- The hit in its folder, unless its account was removed. -/
def locate (accountIds : List AccountId) (hit : SearchHit) : Option (FolderRef × MailHeader) :=
  (accountIds.idxOf? hit.accountId).map fun account => (⟨account, hit.mailbox⟩, hit.header)

/-- `SearchResults::new`. -/
def new (hits : List SearchHit) (accountIds : List AccountId) : SearchResults :=
  let hits := hits.filterMap (locate accountIds)
  ⟨hits, hits.map fun hit => RowModel.fromHeader zone hit.2⟩

/-- `SearchResults::position`. -/
def position (r : SearchResults) (account : Nat) (mailbox : String) (uid : Nat) : Option Nat :=
  r.hits.findIdx? fun hit => hit.1 = ⟨account, mailbox⟩ && hit.2.uid = uid

/-- `SearchResults::remove`. -/
def remove (r : SearchResults) (account : Nat) (mailbox : String) (uid : Nat) :
    SearchResults × Option Nat :=
  match r.position account mailbox uid with
  | none => (r, none)
  | some row => (⟨r.hits.eraseIdx row, r.rows.eraseIdx row⟩, some row)

/-- `SearchResults::set_flags`. -/
def setFlags (r : SearchResults) (account : Nat) (mailbox : String) (uid : Nat)
    (flags : List String) : SearchResults × Bool :=
  match r.position account mailbox uid with
  | none => (r, false)
  | some row =>
    match r.hits[row]? with
    | none => (r, false)
    | some (folder, header) =>
      let header := { header with flags := flags }
      (⟨r.hits.set row (folder, header), r.rows.set row (RowModel.fromHeader zone header)⟩, true)

end SearchResults

/-- `SearchState`. -/
structure SearchState where
  text : String := ""
  results : Option SearchResults := none
  deriving DecidableEq, Repr

/-- `SearchState::active`. -/
def SearchState.active (s : SearchState) : Bool := s.results.isSome

/-- Whether nothing but blanks is in the box. -/
def blank (text : String) : Bool := (RustText.trim text.toList).isEmpty

/-! ## 3. The window -/

/-- `App`, with the requests for bodies that were accepted and not answered, whose body or failure
the reading pane shows, and whether the last selection was of one message. -/
structure Window where
  core : Core
  config : List AccountId
  opened : Option (FolderRef × OpenFolder) := none
  search : SearchState := {}
  list : MessageList := {}
  bodies : BodyLoads BodyKey := {}
  selected : Option MailHeader := none
  selectedIn : Option FolderRef := none
  messageShown : Bool := false
  awaiting : List (BodyKey × Nat) := []
  reader : Option BodyKey := none
  single : Bool := false
  deriving DecidableEq

namespace Window

variable (zone : LocalDateTime)

/-- A notice that must not cover a message: `banner`, `account_failed`. -/
def notice (w : Window) : Window := if w.selected.isNone then { w with reader := none } else w

/-- `App::account_unavailable`. -/
def accountUnavailable (w : Window) : Window := w.notice

/-- The open folder, if it is this one. -/
def openedAt (w : Window) (account : Nat) (mailbox : String) : Option (FolderRef × OpenFolder) :=
  w.opened.filter fun o => o.1 = ⟨account, mailbox⟩

/-- `App::message_at`. -/
def messageAt (w : Window) (row : Nat) : Option (FolderRef × MailHeader) :=
  match w.search.results with
  | some results => results.hits[row]?
  | none => w.opened.bind fun o => (o.2.headers[row]?).map fun header => (o.1, header)

/-- `App::selected_is`. -/
def selectedIs (w : Window) (account : Nat) (mailbox : String) (uid : Nat) : Bool :=
  w.selected.any (fun header => header.uid = uid) && w.selectedIn.any (fun f => f = ⟨account, mailbox⟩)

/-- `App::fetch_body`, for a request that there may be. -/
def fetchBody (w : Window) : Option (BodyKey × Nat) → Window
  | none => w
  | some ((account, mailbox, uid), reqId) =>
    let (core, sent) := w.core.send account (.fetchBody mailbox uid reqId)
    if sent then { w with core := core, awaiting := w.awaiting ++ [((account, mailbox, uid), reqId)] }
    else w.accountUnavailable

/-- `App::select`. -/
def select (w : Window) : List Nat → Window
  | [row] =>
    match w.messageAt row with
    | none => w
    | some (folder, header) =>
      let (bodies, request) := w.bodies.want (folder.account, folder.mailbox, header.uid)
      { w with
        selectedIn := some folder
        selected := some header
        messageShown := false
        bodies := bodies
        single := true }.fetchBody request
  | _ => { w with bodies := w.bodies.cancel, single := false }

/-- `App::body_arrived`. -/
def bodyArrived (w : Window) (account uid reqId : Nat) : Window :=
  match w.selectedIn with
  | none => w
  | some folder =>
    let (bodies, finished) := w.bodies.finished (account, folder.mailbox, uid) reqId
    let w := { w with bodies := bodies }
    let w :=
      if finished.show && w.selected.isSome then
        { w with messageShown := true, reader := some (account, folder.mailbox, uid) }
      else w
    w.fetchBody finished.next

/-- `App::request_page`. -/
def requestPage (w : Window) : Window :=
  match w.opened with
  | none => w
  | some (folder, opened) =>
    match opened.nextRequest with
    | (_, none) => w
    | (opened, some request) =>
      let (core, sent) :=
        w.core.send folder.account (.fetchHeaders folder.mailbox request.page request.id)
      if sent then { w with core := core, opened := some (folder, opened) }
      else { w with opened := some (folder, opened.pageFailed) }.accountUnavailable

/-- `App::open_folder`. -/
def openFolder (w : Window) (folder : FolderRef) : Window :=
  { w with
    bodies := w.bodies.cancel
    selected := none
    search := {}
    list := w.list.setRows []
    reader := none
    opened := some (folder, {}) }.requestPage

/-- `App::request_refresh`. -/
def requestRefresh (w : Window) : Window × Bool :=
  match w.opened with
  | none => (w, false)
  | some (folder, opened) =>
    match opened.refreshRequestOf with
    | (_, none) => (w, false)
    | (opened, some id) =>
      let (core, sent) := w.core.send folder.account (.fetchHeaders folder.mailbox 1 id)
      let w := { w with core := core, opened := some (folder, opened) }
      (if sent then w else w.accountUnavailable, true)

/-- `App::refresh`. -/
def refresh (w : Window) : Window :=
  match w.opened with
  | none => w
  | some (folder, _) =>
    let (w, merging) := w.requestRefresh
    if merging then w else w.openFolder folder

/-- `App::seed_from_cache`. -/
def seedFromCache (w : Window) (account : Nat) (mailbox : String) (headers : List MailHeader) :
    Window :=
  match w.openedAt account mailbox with
  | none => w
  | some (folder, opened) =>
    match opened.seed zone headers with
    | (_, false) => w
    | (opened, true) =>
      { w with
        opened := some (folder, opened)
        list := if w.search.active then w.list else w.list.setRows opened.rows }

/-- Whether the selected message was of the folder and is no longer in it. -/
def gone (w : Window) (folder : FolderRef) (opened : OpenFolder) : Bool :=
  w.selected.any fun header =>
    w.selectedIn = some folder && (OpenFolder.rowOf opened.headers header.uid).isNone

/-- `App::apply_headers`. -/
def applyHeaders (w : Window) (account : Nat) (mailbox : String) (reqId page totalPages : Nat)
    (headers : List MailHeader) : Window :=
  match w.openedAt account mailbox with
  | none => w
  | some (folder, opened) =>
    match opened.applyReply zone reqId page totalPages headers with
    | (_, none) => w
    | (opened, some applied) =>
      let w :=
        { w with
          opened := some (folder, opened)
          list :=
            if w.search.active then w.list else w.list.showApplied applied opened.rows page }
      let w :=
        if w.gone folder opened then
          { w with selected := none, bodies := w.bodies.cancel, reader := none }
        else w
      if applied = .page 0 && !opened.isComplete then w.requestPage else w

/-- `App::reset_reading_pane`. -/
def resetReadingPane (w : Window) : Window :=
  { w with selected := none, messageShown := false, bodies := w.bodies.cancel, reader := none }

/-- `App::search_arrived`. -/
def searchArrived (w : Window) (hits : List SearchHit) : Window :=
  if blank w.search.text then w
  else
    let results := SearchResults.new zone hits w.core.accounts
    { w with
      list := w.list.setRows results.rows
      search := { w.search with results := some results } }.resetReadingPane

/-- `App::show_folder_again`. -/
def showFolderAgain (w : Window) : Window :=
  match w.search.results with
  | none => w
  | some _ =>
    { w with
      search := { w.search with results := none }
      list :=
        match w.opened with
        | none => w.list
        | some (_, opened) => w.list.setRows opened.rows }.resetReadingPane

/-- `App::search_changed`. -/
def searchChanged (w : Window) (text : String) : Window :=
  if text = w.search.text then w
  else
    let w := { w with search := { w.search with text := text } }
    if blank text then w.showFolderAgain else w

/-- `App::clear_search`. -/
def clearSearch (w : Window) : Window :=
  if w.search.text = "" && !w.search.active then w
  else { w with search := { w.search with text := "" } }.showFolderAgain

/-- The part of `set_flags_everywhere` about the open folder. -/
def flagOpened (w : Window) (account : Nat) (mailbox : String) (uid : Nat) (flags : List String) :
    Window :=
  match w.openedAt account mailbox with
  | none => w
  | some (folder, opened) =>
    match opened.setFlags zone uid flags with
    | (_, none) => w
    | (opened, some _) =>
      { w with
        opened := some (folder, opened)
        list := if w.search.active then w.list else w.list.updateRows opened.rows }

/-- The part of `set_flags_everywhere` about the search results. -/
def flagResults (w : Window) (account : Nat) (mailbox : String) (uid : Nat) (flags : List String) :
    Window :=
  match w.search.results with
  | none => w
  | some results =>
    match results.setFlags zone account mailbox uid flags with
    | (_, false) => w
    | (results, true) =>
      { w with
        search := { w.search with results := some results }
        list := w.list.updateRows results.rows }

/-- `App::set_flags_everywhere`. -/
def setFlagsEverywhere (w : Window) (account : Nat) (mailbox : String) (uid : Nat)
    (flags : List String) : Window :=
  let w := (w.flagOpened zone account mailbox uid flags).flagResults zone account mailbox uid flags
  if w.selectedIs account mailbox uid then
    { w with selected := w.selected.map fun header => { header with flags := flags } }
  else w

/-- The end of `moved`: a row leaves the list, of which `len` are left. -/
def dropRow (w : Window) (rows : List RowModel) (len : Nat) (wasSelected : Bool) : Window :=
  let w := { w with list := w.list.removeRows rows 1 }
  if wasSelected then
    { w with
      selected := none
      bodies := w.bodies.cancel
      reader := if len = 0 then none else w.reader }
  else w

/-- `App::moved`. -/
def moved (w : Window) (account : Nat) (mailbox : String) (uid : Nat) : Window :=
  let wasSelected := w.selectedIs account mailbox uid
  let folderRow := (w.openedAt account mailbox).map fun o => (o.1, o.2.remove uid)
  let resultRow := w.search.results.map fun r => r.remove account mailbox uid
  let w :=
    { w with
      opened := (folderRow.map fun p => (p.1, p.2.1)).or w.opened
      search := { w.search with results := resultRow.map Prod.fst } }
  match resultRow, folderRow with
  | some (results, some _), _ => w.dropRow results.rows results.hits.length wasSelected
  | none, some (_, opened, some _) => w.dropRow opened.rows opened.headers.length wasSelected
  | _, _ => w

/-- `App::clear_view`. -/
def clearView (w : Window) : Window :=
  { w with
    bodies := w.bodies.cancel
    selected := none
    selectedIn := none
    search := {}
    list := w.list.setRows []
    reader := none
    opened := none
    messageShown := false }

/-- `App::reload_accounts`; `started` is the core, unless it could not be started. -/
def reloadAccounts (w : Window) (config : List AccountId) (started : Option Core) : Window :=
  let w := { w with config := config }
  match started with
  | none => w.notice
  | some core => { w with core := core, awaiting := [] }.clearView

/-- `App::open_from_cache`, without a folder that was asked for at the start. -/
def openFromCache (w : Window) (wanted : Nat) : Window :=
  if w.core.accounts.isEmpty then w
  else w.openFolder ⟨min wanted (w.core.accounts.length - 1), "INBOX"⟩

/-- What `account_outcome` does about an account that was saved. -/
def accountSaved (w : Window) (config : List AccountId) (id : AccountId) (started : Option Core) :
    Window :=
  let w := w.reloadAccounts config started
  match w.config.idxOf? id with
  | none => w
  | some wanted => w.openFromCache wanted

/-- What an error does to the open folder. -/
def pageFailed (w : Window) : Window :=
  { w with opened := w.opened.map fun o => (o.1, o.2.pageFailed) }

/-- `App::handle`. -/
def handle (w : Window) (account : Nat) : ImapEvent → Window
  | .connected =>
    let w := { w with core := (w.core.send account .fetchMailboxes).1 }
    if w.opened.any (fun o => o.1.account = account) then w.requestRefresh.1 else w
  | .error _ => w.pageFailed.notice
  | .newHeaders mailbox _ =>
    if w.opened.any (fun o => o.1 = ⟨account, mailbox⟩) then w.requestRefresh.1 else w
  | .headers mailbox headers page totalPages reqId _ =>
    w.applyHeaders zone account mailbox reqId page totalPages headers
  | .body uid _ _ reqId => w.bodyArrived account uid reqId
  | .bodyFailed uid reqId _ => w.bodyArrived account uid reqId
  | .flagsUpdated mailbox uid flags _ => w.setFlagsEverywhere zone account mailbox uid flags
  | .flagsUpdateFailed .. => w.notice
  | .moved mailbox uid _ _ => w.moved account mailbox uid
  | .moveFailed .. => w.notice
  | .exportFailed _ => w.notice
  | _ => w

end Window

/-! ## 4. The machine -/

/-- What the user does, what the sessions and the cache report, and what is done to a session's
queue. -/
inductive Action
  | openFolder (folder : FolderRef)
  | select (rows : List Nat)
  | nearEnd
  | refresh
  | searchChanged (text : String)
  | clearSearch
  | searchArrived (hits : List SearchHit)
  | seedFromCache (account : Nat) (mailbox : String) (headers : List MailHeader)
  | hear (session : Nat) (event : ImapEvent)
  | answer (request : BodyKey × Nat) (outcome : Except String (String × List Attachment))
  | notice
  | order (account : Nat) (command : ImapCommand)
  | take (session : Nat)
  | accountSaved (config : List AccountId) (id : AccountId) (started : Option Core)
  | accountRemoved (config : List AccountId) (started : Option Core)

/-- Whether the event answers a request for a body. -/
def answersFetch : ImapEvent → Bool
  | .body .. | .bodyFailed .. => true
  | _ => false

/-- The event that reports the outcome of a fetch. -/
def reportOf (uid reqId : Nat) : Except String (String × List Attachment) → ImapEvent
  | .ok (html, attachments) => .body uid html attachments reqId
  | .error error => .bodyFailed uid reqId error

namespace Window

variable (zone : LocalDateTime)

/-- The window when it has been built. -/
def built (accounts : List AccountId) (credentials : AccountId → Bool) : Window where
  core := Core.start accounts credentials
  config := accounts

/-- A session's queue, without the command it takes. -/
def take (w : Window) (session : Nat) : Option Window :=
  match (w.core.sessions[session]?).join with
  | some (_ :: queue) =>
    some { w with core := { w.core with sessions := w.core.sessions.set session (some queue) } }
  | _ => none

/-- Each accepted request for a body is answered once, after the session has taken it. -/
def step (w : Window) : Action → Option Window
  | .openFolder folder => some (w.openFolder folder)
  | .select rows => some (w.select rows)
  | .nearEnd => some (if w.search.active then w else w.requestPage)
  | .refresh => some w.refresh
  | .searchChanged text => some (w.searchChanged text)
  | .clearSearch => some w.clearSearch
  | .searchArrived hits => some (w.searchArrived zone hits)
  | .seedFromCache account mailbox headers => some (w.seedFromCache zone account mailbox headers)
  | .hear session event =>
    if answersFetch event then none
    else (w.core.accountOf session).map fun account => w.handle zone account event
  | .answer ((session, mailbox, uid), reqId) outcome =>
    if ((session, mailbox, uid), reqId) ∈ w.awaiting ∧
        w.core.queued session (.fetchBody mailbox uid reqId) = false then
      (w.core.accountOf session).map fun account =>
        { w with awaiting := w.awaiting.erase ((session, mailbox, uid), reqId) }.handle zone account
          (reportOf uid reqId outcome)
    else none
  | .notice => some w.notice
  | .order account command =>
    if command.asksForBody then none else some { w with core := (w.core.send account command).1 }
  | .take session => w.take session
  | .accountSaved config id started => some (w.accountSaved config id started)
  | .accountRemoved config started => some (w.reloadAccounts config started)

def machine : Machine Window Action :=
  ⟨fun w => ∃ accounts credentials, w = built accounts credentials, step zone⟩

end Window

end Esmail.Browsing
