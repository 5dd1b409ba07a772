/-
# The commands on the cache, statement by statement

`DbActor` answers one `DbCommand` at a time.  Each function of `db.rs` is here the program of SQL
statements it is there: it stops at the first that fails, and only `index_headers_searchable` puts
its statements into a transaction.  Section 3 says what each function makes of the tables when no
statement fails.
-/
import Esmail.Cache.Search

namespace Esmail

open Statements Statements.Sql

namespace Key

/-- `WHERE account_id = ?1 AND mailbox = ?2`. -/
def isIn (accountId : AccountId) (mailbox : String) (key : Key) : Bool :=
  key.accountId = accountId && key.mailbox = mailbox

/-- `WHERE account_id = ?1`. -/
def isOf (accountId : AccountId) (key : Key) : Bool := key.accountId = accountId

end Key

namespace Cache

/-! ## 1. Statements -/

/-- `MAX_CACHED_BODIES`. -/
def maxCachedBodies : Nat := 2000

def messageRow (h : MailHeader) : MessageRow :=
  ⟨h.subject, h.sender, h.recipient, h.date, h.messageId, flagsColumn h.flags⟩

def ftsRow (key : Key) (h : MailHeader) (body : String) : FtsRow :=
  ⟨key, h.subject, h.sender, h.recipient, body⟩

def upsertMessage (key : Key) (h : MailHeader) (db : Cache) : Cache :=
  { db with messages := db.messages.upsert key (messageRow h) }

def upsertBody (key : Key) (row : BodyRow) (db : Cache) : Cache :=
  { db with bodies := db.bodies.upsert key row }

def deleteMessages (p : Key → Bool) (db : Cache) : Cache :=
  { db with messages := db.messages.deleteWhere p }

def deleteBodies (p : Key → Bool) (db : Cache) : Cache :=
  { db with bodies := db.bodies.deleteWhere p }

def deleteFts (p : Key → Bool) (db : Cache) : Cache :=
  { db with messagesFts := db.messagesFts.filter fun r => !p r.key }

def insertFts (row : FtsRow) (db : Cache) : Cache :=
  { db with messagesFts := db.messagesFts ++ [row] }

/-- The keys of the bodies cached first, as many as there are beyond `maxRows`. -/
def leastRecent (maxRows : Nat) (bodies : Table Key BodyRow) : List Key :=
  ((bodies.rows.mergeSort fun a b => a.2.cachedAt ≤ b.2.cachedAt).take
    (bodies.rows.length - maxRows)).map Prod.fst

def evict (maxRows : Nat) (db : Cache) : Cache :=
  db.deleteBodies fun key => key ∈ leastRecent maxRows db.bodies

def setMailbox (accountId : AccountId) (mailbox : String) (row : MailboxRow) (db : Cache) : Cache :=
  { db with mailboxes := db.mailboxes.upsert (accountId, mailbox) row }

def deleteMailboxes (accountId : AccountId) (db : Cache) : Cache :=
  { db with mailboxes := db.mailboxes.deleteWhere fun key => key.1 = accountId }

def setFlags (key : Key) (flags : List String) (db : Cache) : Cache :=
  { db with messages := db.messages.update key fun row => { row with flags := flagsColumn flags } }

/-! ## 2. The functions -/

/-- `index_headers`. -/
def indexHeaders (accountId : AccountId) (mailbox : String) (headers : List MailHeader) :
    Sql Cache Unit :=
  forEach (fun h => execute (upsertMessage ⟨accountId, mailbox, h.uid⟩ h)) headers

/-- `evict_lru_bodies`. -/
def evictLruBodies (maxRows : Nat) : Sql Cache Unit := execute (evict maxRows)

/-- `index_mail`, at the time `now`. -/
def indexMail (codec : Codec) (now : Int) (accountId : AccountId) (mailbox : String)
    (h : MailHeader) (body : String) (attachments : List Attachment) : Sql Cache Unit := do
  let key : Key := ⟨accountId, mailbox, h.uid⟩
  execute (upsertMessage key h)
  execute (upsertBody key ⟨body, codec.attachmentsColumn attachments, now⟩)
  execute (deleteFts fun k => k = key)
  execute (insertFts (ftsRow key h body))
  evictLruBodies maxCachedBodies

/-- `index_headers_searchable`. -/
def indexHeadersSearchable (accountId : AccountId) (mailbox : String) (headers : List MailHeader) :
    Sql Cache Unit :=
  transaction (forEach (fun h => do
    let key : Key := ⟨accountId, mailbox, h.uid⟩
    let known ← query fun db => (db.messages.lookup key).isSome
    indexHeaders accountId mailbox [h]
    if known then pure () else execute (insertFts (ftsRow key h ""))) headers)

/-- `fetch_mail`: the row of `messages` JOIN `bodies`. -/
def fetchMail (codec : Codec) (db : Cache) (key : Key) :
    Option (MailHeader × String × List Attachment) :=
  match db.messages.lookup key, db.bodies.lookup key with
  | some m, some b => some (m.toHeader key.uid, b.body, codec.parseAttachmentsColumn b.attachments)
  | _, _ => none

/-- `SyncPlan`. -/
inductive SyncPlan
  | upToDate
  | fetchFrom (firstNewUid : Nat)
  | resync
  deriving DecidableEq, Repr

/-- `sync_decision`. -/
def syncDecision (previous : Option MailboxRow) (serverUidValidity serverUidNext : Nat) : SyncPlan :=
  match previous with
  | none => if serverUidNext ≤ 1 then .upToDate else .fetchFrom 1
  | some prev =>
    if prev.uidValidity ≠ serverUidValidity then .resync
    else if prev.uidNext < serverUidNext then .fetchFrom prev.uidNext
    else .upToDate

/-- The three DELETEs of a removal. -/
def purge (p : Key → Bool) : Sql Cache Unit := do
  execute (deleteMessages p)
  execute (deleteBodies p)
  execute (deleteFts p)

/-- `report_mailbox_state`.  A failure to read the row is taken for there being none. -/
def reportMailboxState (accountId : AccountId) (mailbox : String) (uidValidity uidNext : Nat) :
    Sql Cache SyncPlan := do
  let previous ← attempt (query fun db => db.mailboxes.lookup (accountId, mailbox))
  let plan := syncDecision previous.join uidValidity uidNext
  if plan = .resync then purge (Key.isIn accountId mailbox) else pure ()
  execute (setMailbox accountId mailbox ⟨uidValidity, uidNext⟩)
  pure plan

/-- `update_flags`. -/
def updateFlags (key : Key) (flags : List String) : Sql Cache Unit := execute (setFlags key flags)

/-- `remove_account`. -/
def removeAccount (accountId : AccountId) : Sql Cache Unit := do
  purge (Key.isOf accountId)
  execute (deleteMailboxes accountId)

/-- `remove_message`. -/
def removeMessage (key : Key) : Sql Cache Unit := purge fun k => k = key

/-- The functions on the outbox and the drafts: none reads or changes another table. -/
def onQueue (c : DbCommand) : Sql Cache (List CacheEvent) :=
  match c with
  | .listDrafts | .loadDraft _ | .dueOutbox | .listOutbox =>
    query fun db => (MainWindow.run db.queue c).1
  | .markOutboxFailed id _ => do
    let known ← query fun db => db.queue.outbox.any fun r => r.id = id
    if known then
      issue fun db => ((MainWindow.run db.queue c).1, { db with queue := (MainWindow.run db.queue c).2 })
    else demand none
  | .saveDraft .. | .deleteDraft _ | .enqueueOutbox .. | .markOutboxSent _ | .deleteOutbox _ =>
    issue fun db => ((MainWindow.run db.queue c).1, { db with queue := (MainWindow.run db.queue c).2 })
  | .other => pure []

/-! ## 3. The commands -/

/-- `DbCommand`: the commands about cached mail, and, as `queue`, those about outbox and drafts. -/
inductive Command
  | indexMail (accountId : AccountId) (mailbox : String) (header : MailHeader) (body : String)
      (attachments : List Attachment)
  | indexHeaders (accountId : AccountId) (mailbox : String) (headers : List MailHeader)
  | indexHeadersSearchable (accountId : AccountId) (mailbox : String) (headers : List MailHeader)
  | search (accountId : Option AccountId) (query : ParsedQuery) (mailbox : Option String)
  | fetchMail (key : Key)
  | reportMailboxState (accountId : AccountId) (mailbox : String) (uidValidity uidNext : Nat)
  | updateFlags (key : Key) (flags : List String)
  | removeMessage (key : Key)
  | removeAccount (accountId : AccountId)
  | queue (c : DbCommand)
  deriving DecidableEq

/-- `DbEvent`. -/
inductive Answer
  | searchResult (hits : List SearchHit)
  | mailFetched (header : MailHeader) (body : String) (attachments : List Attachment)
  | syncPlan (accountId : AccountId) (mailbox : String) (plan : SyncPlan)
  | queue (event : CacheEvent)
  deriving DecidableEq

/-- What the actor does for a command at the time `now`; the command fails where its result is
`none`. -/
def Command.program (codec : Codec) (engine : SearchEngine) (now : Int) :
    Command → Sql Cache (List Answer)
  | .indexMail accountId mailbox header body attachments => do
    Cache.indexMail codec now accountId mailbox header body attachments
    pure []
  | .indexHeaders accountId mailbox headers => do
    Cache.indexHeaders accountId mailbox headers
    pure []
  | .indexHeadersSearchable accountId mailbox headers => do
    Cache.indexHeadersSearchable accountId mailbox headers
    pure []
  | .search accountId q mailbox => do
    let hits ← query fun db => db.search engine accountId q mailbox
    pure [.searchResult hits]
  | .fetchMail key => do
    let found ← query fun db => db.fetchMail codec key
    let mail ← demand found
    pure [.mailFetched mail.1 mail.2.1 mail.2.2]
  | .reportMailboxState accountId mailbox uidValidity uidNext => do
    let plan ← Cache.reportMailboxState accountId mailbox uidValidity uidNext
    pure [.syncPlan accountId mailbox plan]
  | .updateFlags key flags => do
    Cache.updateFlags key flags
    pure []
  | .removeMessage key => do
    Cache.removeMessage key
    pure []
  | .removeAccount accountId => do
    Cache.removeAccount accountId
    pure []
  | .queue c => do
    let events ← onQueue c
    pure (events.map .queue)

/-- A command none of whose statements fails: the tables after it. -/
def after (codec : Codec) (engine : SearchEngine) (now : Int) (c : Command) (db : Cache) : Cache :=
  (c.program codec engine now ⟨db, none⟩).2.store

/-- A command whose `n`-th statement fails, the first being number 0: the tables it leaves. -/
def cutOff (codec : Codec) (engine : SearchEngine) (now : Int) (c : Command) (n : Nat) (db : Cache) :
    Cache :=
  (c.program codec engine now ⟨db, some n⟩).2.store

/-! ## 4. What each command makes of the tables -/

def purged (p : Key → Bool) (db : Cache) : Cache := ((db.deleteMessages p).deleteBodies p).deleteFts p

/-- `index_mail` but for the eviction. -/
def indexed (codec : Codec) (now : Int) (key : Key) (h : MailHeader) (body : String)
    (attachments : List Attachment) (db : Cache) : Cache :=
  (((db.upsertMessage key h).upsertBody key ⟨body, codec.attachmentsColumn attachments, now⟩).deleteFts
    fun k => k = key).insertFts (ftsRow key h body)

def listed (accountId : AccountId) (mailbox : String) (db : Cache) (h : MailHeader) : Cache :=
  db.upsertMessage ⟨accountId, mailbox, h.uid⟩ h

/-- One header of `index_headers_searchable`. -/
def listedSearchable (accountId : AccountId) (mailbox : String) (db : Cache) (h : MailHeader) :
    Cache :=
  if (db.messages.lookup ⟨accountId, mailbox, h.uid⟩).isSome then db.listed accountId mailbox h
  else (db.listed accountId mailbox h).insertFts (ftsRow ⟨accountId, mailbox, h.uid⟩ h "")

variable {codec : Codec} {engine : SearchEngine} {now : Int}

theorem indexHeaders_ok (accountId : AccountId) (mailbox : String) (headers : List MailHeader)
    (db : Cache) : indexHeaders accountId mailbox headers ⟨db, none⟩ =
      (some (), ⟨headers.foldl (listed accountId mailbox) db, none⟩) := by
  refine forEach_ok (f := listed accountId mailbox) ?_ headers db
  exact fun _ _ => rfl

theorem indexHeadersSearchable_ok (accountId : AccountId) (mailbox : String)
    (headers : List MailHeader) (db : Cache) :
    indexHeadersSearchable accountId mailbox headers ⟨db, none⟩ =
      (some (), ⟨headers.foldl (listedSearchable accountId mailbox) db, none⟩) := by
  refine transaction_ok (forEach_ok (fun h s => ?_) headers db)
  simp only [bind_apply, query_ok, indexHeaders_ok, List.foldl_cons, List.foldl_nil, listedSearchable]
  split <;> rfl

theorem after_indexMail (accountId : AccountId) (mailbox : String) (h : MailHeader) (body : String)
    (attachments : List Attachment) (db : Cache) :
    after codec engine now (.indexMail accountId mailbox h body attachments) db =
      (db.indexed codec now ⟨accountId, mailbox, h.uid⟩ h body attachments).evict maxCachedBodies :=
  rfl

theorem after_indexHeaders (accountId : AccountId) (mailbox : String) (headers : List MailHeader)
    (db : Cache) : after codec engine now (.indexHeaders accountId mailbox headers) db =
      headers.foldl (listed accountId mailbox) db := by
  simp only [after, Command.program, bind_apply, indexHeaders_ok, pure_apply]

theorem after_indexHeadersSearchable (accountId : AccountId) (mailbox : String)
    (headers : List MailHeader) (db : Cache) :
    after codec engine now (.indexHeadersSearchable accountId mailbox headers) db =
      headers.foldl (listedSearchable accountId mailbox) db := by
  simp only [after, Command.program, bind_apply, indexHeadersSearchable_ok, pure_apply]

theorem after_reportMailboxState (accountId : AccountId) (mailbox : String)
    (uidValidity uidNext : Nat) (db : Cache) :
    after codec engine now (.reportMailboxState accountId mailbox uidValidity uidNext) db =
      (if syncDecision (db.mailboxes.lookup (accountId, mailbox)) uidValidity uidNext = .resync then
        db.purged (Key.isIn accountId mailbox)
      else db).setMailbox accountId mailbox ⟨uidValidity, uidNext⟩ := by
  by_cases hplan : syncDecision (db.mailboxes.lookup (accountId, mailbox)) uidValidity uidNext = .resync
  · simp only [after, Command.program, reportMailboxState, bind_apply, attempt_apply, query_ok,
      Option.join_some, hplan, if_true]
    rfl
  · simp only [after, Command.program, reportMailboxState, bind_apply, attempt_apply, query_ok,
      Option.join_some, hplan, if_false]
    rfl

theorem after_fetchMail (key : Key) (db : Cache) :
    after codec engine now (.fetchMail key) db = db := by
  simp only [after, Command.program, bind_apply, query_ok, demand]
  cases db.fetchMail codec key <;> rfl

/-- The tables of the cached mail. -/
def SameMail (db db' : Cache) : Prop :=
  db'.messages = db.messages ∧ db'.bodies = db.bodies ∧ db'.messagesFts = db.messagesFts ∧
    db'.mailboxes = db.mailboxes

theorem keeps_onQueue (db : Cache) (c : DbCommand) : Keeps (SameMail db) (onQueue c) := by
  have hwrite : ∀ f : Db → List CacheEvent × Db, Keeps (SameMail db)
      (issue fun s : Cache => ((f s.queue).1, { s with queue := (f s.queue).2 })) :=
    fun f => Spec.issue (fun _ h => h) fun _ h => h
  cases c with
  | listDrafts => exact Keeps.query _
  | loadDraft _ => exact Keeps.query _
  | dueOutbox => exact Keeps.query _
  | listOutbox => exact Keeps.query _
  | markOutboxFailed id error =>
    refine (Keeps.query _).bind fun known => ?_
    cases known with
    | true => exact hwrite fun q => MainWindow.run q (.markOutboxFailed id error)
    | false => exact Keeps.demand _
  | saveDraft id composeId accountId compose =>
    exact hwrite fun q => MainWindow.run q (.saveDraft id composeId accountId compose)
  | deleteDraft id => exact hwrite fun q => MainWindow.run q (.deleteDraft id)
  | enqueueOutbox id composeId accountId compose =>
    exact hwrite fun q => MainWindow.run q (.enqueueOutbox id composeId accountId compose)
  | markOutboxSent id => exact hwrite fun q => MainWindow.run q (.markOutboxSent id)
  | deleteOutbox id => exact hwrite fun q => MainWindow.run q (.deleteOutbox id)
  | other => exact Keeps.pure _

theorem sameMail_after_queue (c : DbCommand) (db : Cache) :
    SameMail db (after codec engine now (.queue c) db) :=
  ((keeps_onQueue db c).bind fun _ => Keeps.pure _).store ⟨db, none⟩ ⟨rfl, rfl, rfl, rfl⟩

end Cache

end Esmail
