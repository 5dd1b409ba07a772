/-
# The three message tables stay in step

No foreign key ties `bodies` and `messages_fts` to `messages`, and nothing in the schema keeps a
message from standing in the index twice.  `Referential` is what the commands are to keep up
instead: every body and every row of the index has its message, and no message two rows.

* `tables_in_step`: they do, in every run none of whose statements fails, and a search then finds a message
  at most once, and only messages that are there;
* `cutOff_referential_iff`: what holds of a command that is cut off at its n-th statement.

The commands that ADD keep it up even then: `messages` is written first, and `index_headers_searchable` is
a transaction.  The commands that REMOVE start with `messages` too, which is the wrong end: cut off there,
they leave bodies and index rows behind with no message (`LeavesStray`), and never otherwise.

Each statement has its lemma (section 1), and a command is the statements it runs; the commands that are cut
off run a first part of them (`Library/Statements.lean`).

That is about the invariant.  A command that is cut off need not leave the tables as they were, or as it
would have left them in the end: `index_mail` may list a message without its body.
-/
import Esmail.Cache.Commands
import Esmail.Library.Machine

namespace Esmail.Cache

open Statements Statements.Sql Transition

/-- Every body and every row of the index has its message, and no message two rows. -/
structure Referential (db : Cache) : Prop where
  bodies : ∀ key ∈ db.bodies.keys, key ∈ db.messages.keys
  fts : ∀ r ∈ db.messagesFts, r.key ∈ db.messages.keys
  once : (db.messagesFts.map FtsRow.key).Nodup

/-! ## 1. What each statement does to it -/

namespace Referential

variable {db : Cache}

theorem initSchema : Referential initSchema := ⟨by simp [Cache.initSchema], by simp [Cache.initSchema],
  List.nodup_nil⟩

theorem of_sameMail {db' : Cache} (h : Referential db) (hsame : SameMail db db') :
    Referential db' := by
  obtain ⟨hmessages, hbodies, hfts, -⟩ := hsame
  constructor
  · rw [hmessages, hbodies]
    exact h.bodies
  · rw [hmessages, hfts]
    exact h.fts
  · rw [hfts]
    exact h.once

theorem upsertMessage (h : Referential db) (key : Key) (header : MailHeader) :
    Referential (db.upsertMessage key header) :=
  ⟨fun k hk => Table.mem_keys_upsert.mpr (Or.inr (h.bodies k hk)),
    fun r hr => Table.mem_keys_upsert.mpr (Or.inr (h.fts r hr)), h.once⟩

theorem upsertBody (h : Referential db) {key : Key} (hkey : key ∈ db.messages.keys) (row : BodyRow) :
    Referential (db.upsertBody key row) := by
  refine ⟨fun k hk => ?_, h.fts, h.once⟩
  rcases Table.mem_keys_upsert.mp hk with rfl | hk
  · exact hkey
  · exact h.bodies k hk

theorem deleteBodies (h : Referential db) (p : Key → Bool) : Referential (db.deleteBodies p) :=
  ⟨fun k hk => h.bodies k (Table.mem_keys_deleteWhere.mp hk).2, h.fts, h.once⟩

theorem evict (h : Referential db) (maxRows : Nat) : Referential (db.evict maxRows) :=
  h.deleteBodies _

theorem deleteFts (h : Referential db) (p : Key → Bool) : Referential (db.deleteFts p) :=
  ⟨h.bodies, fun r hr => h.fts r (List.mem_of_mem_filter hr),
    h.once.sublist (List.filter_sublist.map _)⟩

theorem insertFts (h : Referential db) {row : FtsRow} (hkey : row.key ∈ db.messages.keys)
    (hnew : row.key ∉ db.messagesFts.map FtsRow.key) : Referential (db.insertFts row) := by
  refine ⟨h.bodies, fun r hr => ?_, ?_⟩
  · rcases List.mem_append.mp hr with hr | hr
    · exact h.fts r hr
    · rw [List.mem_singleton.mp hr]
      exact hkey
  · simp only [Cache.insertFts, List.map_append, List.map_singleton]
    refine List.nodup_append.mpr ⟨h.once, List.nodup_singleton _, fun a ha b hb he => hnew ?_⟩
    rw [← List.mem_singleton.mp hb, ← he]
    exact ha

theorem setMailbox (h : Referential db) (accountId : AccountId) (mailbox : String)
    (row : MailboxRow) : Referential (db.setMailbox accountId mailbox row) :=
  ⟨h.bodies, h.fts, h.once⟩

theorem deleteMailboxes (h : Referential db) (accountId : AccountId) :
    Referential (db.deleteMailboxes accountId) := ⟨h.bodies, h.fts, h.once⟩

theorem setFlags (h : Referential db) (key : Key) (flags : List String) :
    Referential (db.setFlags key flags) := by
  refine ⟨fun k hk => ?_, fun r hr => ?_, h.once⟩
  · simpa only [Cache.setFlags, Table.keys_update] using h.bodies k hk
  · simpa only [Cache.setFlags, Table.keys_update] using h.fts r hr

/-- All three DELETEs, over the same rows. -/
theorem purged (h : Referential db) (p : Key → Bool) : Referential (db.purged p) := by
  refine ⟨fun k hk => ?_, fun r hr => ?_, h.once.sublist (List.filter_sublist.map _)⟩
  · obtain ⟨hp, hk⟩ := Table.mem_keys_deleteWhere.mp hk
    exact Table.mem_keys_deleteWhere.mpr ⟨hp, h.bodies k hk⟩
  · obtain ⟨hr, hp⟩ := List.mem_filter.mp hr
    exact Table.mem_keys_deleteWhere.mpr ⟨by simpa using hp, h.fts r hr⟩

theorem listed (h : Referential db) (accountId : AccountId) (mailbox : String)
    (header : MailHeader) : Referential (db.listed accountId mailbox header) :=
  h.upsertMessage _ _

/-- A message that is not known has no row in the index, so it gets its first. -/
theorem listedSearchable (h : Referential db) (accountId : AccountId) (mailbox : String)
    (header : MailHeader) : Referential (db.listedSearchable accountId mailbox header) := by
  unfold Cache.listedSearchable
  split
  · exact h.listed accountId mailbox header
  · next hknown =>
    refine (h.listed accountId mailbox header).insertFts (Table.mem_keys_upsert.mpr (Or.inl rfl)) ?_
    intro hmem
    obtain ⟨r, hr, hkey⟩ := List.mem_map.mp hmem
    obtain ⟨row, hrow⟩ := Table.mem_keys.mp (h.fts r hr)
    rw [hkey] at hrow
    exact hknown (by simp [ftsRow] at hrow; simp [hrow])

theorem indexed (h : Referential db) (codec : Codec) (now : Int) (key : Key) (header : MailHeader)
    (body : String) (attachments : List Attachment) :
    Referential (db.indexed codec now key header body attachments) := by
  have hkey : key ∈ (db.upsertMessage key header).messages.keys := Table.mem_keys_upsert.mpr (Or.inl rfl)
  refine (((h.upsertMessage key header).upsertBody hkey _).deleteFts _).insertFts hkey ?_
  intro hmem
  obtain ⟨r, hr, hrkey⟩ := List.mem_map.mp hmem
  have hdeleted := (List.mem_filter.mp hr).2
  simp only [ftsRow] at hrkey
  simp [hrkey] at hdeleted

theorem foldl {f : Cache → MailHeader → Cache} (hf : ∀ s header, Referential s → Referential (f s header))
    (headers : List MailHeader) (h : Referential db) : Referential (headers.foldl f db) := by
  induction headers generalizing db with
  | nil => exact h
  | cons header rest ih => exact ih (hf db header h)

end Referential

/-! ## 2. Commands none of whose statements fails -/

variable {codec : Codec} {engine : SearchEngine} {now : Int}

theorem Referential.after {db : Cache} (h : Referential db) (c : Command) :
    Referential (after codec engine now c db) := by
  cases c with
  | indexMail accountId mailbox header body attachments =>
    rw [after_indexMail]
    exact (h.indexed codec now _ header body attachments).evict _
  | indexHeaders accountId mailbox headers =>
    rw [after_indexHeaders]
    exact Referential.foldl (fun s header hs => hs.listed accountId mailbox header) headers h
  | indexHeadersSearchable accountId mailbox headers =>
    rw [after_indexHeadersSearchable]
    exact Referential.foldl (fun s header hs => hs.listedSearchable accountId mailbox header) headers h
  | search accountId q mailbox => exact h
  | fetchMail key =>
    rw [after_fetchMail]
    exact h
  | reportMailboxState accountId mailbox uidValidity uidNext =>
    rw [after_reportMailboxState]
    split
    · exact (h.purged _).setMailbox accountId mailbox _
    · exact h.setMailbox accountId mailbox _
  | updateFlags key flags => exact h.setFlags key flags
  | removeMessage key => exact h.purged _
  | removeAccount accountId => exact (h.purged _).deleteMailboxes accountId
  | queue c => exact h.of_sameMail (sameMail_after_queue c db)

/-- The cache from an empty database on: each action is a command, and the time it is run at. -/
def machine (codec : Codec) (engine : SearchEngine) : Machine Cache (Int × Command) :=
  ⟨fun db => db = Cache.initSchema, fun db a => some (after codec engine a.1 a.2 db)⟩

theorem referential_of_reach {db : Cache} (h : (machine codec engine).Reach Machine.any db) :
    Referential db := by
  refine h.invariant ?_ ?_
  · rintro db rfl
    exact Referential.initSchema
  · rintro db ⟨now, c⟩ db' - hdb - hst
    obtain rfl := Option.some.inj hst
    exact hdb.after c

/-- In every state of the cache its tables are in step, and a search finds each message at most
once, and only messages of the account it was asked for. -/
theorem tables_in_step {db : Cache} (h : (machine codec engine).Reach Machine.any db) :
    (∀ key ∈ db.bodies.keys, key ∈ db.messages.keys) ∧
      (∀ r ∈ db.messagesFts, r.key ∈ db.messages.keys) ∧
      (db.messagesFts.map FtsRow.key).Nodup ∧
      ∀ (accountId : Option AccountId) (q : ParsedQuery) (mailbox : Option String),
        ((db.search engine accountId q mailbox).map SearchHit.key).Nodup ∧
          ∀ hit ∈ db.search engine accountId q mailbox, hit.key ∈ db.messages.keys ∧
            ∀ a, accountId = some a → hit.accountId = a := by
  have hdb := referential_of_reach h
  refine ⟨hdb.bodies, hdb.fts, hdb.once, fun accountId q mailbox =>
    ⟨nodup_search hdb.once, fun hit hhit => ?_⟩⟩
  obtain ⟨hmem, hscope⟩ := mem_search hhit
  refine ⟨hmem, ?_⟩
  rintro a rfl
  simp only [inScope, Option.all_some, Bool.and_eq_true, decide_eq_true_eq] at hscope
  exact hscope.1

/-- An encoding that stores nothing, and an index that finds every row. -/
def plainCodec : Codec := ⟨fun _ => "[]", fun _ => some [], fun _ => "", fun _ => some []⟩

def findsAll : SearchEngine := ⟨fun _ _ => true, fun _ _ _ => 0, fun _ => none, fun _ => none⟩

def invoice : MailHeader := ⟨7, "invoice", "a@x", "b@x", "", "<7@x>", ["\\Seen"]⟩

/-- Such a run: a message is listed, listed again, and then cached with its body. -/
theorem tables_in_step_of_indexing : ∃ db : Cache,
    (db.messagesFts.map FtsRow.key) = [⟨"me", "INBOX", 7⟩] ∧
      ((db.search findsAll (some "me") { text := ["invoice"] } none).map SearchHit.key).Nodup := by
  obtain ⟨db, hr, hp⟩ := Machine.exists_reach_of_trace (machine plainCodec findsAll) Machine.any
    [(0, .indexHeadersSearchable "me" "INBOX" [invoice]),
      (1, .indexHeadersSearchable "me" "INBOX" [invoice]),
      (2, .indexMail "me" "INBOX" invoice "please pay" [])]
    (fun db => decide (db.messagesFts.map FtsRow.key = [⟨"me", "INBOX", 7⟩])) rfl (by decide)
  exact ⟨db, of_decide_eq_true hp, ((tables_in_step hr).2.2.2 _ _ _).1⟩

/-! ## 3. Commands that are cut off -/

theorem keeps_indexMail (accountId : AccountId) (mailbox : String) (header : MailHeader)
    (body : String) (attachments : List Attachment) :
    Keeps Referential (indexMail codec now accountId mailbox header body attachments) := by
  let key : Key := ⟨accountId, mailbox, header.uid⟩
  have hmessage : Spec Referential (execute (Cache.upsertMessage key header))
      (fun _ db => Referential db ∧ key ∈ db.messages.keys) Referential :=
    Spec.execute (fun _ h => ⟨h.upsertMessage key header, Table.mem_keys_upsert.mpr (Or.inl rfl)⟩)
      fun _ h => h
  have hbody : ∀ row, Spec (fun db => Referential db ∧ key ∈ db.messages.keys)
      (execute (Cache.upsertBody key row))
      (fun _ db => Referential db ∧ key ∈ db.messages.keys) Referential :=
    fun row => Spec.execute (fun _ h => ⟨h.1.upsertBody h.2 row, h.2⟩) fun _ h => h.1
  have hdelete : Spec (fun db => Referential db ∧ key ∈ db.messages.keys)
      (execute (Cache.deleteFts fun k => k = key))
      (fun _ db => Referential db ∧ key ∈ db.messages.keys ∧ key ∉ db.messagesFts.map FtsRow.key)
      Referential := by
    refine Spec.execute (fun db h => ⟨h.1.deleteFts _, h.2, fun hmem => ?_⟩) fun _ h => h.1
    obtain ⟨r, hr, hkey⟩ := List.mem_map.mp hmem
    have := (List.mem_filter.mp hr).2
    simp [hkey] at this
  have hinsert : Spec
      (fun db : Cache => Referential db ∧ key ∈ db.messages.keys ∧ key ∉ db.messagesFts.map FtsRow.key)
      (execute (Cache.insertFts (ftsRow key header body))) (fun _ => Referential) Referential :=
    Spec.execute (fun _ h => h.1.insertFts h.2.1 h.2.2) fun _ h => h.1
  exact hmessage.bind fun _ => (hbody _).bind fun _ => hdelete.bind fun _ =>
    hinsert.bind fun _ => Keeps.execute fun _ h => h.evict _

theorem keeps_indexHeaders (accountId : AccountId) (mailbox : String) (headers : List MailHeader) :
    Keeps Referential (indexHeaders accountId mailbox headers) :=
  Keeps.forEach (fun header => Keeps.execute fun _ h => h.upsertMessage _ header) headers

theorem keeps_indexHeadersSearchable (accountId : AccountId) (mailbox : String)
    (headers : List MailHeader) :
    Keeps Referential (indexHeadersSearchable accountId mailbox headers) := by
  refine Keeps.transaction (Keeps.forEach (fun header => ?_) headers)
  let key : Key := ⟨accountId, mailbox, header.uid⟩
  have hquery : Spec Referential (query fun db : Cache => (db.messages.lookup key).isSome)
      (fun known db => Referential db ∧ (known = false → key ∉ db.messagesFts.map FtsRow.key))
      Referential := by
    refine Spec.issue (fun db h => ⟨h, fun hunknown hmem => ?_⟩) fun _ h => h
    obtain ⟨r, hr, hkey⟩ := List.mem_map.mp hmem
    obtain ⟨row, hrow⟩ := Table.mem_keys.mp (h.fts r hr)
    have hnone : (db.messages.lookup key).isSome = false := hunknown
    rw [← hkey, hrow] at hnone
    exact absurd hnone (by simp)
  have hmessage : ∀ known : Bool, Spec
      (fun db : Cache => Referential db ∧ (known = false → key ∉ db.messagesFts.map FtsRow.key))
      (indexHeaders accountId mailbox [header])
      (fun _ db => Referential db ∧ key ∈ db.messages.keys ∧
        (known = false → key ∉ db.messagesFts.map FtsRow.key)) Referential := by
    intro known
    refine Spec.bind (Spec.execute (fun db h => ?_) fun _ h => h.1) fun _ => Spec.pure fun _ h => h
    exact ⟨h.1.upsertMessage key header, Table.mem_keys_upsert.mpr (Or.inl rfl), h.2⟩
  refine hquery.bind fun known => (hmessage known).bind fun _ => ?_
  cases known with
  | true => exact Spec.pure fun _ h => h.1
  | false => exact Spec.execute (fun _ h => h.1.insertFts h.2.1 (h.2.2 rfl)) fun _ h => h.1

/-- What a removal of the rows of `p` leaves behind when its `n`-th DELETE fails. -/
def Strands (db : Cache) (p : Key → Bool) : Nat → Prop
  | 1 => (∃ key ∈ db.bodies.keys, p key = true) ∨ ∃ r ∈ db.messagesFts, p r.key = true
  | 2 => ∃ r ∈ db.messagesFts, p r.key = true
  | _ => False

theorem referential_deleteMessages_iff {db : Cache} (h : Referential db) (p : Key → Bool) :
    Referential (db.deleteMessages p) ↔ ¬ Strands db p 1 := by
  constructor
  · rintro hcut (⟨key, hkey, hp⟩ | ⟨r, hr, hp⟩)
    · have := (Table.mem_keys_deleteWhere.mp (hcut.bodies key hkey)).1
      rw [hp] at this
      exact absurd this (by simp)
    · have := (Table.mem_keys_deleteWhere.mp (hcut.fts r hr)).1
      rw [hp] at this
      exact absurd this (by simp)
  · intro hnone
    simp only [Strands, not_or, not_exists, not_and, Bool.not_eq_true] at hnone
    exact ⟨fun key hkey => Table.mem_keys_deleteWhere.mpr ⟨hnone.1 key hkey, h.bodies key hkey⟩,
      fun r hr => Table.mem_keys_deleteWhere.mpr ⟨hnone.2 r hr, h.fts r hr⟩, h.once⟩

theorem referential_deleteBodies_iff {db : Cache} (h : Referential db) (p : Key → Bool) :
    Referential ((db.deleteMessages p).deleteBodies p) ↔ ¬ Strands db p 2 := by
  constructor
  · rintro hcut ⟨r, hr, hp⟩
    have := (Table.mem_keys_deleteWhere.mp (hcut.fts r hr)).1
    rw [hp] at this
    exact absurd this (by simp)
  · intro hnone
    simp only [Strands, not_exists, not_and, Bool.not_eq_true] at hnone
    refine ⟨fun key hkey => ?_,
      fun r hr => Table.mem_keys_deleteWhere.mpr ⟨hnone r hr, h.fts r hr⟩, h.once⟩
    obtain ⟨hp, hkey⟩ := Table.mem_keys_deleteWhere.mp hkey
    exact Table.mem_keys_deleteWhere.mpr ⟨hp, h.bodies key hkey⟩

/-- Whether a command leaves rows without their message behind when its `n`-th statement fails.
The first statement of a state report is a query. -/
def LeavesStray (db : Cache) : Command → Nat → Prop
  | .removeMessage key, n => Strands db (fun k => k = key) n
  | .removeAccount accountId, n => Strands db (Key.isOf accountId) n
  | .reportMailboxState accountId mailbox uidValidity uidNext, n + 1 =>
    syncDecision (db.mailboxes.lookup (accountId, mailbox)) uidValidity uidNext = .resync ∧
      Strands db (Key.isIn accountId mailbox) n
  | _, _ => False

theorem cutOff_removeMessage_iff {db : Cache} (h : Referential db) (key : Key) (n : Nat) :
    Referential (cutOff codec engine now (.removeMessage key) n db) ↔
      ¬ Strands db (fun k => k = key) n := by
  match n with
  | 0 => exact iff_of_true h id
  | 1 => exact referential_deleteMessages_iff h _
  | 2 => exact referential_deleteBodies_iff h _
  | _ + 3 => exact iff_of_true (h.purged _) id

theorem cutOff_removeAccount_iff {db : Cache} (h : Referential db) (accountId : AccountId) (n : Nat) :
    Referential (cutOff codec engine now (.removeAccount accountId) n db) ↔
      ¬ Strands db (Key.isOf accountId) n := by
  match n with
  | 0 => exact iff_of_true h id
  | 1 => exact referential_deleteMessages_iff h _
  | 2 => exact referential_deleteBodies_iff h _
  | 3 => exact iff_of_true (h.purged _) id
  | _ + 4 => exact iff_of_true ((h.purged _).deleteMailboxes accountId) id

/-- The first statement of a state report is the query: when that fails nothing is removed. -/
theorem cutOff_reportMailboxState_iff {db : Cache} (h : Referential db) (accountId : AccountId)
    (mailbox : String) (uidValidity uidNext n : Nat) :
    Referential (cutOff codec engine now
        (.reportMailboxState accountId mailbox uidValidity uidNext) n db) ↔
      ¬ LeavesStray db (.reportMailboxState accountId mailbox uidValidity uidNext) n := by
  cases n with
  | zero =>
    have hplan : syncDecision none uidValidity uidNext ≠ .resync := by
      simp only [syncDecision]
      split <;> simp
    refine iff_of_true ?_ id
    simp only [cutOff, Command.program, reportMailboxState, bind_apply, attempt_apply, query_fails,
      Option.join_none, hplan, if_false]
    exact h.setMailbox accountId mailbox _
  | succ n =>
    by_cases hplan : syncDecision (db.mailboxes.lookup (accountId, mailbox)) uidValidity uidNext = .resync
    · simp only [cutOff, Command.program, reportMailboxState, bind_apply, attempt_apply, query_succ,
        Option.join_some, hplan, if_true, LeavesStray, true_and]
      rcases n with _ | _ | _ | _ | n
      · exact iff_of_true h id
      · exact referential_deleteMessages_iff h _
      · exact referential_deleteBodies_iff h _
      · exact iff_of_true (h.purged _) id
      · exact iff_of_true ((h.purged _).setMailbox accountId mailbox _) id
    · simp only [cutOff, Command.program, reportMailboxState, bind_apply, attempt_apply, query_succ,
        Option.join_some, hplan, if_false, LeavesStray, false_and, not_false_eq_true, iff_true]
      cases n with
      | zero => exact h
      | succ n => exact h.setMailbox accountId mailbox _

/-- A command one of whose statements fails leaves the tables in step, unless it is a removal that
is cut off after its first DELETE with rows left to remove.

That is for every command, and for whichever statement it is that fails; a command that is not cut off is
the case of an `n` beyond its last. -/
theorem cutOff_referential_iff {db : Cache} (h : Referential db) (c : Command) (n : Nat) :
    Referential (cutOff codec engine now c n db) ↔ ¬ LeavesStray db c n := by
  cases c with
  | removeMessage key => exact cutOff_removeMessage_iff h key n
  | removeAccount accountId => exact cutOff_removeAccount_iff h accountId n
  | reportMailboxState accountId mailbox uidValidity uidNext =>
    exact cutOff_reportMailboxState_iff h accountId mailbox uidValidity uidNext n
  | indexMail accountId mailbox header body attachments =>
    refine iff_of_true ?_ id
    exact ((keeps_indexMail accountId mailbox header body attachments).bind fun _ =>
      Keeps.pure _).store ⟨db, some n⟩ h
  | indexHeaders accountId mailbox headers =>
    refine iff_of_true ?_ id
    exact ((keeps_indexHeaders accountId mailbox headers).bind fun _ => Keeps.pure _).store
      ⟨db, some n⟩ h
  | indexHeadersSearchable accountId mailbox headers =>
    refine iff_of_true ?_ id
    exact ((keeps_indexHeadersSearchable accountId mailbox headers).bind fun _ =>
      Keeps.pure _).store ⟨db, some n⟩ h
  | search accountId q mailbox =>
    refine iff_of_true ?_ id
    exact ((Keeps.query _).bind fun _ => Keeps.pure _).store ⟨db, some n⟩ h
  | fetchMail key =>
    refine iff_of_true ?_ id
    exact ((Keeps.query _).bind fun _ => (Keeps.demand _).bind fun _ => Keeps.pure _).store
      ⟨db, some n⟩ h
  | updateFlags key flags =>
    refine iff_of_true ?_ id
    exact ((Keeps.execute fun _ h => h.setFlags key flags).bind fun _ => Keeps.pure _).store
      ⟨db, some n⟩ h
  | queue c =>
    refine iff_of_true (h.of_sameMail ?_) id
    exact ((keeps_onQueue db c).bind fun _ => Keeps.pure _).store ⟨db, some n⟩ ⟨rfl, rfl, rfl, rfl⟩

/-- A mailbox with a message that is cached with its body, and one that only its header is known of. -/
def memo : MailHeader := ⟨8, "memo", "a@x", "b@x", "", "<8@x>", []⟩

theorem exists_invoice_cached : ∃ db, (machine plainCodec findsAll).Reach Machine.any db ∧
    db.messages.keys = [⟨"me", "INBOX", 7⟩, ⟨"me", "INBOX", 8⟩] ∧
      db.bodies.keys = [⟨"me", "INBOX", 7⟩] ∧
      db.messagesFts.map FtsRow.key = [⟨"me", "INBOX", 7⟩] := by
  obtain ⟨db, hr, hp⟩ := Machine.exists_reach_of_trace (machine plainCodec findsAll) Machine.any
    [(0, .indexMail "me" "INBOX" invoice "please pay" []), (1, .indexHeaders "me" "INBOX" [memo])]
    (fun db => decide (db.messages.keys = [⟨"me", "INBOX", 7⟩, ⟨"me", "INBOX", 8⟩] ∧
      db.bodies.keys = [⟨"me", "INBOX", 7⟩] ∧
      db.messagesFts.map FtsRow.key = [⟨"me", "INBOX", 7⟩])) rfl (by decide)
  exact ⟨db, hr, of_decide_eq_true hp⟩

/-- The removal of the second of them may be cut off after its first DELETE: it has no body and no row in
the index.  What is cached of the first stays whole. -/
theorem cutOff_referential_of_header : ∃ db, (machine plainCodec findsAll).Reach Machine.any db ∧
    db.bodies.keys = [⟨"me", "INBOX", 7⟩] ∧ (⟨"me", "INBOX", 8⟩ : Key) ∈ db.messages.keys ∧
      ¬ LeavesStray db (.removeMessage ⟨"me", "INBOX", 8⟩) 1 ∧
      Referential (cutOff plainCodec findsAll 0 (.removeMessage ⟨"me", "INBOX", 8⟩) 1 db) := by
  obtain ⟨db, hr, hmessages, hbodies, hfts⟩ := exists_invoice_cached
  have hkept : ¬ LeavesStray db (.removeMessage ⟨"me", "INBOX", 8⟩) 1 := by
    rintro (⟨key, hkey, hp⟩ | ⟨r, hrow, hp⟩)
    · rw [hbodies, List.mem_singleton] at hkey
      subst hkey
      exact absurd hp (by decide)
    · have hkey := hfts ▸ List.mem_map_of_mem hrow
      rw [List.mem_singleton.mp hkey] at hp
      exact absurd hp (by decide)
  exact ⟨db, hr, hbodies, by simp [hmessages], hkept,
    (cutOff_referential_iff (referential_of_reach hr) _ 1).mpr hkept⟩

/-- The first message is removed, and the second DELETE fails: the message is gone, and its body and its
row in the index are still there. -/
theorem failed_removal_strands : ¬ ∀ db, (machine plainCodec findsAll).Reach Machine.any db →
    ∀ c n, Referential db → Referential (cutOff plainCodec findsAll 0 c n db) := by
  intro hall
  obtain ⟨db, hr, -, hbodies, -⟩ := exists_invoice_cached
  have hdb := referential_of_reach hr
  refine (cutOff_removeMessage_iff hdb ⟨"me", "INBOX", 7⟩ 1).mp (hall db hr _ 1 hdb) ?_
  exact Or.inl ⟨⟨"me", "INBOX", 7⟩, by simp [hbodies], by simp⟩

end Esmail.Cache
