/-
# What the outbox retries

A send that fails for the first time is put into the outbox.  When the message is sent again from its
window and fails again, its row is only backed off, and goes on to say what the FIRST attempt said.

`Attempts` is the system with two more ledgers: for each message the account and the content of its
latest send that has failed, as long as none has succeeded since; and the account and the content of the
attempt that was put into the outbox, when that happened.  A row says for good what it said then: that is
the part of `Upheld` that holds of the rows alone.  So the outbox is up to date as long as a later attempt
tries what was recorded, and `upToDate` asks just that of each failure that is backed off: the text and the
account are those of the attempt that was recorded, whatever was typed in between.

What an attempt tries is its `content`, which is all of the message but the stamp.  A first failure must find
the outbox without a row of its message and the queue with room for one; what happens where it does not is
left to the accounts of what is lost and of what is sent twice.
-/
import Esmail.Outgoing.Filing
import Esmail.Outgoing.Labels

namespace Esmail

open Transition

/-- The account a send is from, and what it sends. -/
abbrev Attempt := AccountId × ComposeState

/-- All that the program has of a message. -/
structure ComposeContent where
  text : Text
  accountId : Option AccountId
  draftId : Option Row
  deriving DecidableEq, Repr

def ComposeState.content (state : ComposeState) : ComposeContent := ⟨state.text, state.accountId, state.draftId⟩

/-- An account and a content. -/
abbrev Recorded := AccountId × ComposeContent

def Attempt.recorded (p : Attempt) : Recorded := (p.1, p.2.content)

def Filed.recorded (r : Filed) : Recorded := (r.accountId, r.compose.content)

namespace MainWindow

/-! ## 1. The sends that fail -/

/-- The send that is on its way under an id. -/
def attempted (s : MainWindow) (id : ComposeId) : Option Attempt :=
  (s.deliveries.inFlight.lookup id).bind fun flight =>
    s.accounts[flight.account]?.map fun config => (config, flight.state)

/-- The retries that the mailer refuses, one after the other. -/
def refused (refusal : ComposeId → Option String) : MainWindow → List Retry → List Attempt
  | _, [] => []
  | s, retry :: rest =>
    (match s.sendMail (refusal retry.id) retry.id retry.account retry.state with
      | .ok _ => []
      | .error _ => (s.accounts[retry.account]?.map fun config => (config, retry.state)).toList) ++
    refused refusal (s.attempt refusal retry) rest

/-- `outbox_due` before its sends: the retries are in the ledger. -/
def beforeRetries (s : MainWindow) (due : List OutboxItem) : MainWindow :=
  let r := s.deliveries.retries due s.windowOpen s.accountIndex
  r.1.2.foldl (fun s item =>
    s.command (.markOutboxFailed item.id "This account is no longer configured."))
    { s with deliveries := r.2 }

/-- The retries of `outbox_due` that are refused. -/
def refusedDue (s : MainWindow) (refusal : ComposeId → Option String) (due : List OutboxItem) :
    List Attempt :=
  refused refusal (s.beforeRetries due) (s.deliveries.retries due s.windowOpen s.accountIndex).1.1

/-- A row of a list may be retried: it is skipped anyway, or the outbox has it as it is listed. -/
def listedTrue (s : MainWindow) (item : OutboxItem) : Bool :=
  (s.accountIndex item.accountId).isNone || item.id ∈ s.deliveries.ownedRows s.windowOpen ||
    item.filed ∈ s.files.rows

theorem files_beforeRetries (s : MainWindow) (due : List OutboxItem) :
    (s.beforeRetries due).files = s.files := files_backOff ..

theorem deliveries_beforeRetries (s : MainWindow) (due : List OutboxItem) :
    (s.beforeRetries due).deliveries =
      (s.deliveries.retries due s.windowOpen s.accountIndex).2 := deliveries_backOff ..

theorem accounts_backOff (error : String) : ∀ (items : List OutboxItem) (s : MainWindow),
    (items.foldl (fun s item => s.command (.markOutboxFailed item.id error)) s).accounts = s.accounts
  | [], _ => rfl
  | item :: items, s =>
    (accounts_backOff error items (s.command (.markOutboxFailed item.id error))).trans
      (congrArg Books.accounts (s.books_command_quiet (c := .markOutboxFailed item.id error) rfl))

theorem accounts_beforeRetries (s : MainWindow) (due : List OutboxItem) :
    (s.beforeRetries due).accounts = s.accounts := accounts_backOff ..

theorem failed_outboxRows (d : Deliveries) (id : ComposeId) :
    (d.failed id).2.outboxRows = d.outboxRows := by
  unfold Deliveries.failed
  split <;> rfl

/-- A failure changes no account, and no row of the ledger. -/
theorem outcomeFailed_ledger (s : MainWindow) (id : ComposeId) (error : String) :
    (s.outcomeFailed id error).accounts = s.accounts ∧
      (s.outcomeFailed id error).deliveries.outboxRows = s.deliveries.outboxRows := by
  have hledger : ∀ m : MainWindow,
      m.books = ({ s with deliveries := (s.deliveries.failed id).2 } : MainWindow).books →
        m.accounts = s.accounts ∧ m.deliveries.outboxRows = s.deliveries.outboxRows := fun m hm =>
    ⟨congrArg Books.accounts hm,
      (congrArg (fun b => b.deliveries.outboxRows) hm).trans (failed_outboxRows ..)⟩
  unfold outcomeFailed
  split
  · exact ⟨rfl, rfl⟩
  · refine hledger _ ?_
    rw [books_refreshQueue, books_tell, books_command_quiet _ rfl]
  · next account state _ =>
    dsimp only
    split
    · next config _ =>
      have hb := ((((({ s with deliveries := (s.deliveries.failed id).2 } : MainWindow).command
        (.enqueueOutbox none id config state)).tell id (.failed error)).books_refreshQueue
          .outbox).trans (books_tell ..)).trans (books_command _ rfl)
      refine ⟨(congrArg Books.accounts hb).trans ?_,
        (congrArg (fun b => b.deliveries.outboxRows) hb).trans ?_⟩
      · unfold Books.push
        split <;> rfl
      · rw [Books.push_deliveries]
        exact failed_outboxRows ..
    · refine hledger _ ?_
      rw [books_refreshQueue, books_tell]

/-! ## 2. The retries -/

/-- The account that `account_index` finds is the one asked for. -/
theorem accountIndex_some {s : MainWindow} {wanted : AccountId} {account : Nat}
    (h : s.accountIndex wanted = some account) : s.accounts[account]? = some wanted := by
  obtain ⟨hlt, heq, -⟩ := List.findIdx?_eq_some_iff_getElem.mp h
  rw [List.getElem?_eq_getElem hlt, eq_of_beq heq]

/-- One of the sends that `retries` asked for changes no row of the outbox. -/
theorem attempt_spec {s : MainWindow} (refusal : ComposeId → Option String) {retry : Retry}
    (h : s.deliveries.outboxRows.lookup retry.id ≠ none) :
    (s.attempt refusal retry).files = s.files ∧
      (s.attempt refusal retry).accounts = s.accounts ∧
      (s.attempt refusal retry).deliveries.outboxRows = s.deliveries.outboxRows := by
  unfold attempt
  split
  · next s' hsent =>
    obtain ⟨config, -, rfl⟩ := sendMail_ok hsent
    exact ⟨rfl, rfl, rfl⟩
  · obtain ⟨row, hrow⟩ := Option.ne_none_iff_exists'.mp h
    obtain ⟨haccounts, hrows⟩ := s.outcomeFailed_ledger retry.id _
    exact ⟨files_outcomeFailed_later hrow, haccounts, hrows⟩

/-- All of them. -/
theorem attempts_spec (refusal : ComposeId → Option String) (retries : List Retry) {s : MainWindow}
    (h : ∀ retry ∈ retries, s.deliveries.outboxRows.lookup retry.id ≠ none) :
    (retries.foldl (attempt refusal) s).files = s.files ∧
      ∀ p ∈ refused refusal s retries, ∃ retry ∈ retries, s.accounts[retry.account]? = some p.1 ∧
        p.2 = retry.state := by
  induction retries generalizing s with
  | nil => exact ⟨rfl, fun _ h => by cases h⟩
  | cons retry rest ih =>
    obtain ⟨hfiles, haccounts, hrows⟩ := attempt_spec refusal (h retry List.mem_cons_self)
    have hrest : ∀ r ∈ rest,
        (s.attempt refusal retry).deliveries.outboxRows.lookup r.id ≠ none := by
      intro r hr
      rw [hrows]
      exact h r (List.mem_cons_of_mem _ hr)
    obtain ⟨hfiles', hall⟩ := ih hrest
    refine ⟨hfiles'.trans hfiles, fun p hp => ?_⟩
    unfold refused at hp
    rcases List.mem_append.mp hp with hp | hp
    · split at hp
      · cases hp
      · obtain ⟨config, hconfig, rfl⟩ := Option.map_eq_some_iff.mp (Option.mem_toList.mp hp)
        exact ⟨retry, List.mem_cons_self, hconfig, rfl⟩
    · obtain ⟨r, hr, hconfig, hstate⟩ := hall p hp
      exact ⟨r, List.mem_cons_of_mem _ hr, haccounts ▸ hconfig, hstate⟩

/-- The outbox timer changes no row, and what it is refused is what rows of the outbox say. -/
theorem outboxDue_spec {s : MainWindow} (refusal : ComposeId → Option String)
    {due : List OutboxItem} (h : ∀ item ∈ due, s.listedTrue item = true) :
    (s.outboxDue refusal due).files = s.files ∧
      ∀ p ∈ s.refusedDue refusal due, ∃ row, (⟨row, p.1, p.2⟩ : Filed) ∈ s.files.rows := by
  obtain ⟨-, hall⟩ := Deliveries.retryAll_spec s.accountIndex
    (due.filter fun item => item.id ∉ s.deliveries.ownedRows s.windowOpen) s.deliveries
  obtain ⟨hfiles, hrefused⟩ := attempts_spec refusal
    (s.deliveries.retries due s.windowOpen s.accountIndex).1.1 (s := s.beforeRetries due)
    (fun retry hretry => by
      rw [deliveries_beforeRetries]
      exact (hall retry hretry).1)
  refine ⟨hfiles.trans (s.files_beforeRetries due), fun p hp => ?_⟩
  obtain ⟨retry, hretry, hconfig, hstate⟩ := hrefused p hp
  obtain ⟨-, item, hitem, hindex, hcompose⟩ := hall retry hretry
  obtain ⟨hmem, howned⟩ := List.mem_filter.mp hitem
  rw [accounts_beforeRetries, accountIndex_some hindex] at hconfig
  have htrue := h item hmem
  simp only [listedTrue, hindex, Option.isNone_some, of_decide_eq_true howned, decide_false,
    Bool.false_or, decide_eq_true_eq] at htrue
  refine ⟨item.id, ?_⟩
  rw [← Option.some.inj hconfig, hstate, hcompose]
  exact htrue

end MainWindow

/-! ## 3. The system, and the latest attempts -/

/-- Of each message the latest send that has failed, where none has succeeded since, and what was put into
the outbox when one failed for the first time. -/
structure Attempts where
  sys : System
  last : Nat → Option Attempt
  filed : Nat → Option Recorded

namespace Attempts

def note (last : Nat → Option Attempt) (p : Attempt) : Nat → Option Attempt :=
  Function.update last p.2.stamp.msg (some p)

/-- What is known of one message when the latest attempt of one is noted, or forgotten. -/
theorem update_some {last : Nat → Option Attempt} {n m : Nat} {o : Option Attempt} {q : Attempt}
    (h : Function.update last n o m = some q) : (m = n ∧ o = some q) ∨ (m ≠ n ∧ last m = some q) := by
  by_cases hm : m = n
  · rw [hm, Function.update_self] at h
    exact .inl ⟨hm, h⟩
  · rw [Function.update_of_ne hm] at h
    exact .inr ⟨hm, h⟩

/-- What a step makes of the latest attempts. -/
def record (s : System) (last : Nat → Option Attempt) : System.Action → Nat → Option Attempt
  | .handleOutcome =>
    match s.main.outcomes with
    | .error id _ :: _ => (s.main.attempted id).toList.foldl note last
    | .sent id :: _ =>
      match s.main.deliveries.inFlight.lookup id with
      | some flight => Function.update last flight.state.stamp.msg none
      | none => last
    | [] => last
  | .handleEvent refusal _ =>
    match s.main.events with
    | .outboxDue items :: rest => ({ s.main with events := rest }.refusedDue refusal items).foldl note last
    | _ => last
  | .retryQueued row refusal =>
    match s.main.listedItem row with
    | some item => (s.main.refusedDue refusal [item]).foldl note last
    | none => last
  | _ => last

def file (filed : Nat → Option Recorded) (p : Attempt) : Nat → Option Recorded :=
  Function.update filed p.2.stamp.msg (some p.recorded)

/-- What a step makes of the record: a first failure is put into the outbox. -/
def fileAway (s : System) (filed : Nat → Option Recorded) : System.Action → Nat → Option Recorded
  | .handleOutcome =>
    match s.main.outcomes with
    | .error id _ :: _ =>
      match s.main.deliveries.outboxRows.lookup id with
      | none => (s.main.attempted id).toList.foldl file filed
      | some _ => filed
    | _ => filed
  | _ => filed

def step (t : Attempts) (a : System.Action) : Option Attempts :=
  (t.sys.step a).map fun s' => ⟨s', record t.sys t.last a, fileAway t.sys t.filed a⟩

/-- The rows that an earlier run left. -/
def leftOver (db : Db) (m : Nat) : Option Recorded :=
  (db.outbox.find? fun r => r.compose.stamp.msg = m).map fun r => r.filed.recorded

def machine : Machine Attempts System.Action :=
  ⟨fun t => System.Started t.sys ∧ (t.last = fun _ => none) ∧ t.filed = leftOver t.sys.main.db, step⟩

/-- A first failure finds no row of its message, and room for the command.  A later one finds its row still
there, and tried what was recorded then. -/
def triesRecorded (t : Attempts) (id : ComposeId) : Bool :=
  (t.sys.main.attempted id).all fun p =>
    match t.sys.main.deliveries.outboxRows.lookup id with
    | some row =>
      (t.sys.main.files.rows.any fun r => r.row = row) && t.filed p.2.stamp.msg = some p.recorded
    | none =>
      (t.sys.main.files.rows.all fun r => r.compose.stamp.msg ≠ p.2.stamp.msg) &&
        t.sys.main.commands.length < MainWindow.commandQueue

/-- When a step keeps the outbox up to date. -/
def upToDate (t : Attempts) : System.Action → Bool
  | .handleOutcome =>
    match t.sys.main.outcomes with
    | .error id _ :: _ => t.triesRecorded id
    | _ => true
  | .handleEvent _ _ =>
    match t.sys.main.events with
    | .outboxDue items :: _ => items.all t.sys.main.listedTrue
    | _ => true
  | .retryQueued row _ => (t.sys.main.listedItem row).all t.sys.main.listedTrue
  -- These runs throw nothing away, take no row out of the outbox to edit it, and keep their core.
  | .handleRequest _ =>
    match t.sys.requests with
    | (_, .discard) :: _ => false
    | _ => true
  | .deleteRow .outbox _ | .editQueued _ _ | .reload _ => false
  | _ => true

theorem sys_reach {ok : Attempts → System.Action → Prop} {t : Attempts} (h : machine.Reach ok t) :
    System.machine.Reach Machine.any t.sys := by
  refine h.invariant (P := fun t => System.machine.Reach Machine.any t.sys) ?_ ?_
  · rintro t ⟨hstart, -, -⟩
    exact .init hstart
  · intro t a t' _ hr _ hst
    obtain ⟨s', hstep, rfl⟩ := Option.map_eq_some_iff.mp hst
    exact .step hr trivial hstep

/-! ## 4. The invariant -/

/-- Where a key is given once, it finds one element. -/
theorem find?_key {α β : Type} [DecidableEq β] {f : α → β} {l : List α} {x : α}
    (hkeys : (l.map f).Nodup) (hx : x ∈ l) : l.find? (fun y => f y = f x) = some x := by
  cases hfind : l.find? (fun y => f y = f x) with
  | none => exact absurd (decide_eq_true rfl) (List.find?_eq_none.mp hfind x hx)
  | some y =>
    have hkey : f y = f x := by simpa using List.find?_some hfind
    rw [List.inj_on_of_nodup_map hkeys (List.mem_of_find?_eq_some hfind) hx hkey]

theorem filter_key {α β : Type} [DecidableEq β] {f : α → β} {l : List α} {x : α}
    (hkeys : (l.map f).Nodup) (hx : x ∈ l) : (l.filter fun y => f y = f x) = [x] := by
  induction l with
  | nil => cases hx
  | cons y ys ih =>
    obtain ⟨hnew, hrest⟩ := List.nodup_cons.mp hkeys
    rcases List.mem_cons.mp hx with rfl | hx
    · rw [List.filter_cons_of_pos (by simp)]
      refine congrArg (List.cons x) (List.filter_eq_nil_iff.mpr fun y hy he => hnew ?_)
      exact (of_decide_eq_true he) ▸ List.mem_map_of_mem hy
    · have hne : f y ≠ f x := fun he => hnew (he ▸ List.mem_map_of_mem hx)
      rw [List.filter_cons_of_neg (by simpa using hne)]
      exact ih hrest hx

/-- A row says what the latest attempt on its message tried. -/
def Says (files : Files) (p : Attempt) : Prop :=
  ∃ r ∈ files.rows, r.compose.stamp.msg = p.2.stamp.msg ∧ r.recorded = p.recorded

/-- No two rows will be of one message, each says what was recorded, and the latest attempt is what its row
says. -/
structure Upheld (t : Attempts) : Prop where
  msgs : (t.sys.main.files.rows.map fun r => r.compose.stamp.msg).Nodup
  filed : ∀ r ∈ t.sys.main.files.rows, t.filed r.compose.stamp.msg = some r.recorded
  last : ∀ m p, t.last m = some p → p.2.stamp.msg = m ∧ Says t.sys.main.files p

theorem Upheld.init {t : Attempts} (hstart : System.Started t.sys) (hlast : t.last = fun _ => none)
    (hfiled : t.filed = leftOver t.sys.main.db) : Upheld t := by
  obtain ⟨accounts, db, hmain⟩ := hstart.main
  have hmsgs := hstart.msgs
  rw [System.rowStamps, List.map_append, List.map_map, List.map_map] at hmsgs
  have hrows : t.sys.main.files = t.sys.main.db.files := by
    rw [hmain]
    rfl
  refine ⟨?_, fun r hr => ?_, fun m p h => ?_⟩
  · rw [hrows, Db.files, List.map_map]
    exact hmsgs.of_append_right
  · rw [hrows] at hr
    obtain ⟨row, hrow, rfl⟩ := List.mem_map.mp hr
    rw [hfiled, leftOver, OutboxRow.filed]
    exact congrArg (Option.map _) (find?_key hmsgs.of_append_right hrow)
  · rw [hlast] at h
    cases h

/-- What a row of the outbox is the retry of. -/
theorem says_of_mem {files : Files} {p : Attempt} (h : ∃ row, (⟨row, p.1, p.2⟩ : Filed) ∈ files.rows) :
    Says files p := by
  obtain ⟨row, hrow⟩ := h
  exact ⟨_, hrow, rfl, rfl⟩

/-- A step after which the same rows are due, and the attempts that are noted are rows. -/
theorem Upheld.noted {t : Attempts} (h : Upheld t) {s' : System}
    (hfiles : s'.main.files = t.sys.main.files) (ps : List Attempt)
    (hps : ∀ p ∈ ps, Says t.sys.main.files p) : Upheld ⟨s', ps.foldl note t.last, t.filed⟩ := by
  refine ⟨hfiles ▸ h.msgs, hfiles ▸ h.filed, ?_⟩
  rw [hfiles]
  have hlast := h.last
  generalize t.last = last at hlast ⊢
  induction ps generalizing last with
  | nil => exact hlast
  | cons p ps ih =>
    refine ih (fun q hq => hps q (List.mem_cons_of_mem p hq)) _ ?_
    intro m q hq
    rcases update_some hq with ⟨rfl, hp⟩ | ⟨-, hold⟩
    · obtain rfl := Option.some.inj hp
      exact ⟨rfl, hps p List.mem_cons_self⟩
    · exact hlast m q hold

theorem Upheld.same {t : Attempts} (h : Upheld t) {s' : System}
    (hfiles : s'.main.files = t.sys.main.files) : Upheld ⟨s', t.last, t.filed⟩ :=
  h.noted hfiles [] (by simp)

/-- A send that has failed for the first time is put into the outbox. -/
theorem Upheld.enqueued {t : Attempts} (h : Upheld t) {s' : System} {next : Row} {p : Attempt}
    (hrows : s'.main.files.rows = t.sys.main.files.rows ++ [⟨next, p.1, p.2⟩])
    (hnew : ∀ r ∈ t.sys.main.files.rows, r.compose.stamp.msg ≠ p.2.stamp.msg) :
    Upheld ⟨s', note t.last p, file t.filed p⟩ := by
  refine ⟨?_, fun r hr => ?_, fun m q hq => ?_⟩
  · rw [hrows, List.map_append]
    refine h.msgs.append (by simp) (List.disjoint_singleton.mpr fun hmem => ?_)
    obtain ⟨r, hr, hmsg⟩ := List.mem_map.mp hmem
    exact hnew r hr hmsg
  · rw [hrows] at hr
    rcases List.mem_append.mp hr with hr | hr
    · exact (Function.update_of_ne (hnew r hr) ..).trans (h.filed r hr)
    · rw [List.mem_singleton.mp hr]
      exact Function.update_self ..
  · rw [Says, hrows]
    rcases update_some hq with ⟨rfl, hp⟩ | ⟨-, hold⟩
    · obtain rfl := Option.some.inj hp
      exact ⟨rfl, _, List.mem_append_right _ (List.mem_singleton_self _), rfl, rfl⟩
    · obtain ⟨hmsg, r, hr, hsays⟩ := h.last m q hold
      exact ⟨hmsg, r, List.mem_append_left _ hr, hsays⟩

/-- A message that was sent has no latest failure any more, and only its own row may go. -/
theorem Upheld.sent {t : Attempts} (h : Upheld t) {s' : System} {m : Nat} (keep : Filed → Bool)
    (hrows : s'.main.files.rows = t.sys.main.files.rows.filter keep)
    (hkeep : ∀ r ∈ t.sys.main.files.rows, keep r = false → r.compose.stamp.msg = m) :
    Upheld ⟨s', Function.update t.last m none, t.filed⟩ := by
  refine ⟨?_, fun r hr => ?_, fun m' p hp => ?_⟩
  · rw [hrows]
    exact h.msgs.sublist (List.filter_sublist.map _)
  · rw [hrows] at hr
    exact h.filed r (List.mem_of_mem_filter hr)
  · rw [Says, hrows]
    rcases update_some hp with ⟨-, hnone⟩ | ⟨hm, hold⟩
    · cases hnone
    · obtain ⟨hmsg, r, hr, hrmsg, hsays⟩ := h.last m' p hold
      refine ⟨hmsg, r, List.mem_filter.mpr ⟨hr, ?_⟩, hrmsg, hsays⟩
      by_contra hdropped
      exact hm (hmsg.symm.trans (hrmsg.symm.trans (hkeep r hr (by simpa using hdropped))))

/-- The rows with the number that a send owns are rows of what is sent. -/
theorem msg_of_owned {s : System} (hr : System.machine.Reach Machine.any s) {id : ComposeId}
    {flight : Flight} {row : Row} (hflight : s.main.deliveries.inFlight.lookup id = some flight)
    (hrow : s.main.deliveries.outboxRows.lookup id = some row) :
    ∀ r ∈ s.main.files.rows, r.row = row → r.compose.stamp.msg = flight.state.stamp.msg := by
  intro r hmem he
  have hnumbered := System.numbered hr
  obtain ⟨idMsg, rowMsg, hlabels⟩ := System.hasLabels hr
  have hold : r ∈ s.main.db.files.rows := by
    refine Files.mem_of_run (fun c hc row' id' accountId compose hcmd => ?_) hmem ?_
    · have hwrite : c ∈ s.main.books.writes := List.mem_filter.mpr ⟨hc, by rw [hcmd]; rfl⟩
      rw [hcmd] at hwrite
      obtain ⟨hnone, -⟩ := hnumbered.write _ hwrite
      cases hnone
    · rw [he]
      exact hnumbered.row_lt id row hrow
  obtain ⟨r', hr', rfl⟩ := List.mem_map.mp hold
  have hbook : (r'.id, r'.compose) ∈ s.main.books.outbox := List.mem_map_of_mem hr'
  have hid : r'.id = row := he
  calc r'.compose.stamp.msg = rowMsg r'.id := hlabels.outbox _ _ hbook
    _ = rowMsg row := by rw [hid]
    _ = idMsg id := hlabels.owner id row (.inl hrow)
    _ = flight.state.stamp.msg := (hlabels.flight id _ ⟨flight, hflight, rfl⟩).symm

theorem Upheld.handleOutcome {t : Attempts} (hr' : System.machine.Reach Machine.any t.sys)
    (h : Upheld t) (hok : upToDate t .handleOutcome = true) {s' : System}
    (hstep : t.sys.step .handleOutcome = some s') :
    Upheld ⟨s', record t.sys t.last .handleOutcome, fileAway t.sys t.filed .handleOutcome⟩ := by
  obtain ⟨o, rest, houtcomes, rfl⟩ := System.of_step_handleOutcome hstep
  unfold record fileAway
  simp only [upToDate, houtcomes] at hok
  rw [houtcomes]
  cases o with
  | sent id =>
    dsimp only
    have hsent := MainWindow.files_outcomeSent (s := { t.sys.main with outcomes := rest }) id
    cases hflight : t.sys.main.deliveries.inFlight.lookup id with
    | none =>
      rcases hsent with hsame | ⟨flight, row, hf, -, -⟩
      · exact h.same hsame
      · exact absurd (hf.symm.trans hflight) (by simp)
    | some flight =>
      rcases hsent with hsame | ⟨flight', row, hf, hrow, hdrop⟩
      · refine h.sent (fun _ => true) ?_ (by simp)
        exact (congrArg Files.rows hsame).trans (by simp [MainWindow.files])
      · refine h.sent _ (congrArg Files.rows hdrop) fun r hmem hgone => ?_
        exact msg_of_owned hr' hflight hrow r hmem (by simpa using hgone)
  | error id error =>
    dsimp only at hok ⊢
    unfold triesRecorded at hok
    cases hattempt : t.sys.main.attempted id with
    | none =>
      have hsame : Upheld ⟨t.sys.goOn (MainWindow.smtpEvent { t.sys.main with outcomes := rest }
          (.error id error)), t.last, t.filed⟩ := by
        refine h.same ?_
        cases hflight : t.sys.main.deliveries.inFlight.lookup id with
        | none =>
          exact MainWindow.files_outcomeFailed_stray (s := { t.sys.main with outcomes := rest }) hflight
        | some flight =>
          rw [MainWindow.attempted, hflight, Option.bind_some, Option.map_eq_none_iff] at hattempt
          exact MainWindow.files_outcomeFailed_unknown (s := { t.sys.main with outcomes := rest })
            hflight hattempt
      cases t.sys.main.deliveries.outboxRows.lookup id <;> exact hsame
    | some p =>
      obtain ⟨flight, hflight, hmap⟩ := Option.bind_eq_some_iff.mp hattempt
      obtain ⟨config, hconfig, rfl⟩ := Option.map_eq_some_iff.mp hmap
      rw [hattempt, Option.all_some] at hok
      cases hrow : t.sys.main.deliveries.outboxRows.lookup id with
      | some row =>
        simp only [hrow, Bool.and_eq_true, List.any_eq_true, decide_eq_true_eq] at hok
        obtain ⟨⟨r, hr, hnumber⟩, hrecorded⟩ := hok
        refine h.noted (MainWindow.files_outcomeFailed_later (s := { t.sys.main with outcomes := rest })
          hrow) [_] fun q hq => ?_
        rw [List.mem_singleton.mp hq]
        -- The row is of this message, and says what was recorded of it.
        have hmsg := msg_of_owned hr' hflight hrow r hr hnumber
        refine ⟨r, hr, hmsg, Option.some.inj ?_⟩
        rw [← h.filed r hr, hmsg, hrecorded]
      | none =>
        simp only [hrow, Bool.and_eq_true, decide_eq_true_eq, List.all_eq_true] at hok
        obtain ⟨hnew, hroom⟩ := hok
        have hfirst : (MainWindow.outcomeFailed { t.sys.main with outcomes := rest } id error).files =
            t.sys.main.files.run (.enqueueOutbox none id config flight.state) := by
          refine (MainWindow.files_outcomeFailed_first (s := { t.sys.main with outcomes := rest })
            hflight hrow hconfig).trans ?_
          rw [MainWindow.files_command, if_pos hroom]
          rfl
        exact h.enqueued (congrArg Files.rows hfirst) hnew

theorem Upheld.handleRequest {t : Attempts} (h : Upheld t) {refusal : Option String}
    (hok : upToDate t (.handleRequest refusal) = true) {s' : System}
    (hstep : t.sys.step (.handleRequest refusal) = some s') : Upheld ⟨s', t.last, t.filed⟩ := by
  obtain ⟨id, r, rest, hrequests, rfl⟩ := System.of_step_handleRequest hstep
  refine h.same ?_
  cases r with
  | send state => exact t.sys.main.files_sendMessage ..
  | saveDraft state explicit => exact t.sys.main.files_saveDraft ..
  | discard =>
    simp only [upToDate, hrequests] at hok
    exact absurd hok (by simp)
  | closed => exact t.sys.main.files_windowClosed ..

theorem Upheld.handleEvent {t : Attempts} (h : Upheld t) {refusal : ComposeId → Option String}
    {opens : Bool} (hok : upToDate t (.handleEvent refusal opens) = true) {s' : System}
    (hstep : t.sys.step (.handleEvent refusal opens) = some s') :
    Upheld ⟨s', record t.sys t.last (.handleEvent refusal opens), t.filed⟩ := by
  obtain ⟨e, rest, hevents, rfl⟩ := System.of_step_handleEvent hstep
  unfold record
  rw [hevents]
  cases e with
  | outboxDue items =>
    simp only [upToDate, hevents, List.all_eq_true] at hok
    obtain ⟨hfiles, hps⟩ := MainWindow.outboxDue_spec (s := { t.sys.main with events := rest })
      refusal hok
    exact h.noted hfiles _ fun p hp => says_of_mem (hps p hp)
  | draftSaved row id => exact h.same (MainWindow.files_draftSaved ..)
  | outboxEnqueued row id => exact h.same (MainWindow.files_outboxEnqueued ..)
  | draftLoaded row state => exact h.same (MainWindow.files_draftLoaded ..)
  | outbox items => exact h.same rfl
  | drafts => exact h.same rfl
  | failed => exact h.same rfl

/-- One step, one case for each action. -/
theorem Upheld.step {t t' : Attempts} (hr : System.machine.Reach Machine.any t.sys) (h : Upheld t)
    {a : System.Action} (hok : upToDate t a = true) (hst : t.step a = some t') : Upheld t' := by
  obtain ⟨s', hstep, rfl⟩ := Option.map_eq_some_iff.mp hst
  cases a with
  | handleOutcome => exact h.handleOutcome hr hok hstep
  | handleRequest refusal => exact h.handleRequest hok hstep
  | handleEvent refusal opens => exact h.handleEvent hok hstep
  | retryQueued row refusal =>
    simp only [System.step] at hstep
    split at hstep
    · next hnone =>
      cases hstep
      simp only [record, hnone]
      exact h.same rfl
    · next item hitem =>
      cases hstep
      simp only [record, hitem]
      rw [upToDate, hitem, Option.all_some] at hok
      have hlisted : ∀ i ∈ [item], t.sys.main.listedTrue i = true := by simpa using hok
      obtain ⟨hfiles, hps⟩ := MainWindow.outboxDue_spec refusal hlisted
      exact h.noted hfiles _ fun p hp => says_of_mem (hps p hp)
  | compose text account opens =>
    simp only [System.step] at hstep
    split at hstep
    · cases hstep
      exact h.same rfl
    · cases hstep
      exact h.same (MainWindow.files_startCompose ..)
  | edit id text sender =>
    obtain ⟨w, -, hstep⟩ := Option.bind_eq_some_iff.mp hstep
    obtain ⟨w', -, rfl⟩ := Option.map_eq_some_iff.mp hstep
    exact h.same rfl
  | receive id =>
    obtain ⟨w, -, hstep⟩ := Option.bind_eq_some_iff.mp hstep
    obtain ⟨p, -, rfl⟩ := Option.map_eq_some_iff.mp hstep
    refine h.same ?_
    dsimp only
    split <;> rfl
  | closeBox id choice =>
    obtain ⟨w, -, rfl⟩ := Option.map_eq_some_iff.mp hstep
    refine h.same ?_
    split <;> rfl
  | attach id files =>
    obtain ⟨w, -, rfl⟩ := Option.map_eq_some_iff.mp hstep
    exact h.same rfl
  | clickSend id =>
    obtain ⟨w, -, rfl⟩ := Option.map_eq_some_iff.mp hstep
    exact h.same rfl
  | clickSave id =>
    obtain ⟨w, -, rfl⟩ := Option.map_eq_some_iff.mp hstep
    exact h.same rfl
  | timer id =>
    obtain ⟨w, -, rfl⟩ := Option.map_eq_some_iff.mp hstep
    exact h.same rfl
  | clickDiscard id =>
    obtain ⟨w, -, rfl⟩ := Option.map_eq_some_iff.mp hstep
    exact h.same rfl
  | poll =>
    cases hstep
    exact h.same (MainWindow.files_command_quiet _ fun _ => rfl)
  | openDraft row =>
    cases hstep
    exact h.same (MainWindow.files_command_quiet _ fun _ => rfl)
  | otherCommand =>
    cases hstep
    exact h.same (MainWindow.files_command_quiet _ fun _ => rfl)
  | showQueue kind =>
    cases hstep
    exact h.same (MainWindow.files_showQueue ..)
  | closeQueue kind =>
    cases hstep
    exact h.same (MainWindow.files_closeQueue ..)
  | deleteRow kind row =>
    cases kind with
    | drafts =>
      obtain ⟨-, heq⟩ := Option.ite_none_right_eq_some.mp hstep
      cases heq
      exact h.same ((MainWindow.files_refreshQueue ..).trans
        (MainWindow.files_command_quiet _ fun _ => rfl))
    | outbox => exact absurd hok (by simp [upToDate])
  | execute =>
    obtain ⟨m, hm, rfl⟩ := Option.map_eq_some_iff.mp hstep
    exact h.same (MainWindow.files_execute hm)
  | tick seconds =>
    cases hstep
    exact h.same rfl
  | mail error =>
    obtain ⟨c, rest, -, rfl⟩ := System.of_step_mail hstep
    exact h.same rfl
  | editQueued row opens => exact absurd hok (by simp [upToDate])
  | reload accounts => exact absurd hok (by simp [upToDate])

theorem upheld_of_reach {t : Attempts} (h : machine.Reach (fun t a => upToDate t a = true) t) :
    Upheld t := by
  refine h.invariant (P := Upheld) ?_ ?_
  · rintro t ⟨hstart, hlast, hfiled⟩
    exact Upheld.init hstart hlast hfiled
  · intro t a t' hr hupheld hok hst
    exact hupheld.step (sys_reach hr) hok hst

/-! ## 5. What is retried -/

/-- In a run in which each failure that is backed off tried what was recorded: when the commands have run,
the outbox has one row of a message whose latest send has failed, with the account and the content of that
send, and these are what a retry is given.  The rows never change, so that what is to be shown is that there
is one, and that it is the only one of its message: a first failure brings it, and only a send that went
through takes it. -/
theorem latest_attempt_kept {t : Attempts} (h : machine.Reach (fun t a => upToDate t a = true) t)
    (hidle : t.sys.main.commands = []) {m : Nat} {p : Attempt} (hlast : t.last m = some p) :
    (t.sys.main.db.outbox.filter fun r => r.compose.stamp.msg = m).map
        (fun r => (r.accountId, r.compose.content)) = [(p.1, p.2.content)] ∧
      ∀ item ∈ t.sys.main.db.dueOutbox, item.compose.stamp.msg = m →
        (item.accountId, item.compose.content) = (p.1, p.2.content) := by
  have hupheld := upheld_of_reach h
  have hmsgs := hupheld.msgs
  obtain ⟨hmsg, filed, hfiled, hrmsg, hsays⟩ := hupheld.last m p hlast
  rw [MainWindow.files_of_idle _ hidle] at hmsgs hfiled
  rw [Db.files, List.map_map] at hmsgs
  obtain ⟨r, hr, rfl⟩ := List.mem_map.mp hfiled
  have hm : r.compose.stamp.msg = m := hrmsg.trans hmsg
  have hrecorded : (r.accountId, r.compose.content) = (p.1, p.2.content) := hsays
  constructor
  · have hone := filter_key hmsgs hr
    simp only [Function.comp_apply, OutboxRow.filed, hm] at hone
    rw [hone, List.map_singleton, hrecorded]
  · intro item hitem hitemMsg
    obtain ⟨r', hr', rfl⟩ := List.mem_map.mp hitem
    have hsame : r' = r :=
      List.inj_on_of_nodup_map hmsgs (List.mem_of_mem_filter hr') hr (hitemMsg.trans hm.symm)
    rw [hsame]
    exact hrecorded

/-- One account, and nothing has been sent. -/
def fresh : Attempts := ⟨{ main := { accounts := ["a"] } }, fun _ => none, fun _ => none⟩

theorem started_fresh : machine.Init fresh := by
  refine ⟨⟨⟨["a"], {}, rfl⟩, rfl, rfl, rfl, rfl, rfl, ?_, ?_, ?_, ?_, ?_, ?_⟩, rfl, rfl⟩ <;>
    simp [fresh, System.rowStamps]

def firstText : Text := { recipient := "b", body := "one" }

def secondText : Text := { recipient := "b", body := "two" }

/-- A message whose first send fails; the outbox has it then, and the window is told. -/
def failedOnce : List System.Action :=
  [.compose firstText 0 true, .clickSend 1, .handleRequest none, .mail (some "offline"),
    .handleOutcome, .execute, .handleEvent (fun _ => none) true, .receive 1, .receive 1]

/-- It is sent from its window again, which fails again. -/
def failsAgain : List System.Action :=
  [.clickSend 1, .handleRequest none, .mail (some "offline"), .handleOutcome, .execute]

/-- Such a run: the first send fails, another text is typed and the old one typed again, the second send
fails, and the timer's is refused. -/
theorem latest_attempt_kept_of_failures : ∃ (t : Attempts) (p : Attempt), t.last 0 = some p ∧
    p.2.text = firstText ∧
    (t.sys.main.db.outbox.filter fun r => r.compose.stamp.msg = 0).map
      (fun r => (r.accountId, r.compose.content)) = [(p.1, p.2.content)] := by
  obtain ⟨t, hreach, hp⟩ := Machine.exists_reach_of_trace machine (fun t a => upToDate t a = true)
    (failedOnce ++ [.edit 1 secondText (some "a"), .edit 1 firstText (some "a")] ++ failsAgain ++
      [.receive 1, .receive 1, .closeBox 1 .save, .handleRequest none, .tick 3600, .poll, .execute,
        .handleEvent (fun _ => some "offline") true, .execute])
    (fun t => decide (t.sys.main.commands = [] ∧ (t.last 0).map (fun p => p.2.text) = some firstText))
    started_fresh (by decide +kernel)
  obtain ⟨hidle, htext⟩ := of_decide_eq_true hp
  obtain ⟨p, hlast, htext⟩ := Option.map_eq_some_iff.mp htext
  exact ⟨t, p, hlast, htext, (latest_attempt_kept hreach hidle hlast).1⟩

/-- The first send fails, the text is changed, and the second send fails: the outbox goes on to hold
the first text, and that is what a retry sends. -/
theorem retry_sends_old_text : ¬ ∀ t : Attempts, machine.Reach Machine.any t →
    t.sys.main.commands = [] → ∀ (m : Nat) (p : Attempt), t.last m = some p →
      (t.sys.main.db.outbox.filter fun r => r.compose.stamp.msg = m).map
        (fun r => (r.accountId, r.compose.content)) = [(p.1, p.2.content)] := by
  intro hall
  obtain ⟨t, hreach, hp⟩ := Machine.exists_reach_of_trace machine Machine.any
    (failedOnce ++ .edit 1 secondText (some "a") :: failsAgain)
    (fun t => decide (t.sys.main.commands = [] ∧
      (t.last 0).map (fun p => p.2.text) = some secondText ∧
      t.sys.main.db.outbox.map (fun r => r.compose.text) = [firstText]))
    started_fresh (by decide)
  obtain ⟨hidle, htext, hrows⟩ := of_decide_eq_true hp
  obtain ⟨p, hlast, htext⟩ := Option.map_eq_some_iff.mp htext
  have hone := hall t hreach hidle 0 p hlast
  obtain ⟨r, hr, hattempt⟩ := List.mem_map.mp (hone ▸ List.mem_singleton_self (p.1, p.2.content))
  have hold : r.compose.text ∈ t.sys.main.db.outbox.map fun r => r.compose.text :=
    List.mem_map_of_mem (List.mem_of_mem_filter hr)
  have hnew : r.compose.text = p.2.text := congrArg (fun q : Recorded => q.2.text) hattempt
  rw [hrows, List.mem_singleton, hnew, htext] at hold
  exact absurd hold (by decide)

end Attempts

end Esmail
