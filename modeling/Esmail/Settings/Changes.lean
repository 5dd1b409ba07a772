/-
# Changes to the configuration, and who writes it

The window has the configuration in memory.  Trust in a sender and the Google client are changed there,
and a background writer is handed a copy (`ConfigSaver`).  An account is saved or removed by a task of
its own, on a copy that was taken WHEN THE TASK BEGAN: it writes that copy's file, and what it reports
replaces the memory.

So a change that is made in between is lost (`trust_lost`).  `changes_kept` is about the runs in which
tasks and changes do not get in each other's way (`undisturbed`): once everything has come to its end, the
memory and the file contain every change that was made.

`done` is the list of the changes that were made, in their order, and `intended` what they amount to; that
this contains each of them (`contains_foldl`) is about changes alone.  The invariant is then an equation:
either the memory is `intended`, and the writer has it, or the one outcome that is on its way has it, and
so has the file (`Kept`).

A run with `--profile`, which may change no account and writes nothing, is not part of this; nor is a
background write that fails.
-/
import Esmail.Library.Machine
import Esmail.Settings.Config
import Mathlib.Data.List.Induction

namespace Esmail.Settings

open Transition

/-! ## 1. The changes -/

/-- `Auth`, as far as the configuration has to do with it: when the Google token was issued. -/
inductive Credential
  | password
  | oauth (issuedAt : Option Int)
  deriving DecidableEq, Repr

/-- What `save_account` makes of an account that signs in so. -/
def signedIn (account : AccountConfig) : Credential → AccountConfig
  | .password => { account with auth := .password, oauthTokenIssuedAt := none }
  | .oauth issuedAt =>
    { account with
      auth := .googleOAuth
      oauthTokenIssuedAt := issuedAt.or account.oauthTokenIssuedAt }

/-- What a task does to the copy it has. -/
inductive Work
  | saveAccount (account : AccountConfig) (credential : Credential)
  | removeAccount (id : AccountId)
  deriving DecidableEq, Repr

/-- `save_account` and `remove_account`: the configuration that they write and return. -/
def Work.run (c : Config) : Work → Config
  | .saveAccount account credential => c.upsertAccount (signedIn account credential)
  | .removeAccount id => c.removeAccount id

/-- A change of the configuration. -/
inductive Change
  | work (work : Work)
  | trustSender (header : MailHeader) (trusted : Bool)
  | saveClient (clientId clientSecret : String)
  deriving DecidableEq, Repr

/-- `trust_sender` on the configuration, and whether it changed. -/
def trustSender (c : Config) (header : MailHeader) (trusted : Bool) : Config × Bool :=
  let (senders, changed) := setSenderTrusted c.toConfig header trusted
  ({ c with toConfig := senders }, changed)

/-- `Request::Save` on the configuration. -/
def saveClient (c : Config) (clientId clientSecret : String) : Config :=
  { c with googleOauth := googleClientConfig clientId clientSecret }

/-- The configuration after a change. -/
def Change.apply (c : Config) : Change → Config
  | .work w => w.run c
  | .trustSender header trusted => (Settings.trustSender c header trusted).1
  | .saveClient clientId clientSecret => Settings.saveClient c clientId clientSecret

/-! ## 2. What the changes amount to -/

/-- The last of the changes that says something. -/
def lastOf {α : Type} (said : Change → Option α) (done : List Change) : Option α :=
  done.reverse.findSome? said

/-- What a change decides about a sender, by its address. -/
def decision (address : List Char) : Change → Option Bool
  | .trustSender header trusted =>
    if header.senderAddress.map (List.map RustText.toAsciiLowercase) = some address then some trusted
    else none
  | _ => none

/-- The Google client that a change saves. -/
def clientOf : Change → Option (Option OAuthClientConfig)
  | .saveClient clientId clientSecret => some (googleClientConfig clientId clientSecret)
  | _ => none

/-- Which account a task is about. -/
def Work.about : Work → AccountId
  | .saveAccount account _ => account.id
  | .removeAccount id => id

/-- What a change does to an account. -/
def workOn (id : AccountId) : Change → Option Work
  | .work w => if w.about = id then some w else none
  | _ => none

/-- The accounts are as a task has left them; a mailbox to watch may have been kept. -/
def Work.holds (accounts : List AccountConfig) : Work → Prop
  | .saveAccount account credential =>
    ∃ watch, { signedIn account credential with watchMailbox := watch } ∈ accounts ∧
      (account.watchMailbox.isSome → watch = account.watchMailbox)
  | .removeAccount id => ∀ account ∈ accounts, account.id ≠ id

/-- A configuration contains the changes: each account as it was saved last, or removed, each sender's
last decision, and the Google client. -/
structure Contains (c : Config) (done : List Change) : Prop where
  accounts : ∀ id work, lastOf (workOn id) done = some work → work.holds c.accounts
  senders : ∀ address trusted, lastOf (decision address) done = some trusted →
    c.imageTrustedSenders.contains address = trusted
  client : ∀ client, lastOf clientOf done = some client → c.googleOauth = client

theorem accounts_trustSender (c : Config) (header : MailHeader) (trusted : Bool) :
    (trustSender c header trusted).1.accounts = c.accounts := by
  simp only [trustSender]

theorem googleOauth_trustSender (c : Config) (header : MailHeader) (trusted : Bool) :
    (trustSender c header trusted).1.googleOauth = c.googleOauth := by
  simp only [trustSender]

theorem lastOf_append {α : Type} (said : Change → Option α) (done : List Change)
    (change : Change) : lastOf said (done ++ [change]) = (said change).or (lastOf said done) := by
  rw [lastOf, List.reverse_append, List.reverse_singleton, List.singleton_append,
    List.findSome?_cons]
  cases said change <;> rfl

theorem signedIn_id (account : AccountConfig) (credential : Credential) :
    (signedIn account credential).id = account.id := by
  cases credential <;> rfl

theorem signedIn_watchMailbox (account : AccountConfig) (credential : Credential) :
    (signedIn account credential).watchMailbox = account.watchMailbox := by
  cases credential <;> rfl

/-- An account that is saved is there, and watches what it did unless it says otherwise. -/
theorem mem_upsertInto_self (account : AccountConfig) (accounts : List AccountConfig) :
    ∃ watch, { account with watchMailbox := watch } ∈ upsertInto account accounts ∧
      (account.watchMailbox.isSome → watch = account.watchMailbox) := by
  induction accounts with
  | nil => exact ⟨account.watchMailbox, List.mem_singleton.mpr rfl, fun _ => rfl⟩
  | cons existing rest ih =>
    unfold upsertInto
    split
    · refine ⟨account.watchMailbox.or existing.watchMailbox, List.mem_cons_self, fun hsome => ?_⟩
      obtain ⟨mailbox, hmailbox⟩ := Option.isSome_iff_exists.mp hsome
      rw [hmailbox, Option.some_or]
    · obtain ⟨watch, hmem, hwatch⟩ := ih
      exact ⟨watch, List.mem_cons_of_mem _ hmem, hwatch⟩

/-- Saving an account leaves the others alone. -/
theorem mem_upsertInto_other {account other : AccountConfig} (h : other.id ≠ account.id)
    (accounts : List AccountConfig) :
    other ∈ upsertInto account accounts ↔ other ∈ accounts := by
  have hne : ∀ watch, other ≠ { account with watchMailbox := watch } := by
    rintro watch rfl
    exact h rfl
  induction accounts with
  | nil => simpa [upsertInto] using hne account.watchMailbox
  | cons existing rest ih =>
    unfold upsertInto
    split
    · next hsame =>
      have hexisting : other ≠ existing := fun heq => h (heq ▸ hsame)
      rw [List.mem_cons, List.mem_cons]
      simp only [hne, hexisting, false_or]
    · rw [List.mem_cons, List.mem_cons]
      exact or_congr Iff.rfl ih

theorem Work.holds_run (c : Config) (w : Work) : w.holds (w.run c).accounts := by
  cases w with
  | saveAccount account credential =>
    obtain ⟨watch, hmem, hwatch⟩ := mem_upsertInto_self (signedIn account credential) c.accounts
    rw [signedIn_watchMailbox] at hwatch
    exact ⟨watch, hmem, hwatch⟩
  | removeAccount id =>
    intro account hmem
    simpa using (List.mem_filter.mp hmem).2

/-- What a task does leaves the accounts alone that it is not about. -/
theorem Work.mem_run {c : Config} {w : Work} {account : AccountConfig} (h : account.id ≠ w.about) :
    account ∈ (w.run c).accounts ↔ account ∈ c.accounts := by
  cases w with
  | saveAccount saved credential =>
    exact mem_upsertInto_other (by rw [signedIn_id]; exact h) c.accounts
  | removeAccount id =>
    exact ⟨fun hmem => (List.mem_filter.mp hmem).1,
      fun hmem => List.mem_filter.mpr ⟨hmem, decide_eq_true h⟩⟩

theorem Work.holds_other {c : Config} {w other : Work} (hother : other.about ≠ w.about)
    (h : other.holds c.accounts) : other.holds (w.run c).accounts := by
  cases other with
  | saveAccount account credential =>
    obtain ⟨watch, hmem, hwatch⟩ := h
    refine ⟨watch, (Work.mem_run ?_).mpr hmem, hwatch⟩
    rw [signedIn_id]
    exact hother
  | removeAccount id =>
    intro account hmem heq
    exact h account ((Work.mem_run (heq ▸ hother)).mp hmem) heq

theorem client_apply (c : Config) (change : Change) :
    (change.apply c).googleOauth = (clientOf change).getD c.googleOauth := by
  cases change with
  | work w => cases w <;> rfl
  | trustSender header trusted =>
    rw [Change.apply, googleOauth_trustSender]
    rfl
  | saveClient clientId clientSecret => rfl

theorem contains_setImageTrusted (c : Esmail.Config) (sender address : List Char) (trusted : Bool) :
    (c.setImageTrusted sender trusted).1.imageTrustedSenders.contains address =
      if sender.map RustText.toAsciiLowercase = address then trusted
      else c.imageTrustedSenders.contains address := by
  unfold Esmail.Config.setImageTrusted
  by_cases heq : sender.map RustText.toAsciiLowercase = address
  · rw [if_pos heq, heq]
    cases trusted with
    | true =>
      simp only [if_true]
      split
      · assumption
      · exact List.contains_iff_mem.mpr List.mem_cons_self
    | false => simp
  · rw [if_neg heq]
    cases trusted with
    | true =>
      simp only [if_true]
      split
      · rfl
      · rw [List.contains_cons, beq_eq_false_iff_ne.mpr (Ne.symm heq), Bool.false_or]
    | false => simp [Ne.symm heq]

theorem toConfig_run (c : Config) (w : Work) : (w.run c).toConfig = c.toConfig := by
  cases w <;> rfl

theorem senders_apply (c : Config) (change : Change) (address : List Char) :
    (change.apply c).imageTrustedSenders.contains address =
      (decision address change).getD (c.imageTrustedSenders.contains address) := by
  cases change with
  | work w =>
    rw [Change.apply, toConfig_run]
    rfl
  | saveClient clientId clientSecret =>
    rw [Change.apply, saveClient]
    rfl
  | trustSender header trusted =>
    simp only [Change.apply, trustSender, setSenderTrusted, decision]
    cases header.senderAddress with
    | none => rfl
    | some sender =>
      rw [contains_setImageTrusted, Option.map_some]
      simp only [Option.some.injEq]
      split <;> rfl

theorem about_of_lastOf {id : AccountId} {done : List Change} {w : Work}
    (h : lastOf (workOn id) done = some w) : w.about = id := by
  obtain ⟨change, -, hchange⟩ := List.exists_of_findSome?_eq_some h
  cases change with
  | work w' =>
    simp only [workOn] at hchange
    split at hchange
    · next habout => exact Option.some.inj hchange ▸ habout
    · cases hchange
  | trustSender header trusted => cases hchange
  | saveClient clientId clientSecret => cases hchange

theorem holds_apply {c : Config} {done : List Change}
    (h : ∀ id w, lastOf (workOn id) done = some w → w.holds c.accounts) (change : Change)
    {id : AccountId} {w : Work} (hlast : lastOf (workOn id) (done ++ [change]) = some w) :
    w.holds (change.apply c).accounts := by
  rw [lastOf_append] at hlast
  cases change with
  | work w' =>
    simp only [workOn] at hlast
    split at hlast
    · obtain rfl := Option.some.inj hlast
      exact Work.holds_run c w'
    · next hother =>
      rw [Option.none_or] at hlast
      exact Work.holds_other (fun heq => hother (heq ▸ about_of_lastOf hlast)) (h id w hlast)
  | trustSender header trusted =>
    rw [show workOn id (.trustSender header trusted) = none from rfl, Option.none_or] at hlast
    rw [Change.apply, accounts_trustSender]
    exact h id w hlast
  | saveClient clientId clientSecret =>
    rw [show workOn id (.saveClient clientId clientSecret) = none from rfl, Option.none_or] at hlast
    exact h id w hlast

/-- The changes, one after another, are contained in what they amount to. -/
theorem contains_foldl (first : Config) (done : List Change) :
    Contains (done.foldl Change.apply first) done := by
  induction done using List.reverseRecOn with
  | nil =>
    exact ⟨fun _ _ h => absurd h (by simp [lastOf]), fun _ _ h => absurd h (by simp [lastOf]),
      fun _ h => absurd h (by simp [lastOf])⟩
  | append_singleton done change ih =>
    rw [List.foldl_append, List.foldl_cons, List.foldl_nil]
    refine ⟨fun id w => holds_apply ih.accounts change, fun address trusted hlast => ?_,
      fun client hlast => ?_⟩
    · rw [lastOf_append] at hlast
      rw [senders_apply]
      cases hdecision : decision address change with
      | some decided =>
        rw [hdecision] at hlast
        exact Option.some.inj hlast
      | none =>
        rw [hdecision] at hlast
        exact ih.senders address trusted hlast
    · rw [lastOf_append] at hlast
      rw [client_apply]
      cases hclient : clientOf change with
      | some saved =>
        rw [hclient] at hlast
        exact Option.some.inj hlast
      | none =>
        rw [hclient] at hlast
        exact ih.client client hlast

/-! ## 3. The machine -/

/-- A task: what it does, the copy it has, and whether its outcome is still reported. -/
structure Task where
  work : Work
  config : Config
  reports : Bool
  deriving DecidableEq

/-- The window's configuration, the last `config.toml`, the background writer's queue and what it is
about to write, the tasks, the outcomes on their way, and the changes that were made since `first`. -/
structure Store where
  memory : Config
  file : Config
  queue : List Config
  writing : Option Config
  tasks : List Task
  outcomes : List Config
  first : Config
  done : List Change
  deriving DecidableEq

/-- What the user asks for, and what the tasks and the writer do. -/
inductive Action
  | connect (account : AccountConfig) (credential : Credential)
  | remove (id : AccountId)
  | abort (task : Nat)
  | fail (task : Nat)
  | save (task : Nat)
  | outcome
  | trustSender (header : MailHeader) (trusted : Bool)
  | saveClient (clientId clientSecret : String)
  | receive
  | write

namespace Store

/-- The configuration that the changes amount to. -/
def intended (s : Store) : Config := s.done.foldl Change.apply s.first

/-- A task begins, on a copy of the configuration. -/
def begin (s : Store) (work : Work) : Store :=
  { s with tasks := s.tasks ++ [⟨work, s.memory, true⟩] }

/-- A task has written its file; what it reports is on its way, unless it was aborted. -/
def saved (s : Store) (i : Nat) (task : Task) : Store :=
  { s with
    file := task.work.run task.config
    tasks := s.tasks.eraseIdx i
    outcomes := if task.reports then s.outcomes ++ [task.work.run task.config] else s.outcomes
    done := s.done ++ [.work task.work] }

/-- `ConfigSaver::save`. -/
def configSaver (s : Store) : Store := { s with queue := s.queue ++ [s.memory] }

/-- A connect that is aborted reports nothing; if its file was being written, it is written still. -/
def abort (s : Store) (i : Nat) (task : Task) : Option Store :=
  match task.work with
  | .saveAccount _ _ => some { s with tasks := s.tasks.set i { task with reports := false } }
  | .removeAccount _ => none

/-- `Request::Save`. -/
def settingsRequest (s : Store) (clientId clientSecret : String) : Store :=
  let s :=
    { s with
      memory := Settings.saveClient s.memory clientId clientSecret
      done := s.done ++ [Change.saveClient clientId clientSecret] }
  s.configSaver

/-- `App::trust_sender`, for the message on screen. -/
def trust (s : Store) (header : MailHeader) (trusted : Bool) : Store :=
  let (memory, changed) := Settings.trustSender s.memory header trusted
  let s := { s with memory := memory, done := s.done ++ [Change.trustSender header trusted] }
  if changed then s.configSaver else s

def step (s : Store) : Action → Option Store
  | .connect account credential => some (s.begin (.saveAccount account credential))
  | .remove id => some (s.begin (.removeAccount id))
  | .abort i => (s.tasks[i]?).bind (s.abort i)
  | .fail i => if i < s.tasks.length then some { s with tasks := s.tasks.eraseIdx i } else none
  | .save i => (s.tasks[i]?).map (s.saved i)
  | .outcome =>
    match s.outcomes with
    | [] => none
    | config :: outcomes => some { s with memory := config, outcomes := outcomes }
  | .trustSender header trusted => some (s.trust header trusted)
  | .saveClient clientId clientSecret => some (s.settingsRequest clientId clientSecret)
  | .receive =>
    match s.queue with
    | [] => none
    | config :: queue => some { s with queue := queue, writing := some config }
  | .write => s.writing.map fun config => { s with file := config, writing := none }

def machine : Machine Store Action :=
  ⟨fun s => ∃ first, s = ⟨first, first, [], none, [], [], first, []⟩, step⟩

/-- Every task, outcome and write has come to its end. -/
def finished (s : Store) : Prop :=
  s.tasks = [] ∧ s.outcomes = [] ∧ s.queue = [] ∧ s.writing = none

end Store

/-! ## 4. Nothing is lost -/

/-- Trusting a sender twice, or no longer trusting a stranger, changes nothing. -/
theorem setImageTrusted_unchanged {c : Esmail.Config} {address : List Char} {trusted : Bool}
    (h : (c.setImageTrusted address trusted).2 = false) :
    (c.setImageTrusted address trusted).1 = c := by
  unfold Esmail.Config.setImageTrusted at h ⊢
  cases trusted with
  | true =>
    simp only [if_true] at h ⊢
    split
    · rfl
    · next habsent =>
      rw [if_neg habsent] at h
      cases h
  | false =>
    have habsent : address.map RustText.toAsciiLowercase ∉ c.imageTrustedSenders := by
      simpa using h
    have hkept : c.imageTrustedSenders.filter (· != address.map RustText.toAsciiLowercase) =
        c.imageTrustedSenders :=
      List.filter_eq_self.mpr fun sender hsender =>
        bne_iff_ne.mpr fun heq => habsent (heq ▸ hsender)
    exact congrArg Esmail.Config.mk hkept

/-- A decision that changes nothing leaves the configuration as it is. -/
theorem trustSender_unchanged {c : Config} {header : MailHeader} {trusted : Bool}
    (h : (trustSender c header trusted).2 = false) : (trustSender c header trusted).1 = c := by
  have hsenders : (setSenderTrusted c.toConfig header trusted).1 = c.toConfig := by
    simp only [trustSender] at h
    unfold setSenderTrusted at h ⊢
    cases haddress : header.senderAddress with
    | none => rfl
    | some address =>
      rw [haddress] at h
      exact setImageTrusted_unchanged h
  simp only [trustSender, hsenders]

namespace Store

/-- What the background writer will have written last: what waits in its queue, else what it is about to
write, else the file. -/
def newest (s : Store) : Config := (s.queue.getLast?.or s.writing).getD s.file

/-- A task writes only what it still reports, on a copy that the memory equals still, while the writer is
idle and no other outcome is on its way; and nothing is changed while an outcome is on its way. -/
def undisturbed (s : Store) : Action → Prop
  | .save i =>
    s.outcomes = [] ∧ s.queue = [] ∧ s.writing = none ∧
      ∀ task ∈ s.tasks[i]?, task.config = s.memory ∧ task.reports = true
  | .trustSender _ _ | .saveClient _ _ => s.outcomes = []
  | _ => True

/-- Either the memory is up to date and the writer has it, or the one outcome on its way has it, and so
has the file. -/
def Kept (s : Store) : Prop :=
  (s.outcomes = [] ∧ s.memory = s.intended ∧ s.newest = s.intended) ∨
    (s.outcomes = [s.intended] ∧ s.file = s.intended ∧ s.queue = [] ∧ s.writing = none)

theorem intended_append (s : Store) (change : Change) :
    (s.done ++ [change]).foldl Change.apply s.first = change.apply s.intended := by
  rw [List.foldl_append]
  rfl

/-- A change of the memory, handed to the writer. -/
theorem Kept.change {s : Store} (h : Kept s) (hnone : s.outcomes = []) (change : Change) :
    Kept { s with memory := change.apply s.memory, done := s.done ++ [change] }.configSaver := by
  rcases h with ⟨-, hmemory, -⟩ | ⟨hsome, -⟩
  · refine .inl ⟨hnone, ?_, ?_⟩
    · rw [hmemory]
      exact (s.intended_append change).symm
    · rw [newest, configSaver, List.getLast?_concat, hmemory]
      exact (s.intended_append change).symm
  · rw [hnone] at hsome
    cases hsome

/-- A change that makes no difference. -/
theorem Kept.noted {s : Store} (h : Kept s) {change : Change}
    (hsame : change.apply s.intended = s.intended) :
    Kept { s with done := s.done ++ [change] } := by
  have hintended : ({ s with done := s.done ++ [change] } : Store).intended = s.intended :=
    (s.intended_append change).trans hsame
  rw [Kept, hintended]
  exact h

theorem Kept.trust {s : Store} (h : Kept s) (hnone : s.outcomes = []) (header : MailHeader)
    (trusted : Bool) : Kept (s.trust header trusted) := by
  unfold Store.trust
  simp only
  split
  · exact h.change hnone (.trustSender header trusted)
  · next hunchanged =>
    have hsame := trustSender_unchanged (Bool.not_eq_true _ ▸ hunchanged)
    rw [hsame]
    refine h.noted ?_
    rcases h with ⟨-, hmemory, -⟩ | ⟨hone, -⟩
    · rw [← hmemory]
      exact hsame
    · rw [hnone] at hone
      cases hone

theorem Kept.save {s : Store} (h : Kept s) {i : Nat} {task : Task} (hnone : s.outcomes = [])
    (hqueue : s.queue = []) (hwriting : s.writing = none) (hcopy : task.config = s.memory)
    (hreports : task.reports = true) : Kept (s.saved i task) := by
  rcases h with ⟨-, hmemory, -⟩ | ⟨hsome, -⟩
  · have hwritten : task.work.run task.config = (s.saved i task).intended := by
      rw [hcopy, hmemory]
      exact (s.intended_append (.work task.work)).symm
    refine .inr ⟨?_, hwritten, hqueue, hwriting⟩
    rw [← hwritten, saved, if_pos hreports, hnone]
    rfl
  · rw [hnone] at hsome
    cases hsome

theorem Kept.step {s s' : Store} {a : Action} (h : Kept s) (hok : undisturbed s a)
    (hst : s.step a = some s') : Kept s' := by
  cases a with
  | connect account credential => exact Option.some.inj hst ▸ h
  | remove id => exact Option.some.inj hst ▸ h
  | abort i =>
    obtain ⟨task, -, hst⟩ := Option.bind_eq_some_iff.mp hst
    unfold abort at hst
    split at hst
    · exact Option.some.inj hst ▸ h
    · cases hst
  | fail i =>
    simp only [Store.step] at hst
    split at hst
    · exact Option.some.inj hst ▸ h
    · cases hst
  | save i =>
    obtain ⟨task, htask, rfl⟩ := Option.map_eq_some_iff.mp hst
    obtain ⟨hnone, hqueue, hwriting, hcopy⟩ := hok
    exact h.save hnone hqueue hwriting (hcopy task htask).1 (hcopy task htask).2
  | outcome =>
    simp only [Store.step] at hst
    split at hst
    · cases hst
    · next config outcomes hsome =>
      obtain rfl := Option.some.inj hst
      rcases h with ⟨hnone, -⟩ | ⟨hone, hfile, hqueue, hwriting⟩
      · rw [hsome] at hnone
        cases hnone
      · obtain ⟨rfl, rfl⟩ := List.cons.inj (hsome.symm.trans hone)
        refine .inl ⟨rfl, rfl, ?_⟩
        rw [newest, hqueue, hwriting]
        exact hfile
  | trustSender header trusted => exact Option.some.inj hst ▸ h.trust hok header trusted
  | saveClient clientId clientSecret =>
    exact Option.some.inj hst ▸ h.change hok (.saveClient clientId clientSecret)
  | receive =>
    simp only [Store.step] at hst
    split at hst
    · cases hst
    · next config queue hqueue =>
      obtain rfl := Option.some.inj hst
      rcases h with ⟨hnone, hmemory, hnewest⟩ | ⟨-, -, hempty, -⟩
      · refine .inl ⟨hnone, hmemory, ?_⟩
        rw [newest, hqueue] at hnewest
        rw [newest]
        cases queue with
        | nil => exact hnewest
        | cons next queue =>
          rw [List.getLast?_cons_cons] at hnewest
          rw [List.getLast?_cons] at hnewest ⊢
          exact hnewest
      · rw [hqueue] at hempty
        cases hempty
  | write =>
    obtain ⟨config, hwriting, rfl⟩ := Option.map_eq_some_iff.mp hst
    rcases h with ⟨hnone, hmemory, hnewest⟩ | ⟨-, -, -, hidle⟩
    · refine .inl ⟨hnone, hmemory, ?_⟩
      rw [newest, hwriting] at hnewest
      rw [newest]
      cases hlast : s.queue.getLast? with
      | none =>
        rw [hlast] at hnewest
        exact hnewest
      | some last =>
        rw [hlast] at hnewest
        exact hnewest
    · rw [hwriting] at hidle
      cases hidle

theorem Kept.of_reach {s : Store} (h : machine.Reach undisturbed s) : Kept s := by
  refine h.invariant (P := Kept) ?_ fun s a s' _ hkept hok hst => hkept.step hok hst
  rintro s ⟨first, rfl⟩
  exact .inl ⟨rfl, rfl, rfl⟩

theorem Kept.finished {s : Store} (h : Kept s) (hfinished : s.finished) :
    s.memory = s.intended ∧ s.file = s.intended := by
  obtain ⟨-, hnone, hqueue, hwriting⟩ := hfinished
  rcases h with ⟨-, hmemory, hnewest⟩ | ⟨hone, -⟩
  · rw [newest, hqueue, hwriting] at hnewest
    exact ⟨hmemory, hnewest⟩
  · rw [hnone] at hone
    cases hone

/-- In a run whose tasks and changes do not get in each other's way, once everything has come to its
end, the memory and the file contain every change that was made.

At the end nothing waits, so by `Kept` both are what the changes amount to. -/
theorem changes_kept {s : Store} (h : machine.Reach undisturbed s) :
    s.finished → Contains s.memory s.done ∧ Contains s.file s.done := by
  intro hfinished
  obtain ⟨hmemory, hfile⟩ := (Kept.of_reach h).finished hfinished
  rw [hmemory, hfile]
  exact ⟨contains_foldl s.first s.done, contains_foldl s.first s.done⟩

instance (s : Store) : (a : Action) → Decidable (undisturbed s a)
  | .save i => inferInstanceAs (Decidable (_ ∧ _ ∧ _ ∧ ∀ task ∈ s.tasks[i]?, _ ∧ _))
  | .trustSender _ _ | .saveClient _ _ => inferInstanceAs (Decidable (s.outcomes = []))
  | .connect _ _ | .remove _ | .abort _ | .fail _ | .outcome | .receive | .write => isTrue trivial

instance (s : Store) : Decidable s.finished := inferInstanceAs (Decidable (_ ∧ _ ∧ _ ∧ _))

/-- An account. -/
def mine : AccountConfig :=
  { id := "me", displayName := "Me", imapHost := "imap", imapPort := 993, smtpHost := "smtp",
    username := "me" }

/-- A message of a newsletter. -/
def news : MailHeader := ⟨1, "", "News <news@example.com>", "", "", "", []⟩

/-- Such a run: a sender is trusted, the writer writes, and then an account is added. -/
theorem changes_kept_of_connect : ∃ s : Store,
    s.done = [.trustSender news true, .work (.saveAccount mine .password)] ∧ s.finished ∧
      Contains s.memory s.done ∧ Contains s.file s.done := by
  obtain ⟨s, hr, hp⟩ := Machine.exists_reach_of_trace machine undisturbed
    (s := ⟨{}, {}, [], none, [], [], {}, []⟩)
    [.trustSender news true, .connect mine .password, .receive, .write, .save 0, .outcome]
    (fun s => decide (s.done = [.trustSender news true, .work (.saveAccount mine .password)] ∧
      s.finished))
    ⟨{}, rfl⟩ (by decide)
  obtain ⟨hdone, hfinished⟩ := of_decide_eq_true hp
  exact ⟨s, hdone, hfinished, changes_kept hr hfinished⟩

/-- A sender is trusted while an account is signing in: when the account has been saved, neither the
memory nor the file says so any more. -/
theorem trust_lost : ¬ ∀ s : Store, machine.Reach Machine.any s →
    s.finished → Contains s.memory s.done ∧ Contains s.file s.done := by
  intro hall
  obtain ⟨s, hr, hp⟩ := Machine.exists_reach_of_trace machine Machine.any
    (s := ⟨{}, {}, [], none, [], [], {}, []⟩)
    [.connect mine .password, .trustSender news true, .receive, .write, .save 0, .outcome]
    (fun s => decide (s.finished ∧ s.memory.imageTrustedSenders = [] ∧
      lastOf (decision "news@example.com".toList) s.done = some true))
    ⟨{}, rfl⟩ (by decide)
  obtain ⟨hfinished, hlost, hlast⟩ := of_decide_eq_true hp
  have hkept := (hall s hr hfinished).1.senders _ _ hlast
  rw [hlost] at hkept
  cases hkept

end Store

end Esmail.Settings
