/-
# The account form, and what it replaces

`AccountForm` of `account_form.rs`, and `App::connect` as far as the configuration has to do with it.
A new account's id is made from the address and the host in the form; an account that is edited keeps
the id it has, whatever becomes of its address and host.  So an id says where an account came from and
not what it is now, and a new account may come under the id of another one, which `upsert_account`
then replaces (`renamed_account_replaced`).

`adding_replaces_iff` is about every configuration that the form can make, and every form that is
accepted.  A new account leaves every account as it was, exactly where none has the id that the form
makes, or the one that has it is already what the form describes; and those of another address or host,
exactly where none of them has that id.  The two are told apart because reconnecting an account by adding
it again is meant to replace it.

That ids never occur twice is the invariant (`Config.Distinct`).  With it, saving an account changes just
the one that has its id (`mem_upsertInto_over`), and what it becomes is the same account where the form
describes it (`saved_eq_iff`).

Passwords and tokens are not part of a configuration: see `Keyring.lean`.
-/
import Esmail.Library.RustSplit
import Esmail.Settings.Changes

namespace Esmail.Settings

open RustText Transition

/-! ## 1. The form -/

/-- `GMAIL_IMAP_HOST`. -/
def gmailImapHost : String := "imap.gmail.com"

structure AccountForm where
  displayName : String := ""
  email : String := ""
  auth : AuthKind := .password
  password : String := ""
  imapHost : String := ""
  imapPort : String := "993"
  smtpHost : String := ""
  smtpPort : String := "465"
  smtpTls : TlsMode := .ssl
  deriving DecidableEq, Repr

/-- A field a `FormError` points at. -/
inductive Field
  | email
  | password
  | imapHost
  | imapPort
  | smtpHost
  | smtpPort
  deriving DecidableEq, Repr

structure FormError where
  field : Field
  message : String
  deriving DecidableEq, Repr

/-- `derive_smtp_host`. -/
def deriveSmtpHost (imapHost : String) : String :=
  if "imap.".toList.isPrefixOf imapHost.toList then
    "smtp." ++ String.ofList (imapHost.toList.drop 5)
  else "smtp." ++ imapHost

/-- `AccountConfig::new`. -/
def AccountConfig.new (displayName imapHost : String) (imapPort : Nat) (username : String) :
    AccountConfig where
  id := username ++ "@" ++ imapHost
  displayName := displayName
  smtpHost := deriveSmtpHost imapHost
  imapHost := imapHost
  imapPort := imapPort
  username := username

/-- `str::trim`, on a field. -/
def trimmed (s : String) : String := String.ofList (trim s.toList)

/-- `str::parse::<u16>`: digits, after a plus sign at most. -/
def parseU16 (s : List Char) : Option Nat :=
  let digits := match s with
    | '+' :: rest => rest
    | _ => s
  if digits = [] ∨ digits.any (fun c => !c.isDigit) then none
  else
    let n := digits.foldl (fun n c => n * 10 + (c.toNat - '0'.toNat)) 0
    if n ≤ 65535 then some n else none

/-- `parse_port`. -/
def parsePort (text : String) : Option Nat := (parseU16 (trim text.toList)).filter (· ≠ 0)

/-- `is_host`. -/
def isHost (text : String) : Bool :=
  text ≠ "" && !text.toList.any isWhitespace && !text.toList.contains '/'

/-- What `to_account` takes for an address. -/
def isAddress (email : String) : Bool :=
  let (localPart, domain) := (rsplitAt '@' email.toList).getD ([], [])
  localPart ≠ [] && domain.contains '.' && !email.toList.any isWhitespace

namespace AccountForm

/-- `AccountForm::id`. -/
def id (form : AccountForm) : AccountId := trimmed form.email ++ "@" ++ trimmed form.imapHost

/-- The name an account gets: the address when left empty. -/
@[irreducible] def name (form : AccountForm) : String :=
  if trimmed form.displayName = "" then trimmed form.email else trimmed form.displayName

/-- The account that is checked: `base` with what the form says. -/
def fill (form : AccountForm) (base : AccountConfig) (imapPort smtpPort : Nat) : AccountConfig :=
  { base with
    displayName := form.name
    username := trimmed form.email
    imapHost := trimmed form.imapHost
    imapPort := imapPort
    imapTls := .ssl
    smtpHost := trimmed form.smtpHost
    smtpPort := smtpPort
    smtpTls := form.smtpTls
    auth := form.auth }

/-- `AccountForm::to_account`. -/
def toAccount (form : AccountForm) (base : Option AccountConfig) : Except FormError AccountConfig :=
  let email := trimmed form.email
  let imapHost := trimmed form.imapHost
  if !isAddress email then
    .error ⟨.email, "Enter your full email address, such as you@example.com."⟩
  else if !isHost imapHost then
    .error ⟨.imapHost, "Enter the IMAP server's host name, such as imap.example.com."⟩
  else
    match parsePort form.imapPort with
    | none => .error ⟨.imapPort, "The IMAP port must be a number from 1 to 65535."⟩
    | some imapPort =>
      if !isHost (trimmed form.smtpHost) then
        .error ⟨.smtpHost, "Enter the SMTP server's host name, such as smtp.example.com."⟩
      else
        match parsePort form.smtpPort with
        | none => .error ⟨.smtpPort, "The SMTP port must be a number from 1 to 65535."⟩
        | some smtpPort =>
          if form.auth = .password ∧ form.password = "" then
            .error ⟨.password, "Enter the account's password."⟩
          else if form.auth = .googleOAuth ∧ imapHost ≠ gmailImapHost then
            .error ⟨.imapHost, "Sign in with Google only works for Gmail (imap.gmail.com). " ++
              "Choose Password for other servers."⟩
          else
            .ok (form.fill (base.getD (.new form.name imapHost imapPort email)) imapPort smtpPort)

end AccountForm

/-! ## 2. The changes that go through the form -/

/-- What an account signs in with; `issuedAt` is when Google's token was issued, if it was just now. -/
def credentialOf (account : AccountConfig) (issuedAt : Option Int) : Credential :=
  match account.auth with
  | .password => .password
  | .googleOAuth => .oauth issuedAt

/-- `App::connect`, where the account can sign in and is saved. -/
def connect (c : Config) (form : AccountForm) (editing : Option AccountId) (issuedAt : Option Int) :
    Except FormError Config :=
  let id := editing.getD form.id
  let base := c.accounts.find? (·.id = id)
  (form.toAccount base).map fun account =>
    c.upsertAccount (signedIn account (credentialOf account issuedAt))

/-- What the user does with accounts. -/
inductive FormAction
  | add (form : AccountForm) (issuedAt : Option Int)
  | edit (id : AccountId) (form : AccountForm) (issuedAt : Option Int)
  | remove (id : AccountId)
  deriving DecidableEq, Repr

namespace Config

def formStep (c : Config) : FormAction → Option Config
  | .add form issuedAt => (connect c form none issuedAt).toOption
  | .edit id form issuedAt => (connect c form (some id) issuedAt).toOption
  | .remove id => some (c.removeAccount id)

/-- The accounts from the first one on. -/
def formMachine : Machine Config FormAction := ⟨fun c => c.accounts = [], formStep⟩

end Config

/-! ## 3. What the form makes of an account -/

namespace AccountForm

/-- What `to_account` returns: the account it was given, or a new one, with what the form says. -/
theorem toAccount_ok {form : AccountForm} {base : Option AccountConfig} {account : AccountConfig}
    (h : form.toAccount base = .ok account) :
    ∃ imapPort smtpPort, parsePort form.imapPort = some imapPort ∧
      parsePort form.smtpPort = some smtpPort ∧
      account = form.fill (base.getD (.new form.name (trimmed form.imapHost) imapPort
        (trimmed form.email))) imapPort smtpPort := by
  simp only [toAccount] at h
  split at h
  · cases h
  · split at h
    · cases h
    · split at h
      · cases h
      · next imapPort himap =>
        split at h
        · cases h
        · split at h
          · cases h
          · next smtpPort hsmtp =>
            split at h
            · cases h
            · split at h
              · cases h
              · obtain rfl := Except.ok.inj h
                exact ⟨imapPort, smtpPort, himap, hsmtp, rfl⟩

/-- A new account has the id of the form, an account that was there keeps its own. -/
theorem id_toAccount {form : AccountForm} {base : Option AccountConfig} {account : AccountConfig}
    (h : form.toAccount base = .ok account) : account.id = base.elim form.id (·.id) := by
  obtain ⟨imapPort, smtpPort, -, -, rfl⟩ := toAccount_ok h
  cases base <;> rfl

/-- The account is already what the form says, and signs in as the form does. -/
structure Describes (form : AccountForm) (issuedAt : Option Int) (account : AccountConfig) : Prop where
  displayName : account.displayName = form.name
  username : account.username = trimmed form.email
  imapHost : account.imapHost = trimmed form.imapHost
  imapPort : parsePort form.imapPort = some account.imapPort
  imapTls : account.imapTls = .ssl
  smtpHost : account.smtpHost = trimmed form.smtpHost
  smtpPort : parsePort form.smtpPort = some account.smtpPort
  smtpTls : account.smtpTls = form.smtpTls
  auth : account.auth = form.auth
  issuedAt : match form.auth with
    | .password => account.oauthTokenIssuedAt = none
    | .googleOAuth => ∀ seconds, issuedAt = some seconds → account.oauthTokenIssuedAt = some seconds

/-- The address and the host of the form are those of the account. -/
def IsOf (form : AccountForm) (account : AccountConfig) : Prop :=
  account.username = trimmed form.email ∧ account.imapHost = trimmed form.imapHost

/-- What is saved over an account is that account exactly when the form describes it. -/
theorem saved_eq_iff {form : AccountForm} {issuedAt : Option Int} {existing account : AccountConfig}
    (h : form.toAccount (some existing) = .ok account) :
    signedIn account (credentialOf account issuedAt) = existing ↔
      form.Describes issuedAt existing := by
  obtain ⟨imapPort, smtpPort, himap, hsmtp, rfl⟩ := toAccount_ok h
  obtain ⟨id, name, imapHost, imapPort', imapTls, smtpHost, smtpPort', smtpTls, username, auth, watch,
    issued⟩ := existing
  constructor
  · intro heq
    cases hauth : form.auth <;>
      simp only [fill, Option.getD_some, credentialOf, signedIn, hauth, AccountConfig.mk.injEq] at heq
    all_goals
      obtain ⟨-, rfl, rfl, rfl, rfl, rfl, rfl, rfl, rfl, rfl, -, hissued⟩ := heq
      refine ⟨rfl, rfl, rfl, himap, rfl, rfl, hsmtp, rfl, hauth.symm, ?_⟩
      simp only [hauth]
    · exact hissued.symm
    · rintro seconds rfl
      exact hissued.symm
  · rintro ⟨rfl, rfl, rfl, himap', rfl, rfl, hsmtp', rfl, hauth, hissued⟩
    obtain rfl := Option.some.inj (himap.symm.trans himap')
    obtain rfl := Option.some.inj (hsmtp.symm.trans hsmtp')
    simp only at hauth
    cases hform : form.auth <;>
      simp only [hform] at hissued hauth <;>
      simp only [fill, Option.getD_some, credentialOf, signedIn, hform, hauth, hissued,
        AccountConfig.mk.injEq, true_and]
    cases issuedAt with
    | none => rfl
    | some seconds => exact (hissued seconds rfl).symm

theorem Describes.isOf {form : AccountForm} {issuedAt : Option Int} {account : AccountConfig}
    (h : form.Describes issuedAt account) : form.IsOf account :=
  ⟨h.username, h.imapHost⟩

end AccountForm

/-! ## 4. Ids -/

/-- No two accounts have one id. -/
def Config.Distinct (c : Config) : Prop := (c.accounts.map (·.id)).Nodup

/-- Saving an account adds its id, unless there is one of that id. -/
theorem ids_upsertInto (account : AccountConfig) (accounts : List AccountConfig) :
    (upsertInto account accounts).map (·.id) =
      if account.id ∈ accounts.map (·.id) then accounts.map (·.id)
      else accounts.map (·.id) ++ [account.id] := by
  induction accounts with
  | nil => rfl
  | cons existing rest ih =>
    unfold upsertInto
    by_cases hsame : existing.id = account.id
    · rw [if_pos hsame, if_pos (hsame ▸ List.mem_cons_self)]
      simp only [List.map_cons, hsame]
    · have hmem : account.id ∈ existing.id :: rest.map (·.id) ↔ account.id ∈ rest.map (·.id) :=
        List.mem_cons.trans (or_iff_right (Ne.symm hsame))
      rw [if_neg hsame, List.map_cons, ih]
      simp only [List.map_cons, hmem]
      split <;> rfl

theorem Config.Distinct.upsert {c : Config} (h : c.Distinct) (account : AccountConfig) :
    (c.upsertAccount account).Distinct := by
  unfold Distinct upsertAccount
  rw [ids_upsertInto]
  split
  · exact h
  · next hfresh => exact List.nodup_append.mpr ⟨h, List.nodup_singleton _, fun id hmem other hother heq =>
      hfresh (List.mem_singleton.mp hother ▸ heq ▸ hmem)⟩

theorem Config.Distinct.remove {c : Config} (h : c.Distinct) (id : AccountId) :
    (c.removeAccount id).Distinct :=
  h.sublist (List.filter_sublist.map _)

theorem connect_ok {c c' : Config} {form : AccountForm} {editing : Option AccountId}
    {issuedAt : Option Int} (h : connect c form editing issuedAt = .ok c') :
    ∃ account, form.toAccount (c.accounts.find? (·.id = editing.getD form.id)) = .ok account ∧
      c' = c.upsertAccount (signedIn account (credentialOf account issuedAt)) := by
  unfold connect at h
  simp only at h
  cases haccount : form.toAccount (c.accounts.find? (·.id = editing.getD form.id)) with
  | error problem =>
    rw [haccount] at h
    cases h
  | ok account =>
    rw [haccount] at h
    exact ⟨account, rfl, (Except.ok.inj h).symm⟩

theorem Config.ok_of_toOption {result : Except FormError Config} {c : Config}
    (h : result.toOption = some c) : result = .ok c := by
  cases result with
  | error problem => cases h
  | ok config => exact congrArg Except.ok (Option.some.inj h)

/-- No run of the form makes one id of two accounts. -/
theorem Config.Distinct.of_reach {c : Config} (h : formMachine.Reach Machine.any c) : c.Distinct := by
  refine h.invariant (P := Config.Distinct) ?_ fun c action c' _ hdistinct _ hst => ?_
  · intro c hnone
    rw [Distinct, show c.accounts = [] from hnone]
    exact List.nodup_nil
  · cases action with
    | add form issuedAt | edit id form issuedAt =>
      simp only [formMachine, formStep] at hst
      obtain ⟨account, -, rfl⟩ := connect_ok (ok_of_toOption hst)
      exact hdistinct.upsert _
    | remove id =>
      obtain rfl := Option.some.inj hst
      exact hdistinct.remove id

/-! ## 5. What a new account replaces -/

/-- An account of the id of the one that is saved becomes that one. -/
theorem mem_upsertInto_over {account existing : AccountConfig} (hid : existing.id = account.id)
    {accounts : List AccountConfig} (hdistinct : (accounts.map (·.id)).Nodup)
    (hmem : existing ∈ accounts) :
    { account with watchMailbox := account.watchMailbox.or existing.watchMailbox } ∈
      upsertInto account accounts := by
  induction accounts with
  | nil => cases hmem
  | cons first rest ih =>
    rw [List.map_cons, List.nodup_cons] at hdistinct
    unfold upsertInto
    split
    · next hsame =>
      rcases List.mem_cons.mp hmem with rfl | hrest
      · exact List.mem_cons_self
      · exact absurd (List.mem_map.mpr ⟨existing, hrest, hid.trans hsame.symm⟩) hdistinct.1
    · next hother =>
      rcases List.mem_cons.mp hmem with rfl | hrest
      · exact absurd hid hother
      · exact List.mem_cons_of_mem _ (ih hdistinct.2 hrest)

theorem eq_of_id {accounts : List AccountConfig} (hdistinct : (accounts.map (·.id)).Nodup)
    {account other : AccountConfig} (hmem : account ∈ accounts) (hother : other ∈ accounts)
    (hid : account.id = other.id) : account = other :=
  List.inj_on_of_nodup_map hdistinct hmem hother hid

theorem find?_id {accounts : List AccountConfig} (hdistinct : (accounts.map (·.id)).Nodup)
    {account : AccountConfig} (hmem : account ∈ accounts) :
    accounts.find? (·.id = account.id) = some account := by
  have hsome : (accounts.find? (·.id = account.id)).isSome :=
    List.find?_isSome.mpr ⟨account, hmem, by simp⟩
  obtain ⟨found, hfound⟩ := Option.isSome_iff_exists.mp hsome
  have hsame : found.id = account.id := by simpa using List.find?_some hfound
  rw [hfound, eq_of_id hdistinct (List.mem_of_find?_eq_some hfound) hmem hsame]

/-- Whether there was one of it or not, an account that is added has the id of the form. -/
theorem id_of_new {c : Config} {form : AccountForm} {new : AccountConfig}
    (h : form.toAccount (c.accounts.find? (·.id = form.id)) = .ok new) : new.id = form.id := by
  rw [AccountForm.id_toAccount h]
  cases hfind : c.accounts.find? (·.id = form.id) with
  | none => rfl
  | some found => simpa using List.find?_some hfind

/-- An account is left as it is by a new one that has another id, or that the account already is. -/
theorem mem_add_iff {c c' : Config} {form : AccountForm} {issuedAt : Option Int}
    (hdistinct : c.Distinct) (hadd : connect c form none issuedAt = .ok c')
    {account : AccountConfig} (hmem : account ∈ c.accounts) :
    account ∈ c'.accounts ↔ (account.id = form.id → form.Describes issuedAt account) := by
  obtain ⟨new, hnew, rfl⟩ := connect_ok hadd
  rw [Option.getD_none] at hnew
  have hsigned := signedIn_id new (credentialOf new issuedAt)
  have hnewId := id_of_new hnew
  by_cases hid : account.id = form.id
  · rw [← hid, find?_id hdistinct hmem] at hnew
    rw [← hid] at hnewId
    have hwatch : new.watchMailbox = account.watchMailbox := by
      obtain ⟨imapPort, smtpPort, -, -, rfl⟩ := AccountForm.toAccount_ok hnew
      rfl
    have hsaved := mem_upsertInto_over (hsigned.trans hnewId).symm hdistinct hmem
    rw [show ({ signedIn new (credentialOf new issuedAt) with
        watchMailbox := (signedIn new (credentialOf new issuedAt)).watchMailbox.or
          account.watchMailbox } : AccountConfig) = signedIn new (credentialOf new issuedAt) by
      rw [signedIn_watchMailbox, hwatch, Option.or_self, ← hwatch,
        ← signedIn_watchMailbox new (credentialOf new issuedAt)]] at hsaved
    rw [← AccountForm.saved_eq_iff hnew]
    constructor
    · intro hleft _
      exact eq_of_id (hdistinct.upsert _) hsaved hleft (hsigned.trans hnewId)
    · intro heq
      rw [← heq hid]
      exact hsaved
  · have hother : account.id ≠ (signedIn new (credentialOf new issuedAt)).id := by
      rw [hsigned, hnewId]
      exact hid
    exact ⟨fun _ h => absurd h hid, fun _ => (mem_upsertInto_other hother c.accounts).mpr hmem⟩

/-- A new account leaves every account as it was exactly if none of them has the id that the form
makes, or the one that has it is already what the form describes.  It leaves those of another address or
another host as they were exactly if none of them has that id. -/
theorem adding_replaces_iff {c c' : Config} {form : AccountForm} {issuedAt : Option Int}
    (hr : Config.formMachine.Reach Machine.any c)
    (hadd : Config.formMachine.step c (.add form issuedAt) = some c') :
    ((∀ account ∈ c.accounts, account ∈ c'.accounts) ↔
        ∀ account ∈ c.accounts, account.id = form.id → form.Describes issuedAt account) ∧
      ((∀ account ∈ c.accounts, ¬ form.IsOf account → account ∈ c'.accounts) ↔
        ∀ account ∈ c.accounts, account.id = form.id → form.IsOf account) ∧
      c'.Distinct := by
  have hconnect : connect c form none issuedAt = .ok c' := by
    simp only [Config.formMachine, Config.formStep] at hadd
    exact Config.ok_of_toOption hadd
  have hiff : ∀ account ∈ c.accounts, (account ∈ c'.accounts ↔
      (account.id = form.id → form.Describes issuedAt account)) :=
    fun account hmem => mem_add_iff (.of_reach hr) hconnect hmem
  refine ⟨forall₂_congr hiff, ?_, .of_reach (hr.step trivial hadd)⟩
  constructor
  · intro hleft account hmem hid
    by_contra hother
    exact hother ((hiff account hmem).mp (hleft account hmem hother) hid).isOf
  · intro hnone account hmem hother
    exact (hiff account hmem).mpr fun hid => absurd (hnone account hmem hid) hother

/-- A form as it is filled in for an address. -/
def formFor (email : String) : AccountForm where
  email := email
  password := "secret"
  imapHost := "imap.example.com"
  smtpHost := "smtp.example.com"

/-- A second account, of another address. -/
theorem adding_replaces_iff_second : ∃ c c' : Config,
    c.accounts.map (·.id) = ["alice@example.com@imap.example.com"] ∧
      Config.formMachine.step c (.add (formFor "bob@example.com") none) = some c' ∧
      (∀ account ∈ c.accounts, account ∈ c'.accounts) ∧ c'.Distinct := by
  obtain ⟨c, c', hr, hadd, hp⟩ := Machine.exists_step_of_trace Config.formMachine Machine.any
    (s := {}) [.add (formFor "alice@example.com") none] (.add (formFor "bob@example.com") none)
    (fun c _ => decide (c.accounts.map (·.id) = ["alice@example.com@imap.example.com"] ∧
      ∀ account ∈ c.accounts, account.id ≠ (formFor "bob@example.com").id)) rfl (by decide)
  obtain ⟨hids, hother⟩ := of_decide_eq_true hp
  obtain ⟨hall, -, hdistinct⟩ := adding_replaces_iff hr hadd
  exact ⟨c, c', hids, hadd, hall.mpr fun account hmem hid => absurd hid (hother account hmem), hdistinct⟩

/-- Alice's account is given the address of Bob; when Alice is added again, Bob is gone. -/
theorem renamed_account_replaced : ¬ ∀ c c' : Config, ∀ form issuedAt,
    Config.formMachine.Reach Machine.any c →
    Config.formMachine.step c (.add form issuedAt) = some c' →
    (∀ account ∈ c.accounts, account ∈ c'.accounts) ∧ c'.Distinct := by
  intro hall
  obtain ⟨c, c', hr, hadd, hp⟩ := Machine.exists_step_of_trace Config.formMachine Machine.any
    (s := {}) [.add (formFor "alice@example.com") none,
      .edit "alice@example.com@imap.example.com" (formFor "bob@example.com") none]
    (.add (formFor "alice@example.com") none)
    (fun c c' => decide (c.accounts.map (·.username) = ["bob@example.com"] ∧
      c'.accounts.map (·.username) = ["alice@example.com"])) rfl (by decide)
  obtain ⟨hbob, halice⟩ := of_decide_eq_true hp
  obtain ⟨account, hmem, husername⟩ := List.mem_map.mp (hbob ▸ List.mem_singleton_self "bob@example.com")
  have hkept := List.mem_map_of_mem (f := (·.username)) ((hall c c' _ _ hr hadd).1 account hmem)
  rw [halice, husername] at hkept
  exact absurd hkept (by decide)

end Esmail.Settings
