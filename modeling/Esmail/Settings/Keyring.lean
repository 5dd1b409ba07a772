/-
# Saving and removing an account, where the keyring or the disk refuses

`save_account` and `remove_account` of `account_setup.rs`, on the keyring and `config.toml`.  Nothing that
was done is taken back: the secrets are written and deleted one after another, and the configuration
last.  So an account that could sign in may be left with half of its secrets, or with the secrets of the
other way to sign in (`switch_locks_out`).

`failed_change_iff` says which failures leave a saved account as it was, whatever of the file was written:
for a save those in which the first secret is refused, or nothing before the failure has changed anything
(`SaveHarmless`); for a removal those that do not empty the file.  An account that is as it was signs in
as it did (`Keeps.secret`).

Each operation on the keyring or the file leaves the others alone (section 3), so what a failed save
leaves can be read off the operations that came before it: one equivalence for the configuration, which
comes last (`writeAccount_iff`), and one for each kind of secrets.

What the file says is a parameter (`parse`), of which only that an empty one has no accounts is used.  A
keyring operation that fails is taken to leave its entry as it was.
-/
import Esmail.Settings.Changes

namespace Esmail.Settings

/-! ## 1. The keyring and the file -/

/-- `SECRET_KINDS`; the entry of the keyring is `{account_id}:{kind}`. -/
inductive Kind
  | imap
  | smtp
  | oauth
  deriving DecidableEq, Repr

/-- `Auth`: a password, or a token source of which the refresh token is saved. -/
inductive Auth
  | password (password : String)
  | oauth (refreshToken : String) (issuedAt : Option Int)
  deriving DecidableEq, Repr

def Auth.credential : Auth → Credential
  | .password _ => .password
  | .oauth _ issuedAt => .oauth issuedAt

/-- The keyring, and the bytes of `config.toml` if there is one. -/
structure Disk where
  keyring : AccountId → Kind → Option String
  file : Option (List UInt8)

/-- Where `Config::save` fails, and what it is told. -/
inductive SaveFault
  | noDirectory
  | createDir (error : String)
  | serialize (error : String)
  | openFile (error : String)
  | write (error : String)
  deriving DecidableEq, Repr

def SaveFault.text : SaveFault → String
  | .noDirectory => "no config directory available"
  | .createDir error | .serialize error | .openFile error | .write error => error

/-- What is refused: the storing of a secret, its deletion, the saving of the configuration. -/
structure Faults where
  setPassword : Kind → Option String := fun _ => none
  deletePassword : Kind → Bool := fun _ => false
  save : Option SaveFault := none

/-- The file is opened, and so emptied, before the write fails. -/
def Faults.tears (f : Faults) : Bool :=
  match f.save with
  | some (.write _) => true
  | _ => false

/-- `keyring_failed`. -/
def keyringFailed (error : String) : String :=
  "Could not save the credentials to the OS keyring: " ++ error

namespace Disk

def put (d : Disk) (id : AccountId) (kind : Kind) (secret : Option String) : Disk :=
  { d with
    keyring := fun id' kind' => if id' = id ∧ kind' = kind then secret else d.keyring id' kind' }

/-- `secrets::set_password`. -/
def setPassword (f : Faults) (d : Disk) (id : AccountId) (kind : Kind) (secret : String) :
    Except String Unit × Disk :=
  match f.setPassword kind with
  | some error => (.error error, d)
  | none => (.ok (), d.put id kind (some secret))

/-- `secrets::delete_password`: nobody is told if it fails. -/
def deletePassword (f : Faults) (d : Disk) (id : AccountId) (kind : Kind) : Disk :=
  if f.deletePassword kind then d else d.put id kind none

/-- `Config::save`.  `std::fs::write` empties the file when it opens it, so of a write that fails there
are the first bytes. -/
def saveConfig (toml : Config → List UInt8) (f : Faults) (written : Nat) (d : Disk)
    (config : Config) : Except String Unit × Disk :=
  match f.save with
  | none => (.ok (), { d with file := some (toml config) })
  | some (.write error) => (.error error, { d with file := some ((toml config).take written) })
  | some fault => (.error fault.text, d)

/-- The end of `save_account`: the configuration with the account in it is saved. -/
def writeAccount (toml : Config → List UInt8) (f : Faults) (written : Nat) (d : Disk)
    (config : Config) (account : AccountConfig) : Except String Config × Disk :=
  let saved := config.upsertAccount account
  match d.saveConfig toml f written saved with
  | (.error error, d) => (.error ("Could not write config.toml: " ++ error), d)
  | (.ok (), d) => (.ok saved, d)

/-- `save_account`. -/
def saveAccount (toml : Config → List UInt8) (f : Faults) (written : Nat) (d : Disk)
    (config : Config) (account : AccountConfig) (auth : Auth) : Except String Config × Disk :=
  let account := signedIn account auth.credential
  match auth with
  | .oauth refreshToken _ =>
    match d.setPassword f account.id .oauth refreshToken with
    | (.error error, d) => (.error (keyringFailed error), d)
    | (.ok (), d) =>
      let d := d.deletePassword f account.id .imap
      let d := d.deletePassword f account.id .smtp
      d.writeAccount toml f written config account
  | .password password =>
    match d.setPassword f account.id .imap password with
    | (.error error, d) => (.error (keyringFailed error), d)
    | (.ok (), d) =>
      match d.setPassword f account.id .smtp password with
      | (.error error, d) => (.error (keyringFailed error), d)
      | (.ok (), d) =>
        let d := d.deletePassword f account.id .oauth
        d.writeAccount toml f written config account

/-- `remove_account`. -/
def removeAccount (toml : Config → List UInt8) (f : Faults) (written : Nat) (d : Disk)
    (config : Config) (id : AccountId) : Except String Config × Disk :=
  let saved := config.removeAccount id
  match d.saveConfig toml f written saved with
  | (.error error, d) => (.error ("Could not write config.toml: " ++ error), d)
  | (.ok (), d) => (.ok saved, [.imap, .smtp, .oauth].foldl (fun d kind => d.deletePassword f id kind) d)

/-! ## 2. What is read back -/

/-- `Config::load`: no file, or one that cannot be read, is a configuration with no accounts. -/
def load (parse : List UInt8 → Option Config) (d : Disk) : Config :=
  (d.file.bind parse).getD {}

/-- The account's entry of `config.toml`. -/
def entry (parse : List UInt8 → Option Config) (d : Disk) (id : AccountId) : Option AccountConfig :=
  (d.load parse).accounts.find? (·.id = id)

/-- The secret that `saved_auth` finds for an account. -/
def imapSecret (d : Disk) (account : AccountConfig) : Option String :=
  match account.auth with
  | .password => d.keyring account.id .imap
  | .googleOAuth => d.keyring account.id .oauth

/-- The secret that `smtp_account` finds: Google's, if the IMAP session has it. -/
def smtpSecret (d : Disk) (account : AccountConfig) : Option String :=
  match account.auth with
  | .password => d.keyring account.id .smtp
  | .googleOAuth =>
    match d.keyring account.id .oauth with
    | some refreshToken => some refreshToken
    | none => d.keyring account.id .smtp

/-- The account is as it was saved before. -/
structure Keeps (parse : List UInt8 → Option Config) (before after : Disk) (id : AccountId) : Prop where
  entry : after.entry parse id = before.entry parse id
  secrets : ∀ kind, after.keyring id kind = before.keyring id kind

/-- Such an account signs in with the secrets that it signed in with before. -/
theorem Keeps.secret {parse : List UInt8 → Option Config} {before after : Disk}
    {account : AccountConfig} (h : Keeps parse before after account.id) :
    after.imapSecret account = before.imapSecret account ∧
      after.smtpSecret account = before.smtpSecret account := by
  unfold imapSecret smtpSecret
  simp only [h.secrets, and_self]

theorem Keeps.refl (parse : List UInt8 → Option Config) (d : Disk) (id : AccountId) :
    Keeps parse d d id :=
  ⟨rfl, fun _ => rfl⟩

/-! ## 3. What each operation leaves -/

@[simp] theorem keyring_put (d : Disk) (id id' : AccountId) (kind kind' : Kind)
    (secret : Option String) :
    (d.put id kind secret).keyring id' kind' =
      if id' = id ∧ kind' = kind then secret else d.keyring id' kind' := rfl

@[simp] theorem file_put (d : Disk) (id : AccountId) (kind : Kind) (secret : Option String) :
    (d.put id kind secret).file = d.file := rfl

@[simp] theorem keyring_deletePassword (f : Faults) (d : Disk) (id : AccountId)
    (kind kind' : Kind) :
    (d.deletePassword f id kind).keyring id kind' =
      if kind' = kind ∧ f.deletePassword kind = false then none else d.keyring id kind' := by
  unfold deletePassword
  cases f.deletePassword kind <;> simp

@[simp] theorem file_deletePassword (f : Faults) (d : Disk) (id : AccountId) (kind : Kind) :
    (d.deletePassword f id kind).file = d.file := by
  unfold deletePassword
  split <;> rfl

theorem load_congr {parse : List UInt8 → Option Config} {d d' : Disk} (h : d'.file = d.file) :
    d'.load parse = d.load parse := by
  rw [load, load, h]

theorem entry_congr {parse : List UInt8 → Option Config} {d d' : Disk} (h : d'.file = d.file)
    (id : AccountId) : d'.entry parse id = d.entry parse id := by
  rw [entry, entry, load_congr h]

/-- A configuration that is refused is not written, or is torn: then nothing may be left of it. -/
theorem saveConfig_fault (toml : Config → List UInt8) {f : Faults} {fault : SaveFault}
    (hfault : f.save = some fault) (written : Nat) (d : Disk) (config : Config) :
    d.saveConfig toml f written config = (.error fault.text,
      if f.tears then { d with file := some ((toml config).take written) } else d) := by
  unfold saveConfig
  rw [hfault]
  cases fault <;> simp [Faults.tears, hfault, SaveFault.text]

/-- An account whose file is emptied is no longer there. -/
theorem entry_torn {parse : List UInt8 → Option Config}
    (hempty : ∀ c, parse [] = some c → c.accounts = []) {d : Disk} (h : d.file = some [])
    (id : AccountId) : d.entry parse id = none := by
  have hnone : (d.load parse).accounts = [] := by
    rw [load, h, Option.bind_some]
    cases hparse : parse [] with
    | none => rfl
    | some c => exact hempty c hparse
  rw [entry, hnone, List.find?_nil]

/-! ## 4. Which failures leave an account as it was -/

/-- To delete this secret changes nothing: there is none, or it cannot be deleted. -/
def Spared (f : Faults) (secrets : Kind → Option String) (kind : Kind) : Prop :=
  secrets kind = none ∨ f.deletePassword kind = true

/-- The first secret is refused, or a later operation is and those before it changed nothing, or
nothing is refused that is reported. -/
def SaveHarmless (f : Faults) (secrets : Kind → Option String) : Auth → Prop
  | .oauth refreshToken _ =>
    (f.setPassword .oauth).isSome ∨ f.save = none ∨
      secrets .oauth = some refreshToken ∧ Spared f secrets .imap ∧ Spared f secrets .smtp ∧
        f.tears = false
  | .password password =>
    (f.setPassword .imap).isSome ∨
      (f.setPassword .smtp).isSome ∧ secrets .imap = some password ∨
      f.setPassword .smtp = none ∧ (f.save = none ∨
        secrets .imap = some password ∧ secrets .smtp = some password ∧ Spared f secrets .oauth ∧
          f.tears = false)

theorem forall_kind {P : Kind → Prop} : (∀ kind, P kind) ↔ P .imap ∧ P .smtp ∧ P .oauth :=
  ⟨fun h => ⟨h .imap, h .smtp, h .oauth⟩, fun ⟨himap, hsmtp, hoauth⟩ kind => by
    cases kind <;> assumption⟩

variable {toml : Config → List UInt8} {parse : List UInt8 → Option Config} {f : Faults} {d : Disk}
  {config : Config} {account existing : AccountConfig}

/-- Where the configuration is refused at last, the account is as it was exactly if its secrets are, and
the file was not emptied. -/
theorem writeAccount_iff (hempty : ∀ c, parse [] = some c → c.accounts = []) {before : Disk}
    {id : AccountId} (hsaved : before.entry parse id = some existing)
    (hfile : d.file = before.file) :
    (∀ written error, (d.writeAccount toml f written config account).1 = .error error →
      Keeps parse before (d.writeAccount toml f written config account).2 id) ↔
      f.save = none ∨ f.tears = false ∧ ∀ kind, d.keyring id kind = before.keyring id kind := by
  unfold writeAccount
  cases hsave : f.save with
  | none => simp [saveConfig, hsave]
  | some fault =>
    simp only [saveConfig_fault toml hsave, reduceCtorEq, false_or]
    constructor
    · intro hkeeps
      have h := hkeeps 0 _ rfl
      cases htears : f.tears with
      | false =>
        rw [htears] at h
        exact ⟨rfl, h.secrets⟩
      | true =>
        have hentry := h.entry
        rw [htears, if_pos rfl, hsaved, entry_torn hempty (by rw [List.take_zero])] at hentry
        cases hentry
    · rintro ⟨htears, hsecrets⟩ written error -
      rw [htears, if_neg Bool.false_ne_true]
      exact ⟨entry_congr hfile id, hsecrets⟩

/-- What a sign-in with Google makes of the secrets is what they were. -/
theorem secrets_oauth_iff (f : Faults) (d : Disk) (id : AccountId) (refreshToken : String) :
    (∀ kind, (((d.put id .oauth (some refreshToken)).deletePassword f id .imap).deletePassword f id
        .smtp).keyring id kind = d.keyring id kind) ↔
      d.keyring id .oauth = some refreshToken ∧ Spared f (d.keyring id) .imap ∧
        Spared f (d.keyring id) .smtp := by
  simp only [forall_kind, keyring_deletePassword, keyring_put, Spared, reduceCtorEq, false_and,
    if_false, true_and, if_true]
  grind

/-- What a password makes of the secrets is what they were. -/
theorem secrets_password_iff (f : Faults) (d : Disk) (id : AccountId) (password : String) :
    (∀ kind, (((d.put id .imap (some password)).put id .smtp (some password)).deletePassword f id
        .oauth).keyring id kind = d.keyring id kind) ↔
      d.keyring id .imap = some password ∧ d.keyring id .smtp = some password ∧
        Spared f (d.keyring id) .oauth := by
  simp only [forall_kind, keyring_deletePassword, keyring_put, Spared, reduceCtorEq, false_and,
    if_false, true_and, if_true]
  grind

/-- Where the second password is refused, the first one has been stored. -/
theorem keeps_put_iff (id : AccountId) (secret : String) :
    Keeps parse d (d.put id .imap (some secret)) id ↔ d.keyring id .imap = some secret := by
  constructor
  · exact fun h => (h.secrets .imap).symm.trans (by simp)
  · intro h
    refine ⟨entry_congr (file_put ..) id, fun kind => ?_⟩
    rw [keyring_put]
    split
    · next hkind => rw [hkind.2, h]
    · rfl

/-- `save_account`, where it returns `Err`. -/
theorem failed_save_iff (hempty : ∀ c, parse [] = some c → c.accounts = [])
    (hsaved : d.entry parse account.id = some existing) (auth : Auth) :
    (∀ written error, (d.saveAccount toml f written config account auth).1 = .error error →
      Keeps parse d (d.saveAccount toml f written config account auth).2 account.id) ↔
      SaveHarmless f (d.keyring account.id) auth := by
  have hid := signedIn_id account auth.credential
  cases auth with
  | oauth refreshToken issuedAt =>
    cases htoken : f.setPassword .oauth with
    | some refused => simp [saveAccount, setPassword, htoken, SaveHarmless, Keeps.refl]
    | none =>
      simp only [saveAccount, setPassword, htoken, hid]
      rw [writeAccount_iff hempty hsaved (by simp), secrets_oauth_iff]
      simp only [SaveHarmless, htoken, Option.isSome_none, Bool.false_eq_true, false_or]
      exact or_congr Iff.rfl (by tauto)
  | password password =>
    cases himap : f.setPassword .imap with
    | some refused => simp [saveAccount, setPassword, himap, SaveHarmless, Keeps.refl]
    | none =>
      cases hsmtp : f.setPassword .smtp with
      | some refused => simp [saveAccount, setPassword, himap, hsmtp, SaveHarmless, hid, keeps_put_iff]
      | none =>
        simp only [saveAccount, setPassword, himap, hsmtp, hid]
        rw [writeAccount_iff hempty hsaved (by simp), secrets_password_iff]
        simp only [SaveHarmless, himap, hsmtp, Option.isSome_none, Bool.false_eq_true, false_or,
          false_and, true_and]
        exact or_congr Iff.rfl (by tauto)

/-- `remove_account`, where it returns `Err`. -/
theorem failed_remove_iff (hempty : ∀ c, parse [] = some c → c.accounts = []) {id : AccountId}
    (hsaved : d.entry parse id = some existing) :
    (∀ written error, (d.removeAccount toml f written config id).1 = .error error →
      (d.removeAccount toml f written config id).2.load parse = d.load parse ∧
        (d.removeAccount toml f written config id).2.keyring = d.keyring) ↔ f.tears = false := by
  unfold removeAccount
  cases hsave : f.save with
  | none => simp [saveConfig, hsave, Faults.tears]
  | some fault =>
    simp only [saveConfig_fault toml hsave]
    constructor
    · intro hleft
      have hload := (hleft 0 _ rfl).1
      by_contra htears
      have hentry : d.entry parse id = none := by
        rw [entry, ← hload, if_pos (Bool.not_eq_false _ ▸ htears)]
        exact entry_torn hempty (by rw [List.take_zero]) id
      rw [hsaved] at hentry
      cases hentry
    · rintro htears written error -
      rw [htears, if_neg Bool.false_ne_true]
      exact ⟨rfl, rfl⟩

/-- An account that has been saved is as it was after a change that fails, whatever of the file was
written, exactly in these cases.

For a save the cases depend on what the keyring held before: storing the secret that is there, and
deleting one that is not, change nothing.  For a removal they are those in which the file was not opened. -/
theorem failed_change_iff (hempty : ∀ c, parse [] = some c → c.accounts = [])
    (hsaved : d.entry parse account.id = some existing) (auth : Auth) :
    ((∀ written error, (d.saveAccount toml f written config account auth).1 = .error error →
        Keeps parse d (d.saveAccount toml f written config account auth).2 account.id) ↔
      SaveHarmless f (d.keyring account.id) auth) ∧
      ((∀ written error, (d.removeAccount toml f written config account.id).1 = .error error →
        (d.removeAccount toml f written config account.id).2.load parse = d.load parse ∧
          (d.removeAccount toml f written config account.id).2.keyring = d.keyring) ↔
      f.tears = false) :=
  ⟨failed_save_iff hempty hsaved auth, failed_remove_iff hempty hsaved⟩

/-- The account of somebody who signs in with a password. -/
def alice : AccountConfig :=
  { id := "alice@example.com@imap.example.com", displayName := "Alice",
    imapHost := "imap.example.com", imapPort := 993, smtpHost := "smtp.example.com",
    username := "alice@example.com" }

/-- Its `config.toml`. -/
def aliceFile : List UInt8 :=
  ("theme = \"System\"\nimage_trusted_senders = []\ncollapsed_folders = []\n\n[[accounts]]\n" ++
    "id = \"alice@example.com@imap.example.com\"\ndisplay_name = \"Alice\"\n" ++
    "imap_host = \"imap.example.com\"\nimap_port = 993\nimap_tls = \"Ssl\"\n" ++
    "smtp_host = \"smtp.example.com\"\nsmtp_port = 465\nsmtp_tls = \"Ssl\"\n" ++
    "username = \"alice@example.com\"\nauth = \"Password\"\n").toList.map fun c =>
      c.toNat.toUInt8

/-- How that file is read, and an empty one. -/
def parseAlice (bytes : List UInt8) : Option Config :=
  if bytes = aliceFile then some { accounts := [alice] }
  else if bytes = [] then some {}
  else none

/-- The disk with it, and a password for both servers. -/
def aliceDisk : Disk where
  keyring id kind := if id = alice.id ∧ kind ≠ .oauth then some "secret" else none
  file := some aliceFile

theorem entry_aliceDisk : aliceDisk.entry parseAlice alice.id = some alice := by
  rw [entry, load, aliceDisk, Option.bind_some, parseAlice, if_pos rfl]
  simp

theorem parseAlice_nil (c : Config) (h : parseAlice [] = some c) : c.accounts = [] := by
  have hfile : aliceFile ≠ [] := by
    unfold aliceFile
    rw [ne_eq, List.map_eq_nil_iff, String.toList_append, List.append_eq_nil_iff]
    rintro ⟨-, hlast⟩
    rw [String.toList_ofList] at hlast
    cases hlast
  rw [parseAlice, if_neg hfile.symm, if_pos rfl] at h
  exact Option.some.inj h ▸ rfl

/-- The same password again, and `config.toml` cannot be opened. -/
theorem failed_change_iff_same : ∃ f : Faults, f.save = some (.openFile "Access is denied.") ∧
    (∀ written error, (aliceDisk.saveAccount (fun _ => aliceFile) f written
        { accounts := [alice] } alice (.password "secret")).1 = .error error →
      Keeps parseAlice aliceDisk (aliceDisk.saveAccount (fun _ => aliceFile) f written
        { accounts := [alice] } alice (.password "secret")).2 alice.id) := by
  refine ⟨{ save := some (.openFile "Access is denied.") }, rfl, ?_⟩
  refine (failed_change_iff parseAlice_nil entry_aliceDisk (.password "secret")).1.mpr ?_
  exact .inr (.inr ⟨rfl, .inr ⟨rfl, rfl, .inl rfl, rfl⟩⟩)

/-- Google's token has been stored and the passwords have been deleted when `config.toml` cannot be
opened; it still says that the account has a password. -/
theorem switch_locks_out : ¬ ∀ (toml : Config → List UInt8) (parse : List UInt8 → Option Config)
    (f : Faults) (d : Disk) (config : Config) (account existing : AccountConfig) (auth : Auth),
    (∀ c, parse [] = some c → c.accounts = []) → d.entry parse account.id = some existing →
    (∀ written error, (d.saveAccount toml f written config account auth).1 = .error error →
        Keeps parse d (d.saveAccount toml f written config account auth).2 account.id) ∧
      ∀ written error, (d.removeAccount toml f written config account.id).1 = .error error →
        (d.removeAccount toml f written config account.id).2.load parse = d.load parse ∧
          (d.removeAccount toml f written config account.id).2.keyring = d.keyring := by
  intro hall
  have hkeeps := (hall (fun _ => aliceFile) parseAlice { save := some (.openFile "Access is denied.") }
    aliceDisk { accounts := [alice] } { alice with auth := .googleOAuth } alice (.oauth "token" none)
    parseAlice_nil entry_aliceDisk).1 0 _ rfl
  exact absurd (hkeeps.secrets .imap) (by decide)

end Disk

end Esmail.Settings
