/-
# The configuration

`AccountConfig` and `Config` of `config.rs`.  A configuration is a value: whoever saves one writes
all of it, whatever it was made from.
-/
import Esmail.Library.RustText
import Esmail.Outgoing.Message
import Esmail.Reading.Reader

namespace Esmail.Settings

/-! ## 1. Accounts -/

/-- `TlsMode`. -/
inductive TlsMode
  | ssl
  | startTls
  | none
  deriving DecidableEq, Repr

/-- `AuthKind`. -/
inductive AuthKind
  | password
  | googleOAuth
  deriving DecidableEq, Repr

/-- `OAuthClientConfig`. -/
structure OAuthClientConfig where
  clientId : String
  clientSecret : Option String
  deriving DecidableEq, Repr

/-- `AccountConfig`. -/
structure AccountConfig where
  id : AccountId
  displayName : String
  imapHost : String
  imapPort : Nat
  imapTls : TlsMode := .ssl
  smtpHost : String
  smtpPort : Nat := 465
  smtpTls : TlsMode := .ssl
  username : String
  auth : AuthKind := .password
  watchMailbox : Option String := none
  oauthTokenIssuedAt : Option Int := none
  deriving DecidableEq, Repr

/-! ## 2. The configuration -/

/-- `Config`, less the theme, the window and the folded folders, which no change below is about. -/
structure Config extends Esmail.Config where
  accounts : List AccountConfig := []
  googleOauth : Option OAuthClientConfig := none
  deriving DecidableEq, Repr

/-- The loop of `upsert_account`: a mailbox to watch that was set by hand stays. -/
def upsertInto (account : AccountConfig) : List AccountConfig → List AccountConfig
  | [] => [account]
  | existing :: rest =>
    if existing.id = account.id then
      { account with watchMailbox := account.watchMailbox.or existing.watchMailbox } :: rest
    else existing :: upsertInto account rest

namespace Config

/-- `Config::upsert_account`. -/
def upsertAccount (c : Config) (account : AccountConfig) : Config :=
  { c with accounts := upsertInto account c.accounts }

/-- `Config::remove_account`. -/
def removeAccount (c : Config) (id : AccountId) : Config :=
  { c with accounts := c.accounts.filter fun account => account.id ≠ id }

end Config

/-- `google_client_config`: the fields of the Settings window, unless the id is blank. -/
def googleClientConfig (clientId clientSecret : String) : Option OAuthClientConfig :=
  let id := RustText.trim clientId.toList
  let secret := RustText.trim clientSecret.toList
  if id.isEmpty then none
  else some ⟨String.ofList id, if secret.isEmpty then none else some (String.ofList secret)⟩

end Esmail.Settings
