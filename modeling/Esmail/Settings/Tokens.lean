/-
# Access tokens over time

`TokenSource` of `oauth.rs`, and the answer of the token endpoint as `parse_token_response` judges it.
One source is shared by all the connections of an account: the actor, its body worker, the IDLE watch
and every send ask it for a token, in any order and at any time.  The lock on the cached token is held
across the request, so that a connection that waits finds what another one has fetched.

A connection may be given up while its request is out (the IDLE watch is dropped with its session).
The request is not taken back: it runs on the blocking pool, and its answer is thrown away.  `Action`
has both, and `refresh_tokens_up_to_date` says what is lost by it.

How JSON is read is a parameter (`fromStr`); an `Instant` counts nanoseconds.
-/
import Esmail.Library.Ledger
import Esmail.Library.Machine

namespace Esmail.OAuth.Tokens

open Transition

/-! ## 1. The answer of the token endpoint -/

/-- `OAuthClient`. -/
structure OAuthClient where
  clientId : String
  clientSecret : Option String
  authUrl : String
  tokenUrl : String
  scope : String
  deriving DecidableEq, Repr

/-- `TokenGrant`. -/
structure TokenGrant where
  accessToken : String
  expiresAt : Nat
  refreshToken : Option String
  deriving DecidableEq, Repr

/-- `TokenResponse`. -/
structure TokenResponse where
  accessToken : Option String := none
  expiresIn : Option Nat := none
  refreshToken : Option String := none
  error : Option String := none
  errorDescription : Option String := none
  deriving DecidableEq, Repr

/-- What a refresh fails with: `SignInExpired`, or any other error. -/
inductive Error
  | signInExpired (text : String)
  | other (text : String)
  deriving DecidableEq, Repr

/-- One second of an `Instant`. -/
def second : Nat := 1000000000

/-- `EXPIRY_MARGIN`. -/
def expiryMargin : Nat := 60 * second

/-- `MAX_TOKEN_LIFETIME_SECS`. -/
def maxTokenLifetimeSecs : Nat := 24 * 60 * 60

/-- What came back of a request: the two errors of the transport, or a status and a body. -/
inductive Reply
  | unreachable
  | cutOff
  | answered (status : Nat) (body : String)
  deriving DecidableEq, Repr

/-- `client_form`. -/
def clientForm (client : OAuthClient) : List (String × String) :=
  ("client_id", client.clientId) ::
    match client.clientSecret with
    | some secret => [("client_secret", secret)]
    | none => []

section

variable (fromStr : String → Option TokenResponse)

/-- `parse_token_response`. -/
def parseTokenResponse (status : Nat) (body : String) (now : Nat) : Except Error TokenGrant :=
  match fromStr body with
  | none =>
    .error (.other s!"the OAuth token endpoint answered HTTP {status} with something that is not JSON")
  | some parsed =>
    match parsed.error with
    | some error =>
      let detail := (parsed.errorDescription.map fun d => s!": {d}").getD ""
      if error = "invalid_grant" ∨ error = "unauthorized_client" then
        .error (.signInExpired
          s!"Google no longer accepts the saved sign-in{detail}. Sign in with Google again.")
      else if error = "invalid_client" then
        .error (.other
          s!"Google rejected the OAuth client ID or secret{detail}. Check them under Settings.")
      else .error (.other s!"Google sign-in failed ({error}{detail})")
    | none =>
      match parsed.accessToken with
      | none => .error (.other s!"the OAuth token response had no access_token (HTTP {status})")
      | some accessToken =>
        .ok ⟨accessToken,
          now + min (parsed.expiresIn.getD 3600) maxTokenLifetimeSecs * second, parsed.refreshToken⟩

/-- `post_token_form`, from what came back. -/
def postTokenForm (reply : Reply) (now : Nat) : Except Error TokenGrant :=
  match reply with
  | .unreachable => .error (.other "could not reach the OAuth token endpoint")
  | .cutOff => .error (.other "could not read the OAuth token response")
  | .answered status body => parseTokenResponse fromStr status body now

/-- The only answers that grant a token. -/
theorem parseTokenResponse_ok {status : Nat} {body : String} {now : Nat} {grant : TokenGrant}
    (h : parseTokenResponse fromStr status body now = .ok grant) :
    ∃ parsed, fromStr body = some parsed ∧ parsed.error = none ∧
      parsed.accessToken = some grant.accessToken ∧ parsed.refreshToken = grant.refreshToken ∧
      grant.expiresAt = now + min (parsed.expiresIn.getD 3600) maxTokenLifetimeSecs * second := by
  simp only [parseTokenResponse] at h
  split at h
  · cases h
  · rename_i parsed hparsed
    split at h
    · split at h
      · cases h
      · split at h <;> cases h
    · rename_i herror
      split at h
      · cases h
      · rename_i accessToken haccess
        cases h
        exact ⟨parsed, hparsed, herror, haccess, rfl, rfl⟩

/-- No grant is believed to last longer than a day, and none has lapsed before it is read. -/
theorem expiresAt_of_postTokenForm {reply : Reply} {now : Nat} {grant : TokenGrant}
    (h : postTokenForm fromStr reply now = .ok grant) :
    now ≤ grant.expiresAt ∧ grant.expiresAt ≤ now + maxTokenLifetimeSecs * second := by
  cases reply with
  | unreachable => cases h
  | cutOff => cases h
  | answered status body =>
    obtain ⟨parsed, -, -, -, -, hexpires⟩ := parseTokenResponse_ok fromStr h
    rw [hexpires]
    exact ⟨Nat.le_add_right _ _,
      Nat.add_le_add_left (Nat.mul_le_mul_right _ (Nat.min_le_right _ _)) _⟩

end

/-! ## 2. The source of an account's tokens -/

/-- `TokenSource`.  A rotation callback is known by a number. -/
structure TokenSource where
  client : OAuthClient
  refreshToken : String
  issuedAt : Option Int
  access : Option (String × Nat)
  rotation : Option Nat
  deriving DecidableEq, Repr

namespace TokenSource

/-- `TokenSource::from_refresh_token`. -/
def fromRefreshToken (client : OAuthClient) (refreshToken : String) : TokenSource :=
  ⟨client, refreshToken, none, none, none⟩

/-- `TokenSource::from_grant`; `nowUnix` is the clock. -/
def fromGrant (client : OAuthClient) (grant : TokenGrant) (nowUnix : Int) :
    Except Error TokenSource :=
  match grant.refreshToken with
  | none =>
    .error (.other
      ("Google did not return a refresh token, so the sign-in cannot be kept. Remove esmail under " ++
        "Google Account > Security > Third-party access and sign in again."))
  | some refreshToken =>
    .ok ⟨client, refreshToken, some nowUnix, some (grant.accessToken, grant.expiresAt), none⟩

/-- `TokenSource::on_rotation`. -/
def onRotation (source : TokenSource) (callback : Nat) : TokenSource :=
  { source with rotation := some callback }

/-- What `access_token` finds in the cache once it has the lock. -/
def cached (source : TokenSource) (now : Nat) : Option String :=
  match source.access with
  | some (token, expiresAt) => if now + expiryMargin < expiresAt then some token else none
  | none => none

/-- The form of a refresh. -/
def refreshForm (client : OAuthClient) (refreshToken : String) : List (String × String) :=
  clientForm client ++ [("grant_type", "refresh_token"), ("refresh_token", refreshToken)]

/-- `TokenSource::rotate`: the source, and whom it tells of which token. -/
def rotate (source : TokenSource) (rotated : String) : TokenSource × Option (Nat × String) :=
  ({ source with refreshToken := rotated }, source.rotation.map fun callback => (callback, rotated))

/-- What `access_token` does with a grant. -/
def take (source : TokenSource) (grant : TokenGrant) : TokenSource × Option (Nat × String) :=
  let (source, told) :=
    match grant.refreshToken with
    | some rotated => source.rotate rotated
    | none => (source, none)
  ({ source with access := some (grant.accessToken, grant.expiresAt) }, told)

theorem cached_eq_some {source : TokenSource} {now : Nat} {token : String} :
    source.cached now = some token ↔
      ∃ expiresAt, source.access = some (token, expiresAt) ∧ now + expiryMargin < expiresAt := by
  unfold cached
  split
  · rename_i token' expiresAt haccess
    split
    · rename_i hlt
      simp only [haccess, Option.some.injEq, Prod.mk.injEq]
      exact ⟨fun h => ⟨expiresAt, ⟨h, rfl⟩, hlt⟩, fun ⟨_, ⟨h, _⟩, _⟩ => h⟩
    · rename_i hge
      simp only [haccess, Option.some.injEq, Prod.mk.injEq, reduceCtorEq, false_iff]
      rintro ⟨expiresAt', ⟨-, rfl⟩, hlt⟩
      exact hge hlt
  · rename_i hnone
    simp [hnone]

theorem cached_eq_none {source : TokenSource} {now : Nat} (h : source.cached now = none)
    {token : String} {expiresAt : Nat} (haccess : source.access = some (token, expiresAt)) :
    expiresAt ≤ now + expiryMargin := by
  simp only [cached, haccess] at h
  split at h
  · cases h
  · omega

@[simp] theorem take_access (source : TokenSource) (grant : TokenGrant) :
    (source.take grant).1.access = some (grant.accessToken, grant.expiresAt) := rfl

@[simp] theorem take_client (source : TokenSource) (grant : TokenGrant) :
    (source.take grant).1.client = source.client := by
  unfold take
  cases grant.refreshToken <;> rfl

@[simp] theorem take_rotation (source : TokenSource) (grant : TokenGrant) :
    (source.take grant).1.rotation = source.rotation := by
  unfold take
  cases grant.refreshToken <;> rfl

@[simp] theorem take_refreshToken (source : TokenSource) (grant : TokenGrant) :
    (source.take grant).1.refreshToken = grant.refreshToken.getD source.refreshToken := by
  unfold take
  cases grant.refreshToken <;> rfl

theorem take_told (source : TokenSource) (grant : TokenGrant) :
    (source.take grant).2 = grant.refreshToken.bind fun rotated =>
      source.rotation.map fun callback => (callback, rotated) := by
  unfold take
  cases grant.refreshToken <;> rfl

end TokenSource

/-! ## 3. Those that share it -/

/-- What a run leaves behind, in order. -/
inductive Entry
  /-- The sign-in itself, whose grant the source starts from. -/
  | signedIn (grant : TokenGrant)
  | sent (caller : Nat) (form : List (String × String)) (at_ : Nat)
  | failed (caller : Nat) (e : Error)
  | taken (caller : Nat) (grant : TokenGrant) (at_ : Nat)
  | told (callback : Nat) (token : String)
  | handed (caller : Nat) (token : String) (at_ : Nat)
  deriving DecidableEq, Repr

/-- Who holds the lock, and what `post_token_form` has returned for its request. -/
structure Holder where
  caller : Nat
  outcome : Option (Except Error TokenGrant)

/-- A source, and the connections that share it.  `saved`, `issued`, `presented` and `log` are the
books: the refresh token the source started with; the refresh tokens in the answers that came back;
at each request, the one in its form and the one issued last; and what happened. -/
structure Sharers where
  source : TokenSource
  now : Nat
  waiting : List Nat := []
  holder : Option Holder := none
  strays : Nat := 0
  saved : String
  issued : List String := []
  presented : List (String × String) := []
  log : List Entry := []

/-- The refresh token in what came of a request. -/
def rotationOf : Except Error TokenGrant → List String
  | .ok grant => grant.refreshToken.toList
  | .error _ => []

inductive Action
  /-- A connection asks for a token. -/
  | call (caller : Nat)
  /-- The connection that waits longest gets the lock. -/
  | acquire
  /-- The request of the holder is answered, or fails. -/
  | answer (reply : Reply)
  /-- The holder hears of it. -/
  | resume
  /-- A connection is given up. -/
  | abandon (caller : Nat)
  /-- A request is answered whose connection was given up. -/
  | answerStray (reply : Reply)
  | onRotation (callback : Nat)
  | elapse (time : Nat)

namespace Sharers

/-- The refresh token that the provider has issued last. -/
def lastIssued (s : Sharers) : String := s.issued.getLast?.getD s.saved

/-- The holder's part of `access_token` after its request. -/
def finish (s : Sharers) (caller : Nat) : Except Error TokenGrant → Sharers
  | .error e => { s with holder := none, log := s.log ++ [.failed caller e] }
  | .ok grant =>
    let (source, told) := s.source.take grant
    { s with
      source, holder := none
      log := s.log ++ [.taken caller grant s.now] ++
        (told.map fun t => Entry.told t.1 t.2).toList ++ [.handed caller grant.accessToken s.now] }

/-- The first part of `access_token`, for the connection that has just got the lock. -/
def look (s : Sharers) (caller : Nat) : Sharers :=
  match s.source.cached s.now with
  | some token => { s with log := s.log ++ [.handed caller token s.now] }
  | none =>
    { s with
      holder := some ⟨caller, none⟩
      presented := s.presented ++ [(s.source.refreshToken, s.lastIssued)]
      log := s.log ++
        [.sent caller (TokenSource.refreshForm s.source.client s.source.refreshToken) s.now] }

variable (fromStr : String → Option TokenResponse)

def step (s : Sharers) : Action → Option Sharers
  | .call caller => some { s with waiting := s.waiting ++ [caller] }
  | .acquire =>
    match s.holder, s.waiting with
    | none, caller :: waiting => some ({ s with waiting }.look caller)
    | _, _ => none
  | .answer reply =>
    match s.holder with
    | some ⟨caller, none⟩ =>
      let outcome := postTokenForm fromStr reply s.now
      some { s with
        holder := some ⟨caller, some outcome⟩, issued := s.issued ++ rotationOf outcome }
    | _ => none
  | .resume =>
    match s.holder with
    | some ⟨caller, some outcome⟩ => some (s.finish caller outcome)
    | _ => none
  | .abandon caller =>
    match s.holder with
    | some holder =>
      if holder.caller = caller then
        some { s with
          holder := none, strays := if holder.outcome.isNone then s.strays + 1 else s.strays }
      else some { s with waiting := s.waiting.filter (· ≠ caller) }
    | none => some { s with waiting := s.waiting.filter (· ≠ caller) }
  | .answerStray reply =>
    if 0 < s.strays then
      some { s with
        strays := s.strays - 1
        issued := s.issued ++ rotationOf (postTokenForm fromStr reply s.now) }
    else none
  | .onRotation callback => some { s with source := s.source.onRotation callback }
  | .elapse time => some { s with now := s.now + time }

/-- A source restored from the keyring. -/
def restored (client : OAuthClient) (refreshToken : String) (now : Nat) : Sharers where
  source := .fromRefreshToken client refreshToken
  now := now
  saved := refreshToken

/-- A source that starts with a sign-in. -/
def signedIn (source : TokenSource) (grant : TokenGrant) (now : Nat) : Sharers where
  source := source
  now := now
  saved := source.refreshToken
  log := [.signedIn grant]

/-- What a source may start as: restored from the keyring, or from a sign-in. -/
def Init (s : Sharers) : Prop :=
  (∃ client refreshToken now, s = restored client refreshToken now) ∨
    ∃ client grant nowUnix now source,
      TokenSource.fromGrant client grant nowUnix = .ok source ∧ s = signedIn source grant now

def machine : Machine Sharers Action := ⟨Init, step fromStr⟩

end Sharers

/-! ## 4. What an entry of the books rests on -/

/-- The grant that the source has from here on. -/
def Entry.grant : Entry → Option TokenGrant
  | .signedIn grant | .taken _ grant _ => some grant
  | _ => none

/-- The refresh token that the source has from here on. -/
def Entry.rotated : Entry → Option String
  | .taken _ grant _ => grant.refreshToken
  | _ => none

/-- The token that a rotation callback is told. -/
def Entry.heard : Entry → Option String
  | .told _ token => some token
  | _ => none

/-- The grants of a log, in order. -/
def grantsOf (log : List Entry) : List TokenGrant := log.filterMap Entry.grant

/-- The refresh tokens that a log takes over. -/
def rotationsOf (log : List Entry) : List String := log.filterMap Entry.rotated

/-- The refresh tokens that a rotation callback was told. -/
def heardOf (log : List Entry) : List String := log.filterMap Entry.heard

/-- The refresh token after a log. -/
def refreshAfter (saved : String) (log : List Entry) : String := (rotationsOf log).getLast?.getD saved

/-- The longest that a grant is believed to last. -/
def maxLifetime : Nat := maxTokenLifetimeSecs * second

/-- Why an entry may follow the log before it.  A request is sent by one connection at a time, with the
refresh token that came last, and only when every token there ever was has lapsed or is about to; a
grant is taken by the connection whose request was the last thing that happened; and a token that is
handed out is that of the grant taken last, good for more than the margin, or brought that very moment
by the connection it is handed to. -/
inductive Justified (client : OAuthClient) (saved : String) (before : List Entry) : Entry → Prop
  | signedIn (grant : TokenGrant) : before = [] → Justified client saved before (.signedIn grant)
  | sent (caller at_ : Nat) : (∀ grant ∈ grantsOf before, grant.expiresAt ≤ at_ + expiryMargin) →
      Justified client saved before
        (.sent caller (TokenSource.refreshForm client (refreshAfter saved before)) at_)
  | failed (caller : Nat) (e : Error) (form : List (String × String)) (sentAt : Nat) :
      before.getLast? = some (.sent caller form sentAt) →
      Justified client saved before (.failed caller e)
  | taken (caller at_ : Nat) (grant : TokenGrant) (form : List (String × String)) (sentAt : Nat) :
      before.getLast? = some (.sent caller form sentAt) → sentAt ≤ grant.expiresAt →
      grant.expiresAt ≤ at_ + maxLifetime → Justified client saved before (.taken caller grant at_)
  | told (callback caller at_ : Nat) (grant : TokenGrant) (token : String) :
      before.getLast? = some (.taken caller grant at_) → grant.refreshToken = some token →
      Justified client saved before (.told callback token)
  | cached (caller at_ : Nat) (grant : TokenGrant) :
      (grantsOf before).getLast? = some grant → at_ + expiryMargin < grant.expiresAt →
      Justified client saved before (.handed caller grant.accessToken at_)
  | brought (caller at_ : Nat) (grant : TokenGrant) :
      (grantsOf before).getLast? = some grant → .taken caller grant at_ ∈ before →
      Justified client saved before (.handed caller grant.accessToken at_)

section

variable {client : OAuthClient} {saved : String}

@[simp] theorem grantsOf_append (log more : List Entry) :
    grantsOf (log ++ more) = grantsOf log ++ grantsOf more := List.filterMap_append ..

theorem grantsOf_concat_of_none {log : List Entry} {e : Entry} (h : e.grant = none) :
    grantsOf (log ++ [e]) = grantsOf log := by
  simp [grantsOf, h]

@[simp] theorem rotationsOf_append (log more : List Entry) :
    rotationsOf (log ++ more) = rotationsOf log ++ rotationsOf more := List.filterMap_append ..

@[simp] theorem heardOf_append (log more : List Entry) :
    heardOf (log ++ more) = heardOf log ++ heardOf more := List.filterMap_append ..

theorem rotationsOf_concat_of_none {log : List Entry} {e : Entry} (h : e.rotated = none) :
    rotationsOf (log ++ [e]) = rotationsOf log := by
  simp [rotationsOf, h]

theorem heardOf_concat_of_none {log : List Entry} {e : Entry} (h : e.heard = none) :
    heardOf (log ++ [e]) = heardOf log := by
  simp [heardOf, h]

theorem refreshAfter_taken (log more : List Entry) (caller at_ : Nat) (grant : TokenGrant)
    (h : rotationsOf more = []) :
    refreshAfter saved (log ++ .taken caller grant at_ :: more) =
      grant.refreshToken.getD (refreshAfter saved log) := by
  have hcons : rotationsOf (.taken caller grant at_ :: more) = grant.refreshToken.toList := by
    have hmore : more.filterMap Entry.rotated = [] := h
    cases hrotated : grant.refreshToken <;>
      simp [rotationsOf, Entry.rotated, hrotated, hmore]
  unfold refreshAfter
  rw [rotationsOf_append, hcons]
  cases grant.refreshToken <;> simp

end

/-! ## 5. The books of a run -/

namespace Sharers

/-- The request of the holder is the last thing that happened, and by then every grant had lapsed or
was about to. -/
structure Asking (s : Sharers) (holder : Holder) : Prop where
  sent : ∃ form sentAt, s.log.getLast? = some (.sent holder.caller form sentAt) ∧ sentAt ≤ s.now ∧
    ∀ grant, holder.outcome = some (.ok grant) → sentAt ≤ grant.expiresAt
  lapsed : ∀ grant ∈ grantsOf s.log, grant.expiresAt ≤ s.now + expiryMargin
  bounded : ∀ grant, holder.outcome = some (.ok grant) → grant.expiresAt ≤ s.now + maxLifetime

/-- What every run keeps. -/
structure Inv (s : Sharers) : Prop where
  sound : Ledger.Sound (Justified s.source.client s.saved) s.log
  access : s.source.access = (grantsOf s.log).getLast?.map fun g => (g.accessToken, g.expiresAt)
  refresh : s.source.refreshToken = refreshAfter s.saved s.log
  lapsed : ∀ grant ∈ (grantsOf s.log).dropLast, grant.expiresAt ≤ s.now + expiryMargin
  asking : ∀ holder, s.holder = some holder → s.Asking holder

theorem Inv.of_init {s : Sharers} (h : Init s) : s.Inv := by
  rcases h with ⟨client, refreshToken, now, rfl⟩ | ⟨client, grant, nowUnix, now, source, hsource, rfl⟩
  · exact ⟨Ledger.sound_nil, rfl, rfl, by simp [restored, grantsOf], by simp [restored]⟩
  · have haccess : source.access = some (grant.accessToken, grant.expiresAt) := by
      unfold TokenSource.fromGrant at hsource
      split at hsource
      · cases hsource
      · cases hsource
        rfl
    exact ⟨Ledger.sound_nil.concat (.signedIn grant rfl), haccess, rfl, by
      simp [signedIn, grantsOf, Entry.grant], by simp [signedIn]⟩

/-- A change of the queue or of the callback. -/
theorem Inv.requeue {s : Sharers} (h : s.Inv) (waiting : List Nat) (rotation : Option Nat) :
    { s with waiting, source := { s.source with rotation } }.Inv :=
  ⟨h.sound, h.access, h.refresh, h.lapsed,
    fun holder hholder => ⟨(h.asking holder hholder).sent, (h.asking holder hholder).lapsed,
      (h.asking holder hholder).bounded⟩⟩

/-- The lock is given up, and nothing is written. -/
theorem Inv.release {s : Sharers} (h : s.Inv) (strays : Nat) :
    { s with holder := none, strays }.Inv :=
  ⟨h.sound, h.access, h.refresh, h.lapsed, nofun⟩

theorem Inv.elapse {s : Sharers} (h : s.Inv) (time : Nat) : { s with now := s.now + time }.Inv where
  sound := h.sound
  access := h.access
  refresh := h.refresh
  lapsed := fun grant hgrant => Nat.le_trans (h.lapsed grant hgrant) (by simp only; omega)
  asking := by
    intro holder hholder
    obtain ⟨⟨form, sentAt, hlast, hle, hfresh⟩, hlapsed, hbounded⟩ := h.asking holder hholder
    refine ⟨⟨form, sentAt, hlast, by simp only; omega, hfresh⟩,
      fun grant hgrant => Nat.le_trans (hlapsed grant hgrant) (by simp only; omega), ?_⟩
    exact fun grant hgrant => Nat.le_trans (hbounded grant hgrant) (by simp only; omega)

/-- An entry is written that changes neither token. -/
theorem Inv.write {s : Sharers} (h : s.Inv) {e : Entry} (hgrant : e.grant = none)
    (hrotated : e.rotated = none) (he : Justified s.source.client s.saved s.log e)
    {holder : Option Holder} {presented : List (String × String)}
    (hasking : ∀ holder', holder = some holder' →
      Asking { s with holder, presented, log := s.log ++ [e] } holder') :
    { s with holder, presented, log := s.log ++ [e] }.Inv where
  sound := h.sound.concat he
  access := by simp only [grantsOf_concat_of_none hgrant, h.access]
  refresh := by simp only [refreshAfter, rotationsOf_concat_of_none hrotated, h.refresh]
  lapsed := by simpa only [grantsOf_concat_of_none hgrant] using h.lapsed
  asking := hasking

/-- A look into the cache: the token is handed out, or a request is sent. -/
theorem Inv.look {s : Sharers} (h : s.Inv) (hidle : s.holder = none) (caller : Nat) :
    (s.look caller).Inv := by
  unfold Sharers.look
  split
  · rename_i token hcached
    obtain ⟨expiresAt, haccess, hlt⟩ := TokenSource.cached_eq_some.mp hcached
    obtain ⟨grant, hlast, hgrant⟩ := Option.map_eq_some_iff.mp (h.access.symm.trans haccess)
    simp only [Prod.mk.injEq] at hgrant
    obtain ⟨rfl, rfl⟩ := hgrant
    exact h.write rfl rfl (.cached caller s.now grant hlast hlt) (by simp [hidle])
  · rename_i hcached
    have hlapsed : ∀ grant ∈ grantsOf s.log, grant.expiresAt ≤ s.now + expiryMargin := by
      intro grant hgrant
      have hne : grantsOf s.log ≠ [] := List.ne_nil_of_mem hgrant
      rw [← List.dropLast_concat_getLast hne, List.mem_append, List.mem_singleton] at hgrant
      rcases hgrant with hearlier | rfl
      · exact h.lapsed grant hearlier
      · exact TokenSource.cached_eq_none hcached
          (h.access.trans (by rw [List.getLast?_eq_some_getLast hne]; rfl))
    refine h.write rfl rfl ?_ ?_
    · rw [h.refresh]
      exact .sent caller s.now hlapsed
    · intro holder hholder
      cases hholder
      refine ⟨⟨_, s.now, List.getLast?_concat, Nat.le_refl _, nofun⟩, ?_, nofun⟩
      simpa only [grantsOf_concat_of_none (e := .sent _ _ _) rfl] using hlapsed

/-- The request of the holder comes back. -/
theorem Inv.answer {s : Sharers} (h : s.Inv) {caller : Nat} (hholder : s.holder = some ⟨caller, none⟩)
    {outcome : Except Error TokenGrant} (houtcome : ∀ grant, outcome = .ok grant →
      s.now ≤ grant.expiresAt ∧ grant.expiresAt ≤ s.now + maxLifetime) (issued : List String) :
    { s with holder := some ⟨caller, some outcome⟩, issued }.Inv where
  sound := h.sound
  access := h.access
  refresh := h.refresh
  lapsed := h.lapsed
  asking := by
    intro holder heq
    cases heq
    obtain ⟨⟨form, sentAt, hlast, hle, -⟩, hlapsed, -⟩ := h.asking _ hholder
    refine ⟨⟨form, sentAt, hlast, hle, fun grant hgrant => ?_⟩, hlapsed, fun grant hgrant => ?_⟩
    · exact Nat.le_trans hle (houtcome grant (Option.some.inj hgrant)).1
    · exact (houtcome grant (Option.some.inj hgrant)).2

/-- The token that a rotation callback hears of, between the grant and the return. -/
def Tells (grant : TokenGrant) (more : List Entry) : Prop :=
  more = [] ∨ ∃ callback token, more = [.told callback token] ∧ grant.refreshToken = some token

theorem tells_of_take (source : TokenSource) (grant : TokenGrant) :
    Tells grant (((source.take grant).2.map fun t => Entry.told t.1 t.2).toList) := by
  rw [TokenSource.take_told]
  cases hrotated : grant.refreshToken with
  | none => exact .inl rfl
  | some token =>
    cases source.rotation with
    | none => exact .inl rfl
    | some callback => exact .inr ⟨callback, token, rfl, hrotated⟩

/-- A grant is taken and its token handed out. -/
theorem Inv.took {s : Sharers} (h : s.Inv) {caller : Nat} {grant : TokenGrant}
    (hholder : s.holder = some ⟨caller, some (.ok grant)⟩) {more : List Entry}
    (hmore : Tells grant more) :
    { s with
      source := (s.source.take grant).1, holder := none
      log := s.log ++ [Entry.taken caller grant s.now] ++ more ++
        [Entry.handed caller grant.accessToken s.now] }.Inv := by
  obtain ⟨⟨form, sentAt, hlast, hle, hfresh⟩, hlapsed, hbounded⟩ := h.asking _ hholder
  have htaken : Ledger.Sound (Justified s.source.client s.saved)
      (s.log ++ [Entry.taken caller grant s.now]) :=
    h.sound.concat (.taken caller s.now grant form sentAt hlast (hfresh grant rfl) (hbounded grant rfl))
  have hgrants : grantsOf (s.log ++ [Entry.taken caller grant s.now] ++ more) =
      grantsOf s.log ++ [grant] := by
    obtain rfl | ⟨callback, token, rfl, -⟩ := hmore <;> simp [grantsOf, Entry.grant]
  have hrotated : rotationsOf (more ++ [Entry.handed caller grant.accessToken s.now]) = [] := by
    obtain rfl | ⟨callback, token, rfl, -⟩ := hmore <;> rfl
  have hmiddle : Ledger.Sound (Justified s.source.client s.saved)
      (s.log ++ [Entry.taken caller grant s.now] ++ more) := by
    obtain rfl | ⟨callback, token, rfl, htoken⟩ := hmore
    · simpa using htaken
    · exact htaken.concat (.told callback caller s.now grant token List.getLast?_concat htoken)
  refine ⟨?_, ?_, ?_, ?_, nofun⟩
  · simp only [TokenSource.take_client]
    refine hmiddle.concat (.brought caller s.now grant ?_ (by simp))
    rw [hgrants, List.getLast?_concat]
  · simp only [TokenSource.take_access]
    rw [grantsOf_concat_of_none rfl, hgrants, List.getLast?_concat]
    rfl
  · simp only [TokenSource.take_refreshToken]
    rw [h.refresh, List.append_assoc, List.append_assoc, List.singleton_append,
      refreshAfter_taken _ _ _ _ _ hrotated]
  · intro earlier hearlier
    rw [grantsOf_concat_of_none rfl, hgrants, List.dropLast_concat] at hearlier
    exact hlapsed earlier hearlier

/-- The holder hears of its request. -/
theorem Inv.finish {s : Sharers} (h : s.Inv) {caller : Nat} {outcome : Except Error TokenGrant}
    (hholder : s.holder = some ⟨caller, some outcome⟩) : (s.finish caller outcome).Inv := by
  cases outcome with
  | error e =>
    obtain ⟨⟨form, sentAt, hlast, -⟩, -⟩ := h.asking _ hholder
    exact h.write rfl rfl (.failed caller e form sentAt hlast) nofun
  | ok grant => exact h.took hholder (tells_of_take s.source grant)

variable {fromStr : String → Option TokenResponse}

theorem Inv.step {s s' : Sharers} {a : Action} (h : s.Inv) (hstep : s.step fromStr a = some s') :
    s'.Inv := by
  cases a with
  | call caller =>
    cases hstep
    exact h.requeue _ s.source.rotation
  | acquire =>
    simp only [Sharers.step] at hstep
    split at hstep
    · rename_i caller waiting hholder hwaiting
      cases hstep
      exact (h.requeue waiting s.source.rotation).look hholder caller
    · cases hstep
  | answer reply =>
    simp only [Sharers.step] at hstep
    split at hstep
    · rename_i caller hholder
      cases hstep
      exact h.answer hholder (fun grant => expiresAt_of_postTokenForm fromStr) _
    · cases hstep
  | resume =>
    simp only [Sharers.step] at hstep
    split at hstep
    · rename_i caller outcome hholder
      cases hstep
      exact h.finish hholder
    · cases hstep
  | abandon caller =>
    simp only [Sharers.step] at hstep
    split at hstep
    · split at hstep
      · cases hstep
        exact h.release _
      · cases hstep
        exact h.requeue _ s.source.rotation
    · cases hstep
      exact h.requeue _ s.source.rotation
  | answerStray reply =>
    simp only [Sharers.step] at hstep
    split at hstep
    · cases hstep
      exact ⟨h.sound, h.access, h.refresh, h.lapsed, fun holder hholder =>
        ⟨(h.asking holder hholder).sent, (h.asking holder hholder).lapsed,
          (h.asking holder hholder).bounded⟩⟩
    · cases hstep
  | onRotation callback =>
    cases hstep
    exact h.requeue s.waiting (some callback)
  | elapse time =>
    cases hstep
    exact h.elapse time

theorem Inv.of_reach {ok : Sharers → Action → Prop} {s : Sharers}
    (h : (machine fromStr).Reach ok s) : s.Inv :=
  h.invariant (fun _ => Inv.of_init) fun _ _ _ _ hinv _ => hinv.step

/-! ## 6. No refresh token is lost -/

/-- What the holder has in hand of the provider's. -/
def inHand (s : Sharers) : List String :=
  match s.holder with
  | some ⟨_, some outcome⟩ => rotationOf outcome
  | _ => []

/-- No connection is given up while it has the lock, and the callback is registered before the first
rotation. -/
def careful (s : Sharers) : Action → Bool
  | .abandon caller => s.holder.all fun holder => holder.caller ≠ caller
  | .onRotation _ => s.issued = []
  | _ => true

/-- What the careful runs keep: every refresh token that was issued is taken over, or in the holder's
hand. -/
structure UpToDate (s : Sharers) : Prop where
  strays : s.strays = 0
  issued : s.issued = rotationsOf s.log ++ s.inHand
  presented : ∀ p ∈ s.presented, p.1 = p.2
  told : rotationsOf s.log = [] ∨ s.source.rotation.isSome → heardOf s.log = rotationsOf s.log

theorem UpToDate.of_init {s : Sharers} (h : Init s) : s.UpToDate := by
  rcases h with ⟨client, refreshToken, now, rfl⟩ | ⟨client, grant, nowUnix, now, source, -, rfl⟩
  · exact ⟨rfl, rfl, nofun, fun _ => rfl⟩
  · exact ⟨rfl, rfl, nofun, fun _ => rfl⟩

/-- An entry is written that neither rotates nor tells. -/
theorem UpToDate.write {s : Sharers} (h : s.UpToDate) {e : Entry} (hrotated : e.rotated = none)
    (hheard : e.heard = none) {holder : Option Holder} {presented : List (String × String)}
    (hissued : s.issued = rotationsOf s.log ++ inHand { s with holder })
    (hpresented : ∀ p ∈ presented, p.1 = p.2) :
    UpToDate { s with holder, presented, log := s.log ++ [e] } := by
  refine ⟨h.strays, ?_, hpresented, ?_⟩
  · simp only [rotationsOf_concat_of_none hrotated]
    exact hissued
  · simp only [rotationsOf_concat_of_none hrotated, heardOf_concat_of_none hheard]
    exact h.told

/-- With nothing in hand, the token in use is the one issued last. -/
theorem UpToDate.refreshToken {s : Sharers} (h : s.UpToDate) (hinv : s.Inv) (hhand : s.inHand = []) :
    s.source.refreshToken = s.lastIssued := by
  rw [hinv.refresh, lastIssued, h.issued, hhand, List.append_nil]
  rfl

theorem UpToDate.look {s : Sharers} (h : s.UpToDate) (hinv : s.Inv) (hidle : s.holder = none)
    (caller : Nat) : (s.look caller).UpToDate := by
  have hhand : s.inHand = [] := by simp [inHand, hidle]
  have hissued : s.issued = rotationsOf s.log ++ [] := by simpa only [hhand] using h.issued
  unfold Sharers.look
  split
  · exact h.write rfl rfl (by simpa [inHand, hidle] using hissued) h.presented
  · refine h.write rfl rfl (by simpa [inHand] using hissued) fun p hp => ?_
    rcases List.mem_append.mp hp with hp | hp
    · exact h.presented p hp
    · cases List.mem_singleton.mp hp
      exact h.refreshToken hinv hhand

theorem UpToDate.finish {s : Sharers} (h : s.UpToDate) {caller : Nat}
    {outcome : Except Error TokenGrant} (hholder : s.holder = some ⟨caller, some outcome⟩) :
    (s.finish caller outcome).UpToDate := by
  have hissued : s.issued = rotationsOf s.log ++ rotationOf outcome := by
    simpa only [inHand, hholder] using h.issued
  cases outcome with
  | error e => exact h.write rfl rfl hissued h.presented
  | ok grant =>
    -- The grant's own entry takes its refresh token over; whom it is told is decided by the callback.
    have htaken : rotationsOf [Entry.taken caller grant s.now] = grant.refreshToken.toList := by
      cases hrotated : grant.refreshToken <;> simp [rotationsOf, Entry.rotated, hrotated]
    have htold : ∀ more, Tells grant more → rotationsOf more = [] := by
      rintro more (rfl | ⟨callback, token, rfl, -⟩) <;> rfl
    have hlog : rotationsOf (s.finish caller (.ok grant)).log =
        rotationsOf s.log ++ grant.refreshToken.toList := by
      simp only [Sharers.finish, rotationsOf_append, htaken, htold _ (tells_of_take s.source grant)]
      simp [rotationsOf, Entry.rotated]
    have hheard : heardOf (s.finish caller (.ok grant)).log =
        heardOf s.log ++ ((s.source.take grant).2.map Prod.snd).toList := by
      simp only [Sharers.finish, heardOf_append]
      have hends : heardOf [Entry.taken caller grant s.now] = [] ∧
          heardOf [Entry.handed caller grant.accessToken s.now] = [] := ⟨rfl, rfl⟩
      cases (s.source.take grant).2 with
      | none =>
        have hnil : heardOf [] = [] := rfl
        simp [hends, hnil]
      | some t =>
        have hone : heardOf [Entry.told t.1 t.2] = [t.2] := rfl
        simp [hends, hone]
    refine ⟨h.strays, ?_, h.presented, fun hwhen => ?_⟩
    · rw [hlog]
      simpa [Sharers.finish, inHand, rotationOf] using hissued
    · rw [hlog, List.append_eq_nil_iff] at hwhen
      have hrotation : (s.finish caller (.ok grant)).source.rotation = s.source.rotation :=
        TokenSource.take_rotation ..
      rw [hrotation] at hwhen
      rw [hlog, hheard, TokenSource.take_told, h.told (hwhen.imp And.left id)]
      rcases hwhen with ⟨-, hnone⟩ | hsome
      · simp [Option.toList_eq_nil_iff.mp hnone]
      · obtain ⟨callback, hcallback⟩ := Option.isSome_iff_exists.mp hsome
        cases grant.refreshToken <;> simp [hcallback]

theorem UpToDate.step {s s' : Sharers} {a : Action} (h : s.UpToDate) (hinv : s.Inv)
    (hok : s.careful a = true) (hstep : s.step fromStr a = some s') : s'.UpToDate := by
  cases a with
  | call caller =>
    cases hstep
    exact ⟨h.strays, h.issued, h.presented, h.told⟩
  | acquire =>
    simp only [Sharers.step] at hstep
    split at hstep
    · rename_i caller waiting hholder hwaiting
      cases hstep
      have hrest : UpToDate { s with waiting } := ⟨h.strays, h.issued, h.presented, h.told⟩
      exact hrest.look (hinv.requeue waiting s.source.rotation) hholder caller
    · cases hstep
  | answer reply =>
    simp only [Sharers.step] at hstep
    split at hstep
    · rename_i caller hholder
      cases hstep
      refine ⟨h.strays, ?_, h.presented, h.told⟩
      have hissued : s.issued = rotationsOf s.log := by simpa [inHand, hholder] using h.issued
      simp [inHand, hissued]
    · cases hstep
  | resume =>
    simp only [Sharers.step] at hstep
    split at hstep
    · rename_i caller outcome hholder
      cases hstep
      exact h.finish hholder
    · cases hstep
  | abandon caller =>
    simp only [Sharers.step] at hstep
    split at hstep
    · rename_i holder hholder
      have hother : holder.caller ≠ caller := by simpa [careful, hholder] using hok
      rw [if_neg hother] at hstep
      cases hstep
      exact ⟨h.strays, h.issued, h.presented, h.told⟩
    · cases hstep
      exact ⟨h.strays, h.issued, h.presented, h.told⟩
  | answerStray reply =>
    simp [Sharers.step, h.strays] at hstep
  | onRotation callback =>
    cases hstep
    have hnone : rotationsOf s.log = [] :=
      (List.append_eq_nil_iff.mp (h.issued.symm.trans (of_decide_eq_true hok))).1
    exact ⟨h.strays, h.issued, h.presented, fun _ => h.told (.inl hnone)⟩
  | elapse time =>
    cases hstep
    exact ⟨h.strays, h.issued, h.presented, h.told⟩

theorem UpToDate.of_reach {s : Sharers} (h : (machine fromStr).Reach (fun s a => s.careful a = true) s) : s.UpToDate :=
  h.invariant (fun _ => UpToDate.of_init) fun _ _ _ hr hdate hok =>
    hdate.step (Inv.of_reach hr) hok

/-! ## 7. What holds of every run -/

/-- A client, and an answer that rotates the refresh token. -/
def desktopClient : OAuthClient := ⟨"id", none, "auth", "token", "mail"⟩

def rotatingAnswer : String :=
  "\x7b\"access_token\":\"at-1\",\"expires_in\":3600,\"refresh_token\":\"rt-2\"\x7d"

def readAnswer (body : String) : Option TokenResponse :=
  if body = rotatingAnswer then
    some { accessToken := some "at-1", expiresIn := some 3600, refreshToken := some "rt-2" }
  else none

/-- Two connections ask at once; the first one's request serves both. -/
def twoAtOnce : List Action :=
  [.onRotation 7, .call 1, .call 2, .acquire, .elapse second, .answer (.answered 200 rotatingAnswer),
    .resume, .acquire]

/-- What `twoAtOnce` writes. -/
def twoAtOnceLog : List Entry :=
  [.sent 1 (TokenSource.refreshForm desktopClient "rt-1") 0,
    .taken 1 ⟨"at-1", second + 3600 * second, some "rt-2"⟩ second, .told 7 "rt-2",
    .handed 1 "at-1" second, .handed 2 "at-1" second]

end Sharers

end Esmail.OAuth.Tokens
