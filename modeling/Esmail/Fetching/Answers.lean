/-
# What the server answers to a fetch, and what the program reads of it

`fetch_headers`, `fetch_raw`, `fetch_new_headers` and `store_flags` of `imap.rs` send a command and
read the stream of FETCH responses that comes back.  A `Server` is what the server answers to the
commands of one call; a `Reply` is a stream that is truthful about a mailbox.  A server may answer
the requested messages in any order and report others between them (`Reply.Answers`).

A range `first:*` has the last message of the mailbox in it, even where that is older than `first`, as the
star stands for its UID.  `fetch_new_headers` does not look at the UIDs that come back.

`fetchNewHeaders_exact_iff` says when they are those of the new messages and no others, in whichever order
they are answered: exactly where there is a new message, or none at all.  Section 5 has both directions:
with a message from `first` on the star changes nothing, and with none the answer is the last message.

The mailbox of the sessions is `Contents.mailbox`; its `Cache.fetchNewHeaders` is what is read of the
answers to `first:*` (`inRange_eq_fetchNewHeaders`), so what `Watching/` proves of it is about this
function too.

How a header field is parsed is a parameter; the numbers of a response are those of the mailbox at one time.
-/
import Esmail.Cache.Sync
import Esmail.Fetching.Worker
import Esmail.Reading.Envelope

namespace Esmail.Imap

open Fetching (Error)

/-! ## 1. Responses -/

/-- `async_imap::types::Flag`. -/
inductive Flag
  | seen | answered | flagged | deleted | draft | recent | mayCreate
  | custom (name : String)
  deriving DecidableEq, Repr

/-- `flag_to_str`. -/
def flagToStr : Flag → String
  | .seen => "\\Seen"
  | .answered => "\\Answered"
  | .flagged => "\\Flagged"
  | .deleted => "\\Deleted"
  | .draft => "\\Draft"
  | .recent => "\\Recent"
  | .mayCreate => "\\*"
  | .custom name => name

/-- `async_imap::types::Fetch`: the number of the message, and whatever the response says of it. -/
structure Fetch where
  message : Nat
  uid : Option Nat := none
  envelope : Option Envelope := none
  flags : List Flag := []
  body : Option (List UInt8) := none

/-- `fetch_flags`. -/
def Fetch.fetchFlags (msg : Fetch) : List String := msg.flags.map flagToStr

/-- `async_imap::types::Mailbox`, as far as it is read; `total` is its `exists`, a `u32`. -/
structure Examined where
  total : Nat
  representable : total ≤ u32Max
  uidValidity : Option Nat := none
  uidNext : Option Nat := none

/-- What the server answers to the commands of one call.  A command that may be given more than once
is told how many went before it. -/
structure Server where
  examine : String → Except Error Examined
  select : String → Except Error Examined
  fetch : String → String → Except Error (List (Except Error Fetch))
  uidFetch : Nat → String → String → Except Error (List (Except Error Fetch))
  uidStore : String → String → Except Error (List (Except Error Fetch))

/-! ## 2. The readers, as the source has them -/

/-- `ok_or_else`, with a message. -/
def okOrElse {α : Type} (x : Option α) (message : String) : Except Error α :=
  match x with
  | some a => .ok a
  | none => .error ⟨message, []⟩

section Readers

variable (parseHeader : List UInt8 → Option (List Char))

/-- The header of one response. -/
def headerOf (msg : Except Error Fetch) : Except Error MailHeader := do
  let msg ← msg
  let uid ← okOrElse msg.uid "No UID"
  let envelope ← okOrElse msg.envelope "No envelope"
  return parseEnvelopeHeader parseHeader uid envelope msg.fetchFlags

/-- `fetch_headers`. -/
def fetchHeaders (server : Server) (mailboxName : String) (page : Nat) :
    Except Error (List MailHeader × Nat × MailboxState) := do
  let mailbox ← server.examine mailboxName
  let state : MailboxState := ⟨mailbox.uidValidity.getD 0, mailbox.uidNext.getD 0⟩
  let total := mailbox.total
  if total = 0 then return ([], 0, state)
  let stop := stopOf total (servedPage total page)
  let start := startOf stop
  let messages ← server.fetch s!"{start}:{stop}" "(UID ENVELOPE FLAGS)"
  let headers ← messages.mapM (headerOf parseHeader)
  return (headers.reverse, totalPagesOf total, state)

/-- `fetch_new_headers`. -/
def fetchNewHeaders (server : Server) (mailboxName : String) (firstUid : Nat) :
    Except Error (List MailHeader) := do
  let _ ← server.examine mailboxName
  let messages ← server.uidFetch 0 s!"{firstUid}:*" "(UID ENVELOPE FLAGS)"
  messages.mapM (headerOf parseHeader)

end Readers

/-- The body in the first response of a stream: `fetch_raw`, behind its commands. -/
def readRaw : List (Except Error Fetch) → Except Error (List UInt8)
  | [] => .error ⟨"Message not found or no body", []⟩
  | msg :: _ => do
    let msg ← msg
    okOrElse msg.body "No body"

/-- `fetch_raw`. -/
def fetchRaw (server : Server) (mailboxName : String) (uid : Nat) : Except Error (List UInt8) := do
  let _ ← server.examine mailboxName
  let fetches ← server.uidFetch 0 s!"{uid}" "RFC822"
  readRaw fetches

/-- The loop over the responses to a STORE, with the flags seen last. -/
def readFlags : List (Except Error Fetch) → Option (List String) → Except Error (Option (List String))
  | [], lastFlags => .ok lastFlags
  | msg :: stream, _ => do
    let msg ← msg
    readFlags stream (some msg.fetchFlags)

/-- One side of `store_flags`: there is no command where there is no flag to set. -/
def storeSide (server : Server) (uid : Nat) (sign : String) (flags : List String)
    (lastFlags : Option (List String)) : Except Error (Option (List String)) := do
  if flags = [] then return lastFlags
  let stream ← server.uidStore s!"{uid}" (sign ++ "FLAGS (" ++ " ".intercalate flags ++ ")")
  readFlags stream lastFlags

/-- `store_flags`. -/
def storeFlags (server : Server) (mailboxName : String) (uid : Nat) (add remove : List String) :
    Except Error (List String) := do
  let _ ← server.select mailboxName
  let lastFlags ← storeSide server uid "+" add none
  let lastFlags ← storeSide server uid "-" remove lastFlags
  okOrElse lastFlags s!"STORE completed but the server reported no resulting flags for UID {uid}"

/-- The body worker's `fetch_raw` is this one, where the outside answers as the server does. -/
theorem fetchRaw_worker {σ Session : Type} (outside : Fetching.Outside σ Session) (server : Server)
    (session : Session) (mailboxName : String) (uid : Nat) (w : σ)
    (hexamine : (outside.examine session mailboxName w).1 =
      (server.examine mailboxName).map fun _ => ())
    (hfetch : ∀ w, (outside.uidFetch session uid w).1 =
      (server.uidFetch 0 s!"{uid}" "RFC822").map fun stream =>
        stream.head?.map fun msg => msg.map Fetch.body) :
    (Fetching.fetchRaw outside session mailboxName uid w).1 = fetchRaw server mailboxName uid := by
  rw [Fetching.fetchRaw, fetchRaw]
  rcases hasked : outside.examine session mailboxName w with ⟨examined, w'⟩
  rw [hasked] at hexamine
  obtain rfl := hexamine
  cases server.examine mailboxName with
  | error e => rfl
  | ok examined =>
    have hfetch := hfetch w'
    rcases hsent : outside.uidFetch session uid w' with ⟨fetched, w''⟩
    rw [hsent] at hfetch
    obtain rfl := hfetch
    simp only [Except.map, bind, Except.bind, hsent]
    cases server.uidFetch 0 s!"{uid}" "RFC822" with
    | error e => rfl
    | ok stream =>
      cases stream with
      | nil => rfl
      | cons msg rest =>
        cases msg with
        | error e => rfl
        | ok msg =>
          obtain ⟨message, uid, envelope, flags, body⟩ := msg
          cases body <;> rfl

/-! ## 3. The mailbox, and what may be said of it -/

/-- A message, as the server holds it. -/
structure Message where
  uid : Nat
  envelope : Envelope
  flags : List Flag
  body : List UInt8

/-- A mailbox with its messages whole: UIDs ascend with the message number, and `uidNext` is above
them. -/
structure Contents where
  messages : List Message
  uidValidity : Nat
  uidNext : Nat
  ascending : (messages.map Message.uid).Pairwise (· < ·)
  assigned : ∀ uid ∈ messages.map Message.uid, uid < uidNext
  representable : uidNext ≤ u32Max

namespace Contents

variable (box : Contents)

/-- There are no more messages than UIDs. -/
theorem length_le : box.messages.length ≤ u32Max := by
  have hnodup : (box.messages.map Message.uid).Nodup := box.ascending.imp Nat.ne_of_lt
  have hsub : box.messages.map Message.uid ⊆ List.range box.uidNext := fun uid huid =>
    List.mem_range.mpr (box.assigned uid huid)
  have hle := (List.subperm_of_subset hnodup hsub).length_le
  rw [List.length_map, List.length_range] at hle
  exact hle.trans box.representable

/-- The answer to EXAMINE. -/
def examined : Examined where
  total := box.messages.length
  representable := box.length_le
  uidValidity := some box.uidValidity
  uidNext := some box.uidNext

/-- The messages with their numbers, which count from 1. -/
def numbered : List (Message × Nat) := box.messages.zipIdx 1

/-- The message of a UID, and its number. -/
def find (uid : Nat) : Option (Message × Nat) := box.numbered.find? fun p => p.1.uid = uid

/-- A response says nothing of a message that is not so.  The flags are the server's to say. -/
def Describes (r : Fetch) : Prop :=
  ∃ m, (m, r.message) ∈ box.numbered ∧ (∀ uid ∈ r.uid, uid = m.uid) ∧
    (∀ envelope ∈ r.envelope, envelope = m.envelope) ∧ ∀ body ∈ r.body, body = m.body

/-- The answer for one message to a fetch of `(UID ENVELOPE FLAGS)`. -/
def describe (p : Message × Nat) : Fetch :=
  { message := p.2, uid := some p.1.uid, envelope := some p.1.envelope, flags := p.1.flags }

/-- The answers for the messages `start, .., stop`, oldest first. -/
def described (start stop : Nat) : List Fetch :=
  ((box.numbered.take stop).drop (start - 1)).map describe

/-- The answer to a fetch of the body of a UID; there is none where there is no such message. -/
def bodyOf (uid : Nat) : List Fetch :=
  (box.find uid).toList.map fun p => { message := p.2, uid := some p.1.uid, body := some p.1.body }

/-- The answer to a STORE for a UID, which tells the flags that the message has now. -/
def stored (uid : Nat) (flags : List Flag) : List Fetch :=
  (box.find uid).toList.map fun p => { message := p.2, uid := some p.1.uid, flags }

/-- The number of a message is that of a UID. -/
def isNumberOf (uid message : Nat) : Bool := (box.find uid).any fun p => p.2 = message

/-- The highest UID, which `*` stands for. -/
def highest : Nat := (box.messages.getLast?.map Message.uid).getD 0

/-- The answers for the UIDs `first:*`: a range runs from the lower of its ends to the higher. -/
def answersFrom (first : Nat) : List Fetch :=
  (box.numbered.filter fun p =>
    min first box.highest ≤ p.1.uid ∧ p.1.uid ≤ max first box.highest).map describe

/-! The answers say what is so, and so does a report of flags. -/

variable {box}

theorem describes_flags {p : Message × Nat} (h : p ∈ box.numbered) (flags : List Flag) :
    box.Describes { message := p.2, flags } :=
  ⟨p.1, h, nofun, nofun, nofun⟩

theorem describes_described {start stop : Nat} {r : Fetch} (h : r ∈ box.described start stop) :
    box.Describes r := by
  obtain ⟨p, hp, rfl⟩ := List.mem_map.mp h
  have hmem := List.mem_of_mem_take (List.mem_of_mem_drop hp)
  refine ⟨p.1, hmem, fun uid huid => ?_, fun envelope henvelope => ?_, nofun⟩
  · exact (Option.some.inj huid).symm
  · exact (Option.some.inj henvelope).symm

theorem mem_numbered_of_find {uid : Nat} {p : Message × Nat} (h : p ∈ (box.find uid).toList) :
    p ∈ box.numbered :=
  List.mem_of_find?_eq_some (Option.mem_toList.mp h)

theorem describes_bodyOf {uid : Nat} {r : Fetch} (h : r ∈ box.bodyOf uid) : box.Describes r := by
  obtain ⟨p, hp, rfl⟩ := List.mem_map.mp h
  refine ⟨p.1, mem_numbered_of_find hp, fun uid huid => ?_, nofun, fun body hbody => ?_⟩
  · exact (Option.some.inj huid).symm
  · exact (Option.some.inj hbody).symm

theorem describes_stored {uid : Nat} {flags : List Flag} {r : Fetch} (h : r ∈ box.stored uid flags) :
    box.Describes r := by
  obtain ⟨p, hp, rfl⟩ := List.mem_map.mp h
  exact ⟨p.1, mem_numbered_of_find hp, fun uid huid => (Option.some.inj huid).symm, nofun, nofun⟩

end Contents

/-- The responses that come while a command runs. -/
structure Reply (box : Contents) where
  responses : List Fetch
  truthful : ∀ r ∈ responses, box.Describes r

namespace Reply

variable {box : Contents}

/-- The stream that the program reads. -/
def stream (reply : Reply box) : List (Except Error Fetch) := reply.responses.map .ok

/-- A legal reply: what is said of the messages asked for is their answers, in any order, and what is
said of the others may come between them. -/
def Answers (reply : Reply box) (asked : Nat → Bool) (answers : List Fetch) : Prop :=
  (reply.responses.filter fun r => asked r.message).Perm answers

end Reply

/-! ## 4. Reading headers -/

/-- The header of a message. -/
def Message.header (parseHeader : List UInt8 → Option (List Char)) (m : Message) : MailHeader :=
  parseEnvelopeHeader parseHeader m.uid m.envelope (m.flags.map flagToStr)

section Headers

variable (parseHeader : List UInt8 → Option (List Char))

/-- The headers that the sessions know. -/
def Contents.headers (box : Contents) : List MailHeader := box.messages.map (Message.header parseHeader)

@[simp] theorem Message.uid_header (m : Message) : (m.header parseHeader).uid = m.uid := rfl

theorem Contents.uids_headers (box : Contents) :
    uids (box.headers parseHeader) = box.messages.map Message.uid := by
  simp [uids, Contents.headers, Function.comp_def]

/-- The mailbox of the sessions. -/
def Contents.mailbox (box : Contents) : Mailbox where
  messages := box.headers parseHeader
  uidValidity := box.uidValidity
  uidNext := box.uidNext
  ascending := by
    rw [box.uids_headers]
    exact box.ascending
  assigned := by
    rw [box.uids_headers]
    exact box.assigned
  representable := box.representable

@[simp] theorem headerOf_describe (p : Message × Nat) :
    headerOf parseHeader (.ok (Contents.describe p)) = .ok (p.1.header parseHeader) := rfl

/-- A loop that stops at the first error comes to an end where there is none. -/
theorem mapM_eq_ok_iff {α β : Type} (f : α → Except Error β) (xs : List α) (ys : List β) :
    xs.mapM f = .ok ys ↔ xs.map f = ys.map .ok := by
  induction xs generalizing ys with
  | nil => cases ys <;> simp [pure, Except.pure]
  | cons x xs ih =>
    rw [List.mapM_cons, List.map_cons]
    cases hx : f x with
    | error e => cases ys <;> simp [bind, Except.bind]
    | ok y =>
      cases hxs : xs.mapM f with
      | error e =>
        have hnot : ∀ zs : List β, xs.map f ≠ zs.map .ok := fun zs hzs => by
          rw [← ih, hxs] at hzs
          cases hzs
        cases ys <;> simp [bind, Except.bind, hnot]
      | ok zs =>
        have hmap := (ih zs).mp hxs
        cases ys with
        | nil => simp [bind, Except.bind, pure, Except.pure]
        | cons y' ys =>
          simp only [bind, Except.bind, pure, Except.pure, Except.ok.injEq, List.cons.injEq,
            List.map_cons, hmap]
          exact and_congr_right fun _ => (List.map_inj_right fun _ _ => Except.ok.inj).symm

/-- The answers for some messages are read as their headers. -/
theorem mapM_describe (ps : List (Message × Nat)) :
    ((ps.map Contents.describe).map Except.ok).mapM (headerOf parseHeader) =
      .ok (ps.map fun p => p.1.header parseHeader) := by
  rw [mapM_eq_ok_iff]
  simp [Function.comp_def]

theorem Contents.map_numbered (box : Contents) :
    box.numbered.map (fun p => p.1.header parseHeader) = box.headers parseHeader := by
  have hfst : box.numbered.map Prod.fst = box.messages := List.zipIdx_map_fst 1 box.messages
  rw [Contents.headers, ← hfst, List.map_map]
  simp [Function.comp_def]

/-- What `fetch_headers` is asked for. -/
def Contents.page (box : Contents) (start stop : Nat) : List MailHeader :=
  ((box.headers parseHeader).take stop).drop (start - 1)

theorem Contents.map_page (box : Contents) (start stop : Nat) :
    ((box.numbered.take stop).drop (start - 1)).map (fun p => p.1.header parseHeader) =
      box.page parseHeader start stop := by
  rw [List.map_drop, List.map_take, box.map_numbered, Contents.page]

end Headers

/-! ## 5. The messages from a UID on -/

section New

variable (parseHeader : List UInt8 → Option (List Char))

/-- The headers of the messages from a UID on. -/
def Contents.newer (box : Contents) (first : Nat) : List MailHeader :=
  (box.headers parseHeader).filter fun h => first ≤ h.uid

/-- The headers of the messages in a range of UIDs, as they stand in the mailbox. -/
def Contents.inRange (box : Contents) (first : Nat) : List MailHeader :=
  (box.headers parseHeader).filter fun h =>
    min first box.highest ≤ h.uid ∧ h.uid ≤ max first box.highest

/-- The last message has the highest UID, and those before it have lower ones. -/
theorem Contents.headers_cases (box : Contents) :
    box.headers parseHeader = [] ∨
      ∃ older last, box.headers parseHeader = older ++ [last] ∧ last.uid = box.highest ∧
        ∀ h ∈ older, h.uid < box.highest := by
  have hlast : ((box.headers parseHeader).getLast?.map MailHeader.uid).getD 0 = box.highest := by
    rw [Contents.highest, Contents.headers, List.getLast?_map, Option.map_map]
    rfl
  have hascending : ((box.headers parseHeader).map MailHeader.uid).Pairwise (· < ·) :=
    (box.mailbox parseHeader).ascending
  rcases List.eq_nil_or_concat' (box.headers parseHeader) with hnil | ⟨older, last, hsplit⟩
  · exact .inl hnil
  · rw [hsplit, List.getLast?_concat] at hlast
    rw [hsplit, List.map_append, List.pairwise_append] at hascending
    have huid : last.uid = box.highest := hlast
    refine .inr ⟨older, last, hsplit, huid, fun h hmem => ?_⟩
    rw [← huid]
    exact hascending.2.2 _ (List.mem_map_of_mem hmem) _ List.mem_cons_self

theorem Contents.uid_le_highest (box : Contents) {h : MailHeader}
    (hmem : h ∈ box.headers parseHeader) : h.uid ≤ box.highest := by
  rcases box.headers_cases parseHeader with hnil | ⟨older, last, hsplit, hlast, holder⟩
  · rw [hnil] at hmem
    cases hmem
  · rw [hsplit] at hmem
    rcases List.mem_append.mp hmem with hmem | hmem
    · exact Nat.le_of_lt (holder h hmem)
    · rw [List.mem_singleton.mp hmem, hlast]

/-- The message with the highest UID. -/
theorem Contents.exists_highest {box : Contents} (hne : box.messages ≠ []) :
    ∃ h ∈ box.headers parseHeader, h.uid = box.highest := by
  rcases box.headers_cases parseHeader with hnil | ⟨older, last, hsplit, hlast, -⟩
  · exact absurd (List.map_eq_nil_iff.mp hnil) hne
  · exact ⟨last, by simp [hsplit], hlast⟩

/-- Up to the highest UID, the range is what it is meant to be. -/
theorem Contents.inRange_eq_newer {box : Contents} {first : Nat} (hle : first ≤ box.highest) :
    box.inRange parseHeader first = box.newer parseHeader first := by
  refine List.filter_congr fun h hmem => ?_
  have hhighest := box.uid_le_highest parseHeader hmem
  exact decide_eq_decide.mpr ⟨fun ⟨hlow, _⟩ => by omega, fun hfirst => by omega⟩

/-- Above the highest UID there is nothing, but the range still has the last message. -/
theorem Contents.newer_eq_nil {box : Contents} {first : Nat} (hlt : box.highest < first) :
    box.newer parseHeader first = [] := by
  rw [Contents.newer, List.filter_eq_nil_iff]
  intro h hmem
  have hhighest := box.uid_le_highest parseHeader hmem
  rw [decide_eq_true_eq]
  omega

theorem Contents.inRange_ne_nil {box : Contents} (hne : box.messages ≠ []) (first : Nat) :
    box.inRange parseHeader first ≠ [] := by
  obtain ⟨h, hmem, huid⟩ := box.exists_highest parseHeader hne
  refine List.ne_nil_of_mem (a := h) (List.mem_filter.mpr ⟨hmem, ?_⟩)
  rw [decide_eq_true_eq, huid]
  omega

/-- What the sessions fetch is the range. -/
theorem Contents.inRange_eq_fetchNewHeaders (box : Contents) (first : Nat) :
    box.inRange parseHeader first = Cache.fetchNewHeaders (box.mailbox parseHeader) first := by
  have hnewer : ((box.mailbox parseHeader).messages.filter fun h => first ≤ h.uid) =
      box.newer parseHeader first := rfl
  rw [Cache.fetchNewHeaders, hnewer]
  by_cases hle : first ≤ box.highest
  · rw [box.inRange_eq_newer parseHeader hle]
    split
    · next hnil =>
      have hempty : box.messages = [] := by
        by_contra hne
        obtain ⟨h, hmem, huid⟩ := box.exists_highest parseHeader hne
        have hin : h ∈ box.newer parseHeader first :=
          List.mem_filter.mpr ⟨hmem, decide_eq_true (hle.trans_eq huid.symm)⟩
        rw [hnil] at hin
        cases hin
      rw [hnil]
      simp [Contents.mailbox, Contents.headers, hempty]
    · rfl
  · rw [box.newer_eq_nil parseHeader (Nat.lt_of_not_le hle)]
    have hheaders : (box.mailbox parseHeader).messages = box.headers parseHeader := rfl
    rw [hheaders, Contents.inRange]
    rcases box.headers_cases parseHeader with hnil | ⟨older, last, hsplit, hlast, holder⟩
    · rw [hnil]
      rfl
    · have hnone : older.filter (fun h =>
          min first box.highest ≤ h.uid ∧ h.uid ≤ max first box.highest) = [] := by
        rw [List.filter_eq_nil_iff]
        intro h hmem
        have hlt := holder h hmem
        rw [decide_eq_true_eq]
        omega
      rw [hsplit, List.filter_append, hnone, List.getLast?_concat,
        List.filter_cons_of_pos (by rw [decide_eq_true_eq]; omega)]
      rfl

/-- A loop that stops at the first error reads a stream in another order as the same results in another
order. -/
theorem mapM_perm {α β : Type} {f : α → Except Error β} {xs ys : List α} (h : xs.Perm ys) :
    ∀ {zs : List β}, ys.mapM f = .ok zs → ∃ ws, xs.mapM f = .ok ws ∧ ws.Perm zs := by
  simp only [mapM_eq_ok_iff]
  induction h with
  | nil => exact fun {zs} hzs => ⟨zs, hzs, .refl _⟩
  | cons x h ih =>
    intro zs hzs
    obtain ⟨z, zs, rfl, hz, hrest⟩ := List.map_eq_cons_iff.mp hzs.symm
    obtain ⟨ws, hws, hperm⟩ := ih hrest.symm
    exact ⟨z :: ws, by rw [List.map_cons, List.map_cons, hws, hz], hperm.cons z⟩
  | swap x y xs =>
    intro zs hzs
    obtain ⟨z, zs, rfl, hz, hrest⟩ := List.map_eq_cons_iff.mp hzs.symm
    obtain ⟨z', zs, rfl, hz', hrest⟩ := List.map_eq_cons_iff.mp hrest
    exact ⟨z' :: z :: zs, by simp [hz, hz', hrest], .swap z z' zs⟩
  | trans h₁ h₂ ih₁ ih₂ =>
    intro zs hzs
    obtain ⟨ws, hws, hperm⟩ := ih₂ hzs
    obtain ⟨vs, hvs, hperm'⟩ := ih₁ hws
    exact ⟨vs, hvs, hperm'.trans hperm⟩

/-- What `fetch_new_headers` reads of the answers is the range, in the order of the answers. -/
theorem fetchNewHeaders_inRange {box : Contents} {server : Server} {mailboxName : String}
    {first : Nat} {responses : List Fetch}
    (hexamine : server.examine mailboxName = .ok box.examined)
    (hfetch : server.uidFetch 0 s!"{first}:*" "(UID ENVELOPE FLAGS)" = .ok (responses.map .ok))
    (hanswers : responses.Perm (box.answersFrom first)) :
    ∃ headers, fetchNewHeaders parseHeader server mailboxName first = .ok headers ∧
      headers.Perm (box.inRange parseHeader first) := by
  have hranged : ((box.answersFrom first).map Except.ok).mapM (headerOf parseHeader) =
      .ok (box.inRange parseHeader first) := by
    rw [Contents.answersFrom, mapM_describe, Contents.inRange, ← box.map_numbered, List.filter_map]
    rfl
  obtain ⟨headers, hread, hperm⟩ := mapM_perm (hanswers.map Except.ok) hranged
  refine ⟨headers, ?_, hperm⟩
  simpa only [fetchNewHeaders, hexamine, hfetch, bind, Except.bind] using hread

/-- Against a server that answers `first:*` as it must, the headers fetched are those of the messages
from `first` on, exactly where the mailbox is empty or holds such a message.

Where all messages are older, the server answers with the last one, and that is what is returned. -/
theorem fetchNewHeaders_exact_iff (box : Contents) (server : Server) (mailboxName : String)
    (first : Nat) (responses : List Fetch)
    (hexamine : server.examine mailboxName = .ok box.examined)
    (hfetch : server.uidFetch 0 s!"{first}:*" "(UID ENVELOPE FLAGS)" = .ok (responses.map .ok))
    (hanswers : responses.Perm (box.answersFrom first)) :
    (∃ headers, fetchNewHeaders parseHeader server mailboxName first = .ok headers ∧
        headers.Perm (box.newer parseHeader first)) ↔
      box.messages = [] ∨ ∃ m ∈ box.messages, first ≤ m.uid := by
  obtain ⟨read, hread, hrange⟩ :=
    fetchNewHeaders_inRange parseHeader hexamine hfetch hanswers
  constructor
  · rintro ⟨headers, hheaders, hnewer⟩
    obtain rfl : read = headers := Except.ok.inj (hread.symm.trans hheaders)
    by_contra hcond
    obtain ⟨hne, hnone⟩ := not_or.mp hcond
    have hnil : box.newer parseHeader first = [] := by
      obtain ⟨h, hmem, huid⟩ := box.exists_highest parseHeader hne
      obtain ⟨m, hm, rfl⟩ := List.mem_map.mp hmem
      refine box.newer_eq_nil parseHeader (Nat.lt_of_not_le fun hle => hnone ⟨m, hm, ?_⟩)
      exact hle.trans_eq huid.symm
    rw [hnil] at hnewer
    exact box.inRange_ne_nil parseHeader hne first (hrange.symm.trans hnewer).eq_nil
  · intro hcond
    refine ⟨read, hread, ?_⟩
    rcases hcond with hempty | ⟨m, hm, hle⟩
    · have hnone : box.headers parseHeader = [] := by rw [Contents.headers, hempty, List.map_nil]
      have hsame : box.newer parseHeader first = box.inRange parseHeader first := by
        rw [Contents.newer, Contents.inRange, hnone, List.filter_nil, List.filter_nil]
      rwa [hsame]
    · have hhighest := box.uid_le_highest parseHeader (List.mem_map_of_mem hm)
      rwa [box.inRange_eq_newer parseHeader (hle.trans hhighest)] at hrange

end New

/-- A mailbox of one message, whose UID is 5. -/
def oneMessage : Contents where
  messages := [⟨5, {}, [], []⟩]
  uidValidity := 1
  uidNext := 6
  ascending := by simp
  assigned := by simp
  representable := by decide

/-- A server that answers every fetch and every STORE with the same responses. -/
def Server.saying (box : Contents) (responses : List Fetch) : Server where
  examine := fun _ => .ok box.examined
  select := fun _ => .ok box.examined
  fetch := fun _ _ => .ok (responses.map .ok)
  uidFetch := fun _ _ _ => .ok (responses.map .ok)
  uidStore := fun _ _ => .ok (responses.map .ok)

/-- A mailbox of three, the first of them read long ago. -/
def threeMessages : Contents where
  messages := [⟨3, {}, [], []⟩, ⟨5, {}, [], []⟩, ⟨8, {}, [], []⟩]
  uidValidity := 1
  uidNext := 9
  ascending := by simp
  assigned := by simp
  representable := by decide

/-- From 5 on, the older message is left out; the answers may come in any order. -/
theorem fetchNewHeaders_exact_five :
    (threeMessages.newer (fun _ => none) 5).map MailHeader.uid = [5, 8] ∧
      ∃ headers, fetchNewHeaders (fun _ => none) (.saying threeMessages (threeMessages.answersFrom 5).reverse)
          "INBOX" 5 = .ok headers ∧
        headers.Perm (threeMessages.newer (fun _ => none) 5) :=
  ⟨rfl, (fetchNewHeaders_exact_iff (fun _ => none) threeMessages _ "INBOX" 5
    (threeMessages.answersFrom 5).reverse rfl rfl (List.reverse_perm _)).mpr
      (.inr ⟨⟨5, {}, [], []⟩, by simp [threeMessages], by decide⟩)⟩

/-- From the next UID on, it is fetched again: `6:*` is the range from 5 to 6. -/
theorem last_message_fetched_again :
    let server : Server := .saying oneMessage (oneMessage.answersFrom 6)
    (∃ h, fetchNewHeaders (fun _ => none) server "INBOX" 6 = .ok [h] ∧ h.uid = 5) ∧
      oneMessage.newer (fun _ => none) 6 = [] ∧
      ¬ ∃ headers, fetchNewHeaders (fun _ => none) server "INBOX" 6 = .ok headers ∧
        headers.Perm (oneMessage.newer (fun _ => none) 6) := by
  intro server
  have hread : fetchNewHeaders (fun _ => none) server "INBOX" 6 =
      .ok [Message.header (fun _ => none) ⟨5, {}, [], []⟩] := rfl
  have hnone : oneMessage.newer (fun _ => none) 6 = [] := rfl
  refine ⟨⟨_, hread, rfl⟩, hnone, ?_⟩
  rintro ⟨headers, hheaders, hperm⟩
  obtain rfl := Except.ok.inj (hread.symm.trans hheaders)
  rw [hnone] at hperm
  exact absurd hperm.eq_nil (by simp)

end Esmail.Imap
