/-
# The progress of a bulk download

`bulk_download` of `imap.rs` takes the number of messages from EXAMINE and then counts the responses
to one fetch of `1:total`, fetching the body of each.  A listener takes `current == total` for the
end (`pump.rs`).

`bulkDownload_reported_iff` says of which servers the progress is as a listener expects it (`Reported`):
it never falls and never passes the total, each message that is returned is delivered once and in turn,
and a download that succeeds has told its end.  Exactly of those that return as many messages as they
announced, and not none, or fail before (`Completes`).

How far the loop comes depends on what the server answers alone (`readCount`); `bulkLoop_spec` is the
loop, by induction on the responses: what was delivered and reported is a first part of what was returned.
The rest is arithmetic about the last report, the cast of the count to `u32` included.

The retry is not part of a download: a second attempt is another one, with another total.
-/
import Esmail.Fetching.Answers

namespace Esmail.Imap

open Fetching (Error BulkEvent)

/-! ## 1. The download, as the source has it -/

section Bulk

variable (parseHeader : List UInt8 → Option (List Char)) (renderMessage : List UInt8 → String)
  (extractAttachments : List UInt8 → List Attachment)

/-- What the loop of `bulk_download` makes of its `i`-th message, before it sends anything: the header,
and the body and the attachments of the first response to a fetch of its UID. -/
def bulkMail (server : Server) (i : Nat) (msg : Except Error Fetch) :
    Except Error (MailHeader × String × List Attachment) := do
  let header ← headerOf parseHeader msg
  let bodyFetches ← server.uidFetch i s!"{header.uid}" "RFC822"
  match bodyFetches with
  | [] => return (header, "", [])
  | bodyMsg :: _ =>
    let bodyMsg ← bodyMsg
    match bodyMsg.body with
    | none => return (header, "", [])
    | some bytes => return (header, renderMessage bytes, extractAttachments bytes)

/-- The loop of `bulk_download`, with the events it sends.  The count is cast to a `u32`. -/
def bulkLoop (server : Server) (mailboxName : String) (total : Nat) :
    Nat → List (Except Error Fetch) → List BulkEvent × Except Error Unit
  | _, [] => ([], .ok ())
  | i, msg :: messages =>
    match bulkMail parseHeader renderMessage extractAttachments server i msg with
    | .error e => ([], .error e)
    | .ok (header, body, attachments) =>
      let rest := bulkLoop server mailboxName total (i + 1) messages
      (.mailData mailboxName header body attachments :: .progress ((i + 1) % 2 ^ 32) total :: rest.1,
        rest.2)

/-- `bulk_download`. -/
def bulkDownload (server : Server) (mailboxName : String) : List BulkEvent × Except Error Unit :=
  match server.examine mailboxName with
  | .error e => ([], .error e)
  | .ok mailbox =>
    let total := mailbox.total
    if total = 0 then ([], .ok ())
    else
      match server.fetch s!"1:{total}" "(UID ENVELOPE FLAGS)" with
      | .error e => ([.progress 0 total], .error e)
      | .ok messages =>
        let rest := bulkLoop parseHeader renderMessage extractAttachments server mailboxName total 0
          messages
        (.progress 0 total :: rest.1, rest.2)

/-! ## 2. What a listener expects -/

/-- The progress that is told, as current and total. -/
def progresses (events : List BulkEvent) : List (Nat × Nat) :=
  events.filterMap fun
    | .progress current total => some (current, total)
    | .mailData .. => none

/-- The messages that are delivered. -/
def delivered (events : List BulkEvent) : List MailHeader :=
  events.filterMap fun
    | .progress .. => none
    | .mailData _ header _ _ => some header

/-- What a run tells: the progress never falls and never exceeds the total, the messages are delivered
in turn, and a run that succeeds has delivered each one and told its end. -/
structure Reported (total : Nat) (returned : List MailHeader)
    (run : List BulkEvent × Except Error Unit) : Prop where
  rising : ((progresses run.1).map Prod.fst).Pairwise (· ≤ ·)
  bounded : ∀ p ∈ progresses run.1, p.1 ≤ total ∧ p.2 = total
  inTurn : delivered run.1 <+: returned
  complete : run.2 = .ok () →
    delivered run.1 = returned ∧ (progresses run.1).getLast? = some (total, total)

/-- The number of messages that is announced. -/
def Server.announced (server : Server) (mailboxName : String) : Nat :=
  match server.examine mailboxName with
  | .ok mailbox => mailbox.total
  | .error _ => 0

/-- The headers of the messages returned. -/
def headersReturned (messages : List (Except Error Fetch)) : List MailHeader :=
  messages.filterMap fun msg => (headerOf parseHeader msg).toOption

/-- The messages returned for the fetch of all of them. -/
def Server.returned (server : Server) (mailboxName : String) : List MailHeader :=
  match server.fetch s!"1:{server.announced mailboxName}" "(UID ENVELOPE FLAGS)" with
  | .ok messages => headersReturned parseHeader messages
  | .error _ => []

/-! ## 3. How far the loop comes -/

/-- A message can be read: it has its UID and its envelope, and the fetch of its body does not fail. -/
def readable (server : Server) (i : Nat) : Except Error Fetch → Bool
  | .error _ => false
  | .ok msg =>
    match msg.uid, msg.envelope with
    | some uid, some _ =>
      match server.uidFetch i s!"{uid}" "RFC822" with
      | .error _ => false
      | .ok stream => stream.head?.all Except.isOk
    | _, _ => false

/-- How many messages can be read before the first that cannot. -/
def readCount (server : Server) : Nat → List (Except Error Fetch) → Nat
  | _, [] => 0
  | i, msg :: messages => if readable server i msg then readCount server (i + 1) messages + 1 else 0

/-- What can be read gets through a turn of the loop, with its own header, and nothing else does. -/
theorem bulkMail_cases (server : Server) (i : Nat) (msg : Except Error Fetch) :
    (readable server i msg = true ∧ ∃ header body attachments,
        headerOf parseHeader msg = .ok header ∧
          bulkMail parseHeader renderMessage extractAttachments server i msg =
            .ok (header, body, attachments)) ∨
      readable server i msg = false ∧
        ∃ e, bulkMail parseHeader renderMessage extractAttachments server i msg = .error e := by
  rcases msg with e | ⟨message, uid, envelope, flags, body⟩
  · exact .inr ⟨rfl, e, rfl⟩
  · rcases uid with - | uid
    · exact .inr ⟨rfl, _, rfl⟩
    · rcases envelope with - | envelope
      · exact .inr ⟨rfl, _, rfl⟩
      · set header := parseEnvelopeHeader parseHeader uid envelope (flags.map flagToStr) with hheader
        have hread : headerOf parseHeader (.ok ⟨message, some uid, some envelope, flags, body⟩) =
            .ok header := rfl
        have huid : header.uid = uid := rfl
        simp only [readable, bulkMail, hread, huid, bind, Except.bind]
        cases server.uidFetch i s!"{uid}" "RFC822" with
        | error e => exact .inr ⟨rfl, e, rfl⟩
        | ok stream =>
          rcases stream with - | ⟨e | bodyMsg, rest⟩
          · exact .inl ⟨rfl, header, _, _, rfl, rfl⟩
          · exact .inr ⟨rfl, e, rfl⟩
          · obtain ⟨-, -, -, -, body⟩ := bodyMsg
            cases body with
            | none => exact .inl ⟨rfl, header, _, _, rfl, rfl⟩
            | some bytes => exact .inl ⟨rfl, header, _, _, rfl, rfl⟩

/-- The counts of a loop that starts at `i` and comes `count` messages far. -/
def counts (total i count : Nat) : List (Nat × Nat) :=
  (List.range' (i + 1) count).map fun current => (current % 2 ^ 32, total)

/-- The loop counts and delivers the messages that it reads, one by one, and fails at the first that it
cannot read. -/
theorem bulkLoop_spec (server : Server) (mailboxName : String) (total i : Nat)
    (messages : List (Except Error Fetch)) :
    let run := bulkLoop parseHeader renderMessage extractAttachments server mailboxName total i messages
    progresses run.1 = counts total i (readCount server i messages) ∧
      delivered run.1 = headersReturned parseHeader (messages.take (readCount server i messages)) ∧
      (run.2 = .ok () ↔ readCount server i messages = messages.length) := by
  induction messages generalizing i with
  | nil => exact ⟨rfl, rfl, iff_of_true rfl rfl⟩
  | cons msg messages ih =>
    rcases bulkMail_cases parseHeader renderMessage extractAttachments server i msg with
      ⟨hread, header, body, attachments, hheader, hmail⟩ | ⟨hread, e, hmail⟩
    · obtain ⟨hprogress, hdelivered, hend⟩ := ih (i + 1)
      simp only [bulkLoop, hmail, readCount, hread, if_true]
      refine ⟨?_, ?_, ?_⟩
      · rw [counts, List.range'_succ, List.map_cons, ← counts, ← hprogress]
        rfl
      · rw [List.take_succ_cons, headersReturned, List.filterMap_cons_some (by rw [hheader]; rfl),
          ← headersReturned, ← hdelivered]
        rfl
      · rw [hend, List.length_cons, Nat.add_right_cancel_iff]
    · simp only [bulkLoop, hmail, readCount, hread]
      exact ⟨rfl, rfl, iff_of_false nofun (by simp)⟩

/-! ## 4. When the listener is told the end -/

/-- The mailbox is not empty, as many messages can be read as were announced at most, and just as many
where all can be read. -/
def Server.Completes (server : Server) (mailboxName : String) : Prop :=
  match server.examine mailboxName with
  | .error _ => True
  | .ok mailbox =>
    mailbox.total ≠ 0 ∧
      match server.fetch s!"1:{mailbox.total}" "(UID ENVELOPE FLAGS)" with
      | .error _ => True
      | .ok messages =>
        readCount server 0 messages ≤ mailbox.total ∧
          (readCount server 0 messages = messages.length →
            readCount server 0 messages = mailbox.total)

/-- The counts from zero on. -/
theorem cons_counts (total count : Nat) :
    (0, total) :: counts total 0 count =
      (List.range' 0 (count + 1)).map fun current => (current % 2 ^ 32, total) := by
  rw [List.range'_succ, List.map_cons, Nat.zero_mod, counts]

/-- Counts from zero on that never fall or exceed the total stop at it. -/
theorem count_le_total {total count : Nat} (hrepr : total ≤ u32Max)
    (hrising : (((0, total) :: counts total 0 count).map Prod.fst).Pairwise (· ≤ ·))
    (hbounded : ∀ p ∈ (0, total) :: counts total 0 count, p.1 ≤ total ∧ p.2 = total) :
    count ≤ total := by
  rw [cons_counts] at hrising hbounded
  by_contra hlt
  have hnext := (hbounded _ (List.mem_map_of_mem
    (List.mem_range'_1.mpr ⟨Nat.zero_le (total + 1), by omega⟩))).1
  -- The count wraps where the total is the last `u32`, and then it falls.
  have hwrap : total = u32Max := by
    unfold u32Max at *
    simp only at hnext
    omega
  rw [List.map_map, List.pairwise_map, List.pairwise_iff_getElem] at hrising
  have hfall := hrising total (total + 1) (by rw [List.length_range']; omega)
    (by rw [List.length_range']; omega) (Nat.lt_succ_self total)
  simp only [Function.comp_def, List.getElem_range', hwrap, u32Max] at hfall
  omega

/-- Up to the total, they never fall or exceed it. -/
theorem counts_of_le {total count : Nat} (hrepr : total ≤ u32Max) (hle : count ≤ total) :
    (((0, total) :: counts total 0 count).map Prod.fst).Pairwise (· ≤ ·) ∧
      (∀ p ∈ (0, total) :: counts total 0 count, p.1 ≤ total ∧ p.2 = total) ∧
      ((0, total) :: counts total 0 count).getLast? = some (count, total) := by
  have hplain : (0, total) :: counts total 0 count =
      (List.range' 0 (count + 1)).map fun current => (current, total) := by
    rw [cons_counts]
    refine List.map_congr_left fun current hcurrent => ?_
    have hlt := (List.mem_range'_1.mp hcurrent).2
    rw [Nat.mod_eq_of_lt]
    unfold u32Max at hrepr
    omega
  rw [hplain]
  refine ⟨?_, fun p hp => ?_, ?_⟩
  · rw [List.map_map, List.pairwise_map]
    exact (List.pairwise_lt_range' ..).imp Nat.le_of_lt
  · obtain ⟨current, hcurrent, rfl⟩ := List.mem_map.mp hp
    have hlt := (List.mem_range'_1.mp hcurrent).2
    exact ⟨by omega, rfl⟩
  · rw [List.range'_1_concat, List.map_append]
    simp

/-- What the listener is told once the messages are there. -/
theorem reported_iff_readCount (server : Server) (mailboxName : String) {total : Nat}
    (hrepr : total ≤ u32Max) (messages : List (Except Error Fetch)) :
    let rest := bulkLoop parseHeader renderMessage extractAttachments server mailboxName total 0
      messages
    Reported total (headersReturned parseHeader messages) (.progress 0 total :: rest.1, rest.2) ↔
      readCount server 0 messages ≤ total ∧
        (readCount server 0 messages = messages.length → readCount server 0 messages = total) := by
  intro rest
  obtain ⟨hprogress, hdelivered, hend⟩ := bulkLoop_spec parseHeader renderMessage
    extractAttachments server mailboxName total 0 messages
  have hall : progresses (.progress 0 total :: rest.1) =
      (0, total) :: counts total 0 (readCount server 0 messages) := by
    rw [← hprogress]
    rfl
  have hsame : delivered (.progress 0 total :: rest.1) = delivered rest.1 := rfl
  constructor
  · intro h
    have hle : readCount server 0 messages ≤ total :=
      count_le_total hrepr (hall ▸ h.rising) (hall ▸ h.bounded)
    refine ⟨hle, fun hread => ?_⟩
    have hlast := (h.complete (hend.mpr hread)).2
    rw [hall, (counts_of_le hrepr hle).2.2] at hlast
    exact (Prod.mk.inj (Option.some.inj hlast)).1
  · rintro ⟨hle, hcomplete⟩
    obtain ⟨hrising, hbounded, hlast⟩ := counts_of_le hrepr hle
    refine ⟨hall ▸ hrising, hall ▸ hbounded, ?_, fun hok => ?_⟩
    · rw [hsame, hdelivered]
      exact (List.take_prefix _ _).filterMap _
    · have hread := hend.mp hok
      rw [hsame, hdelivered, hread, List.take_length, hall, hlast, hcomplete hread]
      exact ⟨rfl, rfl⟩

/-- Whatever the server answers: the progress never falls or exceeds the total, every message returned
is delivered once and in turn, and a download that succeeds tells its end, exactly where the server
returns as many messages as it announced, and not none. -/
theorem bulkDownload_reported_iff (server : Server) (mailboxName : String) :
    Reported (server.announced mailboxName) (server.returned parseHeader mailboxName)
        (bulkDownload parseHeader renderMessage extractAttachments server mailboxName) ↔
      server.Completes mailboxName := by
  rw [Server.returned, Server.announced, bulkDownload, Server.Completes]
  cases server.examine mailboxName with
  | error e => exact iff_of_true ⟨.nil, nofun, List.nil_prefix, nofun⟩ trivial
  | ok mailbox =>
    by_cases hempty : mailbox.total = 0
    · simp only [hempty, if_true]
      refine iff_of_false (fun h => ?_) (fun h => h.1 rfl)
      cases (h.complete rfl).2
    · simp only [hempty, if_false]
      cases server.fetch s!"1:{mailbox.total}" "(UID ENVELOPE FLAGS)" with
      | error e =>
        refine iff_of_true ⟨List.pairwise_singleton _ _, ?_, List.nil_prefix, nofun⟩ ⟨hempty, trivial⟩
        exact List.forall_mem_singleton.mpr ⟨Nat.zero_le _, rfl⟩
      | ok messages =>
        exact (reported_iff_readCount parseHeader renderMessage extractAttachments server mailboxName
          mailbox.representable messages).trans (and_iff_right hempty).symm

end Bulk

/-- A server that announces two messages, and returns one. -/
def returningOne : Server :=
  { Server.saying oneMessage (oneMessage.described 1 1) with
    examine := fun _ => .ok { total := 2, representable := by decide } }

/-- The download succeeds, and the listener still waits for the second message. -/
theorem end_not_told :
    let run := bulkDownload (fun _ => none) (fun _ => "") (fun _ => []) returningOne "INBOX"
    run.2 = .ok () ∧ progresses run.1 = [(0, 2), (1, 2)] ∧
      ¬ Reported (returningOne.announced "INBOX") (returningOne.returned (fun _ => none) "INBOX")
        run := by
  intro run
  have hprogress : progresses run.1 = [(0, 2), (1, 2)] := rfl
  refine ⟨rfl, hprogress, fun h => ?_⟩
  have hlast := (h.complete rfl).2
  rw [hprogress] at hlast
  exact absurd hlast (by decide)

end Esmail.Imap
