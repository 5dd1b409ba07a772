/-
# What counts as new mail, and what a toast says of it

`notify.rs`.  New mail is told from a UID watermark: the UIDVALIDITY and the UIDNEXT of the watched
mailbox as they were last reported.  What is reported last is KEPT, whatever it is, and new mail is what
it has that the report before had not.
-/
import Esmail.Cache.Tables
import Esmail.Mailbox.Header

namespace Esmail.Watching

open RustText

/-! ## 1. The watermark -/

/-- `MailWatermark`. -/
structure MailWatermark where
  uidValidity : Nat
  uidNext : Nat
  deriving DecidableEq, Repr

/-- `WatermarkUpdate`. -/
inductive WatermarkUpdate
  | baseline
  | newMail (firstNewUid count : Nat)
  | unchanged
  deriving DecidableEq, Repr

/-- `update_watermark`. -/
def updateWatermark (previous : Option MailWatermark) (current : MailWatermark) :
    MailWatermark × WatermarkUpdate :=
  let update :=
    match previous with
    | none => .baseline
    | some p =>
      if p.uidValidity ≠ current.uidValidity then .baseline
      else if p.uidNext < current.uidNext then .newMail p.uidNext (current.uidNext - p.uidNext)
      else .unchanged
  (current, update)

/-- What is fetched on an update. -/
def WatermarkUpdate.firstNewUid : WatermarkUpdate → Option Nat
  | .newMail firstNewUid _ => some firstNewUid
  | _ => none

/-- What was reported is kept, whatever it is. -/
@[simp] theorem updateWatermark_keeps (previous : Option MailWatermark) (current : MailWatermark) :
    (updateWatermark previous current).1 = current := rfl

theorem firstNewUid_none (current : MailWatermark) :
    (updateWatermark none current).2.firstNewUid = none := rfl

/-- While the UIDVALIDITY is the same, what is above the last report is new. -/
theorem firstNewUid_some {p current : MailWatermark} (h : p.uidValidity = current.uidValidity) :
    (updateWatermark (some p) current).2.firstNewUid =
      if p.uidNext < current.uidNext then some p.uidNext else none := by
  unfold updateWatermark
  simp only [h, ne_eq, not_true_eq_false, if_false]
  split <;> rfl

/-! ## 2. The text of a toast -/

/-- `MAX_FIELD_LEN`. -/
def maxFieldLen : Nat := 120

/-- `char::is_control`. -/
def isControl (c : Char) : Bool := c.toNat < 0x20 || (0x7F ≤ c.toNat && c.toNat ≤ 0x9F)

/-- `truncate_chars`. -/
def truncateChars (s : String) (maxChars : Nat) : String :=
  if s.toList.length ≤ maxChars then s else String.ofList (s.toList.take (maxChars - 1) ++ ['…'])

/-- `sanitize_toast_field`. -/
def sanitizeToastField (input : String) : String :=
  let collapsed := input.toList.map fun c => if isControl c then ' ' else c
  truncateChars (" ".intercalate ((splitWhitespaceFrom [] collapsed).map String.ofList))
    maxFieldLen

/-- `build_notification`. -/
def buildNotification : List MailHeader → Option (String × String)
  | [] => none
  | [header] =>
    let sender := sanitizeToastField header.sender
    let sender := if sender.isEmpty then "someone" else sender
    let subject := sanitizeToastField header.subject
    let subject := if subject.isEmpty then "(no subject)" else subject
    some ("New mail from " ++ sender, subject)
  | headers => some ("New mail", toString headers.length ++ " new messages in INBOX")

/-- `build_account_notification`. -/
def buildAccountNotification (label : String) (headers : List MailHeader) :
    Option (String × String) :=
  (buildNotification headers).map fun (title, body) =>
    let label := sanitizeToastField label
    if label.isEmpty then (title, body) else (label ++ ": " ++ title, body)

/-- A toast is shown unless nothing was fetched. -/
theorem isSome_buildAccountNotification (label : String) (headers : List MailHeader) :
    (buildAccountNotification label headers).isSome = !headers.isEmpty := by
  match headers with
  | [] => rfl
  | [_] => rfl
  | _ :: _ :: _ => rfl

theorem length_truncateChars (s : String) {maxChars : Nat} (h : 0 < maxChars) :
    (truncateChars s maxChars).toList.length ≤ maxChars := by
  unfold truncateChars
  split
  · assumption
  · rw [String.toList_ofList, List.length_append, List.length_take, List.length_singleton]
    omega

/-- Neither the sender nor the subject makes a toast longer than its layout has room for. -/
theorem length_sanitizeToastField (input : String) :
    (sanitizeToastField input).toList.length ≤ maxFieldLen :=
  length_truncateChars _ (by decide)

end Esmail.Watching
