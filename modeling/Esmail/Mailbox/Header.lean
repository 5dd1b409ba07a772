/-
# Message headers, and the row a list shows for one

`MailHeader` is what a header fetch returns for one message; `RowModel` is the text half of its
row in the message list.  `RowModel.fromHeader` takes one thing from outside: how a raw `Date`
header reads in the local time zone, which is a date parser's and the machine's business.
-/
import Esmail.Library.RustText

namespace Esmail

open RustText

/-- `MailHeader`.  The fields `sender` and `recipient` are the source's `from` and `to`,
reserved words here. -/
structure MailHeader where
  uid : Nat
  subject : String
  sender : String
  recipient : String
  date : String
  messageId : String
  flags : List String
  deriving DecidableEq, Repr

namespace MailHeader

/-- Whether a flag is set, in any letter case. -/
def hasFlag (h : MailHeader) (flag : String) : Bool :=
  h.flags.any (fun f => eqIgnoreAsciiCase f.toList flag.toList)

def isSeen (h : MailHeader) : Bool := h.hasFlag "\\Seen"

def isFlagged (h : MailHeader) : Bool := h.hasFlag "\\Flagged"

/-- `display_name_of`: the `Name` of `Name <user@host>` without its quotes, else the address
between the brackets, else the whole text. -/
def displayNameOf (sender : List Char) : List Char :=
  let sender := trim sender
  match rsplitAt '<' sender with
  | none => sender
  | some (before, after) =>
    let name := trim (trimBoth (· == '"') (trim before))
    let inner := trim (trimEnd (· == '>') after)
    if name ≠ [] then name else if inner ≠ [] then inner else sender

def senderName (h : MailHeader) : String := String.ofList (displayNameOf h.sender.toList)

end MailHeader

/-- How a raw `Date` header reads as a day and a time in the local time zone. -/
abbrev LocalDateTime := String → Option (String × String)

/-- `RowModel`: what the message list draws for one message. -/
structure RowModel where
  sender : String
  subject : String
  rawSender : String
  rawSubject : String
  rawDate : String
  localDateTime : Option (String × String)
  seen : Bool
  flagged : Bool
  deriving DecidableEq, Repr

/-- `RowModel::from_header`. -/
def RowModel.fromHeader (zone : LocalDateTime) (h : MailHeader) : RowModel :=
  { sender := if h.senderName = "" then "(unknown sender)" else h.senderName
    subject := if h.subject = "" then "(no subject)" else h.subject
    rawSender := h.sender
    rawSubject := h.subject
    rawDate := h.date
    localDateTime := zone h.date
    seen := h.isSeen
    flagged := h.isFlagged }

/-- The UIDs of a list of headers. -/
def uids (l : List MailHeader) : List Nat := l.map MailHeader.uid

@[simp] theorem uids_nil : uids [] = [] := rfl

@[simp] theorem uids_cons (h : MailHeader) (l : List MailHeader) :
    uids (h :: l) = h.uid :: uids l := rfl

@[simp] theorem uids_append (l m : List MailHeader) : uids (l ++ m) = uids l ++ uids m :=
  List.map_append

@[simp] theorem uids_reverse (l : List MailHeader) : uids l.reverse = (uids l).reverse :=
  List.map_reverse

theorem mem_uids {u : Nat} {l : List MailHeader} : u ∈ uids l ↔ ∃ h ∈ l, h.uid = u :=
  List.mem_map

theorem mem_uids_of_mem {h : MailHeader} {l : List MailHeader} (hm : h ∈ l) : h.uid ∈ uids l :=
  List.mem_map.mpr ⟨h, hm, rfl⟩

end Esmail
