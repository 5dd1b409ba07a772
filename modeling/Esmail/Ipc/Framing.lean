/-
# What the framing keeps apart, and what it does not

One JSON message a line, in lines of at most so many bytes; a listener that lets a client in after a
`Hello` with its version and its token.  `framing_and_handshake` is what holds of every stream, however it
is cut into reads:

* what was sent in lines that fit is received, in order, and then the end;
* a client is let in, and written to, only after it has said hello, with the listener's own token and no
  other;
* a line that is too long is refused, and no message is made from what is left of it, exactly where no
  such line has a remainder that reads as a message (`RemainderReads`).

The last is the one that fails in general: `recv` takes a whole block off the line, refuses it, and reads
on in the middle of the line (`remainder_received`).

A reader always stands somewhere in the stream, at the beginning of a line or after so many blocks of one
that was refused (`Stands`), and every place is reached by some number of `recv`s (`reach_line`, by
induction on the lines before it).  The handshake is a case analysis of the first line
(`handshake_cases`).

`serde_json` is a parameter, of which only what it reads back of what it wrote is assumed.
-/
import Esmail.Ipc.Connection

namespace Esmail.Ipc

open LineReader Transition

variable {Tx Rx : Type}

/-! ## 1. One line -/

theorem readLine_line (c : Connection) :
    (readLine c).1 = takeRecord newline (maxLine + 1) c.reader.contents :=
  (readUntil_eq c.reader.reads (maxLine + 1) c.reader.buffer).1

theorem readLine_rest (c : Connection) :
    (readLine c).2.reader.contents = c.reader.contents.drop (readLine c).1.length := by
  rw [readLine_line]
  exact (readUntil_eq c.reader.reads (maxLine + 1) c.reader.buffer).2

/-- The line, and what is left. -/
theorem readLine_append (c : Connection) :
    (readLine c).1 ++ (readLine c).2.reader.contents = c.reader.contents := by
  rw [readLine_rest, readLine_line]
  exact takeRecord_append_drop ..

/-- What reading a line comes to: a whole block without a newline, all that is left, or a line. -/
theorem readLine_cases (c : Connection) :
    (newline ∉ (readLine c).1 ∧ (readLine c).1.length = maxLine + 1) ∨
      (newline ∉ c.reader.contents ∧ (readLine c).1 = c.reader.contents ∧
        (readLine c).1.length < maxLine + 1 ∧ (readLine c).2.reader.contents = []) ∨
      ∃ line, newline ∉ line ∧ (readLine c).1 = line ++ [newline] ∧ line.length < maxLine + 1 ∧
        c.reader.contents = line ++ newline :: (readLine c).2.reader.contents := by
  rw [readLine_rest, readLine_line]
  rcases takeRecord_cases (maxLine + 1) c.reader.contents with hfull | ⟨hno, hall, hlt⟩ |
    ⟨line, rest, hno, hsplit, htake, hlt⟩
  · exact .inl hfull
  · exact .inr (.inl ⟨hno, hall, by rw [hall]; exact hlt, by rw [hall]; simp⟩)
  · refine .inr (.inr ⟨line, hno, htake, hlt, ?_⟩)
    rw [htake, hsplit]
    simp

/-- A block without a newline that fills the bound is refused. -/
theorem overLong_of_full {line : List UInt8} (hno : newline ∉ line)
    (hfull : line.length = maxLine + 1) : overLong line = true := by
  have hlast : line.getLast? ≠ some newline := fun h => hno (List.mem_of_getLast? h)
  simp [overLong, hlast, hfull]

/-- A line that ends in a newline is not. -/
theorem overLong_newline (line : List UInt8) : overLong (line ++ [newline]) = false := by
  simp [overLong]

/-- When `recv` returns a message. -/
theorem answer_eq_message {json : Json Rx} {line : List UInt8} {m : Rx} :
    answer json line = .ok (some m) ↔
      line ≠ [] ∧ overLong line = false ∧ json.fromSlice line = .ok m := by
  rw [answer]
  by_cases hnil : line = []
  · simp [hnil]
  · cases hlong : overLong line <;> cases hread : json.fromSlice line <;> simp [hnil]

/-! ## 2. What is sent is received -/

/-- The bytes of a message on the wire. -/
def frame (json : Json Rx) (m : Rx) : List UInt8 := json.toVec m ++ [newline]

/-- One message, from a stream that begins with it. -/
theorem recv_frame {json : Json Rx} {m : Rx} (hjson : json.RoundTrips m)
    (hfit : (json.toVec m).length ≤ maxLine)
    {c : Connection} {rest : List UInt8} (hc : c.reader.contents = frame json m ++ rest) :
    (recv json c).1 = .ok (some m) ∧ (recv json c).2.reader.contents = rest := by
  have hline : (readLine c).1 = frame json m := by
    rw [readLine_line, hc, frame, List.append_assoc]
    exact takeRecord_record hjson.1 (by omega) rest
  refine ⟨?_, ?_⟩
  · rw [recv, hline]
    exact answer_eq_message.mpr ⟨by simp [frame], overLong_newline _, hjson.2⟩
  · have happ := readLine_append c
    rw [hline, hc] at happ
    exact List.append_cancel_left happ

/-- At the end of the stream there is nothing. -/
theorem receives_end (json : Json Rx) : ∀ (n : Nat) {c : Connection}, c.reader.contents = [] →
    receives json n c = List.replicate n (.ok none)
  | 0, _, _ => rfl
  | n + 1, c, hc => by
    have happ := readLine_append c
    rw [hc] at happ
    obtain ⟨hline, hrest⟩ := List.append_eq_nil_iff.mp happ
    have hnone : (recv json c).1 = .ok none := by simp [recv, answer, hline]
    rw [receives, hnone, receives_end json n (show (recv json c).2.reader.contents = [] from hrest),
      List.replicate_succ]

/-- The messages sent, in order, and then the end. -/
theorem receives_frames (json : Json Rx) (k : Nat) : ∀ (ms : List Rx),
    (∀ m ∈ ms, json.RoundTrips m ∧ (json.toVec m).length ≤ maxLine) → ∀ {c : Connection},
      c.reader.contents = ms.flatMap (frame json) →
      receives json (ms.length + k) c =
        ms.map (fun m => .ok (some m)) ++ List.replicate k (.ok none)
  | [], _, c, hc => by
    rw [List.length_nil, Nat.zero_add]
    exact receives_end json k hc
  | m :: ms, hfit, c, hc => by
    obtain ⟨hjson, hline⟩ := hfit m List.mem_cons_self
    obtain ⟨hone, hrest⟩ := recv_frame hjson hline hc
    rw [show (m :: ms).length + k = (ms.length + k) + 1 by simp; omega, receives, hone,
      receives_frames json k ms (fun x hx => hfit x (List.mem_cons_of_mem m hx)) hrest]
    rfl

theorem send_open (json : Json Tx) (m : Tx) {c : Connection} (hpeer : c.peerGone = false) :
    (send json m c).2 = { c with written := c.written ++ frame json m } := by
  simp [send, hpeer, frame]

/-- Sends, one after another. -/
def sends (json : Json Tx) (ms : List Tx) (c : Connection) : Connection :=
  ms.foldl (fun c m => (send json m c).2) c

theorem sends_written (json : Json Tx) : ∀ (ms : List Tx) {c : Connection}, c.peerGone = false →
    (sends json ms c).written = c.written ++ ms.flatMap (frame json)
  | [], c, _ => by simp [sends]
  | m :: ms, c, hpeer => by
    rw [sends, List.foldl_cons, ← sends, send_open json m hpeer]
    refine (sends_written json ms ?_).trans ?_
    · exact hpeer
    · simp

/-! ## 3. The hello -/

/-- The first line on a connection is a `Hello` with the version and the token. -/
def SaysHello (hear : Json ToListener) (token : String) (c : Connection) : Prop :=
  ∃ line, (records newline c.reader.contents).head? = some line ∧ line.length ≤ maxLine + 1 ∧
    hear.fromSlice line = .ok (.hello token protocolVersion)

/-- A message received is the first line of what was to come. -/
theorem recv_message_head {json : Json Rx} {c : Connection} {m : Rx}
    (h : (recv json c).1 = .ok (some m)) :
    ∃ line, (records newline c.reader.contents).head? = some line ∧ line.length ≤ maxLine + 1 ∧
      json.fromSlice line = .ok m := by
  obtain ⟨hne, hshort, hread⟩ := answer_eq_message.mp h
  rcases readLine_cases c with ⟨hno, hfull⟩ | ⟨hno, hall, hlt, -⟩ | ⟨line, hno, hline, hlt, hsplit⟩
  · rw [overLong_of_full hno hfull] at hshort
    cases hshort
  · refine ⟨_, ?_, Nat.le_of_lt hlt, hread⟩
    rw [hall] at hne ⊢
    rw [records_unterminated hno hne]
    rfl
  · refine ⟨_, ?_, ?_, hread⟩
    · rw [hsplit, records_append hno, hline]
      rfl
    · rw [hline, List.length_append]
      simp only [List.length_singleton]
      omega

/-- A handshake lets the client in after its hello and a welcome, or fails and has said nothing. -/
theorem handshake_cases (hear : Json ToListener) (say : Json ToGui) (token : String)
    (c : Connection) :
    (SaysHello hear token c ∧ (handshake hear say token c).1 = .ok () ∧
      (handshake hear say token c).2.written =
        c.written ++ frame say (.welcome protocolVersion)) ∨
    ∃ e, (handshake hear say token c).1 = .error e ∧
      (handshake hear say token c).2.written = c.written := by
  have hsame : (recv hear c).2.written = c.written := rfl
  have hhead : ∀ m, (recv hear c).1 = .ok (some m) → _ := fun m => recv_message_head
  rw [handshake]
  generalize recv hear c = r at hsame hhead
  rcases r with ⟨_ | (_ | ⟨theirs, version⟩ | -), c'⟩
  · exact .inr ⟨_, rfl, hsame⟩
  · exact .inr ⟨_, rfl, hsame⟩
  · by_cases hgood : version = protocolVersion ∧ tokenMatches theirs token = true
    · simp only [if_pos hgood]
      obtain ⟨rfl, htoken⟩ := hgood
      obtain rfl := (tokenMatches_iff ..).mp htoken
      cases hpeer : c'.peerGone with
      | false => exact .inl ⟨hhead _ rfl, by simp [send, hpeer], by
          rw [send_open say _ hpeer, ← hsame]⟩
      | true => exact .inr ⟨_, by simp [send, hpeer]; rfl, by simp [send, hpeer, ← hsame]⟩
    · simp only [if_neg hgood]
      split
      · exact .inr ⟨_, rfl, hsame⟩
      · exact .inr ⟨_, rfl, hsame⟩
  · exact .inr ⟨_, rfl, hsame⟩

/-- A connection is let in, or written to, only after the hello. -/
theorem handshake_says_hello {hear : Json ToListener} {say : Json ToGui} {token : String}
    {c : Connection} (h : (handshake hear say token c).1 = .ok () ∨
      (handshake hear say token c).2.written ≠ c.written) : SaysHello hear token c := by
  rcases handshake_cases hear say token c with ⟨hsaid, -⟩ | ⟨e, herr, hsame⟩
  · exact hsaid
  · rcases h with hok | hwrote
    · rw [herr] at hok
      cases hok
    · exact absurd hsame hwrote

/-- What `accept` drops it has written nothing to; what it returns has said hello. -/
theorem accept_says_hello (hear : Json ToListener) (say : Json ToGui) (token : String) :
    ∀ (as : List Arrival), (∀ a ∈ as, a.connection.written = []) →
      (∀ c ∈ (accept hear say token as).2, c.written = []) ∧
      ∀ c, (accept hear say token as).1 = some c →
        ∃ a ∈ as, SaysHello hear token a.connection ∧
          handshake hear say token a.connection = (.ok (), c)
  | [], _ => by simp [accept]
  | a :: as, hnew => by
    obtain ⟨ihDropped, ihIn⟩ := accept_says_hello hear say token as
      fun x hx => hnew x (List.mem_cons_of_mem a hx)
    have later : ∀ c, (accept hear say token as).1 = some c → ∃ x ∈ a :: as,
        SaysHello hear token x.connection ∧ handshake hear say token x.connection = (.ok (), c) :=
      fun c hc => by
        obtain ⟨x, hx, hsaid⟩ := ihIn c hc
        exact ⟨x, List.mem_cons_of_mem a hx, hsaid⟩
    rw [accept]
    split
    · split
      · rename_i c hc
        refine ⟨by simp, ?_⟩
        rintro c' hc'
        obtain rfl : c = c' := by simpa using hc'
        exact ⟨a, List.mem_cons_self,
          handshake_says_hello (.inl (by rw [hc])), hc⟩
      · rename_i e c hc
        refine ⟨?_, later⟩
        rintro c' (_ | ⟨_, hmem⟩)
        · rcases handshake_cases hear say token a.connection with ⟨-, hok, -⟩ | ⟨e', -, hsame⟩
          · rw [hc] at hok
            cases hok
          · rw [hc] at hsame
            exact hsame.trans (hnew a List.mem_cons_self)
        · exact ihDropped c' hmem
    · refine ⟨?_, later⟩
      rintro c' (_ | ⟨_, hmem⟩)
      · exact hnew a List.mem_cons_self
      · exact ihDropped c' hmem

/-! ## 4. After a line was refused -/

/-- What either side does with an open connection. -/
inductive Act (Tx : Type)
  | recv
  | send (m : Tx)

/-- A connection, and whether its reader stands inside a line it has refused as too long. -/
structure Conversation where
  connection : Connection
  refused : Bool := false

/-- A connection in use. -/
def conversation (hear : Json Rx) (say : Json Tx) (start : Connection) :
    Machine Conversation (Act Tx) where
  Init s := s = { connection := start }
  step s
    | .recv => some
        { connection := (recv hear s.connection).2
          refused := (overLong (readLine s.connection).1 || s.refused) &&
            !(readLine s.connection).1.contains newline }
    | .send m => some { s with connection := (send say m s.connection).2 }

/-- The remainder of a refused line reads as a message: what is left of the line once whole blocks
are taken off it ends in time and parses. -/
def RemainderReads (hear : Json Rx) (line : List UInt8) : Prop :=
  overLong (lastBlock (maxLine + 1) line) = false ∧
    ∃ m, hear.fromSlice (lastBlock (maxLine + 1) line) = .ok m

/-- Where the reader stands in the stream `all`: at its end, or after `blocks` blocks of a line, a
refused one if there are any. -/
def Stands (all : List UInt8) (s : Conversation) : Prop :=
  s.connection.reader.contents = [] ∨ ∃ blocks before, before.length = blocks * (maxLine + 1) ∧
    newline ∉ before ∧ (s.refused = true ↔ 0 < blocks) ∧
    records newline (before ++ s.connection.reader.contents) <:+ records newline all

theorem send_reader (json : Json Tx) (m : Tx) (c : Connection) :
    (send json m c).2.reader = c.reader := by
  rw [send]
  split <;> rfl

/-- Where `recv` leaves the reader. -/
theorem stands_recv (hear : Json Rx) {say : Json Tx} {start : Connection} {all : List UInt8}
    {s s' : Conversation} (h : Stands all s)
    (hstep : (conversation hear say start).step s .recv = some s') : Stands all s' := by
  simp only [conversation, Option.some.injEq] at hstep
  subst hstep
  have happ := readLine_append s.connection
  rcases h with hnil | ⟨blocks, before, hlen, hno, hrefused, hsuffix⟩
  · rw [hnil] at happ
    exact .inl (List.append_eq_nil_iff.mp happ).2
  · rcases readLine_cases s.connection with ⟨hblock, hfull⟩ | ⟨-, -, -, hend⟩ |
      ⟨line, hline, hread, hlt, hsplit⟩
    · refine .inr ⟨blocks + 1, before ++ (readLine s.connection).1, ?_, ?_, ?_, ?_⟩
      · rw [List.length_append, hlen, hfull, Nat.succ_mul]
      · simp [hno, hblock]
      · simp [overLong_of_full hblock hfull, hblock]
      · rw [List.append_assoc]
        exact happ ▸ hsuffix
    · exact .inl hend
    · refine .inr ⟨0, [], by simp, by simp, by simp [hread], ?_⟩
      rw [hsplit, ← List.append_assoc, records_append (by simp [hno, hline])] at hsuffix
      exact (List.suffix_cons _ _).trans hsuffix

/-- Wherever a conversation gets, its reader stands somewhere in the stream. -/
theorem stands_of_reach {hear : Json Rx} {say : Json Tx} {start : Connection} {s : Conversation}
    (h : (conversation hear say start).Reach Machine.any s) :
    Stands start.reader.contents s := by
  refine h.invariant ?_ ?_
  · rintro s rfl
    exact .inr ⟨0, [], by simp, by simp, by simp, List.suffix_refl _⟩
  · rintro s (_ | m) s' - ih - hstep
    · exact stands_recv hear ih hstep
    · simp only [conversation, Option.some.injEq] at hstep
      subst hstep
      simpa [Stands, send_reader] using ih

/-- A message received inside a refused line is the last block of a line of the stream. -/
theorem remainderReads_of_message {hear : Json Rx} {all : List UInt8} {s : Conversation}
    (hstands : Stands all s) (hrefused : s.refused = true) {m : Rx}
    (hm : (recv hear s.connection).1 = .ok (some m)) :
    ∃ line ∈ records newline all, maxLine + 1 < line.length ∧ RemainderReads hear line := by
  obtain ⟨hne, hshort, hread⟩ := answer_eq_message.mp hm
  have happ := readLine_append s.connection
  rcases hstands with hnil | ⟨blocks, before, hlen, hno, hblocks, hsuffix⟩
  · rw [hnil] at happ
    exact absurd (List.append_eq_nil_iff.mp happ).1 hne
  have hpos : 0 < blocks := hblocks.mp hrefused
  have hbefore : maxLine + 1 ≤ before.length := by
    rw [hlen]
    exact Nat.le_mul_of_pos_left _ hpos
  have hlast : (readLine s.connection).1.length ≤ maxLine + 1 →
      lastBlock (maxLine + 1) (before ++ (readLine s.connection).1) = (readLine s.connection).1 :=
    lastBlock_append hlen hne
  have hsome : 0 < (readLine s.connection).1.length := List.length_pos_iff.mpr hne
  refine ⟨before ++ (readLine s.connection).1, ?_, by simp; omega, ?_⟩
  · refine hsuffix.subset ?_
    rcases readLine_cases s.connection with ⟨hblock, hfull⟩ | ⟨hrest, hall, -, -⟩ |
      ⟨line, hline, htake, -, hsplit⟩
    · rw [overLong_of_full hblock hfull] at hshort
      cases hshort
    · rw [hall] at hne ⊢
      rw [records_unterminated (by simp [hno, hrest]) (by simp [hne])]
      exact List.mem_cons_self
    · rw [hsplit, ← List.append_assoc, records_append (by simp [hno, hline]), htake,
        List.append_assoc]
      exact List.mem_cons_self
  · have hle : (readLine s.connection).1.length ≤ maxLine + 1 := by
      rw [readLine_line]
      exact length_takeRecord_le ..
    rw [RemainderReads, hlast hle]
    exact ⟨hshort, m, hread⟩

/-- One more `recv` of a conversation. -/
theorem reach_recv {hear : Json Rx} {say : Json Tx} {start : Connection} {s : Conversation}
    (h : (conversation hear say start).Reach Machine.any s) :
    (conversation hear say start).Reach Machine.any
      { connection := (recv hear s.connection).2
        refused := (overLong (readLine s.connection).1 || s.refused) &&
          !(readLine s.connection).1.contains newline } :=
  h.step (a := .recv) trivial rfl

/-- Every line of the stream that is still to come is reached: some `recv` takes what the whole
blocks before it have left of the line.  The induction is on what is still to come. -/
theorem reach_line {hear : Json Rx} {say : Json Tx} {start : Connection} {line : List UInt8} :
    ∀ (n : Nat) {s : Conversation} (blocks : Nat) (before : List UInt8),
      (conversation hear say start).Reach Machine.any s →
      s.connection.reader.contents.length ≤ n → before.length = blocks * (maxLine + 1) →
      newline ∉ before → (s.refused = true ↔ 0 < blocks) →
      s.connection.reader.contents ≠ [] →
      line ∈ records newline (before ++ s.connection.reader.contents) →
      ∃ s' blocks' before', (conversation hear say start).Reach Machine.any s' ∧
        before'.length = blocks' * (maxLine + 1) ∧ (s'.refused = true ↔ 0 < blocks') ∧
        (readLine s'.connection).1 ≠ [] ∧ line = before' ++ (readLine s'.connection).1
  | 0, s, _, _, _, hn, _, _, _, hne, _ => absurd (List.length_eq_zero_iff.mp (by omega)) hne
  | n + 1, s, blocks, before, hreach, hn, hlen, hno, hrefused, hne, hmem => by
    have happ := readLine_append s.connection
    have htaken : (readLine s.connection).1 ≠ [] := by
      rw [readLine_line]
      exact fun h => hne ((takeRecord_eq_nil (Nat.succ_pos _)).mp h)
    have hless : (readLine s.connection).2.reader.contents.length ≤ n := by
      have := congrArg List.length happ
      have := List.length_pos_iff.mpr htaken
      rw [List.length_append] at *
      omega
    rcases readLine_cases s.connection with ⟨hblock, hfull⟩ | ⟨hrest, hall, -, -⟩ |
      ⟨whole, hwhole, htake, -, hsplit⟩
    · by_cases hend : (readLine s.connection).2.reader.contents = []
      · rw [hend, List.append_nil] at happ
        rw [← happ, records_unterminated (by simp [hno, hblock]) (by simp [htaken])] at hmem
        exact ⟨s, blocks, before, hreach, hlen, hrefused, htaken, List.mem_singleton.mp hmem⟩
      · refine reach_line n (blocks + 1) (before ++ (readLine s.connection).1) (reach_recv hreach)
          hless ?_ ?_ ?_ hend ?_
        · rw [List.length_append, hlen, hfull, Nat.succ_mul]
        · simp [hno, hblock]
        · simp [overLong_of_full hblock hfull, hblock]
        · rw [List.append_assoc]
          exact happ.symm ▸ hmem
    · rw [records_unterminated (by simp [hno, hrest]) (by simp [hne]), ← hall] at hmem
      exact ⟨s, blocks, before, hreach, hlen, hrefused, htaken, List.mem_singleton.mp hmem⟩
    · rw [hsplit, ← List.append_assoc, records_append (by simp [hno, hwhole]), List.append_assoc,
        ← htake] at hmem
      rcases List.mem_cons.mp hmem with rfl | hmem
      · exact ⟨s, blocks, before, hreach, hlen, hrefused, htaken, rfl⟩
      · have hend : (readLine s.connection).2.reader.contents ≠ [] := by
          intro hnil
          rw [hnil, records] at hmem
          cases hmem
        exact reach_line n 0 [] (reach_recv hreach) hless (by simp) (by simp) (by simp [htake]) hend
          hmem

/-- No message is made from the remainder of a refused line exactly where no line that is too long
has a remainder that reads as one. -/
theorem refused_iff (hear : Json Rx) (say : Json Tx) (start : Connection) :
    (∀ s, (conversation hear say start).Reach Machine.any s → s.refused = true →
      ∀ m, (recv hear s.connection).1 ≠ .ok (some m)) ↔
    ∀ line ∈ records newline start.reader.contents, maxLine + 1 < line.length →
      ¬ RemainderReads hear line := by
  refine ⟨fun hclean line hline hlong hreads => ?_, fun hnone s hreach hrefused m hm => ?_⟩
  · have hne : start.reader.contents ≠ [] := by
      intro hnil
      rw [hnil, records] at hline
      cases hline
    obtain ⟨s, blocks, before, hreach, hlen, hrefused, htaken, rfl⟩ :=
      reach_line _ 0 [] (.init (rfl : _ = ({ connection := start } : Conversation)))
        (Nat.le_refl _) (by simp) (by simp) (by simp) hne hline
    have hle : (readLine s.connection).1.length ≤ maxLine + 1 := by
      rw [readLine_line]
      exact length_takeRecord_le ..
    have hpos : 0 < blocks := by
      rcases blocks with - | blocks
      · simp at hlen
        subst hlen
        simp at hlong
        omega
      · exact Nat.succ_pos _
    obtain ⟨hshort, m, hread⟩ := hreads
    rw [lastBlock_append hlen htaken hle] at hshort hread
    exact hclean s hreach (hrefused.mpr hpos) m (answer_eq_message.mpr ⟨htaken, hshort, hread⟩)
  · obtain ⟨line, hline, hlong, hreads⟩ :=
      remainderReads_of_message (stands_of_reach hreach) hrefused hm
    exact hnone line hline hlong hreads

/-! ## 5. The framing and the handshake -/

/-- What is sent in lines that fit is received in order, then the end; the listener lets in, and
answers, only a client that has said hello with its token; and nothing is received from the
remainder of a refused line exactly where no such remainder reads as a message. -/
theorem framing_and_handshake (hear : Json Rx) (say : Json Tx) (hello : Json ToListener)
    (welcome : Json ToGui) :
    (∀ (ms : List Rx) (k : Nat) (sender receiver : Connection), sender.peerGone = false →
      sender.written = [] → receiver.reader.contents = (sends hear ms sender).written →
      (∀ m ∈ ms, hear.RoundTrips m ∧ (hear.toVec m).length ≤ maxLine) →
      receives hear (ms.length + k) receiver =
        ms.map (fun m => .ok (some m)) ++ List.replicate k (.ok none)) ∧
    (∀ (token : String) (c : Connection), (handshake hello welcome token c).1 = .ok () ∨
      (handshake hello welcome token c).2.written ≠ c.written → SaysHello hello token c) ∧
    (∀ (token : String) (as : List Arrival), (∀ a ∈ as, a.connection.written = []) →
      (∀ c ∈ (accept hello welcome token as).2, c.written = []) ∧
      ∀ c, (accept hello welcome token as).1 = some c → ∃ a ∈ as,
        SaysHello hello token a.connection ∧
          handshake hello welcome token a.connection = (.ok (), c)) ∧
    (∀ a b : String, tokenMatches a b = true ↔ a = b) ∧
    ∀ start : Connection,
      (∀ s, (conversation hear say start).Reach Machine.any s → s.refused = true →
        ∀ m, (recv hear s.connection).1 ≠ .ok (some m)) ↔
      ∀ line ∈ records newline start.reader.contents, maxLine + 1 < line.length →
        ¬ RemainderReads hear line := by
  refine ⟨?_, fun _ _ => handshake_says_hello, accept_says_hello hello welcome, tokenMatches_iff,
    refused_iff hear say⟩
  intro ms k sender receiver hpeer hnew hwire hms
  rw [sends_written hear ms hpeer, hnew, List.nil_append] at hwire
  exact receives_frames hear k ms hms hwire

/-- `serde_json` as far as it is used below: the two messages of a GUI whose token is `s3cret`. -/
def listenerJson : Json ToListener where
  toVec
    | .hello token version =>
      asBytes ("\x7b\"type\":\"hello\",\"token\":\"" ++ token ++ "\",\"version\":" ++
        toString version ++ "\x7d")
    | .configChanged => asBytes "\x7b\"type\":\"config_changed\"\x7d"
  fromSlice line :=
    if line = asBytes "\x7b\"type\":\"config_changed\"\x7d\n" then .ok .configChanged
    else if line = asBytes "\x7b\"type\":\"hello\",\"token\":\"s3cret\",\"version\":1\x7d\n" then
      .ok (.hello "s3cret" 1)
    else .error "expected value at line 1 column 1"

/-- `serde_json` on what the listener answers. -/
def guiJson : Json ToGui where
  toVec
    | .welcome version =>
      asBytes ("\x7b\"type\":\"welcome\",\"version\":" ++ toString version ++ "\x7d")
    | .show => asBytes "\x7b\"type\":\"show\"\x7d"
    | .openAccount account =>
      asBytes ("\x7b\"type\":\"open_account\",\"account\":\"" ++ account ++ "\"\x7d")
    | .quit => asBytes "\x7b\"type\":\"quit\"\x7d"
  fromSlice line :=
    if line = asBytes "\x7b\"type\":\"welcome\",\"version\":1\x7d\n" then .ok (.welcome 1)
    else .error "expected value at line 1 column 1"

theorem configChanged_roundTrips : listenerJson.RoundTrips .configChanged :=
  ⟨by decide, by decide⟩

theorem hello_roundTrips : listenerJson.RoundTrips (.hello "s3cret" 1) :=
  ⟨by decide, by decide⟩

/-- A hello and a message, in two reads that split neither where it ends. -/
def helloInTwoReads : Connection where
  reader :=
    let wire := frame listenerJson (.hello "s3cret" 1) ++ frame listenerJson .configChanged
    { reads := [⟨wire.take 60, by decide⟩, ⟨wire.drop 60, by decide⟩] }

theorem helloInTwoReads_contents : helloInTwoReads.reader.contents =
    [.hello "s3cret" 1, .configChanged].flatMap (frame listenerJson) := by
  simp [helloInTwoReads, Stream.contents]

theorem framing_and_handshake_hello :
    receives listenerJson 3 helloInTwoReads =
        [.ok (some (.hello "s3cret" 1)), .ok (some .configChanged), .ok none] ∧
      SaysHello listenerJson "s3cret" helloInTwoReads := by
  obtain ⟨hframes, hhello, -⟩ :=
    framing_and_handshake listenerJson listenerJson listenerJson guiJson
  refine ⟨hframes [.hello "s3cret" 1, .configChanged] 1 ⟨{}, [], false⟩ helloInTwoReads rfl rfl ?_
    ?_, hhello "s3cret" helloInTwoReads (.inl ?_)⟩
  · rw [helloInTwoReads_contents, sends_written _ _ rfl, List.nil_append]
  · rintro m (_ | ⟨_, _ | ⟨_, ⟨⟩⟩⟩)
    · exact ⟨hello_roundTrips, by decide⟩
    · exact ⟨configChanged_roundTrips, by decide⟩
  · decide

/-- One line of one block too many, whose rest is a message. -/
def smuggled : Connection where
  reader := { buffer := List.replicate (maxLine + 1) 97 ++ frame listenerJson .configChanged }

/-- The second `recv` on that line returns the message. -/
theorem remainder_received : ¬ ∀ s : Conversation,
    (conversation listenerJson listenerJson smuggled).Reach Machine.any s → s.refused = true →
      ∀ m, (recv listenerJson s.connection).1 ≠ .ok (some m) := by
  rw [refused_iff]
  intro hnone
  have hcontents : smuggled.reader.contents = (List.replicate (maxLine + 1) 97 ++
      listenerJson.toVec .configChanged) ++ newline :: [] := by
    simp [smuggled, Stream.contents, frame]
  have hno : newline ∉ List.replicate (maxLine + 1) 97 ++ listenerJson.toVec .configChanged := by
    rw [List.mem_append, not_or]
    exact ⟨fun h => absurd (List.eq_of_mem_replicate h) (by decide), configChanged_roundTrips.1⟩
  have hlast : lastBlock (maxLine + 1) (List.replicate (maxLine + 1) 97 ++
      listenerJson.toVec .configChanged ++ [newline]) = frame listenerJson .configChanged := by
    rw [List.append_assoc]
    exact lastBlock_append (k := 1) (by simp) (by simp) (by decide)
  refine hnone _ (by rw [hcontents, records_append hno]; exact List.mem_cons_self) ?_ ?_
  · simp
  · rw [RemainderReads, hlast]
    exact ⟨overLong_newline _, .configChanged, configChanged_roundTrips.2⟩

end Esmail.Ipc
