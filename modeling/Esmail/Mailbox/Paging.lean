/-
# The numbers of a page of headers

The `u32` arithmetic of `fetch_headers`, with the overflow that a build with overflow checks stops
at, and the reply that `ImapCommand::FetchHeaders` makes of it.  The reply names the page that was
asked for, while the range is that of the page nearest to it that there is.

`header_pages_iff` is about every total and every page that is asked for: nothing overflows, the pages cut
the mailbox into blocks of at most fifty, and the reply brings the page that it names, exactly where the
mailbox is empty, or where it has that page and is not so large that `total + 49` does not fit.

Without overflow the numbers are those of the wrapping arithmetic (`pageRange_eq`), which the sessions of
`Session.lean` compute; that the pages are blocks one below the other is by induction on how many of them
(`blocks_covered`).

`serve_of_headersEvent` ties the numbers to the mailbox of the sessions: what they are answered is this
reply, with the messages of its range.
-/
import Esmail.Mailbox.Session

namespace Esmail

/-! ## 1. Checked arithmetic -/

/-- `+` of `u32`. -/
def checkedAdd (a b : Nat) : Option Nat := if a + b < 2 ^ 32 then some (a + b) else none

/-- `-` of `u32`. -/
def checkedSub (a b : Nat) : Option Nat := if b ≤ a then some (a - b) else none

/-- `*` of `u32`. -/
def checkedMul (a b : Nat) : Option Nat := if a * b < 2 ^ 32 then some (a * b) else none

/-- What `fetch_headers` computes for a page: its own number, and the first and the last sequence
number of it (`start` and `end` in the source). -/
structure PageRange where
  totalPages : Nat
  page : Nat
  start : Nat
  stop : Nat
  deriving DecidableEq, Repr

/-- The arithmetic of `fetch_headers`, where there is a message; `none` is an overflow. -/
def pageRange (total page : Nat) : Option PageRange := do
  let sum ← checkedAdd total pageSize
  let sum ← checkedSub sum 1
  let totalPages := sum / pageSize
  let page := max (min page totalPages) 1
  let back ← checkedSub page 1
  let newer ← checkedMul back pageSize
  let stop := total - newer
  let reach ← checkedSub pageSize 1
  let start := max (stop - reach) 1
  return { totalPages, page, start, stop }

/-- `ImapEvent::Headers`, in numbers: the page and the number of pages it tells, and the range that
was fetched, if any was. -/
structure HeadersEvent where
  page : Nat
  totalPages : Nat
  range : Option (Nat × Nat)
  deriving DecidableEq, Repr

/-- `ImapCommand::FetchHeaders`, on a mailbox of `total` messages. -/
def headersEvent (total page : Nat) : Option HeadersEvent :=
  if total = 0 then some { page, totalPages := 0, range := none }
  else (pageRange total page).map fun r =>
    { page, totalPages := r.totalPages, range := some (r.start, r.stop) }

/-- The sequence numbers that were fetched, newest first. -/
def HeadersEvent.seqs (e : HeadersEvent) : List Nat :=
  match e.range with
  | none => []
  | some (start, stop) => (List.range' start (stop + 1 - start)).reverse

/-! ## 2. The pages of a mailbox -/

/-- The replies for the pages `1, .., total_pages`: nothing overflows, each brings at most a page,
and together they bring the mailbox from the newest message to the oldest. -/
structure Pages (total : Nat) (events : List HeadersEvent) : Prop where
  served : (List.range' 1 events.length).map (headersEvent total) = events.map some
  counted : ∀ e ∈ events, e.totalPages = events.length
  bounded : ∀ e ∈ events, e.seqs.length ≤ pageSize
  covered : events.flatMap HeadersEvent.seqs = (List.range' 1 total).reverse

/-- The range that a reply brings, if any, is that of the page it names. -/
def Names (events : List HeadersEvent) (e : HeadersEvent) : Prop :=
  e.range = none ∨ ∃ e', (1 ≤ e.page ∧ events[e.page - 1]? = some e') ∧ e.range = e'.range

/-- Without overflow, these are the numbers that the wrapping arithmetic computes. -/
theorem pageRange_eq (total page : Nat) :
    pageRange total page =
      if total + pageSize < 2 ^ 32 then
        some ⟨totalPagesOf total, servedPage total page,
          startOf (stopOf total (servedPage total page)), stopOf total (servedPage total page)⟩
      else none := by
  by_cases hsum : total + pageSize < 2 ^ 32
  · have hmod : (total + (pageSize - 1)) % 2 ^ 32 = total + pageSize - 1 := by
      unfold pageSize at *
      omega
    have hserved : 1 ≤ servedPage total page := Nat.le_max_right ..
    have hpages : totalPagesOf total = (total + pageSize - 1) / pageSize := by
      rw [totalPagesOf, hmod]
    have hback : (servedPage total page - 1) * pageSize < 2 ^ 32 := by
      unfold servedPage
      rw [hpages]
      unfold pageSize at *
      omega
    have hone : 1 ≤ total + pageSize := by
      unfold pageSize
      omega
    have hreach : 1 ≤ pageSize := by decide
    have hsame : max (min page ((total + pageSize - 1) / pageSize)) 1 = servedPage total page := by
      rw [servedPage, hpages]
    simp only [pageRange, checkedAdd, checkedSub, checkedMul, hsum, hone, hreach, hsame, hserved,
      hback, if_true, Option.bind_eq_bind, Option.bind_some, Option.pure_def]
    rw [← hpages]
    rfl
  · rw [if_neg hsum, pageRange, checkedAdd, if_neg hsum]
    rfl

theorem headersEvent_eq {total : Nat} (hpos : total ≠ 0) (hsum : total + pageSize < 2 ^ 32)
    (page : Nat) :
    headersEvent total page = some
      { page, totalPages := totalPagesOf total
        range := some (startOf (stopOf total (servedPage total page)),
          stopOf total (servedPage total page)) } := by
  rw [headersEvent, if_neg hpos, pageRange_eq, if_pos hsum]
  rfl

theorem totalPagesOf_eq {total : Nat} (hsum : total + pageSize < 2 ^ 32) :
    totalPagesOf total = (total + (pageSize - 1)) / pageSize := by
  rw [totalPagesOf, Nat.mod_eq_of_lt]
  unfold pageSize at *
  omega

/-- The reply for a page of the mailbox. -/
def block (total page : Nat) : HeadersEvent :=
  { page, totalPages := totalPagesOf total
    range := some (startOf (stopOf total page), stopOf total page) }

theorem servedPage_eq {total page : Nat} (hfirst : 1 ≤ page) (hlast : page ≤ totalPagesOf total) :
    servedPage total page = page := by
  unfold servedPage
  omega

/-- The first `count` pages bring the newest messages, as many as fit. -/
theorem blocks_covered {total : Nat} (hsum : total + pageSize < 2 ^ 32) : ∀ count : Nat,
    count ≤ totalPagesOf total →
      ((List.range' 1 count).map (block total)).flatMap HeadersEvent.seqs =
        (List.range' (total + 1 - min total (count * pageSize))
          (min total (count * pageSize))).reverse
  | 0, _ => by simp
  | count + 1, hcount => by
    have ih := blocks_covered hsum count (by omega)
    rw [totalPagesOf_eq hsum] at hcount
    have hbegun : count * pageSize < total := by
      unfold pageSize at *
      omega
    rw [List.range'_1_concat, List.map_append, List.flatMap_append, ih]
    have hseqs : (block total (1 + count)).seqs =
        (List.range' (startOf (total - count * pageSize))
          (total - count * pageSize + 1 - startOf (total - count * pageSize))).reverse := by
      rw [HeadersEvent.seqs, block, stopOf, Nat.add_sub_cancel_left]
    rw [List.map_singleton, List.flatMap_singleton, hseqs, ← List.reverse_append]
    set stop := total - count * pageSize with hstop
    have hstart : startOf stop = total + 1 - min total ((count + 1) * pageSize) := by
      unfold startOf
      unfold pageSize at *
      omega
    have hnext : total + 1 - min total (count * pageSize) =
        startOf stop + (stop + 1 - startOf stop) := by
      rw [hstart]
      unfold pageSize at *
      omega
    have hlength : stop + 1 - startOf stop + min total (count * pageSize) =
        min total ((count + 1) * pageSize) := by
      rw [hstart]
      unfold pageSize at *
      omega
    rw [hnext, List.range'_append_1, hlength, hstart]

theorem seqs_bounded (total page : Nat) : (block total page).seqs.length ≤ pageSize := by
  simp only [HeadersEvent.seqs, block, List.length_reverse, List.length_range', startOf]
  unfold pageSize
  omega

/-- The pages of a mailbox that is not empty. -/
theorem pages_of_no_overflow {total : Nat} (hpos : total ≠ 0) (hsum : total + pageSize < 2 ^ 32) :
    Pages total ((List.range' 1 (totalPagesOf total)).map (block total)) := by
  have hlen : ((List.range' 1 (totalPagesOf total)).map (block total)).length =
      totalPagesOf total := by simp
  refine ⟨?_, ?_, ?_, ?_⟩
  · rw [hlen, List.map_map]
    refine List.map_congr_left fun page hpage => ?_
    obtain ⟨hfirst, hlast⟩ := List.mem_range'_1.mp hpage
    rw [headersEvent_eq hpos hsum, servedPage_eq hfirst (by omega)]
    rfl
  · rw [hlen]
    intro e he
    obtain ⟨page, -, rfl⟩ := List.mem_map.mp he
    rfl
  · intro e he
    obtain ⟨page, -, rfl⟩ := List.mem_map.mp he
    exact seqs_bounded total page
  · have hall : min total (totalPagesOf total * pageSize) = total := by
      rw [totalPagesOf_eq hsum]
      unfold pageSize
      omega
    rw [blocks_covered hsum _ (Nat.le_refl _), hall, Nat.add_sub_cancel_left]

/-! ## 3. When the reply names the page that it brings -/

/-- The pages cut the mailbox into blocks, and the reply to a request brings the one that it names,
exactly where the mailbox is empty, or far enough from the limit of `u32` and has such a page. -/
theorem header_pages_iff (total page : Nat) :
    (∃ events, Pages total events ∧ ∃ e, headersEvent total page = some e ∧ Names events e) ↔
      total = 0 ∨ (total + pageSize < 2 ^ 32 ∧ 1 ≤ page ∧ (page - 1) * pageSize < total) := by
  by_cases hzero : total = 0
  · subst hzero
    refine iff_of_true ⟨[], ⟨rfl, ?_, ?_, rfl⟩, _, rfl, .inl rfl⟩ (.inl rfl) <;>
      exact fun e he => absurd he List.not_mem_nil
  · rw [or_iff_right hzero]
    refine ⟨?_, fun ⟨hsum, hfirst, hlast⟩ => ?_⟩
    · rintro ⟨events, hpages, e, hevent, hnames⟩
      have hsum : total + pageSize < 2 ^ 32 := by
        by_contra hsum
        rw [headersEvent, if_neg hzero, pageRange_eq, if_neg hsum] at hevent
        cases hevent
      rw [headersEvent_eq hzero hsum] at hevent
      cases hevent
      rcases hnames with hnone | ⟨e', ⟨hfirst, hat⟩, -⟩
      · cases hnone
      · have hmem : e' ∈ events := List.mem_of_getElem? hat
        have hserved : some e' ∈ (List.range' 1 events.length).map (headersEvent total) := by
          rw [hpages.served]
          exact List.mem_map_of_mem hmem
        obtain ⟨page', -, hevent'⟩ := List.mem_map.mp hserved
        rw [headersEvent_eq hzero hsum] at hevent'
        have hcount : totalPagesOf total = events.length := by
          rw [← hpages.counted e' hmem, ← Option.some.inj hevent']
        have hlt : page - 1 < events.length := (List.getElem?_eq_some_iff.mp hat).1
        rw [← hcount, totalPagesOf_eq hsum] at hlt
        refine ⟨hsum, hfirst, ?_⟩
        unfold pageSize at *
        omega
    · have hpage : page ≤ totalPagesOf total := by
        rw [totalPagesOf_eq hsum]
        unfold pageSize at *
        omega
      refine ⟨_, pages_of_no_overflow hzero hsum, _, headersEvent_eq hzero hsum page,
        .inr ⟨block total page, ⟨hfirst, ?_⟩, ?_⟩⟩
      · have hindex : page - 1 < totalPagesOf total := by omega
        show ((List.range' 1 (totalPagesOf total)).map (block total))[page - 1]? = _
        rw [List.getElem?_map, List.getElem?_range' hindex]
        simp [Nat.add_sub_cancel' hfirst]
      · rw [servedPage_eq hfirst hpage]
        rfl

/-- Of sixty messages there are two pages; the third is answered with the second, under its own
number.  And a mailbox can be too large to be counted in pages. -/
theorem third_of_two_pages :
    headersEvent 60 3 = some ⟨3, 2, some (1, 10)⟩ ∧ headersEvent 60 2 = some ⟨2, 2, some (1, 10)⟩ ∧
      headersEvent (2 ^ 32 - 1) 1 = none := by
  decide

/-! ## 4. The mailbox of the sessions -/

/-- What the sessions are answered is the reply in numbers, with the messages of its range. -/
theorem serve_of_headersEvent {m : Mailbox} {q : PageRequest} {e : HeadersEvent}
    (h : headersEvent m.messages.length q.page = some e) :
    (serve m q).page = e.page ∧ (serve m q).totalPages = e.totalPages ∧
      (serve m q).headers = match e.range with
        | none => []
        | some (start, stop) => ((m.messages.take stop).drop (start - 1)).reverse := by
  by_cases hzero : m.messages.length = 0
  · rw [headersEvent, if_pos hzero] at h
    cases h
    simp [serve, fetchHeaders, hzero]
  · by_cases hsum : m.messages.length + pageSize < 2 ^ 32
    · rw [headersEvent_eq hzero hsum] at h
      cases h
      simp [serve, fetchHeaders, hzero]
    · rw [headersEvent, if_neg hzero, pageRange_eq, if_neg hsum] at h
      cases h

end Esmail
