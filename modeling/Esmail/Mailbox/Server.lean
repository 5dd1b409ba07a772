/-
# The mailbox on the server, and the page of it that a fetch returns

Pages are addressed by SEQUENCE NUMBER: message number `k` is the `k`-th oldest message the
mailbox holds when the server answers, so a page number names other messages after a deletion.
The list on screen is keyed by UID.  Everything the paging proofs need of `fetchHeaders` is in
three facts about one page: it is a contiguous stretch of the mailbox (`page_segment`), how far
it reaches up (`page_reaches_up_to`, by the number of older messages) and down (`page_reaches_down_to`, by the
number of newer ones).  `last_page_reaches_bottom` is the end of the paging.
-/
import Esmail.Mailbox.OpenFolder
import Mathlib.Data.List.Count
import Mathlib.Tactic.Common

namespace Esmail

/-! ## 1. The mailbox -/

/-- A mailbox: UIDs ascend with the sequence number, none is ever reused (`uidNext` is above
them all), and a UID is a 32-bit number that is not zero, `uidNext` included. -/
structure Mailbox where
  messages : List MailHeader
  uidValidity : Nat
  uidNext : Nat
  ascending : (uids messages).Pairwise (· < ·)
  assigned : ∀ u ∈ uids messages, u < uidNext
  representable : uidNext ≤ u32Max

namespace Mailbox

/-- The UIDs on the server. -/
def has (m : Mailbox) (u : Nat) : Prop := u ∈ uids m.messages

instance (m : Mailbox) (u : Nat) : Decidable (m.has u) :=
  inferInstanceAs (Decidable (u ∈ uids m.messages))

theorem ascending_arrive (m : Mailbox) {h : MailHeader} (hu : m.uidNext ≤ h.uid) :
    (uids (m.messages ++ [h])).Pairwise (· < ·) := by
  rw [uids_append]
  refine List.pairwise_append.mpr ⟨m.ascending, List.pairwise_singleton .., ?_⟩
  intro a ha b hb
  have hlt := m.assigned a ha
  simp only [uids_cons, uids_nil, List.mem_singleton] at hb
  omega

theorem assigned_arrive (m : Mailbox) {h : MailHeader} (hu : m.uidNext ≤ h.uid) :
    ∀ u ∈ uids (m.messages ++ [h]), u < h.uid + 1 := by
  intro u hmem
  simp only [uids_append, uids_cons, uids_nil, List.mem_append, List.mem_singleton] at hmem
  rcases hmem with hmem | rfl
  · have hlt := m.assigned u hmem
    omega
  · exact Nat.lt_succ_self _

/-- A message arrives: it gets a UID no earlier message had. -/
def arrive (m : Mailbox) (h : MailHeader) : Option Mailbox :=
  if hu : m.uidNext ≤ h.uid ∧ h.uid < u32Max then
    some
      { messages := m.messages ++ [h]
        uidValidity := m.uidValidity
        uidNext := h.uid + 1
        ascending := m.ascending_arrive hu.1
        assigned := m.assigned_arrive hu.1
        representable := hu.2 }
  else none

/-- A message leaves the mailbox: moved elsewhere, or expunged. -/
def expunge (m : Mailbox) (uid : Nat) : Mailbox :=
  { messages := m.messages.filter (fun h => h.uid != uid)
    uidValidity := m.uidValidity
    uidNext := m.uidNext
    ascending := List.Pairwise.sublist (List.Sublist.map _ List.filter_sublist) m.ascending
    assigned := fun u hu => m.assigned u ((List.Sublist.map _ List.filter_sublist).subset hu)
    representable := m.representable }

theorem has_arrive {m m' : Mailbox} {h : MailHeader} (ha : m.arrive h = some m') {u : Nat} :
    m'.has u ↔ m.has u ∨ u = h.uid := by
  unfold arrive at ha
  split at ha
  · simp only [Option.some.injEq] at ha
    subst ha
    simp [has]
  · exact absurd ha (by simp)

theorem uidNext_arrive {m m' : Mailbox} {h : MailHeader} (ha : m.arrive h = some m') :
    m.uidNext ≤ h.uid ∧ m'.uidNext = h.uid + 1 := by
  unfold arrive at ha
  split at ha
  · rename_i hu
    simp only [Option.some.injEq] at ha
    subst ha
    exact ⟨hu.1, rfl⟩
  · exact absurd ha (by simp)

theorem has_expunge {m : Mailbox} {uid u : Nat} :
    (m.expunge uid).has u ↔ m.has u ∧ u ≠ uid := by
  simp only [has, expunge, mem_uids, List.mem_filter, bne_iff_ne, ne_eq]
  constructor
  · rintro ⟨h, ⟨hm, hne⟩, rfl⟩
    exact ⟨⟨h, hm, rfl⟩, hne⟩
  · rintro ⟨⟨h, hm, rfl⟩, hne⟩
    exact ⟨h, ⟨hm, hne⟩, rfl⟩

@[simp] theorem uidNext_expunge (m : Mailbox) (uid : Nat) :
    (m.expunge uid).uidNext = m.uidNext := rfl

end Mailbox

/-- A header of which only the UID is of interest. -/
def plainHeader (uid : Nat) : MailHeader :=
  { uid, subject := "", sender := "", recipient := "", date := "", messageId := "", flags := [] }

/-- The headers of the messages `1, .., n`, newest first. -/
def newestFirst (n : Nat) : List MailHeader := ((List.range' 1 n).map plainHeader).reverse

theorem uids_range' (n : Nat) : uids ((List.range' 1 n).map plainHeader) = List.range' 1 n := by
  simp [uids, Function.comp_def, plainHeader]

theorem ascending_range' (n : Nat) : (uids ((List.range' 1 n).map plainHeader)).Pairwise (· < ·) := by
  rw [uids_range']
  exact List.pairwise_lt_range'

theorem assigned_range' (n : Nat) : ∀ u ∈ uids ((List.range' 1 n).map plainHeader), u < n + 1 := by
  intro u hu
  rw [uids_range'] at hu
  have := List.mem_range'_1.mp hu
  omega

/-- The mailbox of the messages `1, .., n`. -/
def numbered (n : Nat) (hn : n < u32Max) : Mailbox :=
  { messages := (List.range' 1 n).map plainHeader
    uidValidity := 1
    uidNext := n + 1
    ascending := ascending_range' n
    assigned := assigned_range' n
    representable := hn }

/-! ## 2. `fetch_headers` -/

/-- `MailboxState`. -/
structure MailboxState where
  uidValidity : Nat
  uidNext : Nat
  deriving DecidableEq, Repr

/-- `fetch_headers`: how many pages there are.  `total` and `per_page` are `u32`, and the sum
wraps in the release profile. -/
def totalPagesOf (total : Nat) : Nat := (total + (pageSize - 1)) % 2 ^ 32 / pageSize

/-- `fetch_headers`: the page that is served for a requested one. -/
def servedPage (total page : Nat) : Nat := max (min page (totalPagesOf total)) 1

/-- `fetch_headers`: the last sequence number of a served page (`end` in the source). -/
def stopOf (total served : Nat) : Nat := total - (served - 1) * pageSize

/-- `fetch_headers`: the first sequence number of a served page. -/
def startOf (stop : Nat) : Nat := max (stop - (pageSize - 1)) 1

/-- `fetch_headers`: the headers of a page, newest first, the number of pages, and the UID
bookkeeping that rides along. -/
def fetchHeaders (m : Mailbox) (page : Nat) : List MailHeader × Nat × MailboxState :=
  let state : MailboxState := ⟨m.uidValidity, m.uidNext⟩
  let total := m.messages.length
  if total = 0 then ([], 0, state)
  else
    let stop := stopOf total (servedPage total page)
    let start := startOf stop
    (((m.messages.take stop).drop (start - 1)).reverse, totalPagesOf total, state)

@[simp] theorem fetchHeaders_state (m : Mailbox) (page : Nat) :
    (fetchHeaders m page).2.2 = ⟨m.uidValidity, m.uidNext⟩ := by
  simp only [fetchHeaders]
  split <;> rfl

/-! ## 3. A page is a stretch of the mailbox -/

/-- The mailbox cut at a page: what is older, the page, what is newer. -/
theorem page_split (m : Mailbox) (page : Nat) :
    ∃ older newer, m.messages = older ++ (fetchHeaders m page).1.reverse ++ newer ∧
      older.length ≤ startOf (stopOf m.messages.length (servedPage m.messages.length page)) - 1 ∧
      newer.length = m.messages.length - stopOf m.messages.length
        (servedPage m.messages.length page) := by
  have hstop : ∀ served, stopOf m.messages.length served ≤ m.messages.length := fun served => by
    unfold stopOf
    omega
  by_cases h0 : m.messages.length = 0
  · have hnil : m.messages = [] := List.length_eq_zero_iff.mp h0
    exact ⟨[], [], by simp [fetchHeaders, hnil], by simp, by simp [hnil]⟩
  · set stop := stopOf m.messages.length (servedPage m.messages.length page) with hs
    refine ⟨(m.messages.take stop).take (startOf stop - 1), m.messages.drop stop, ?_, ?_, ?_⟩
    · simp only [fetchHeaders, h0, if_false, List.reverse_reverse]
      rw [← hs, List.take_append_drop, List.take_append_drop]
    · simp
    · simp

/-- A page is contiguous: every message of the mailbox is on it, older than all of it, or newer
than all of it. -/
theorem page_segment (m : Mailbox) (page : Nat) {u : Nat} (hu : m.has u) :
    u ∈ uids (fetchHeaders m page).1 ∨ (∀ x ∈ uids (fetchHeaders m page).1, u < x) ∨
      (∀ x ∈ uids (fetchHeaders m page).1, x < u) := by
  obtain ⟨older, newer, hsplit, -, -⟩ := page_split m page
  have hasc := m.ascending
  unfold Mailbox.has at hu
  rw [hsplit] at hu hasc
  simp only [uids_append, uids_reverse, List.pairwise_append, List.mem_append, List.mem_reverse]
    at hu hasc
  rcases hu with (hu | hu) | hu
  · exact Or.inr (Or.inl fun x hx => hasc.1.2.2 u hu x hx)
  · exact Or.inl hu
  · exact Or.inr (Or.inr fun x hx => hasc.2.2 x (Or.inr hx) u hu)

/-- Only an empty mailbox has an empty page. -/
theorem page_nonempty (m : Mailbox) (page : Nat) {u : Nat} (hu : m.has u) :
    (fetchHeaders m page).1 ≠ [] := by
  intro hnil
  obtain ⟨older, newer, hsplit, holder, hnewer⟩ := page_split m page
  have hpos : 0 < m.messages.length := by
    have := List.length_pos_of_mem hu
    simpa [uids] using this
  have hlen := congrArg List.length hsplit
  have hserved : (servedPage m.messages.length page - 1) * pageSize < m.messages.length := by
    have hmod := Nat.mod_le (m.messages.length + (pageSize - 1)) (2 ^ 32)
    unfold servedPage totalPagesOf pageSize at *
    omega
  simp only [hnil, List.reverse_nil, List.append_nil, List.length_append] at hlen
  unfold startOf stopOf pageSize at *
  omega

/-- What is neither older nor newer than a whole page is on it: the page has a message. -/
theorem mem_of_between (m : Mailbox) (page : Nat) {u : Nat} (hu : m.has u)
    (hnewer : ∀ x ∈ uids (fetchHeaders m page).1, x < u)
    (holder : ∀ x ∈ uids (fetchHeaders m page).1, u < x) : u ∈ uids (fetchHeaders m page).1 := by
  obtain ⟨x, hx⟩ := List.exists_mem_of_ne_nil _ (page_nonempty m page hu)
  have hlt := hnewer x.uid (mem_uids_of_mem hx)
  have hgt := holder x.uid (mem_uids_of_mem hx)
  omega

/-! ## 4. How far a page reaches -/

theorem length_of_split {m : Mailbox} {page : Nat} {older newer : List MailHeader}
    (h : m.messages = older ++ (fetchHeaders m page).1.reverse ++ newer) :
    m.messages.length = older.length + (fetchHeaders m page).1.length + newer.length := by
  rw [h]
  simp [Nat.add_assoc]

/-- No message that at most `stopOf` messages are as old as is newer than the page.  `P` is any
downward closed way to say "this old". -/
theorem page_reaches_up_to (m : Mailbox) (page : Nat) {P : Nat → Prop} [DecidablePred P]
    (hdown : ∀ u v, v < u → P u → P v)
    (hcount : (uids m.messages).countP (fun u => decide (P u)) ≤
      stopOf m.messages.length (servedPage m.messages.length page))
    {u : Nat} (hu : m.has u) (hP : P u) :
    u ∈ uids (fetchHeaders m page).1 ∨ ∀ x ∈ uids (fetchHeaders m page).1, u < x := by
  obtain ⟨older, newer, hsplit, -, hnewer⟩ := page_split m page
  have hasc := m.ascending
  set stop := stopOf m.messages.length (servedPage m.messages.length page) with hs
  have hle : stop ≤ m.messages.length := by
    rw [hs]
    unfold stopOf
    omega
  have hlen := length_of_split hsplit
  unfold Mailbox.has at hu
  rw [hsplit] at hu hasc hcount
  simp only [uids_append, uids_reverse, List.pairwise_append, List.mem_append, List.mem_reverse]
    at hu hasc
  rcases hu with (hu | hu) | hu
  · exact Or.inr fun x hx => hasc.1.2.2 u hu x hx
  · exact Or.inl hu
  -- A newer message would make the count exceed `stop`: it and everything before it satisfy `P`.
  · exfalso
    have hbefore : ∀ v ∈ uids older ++ uids (fetchHeaders m page).1.reverse, decide (P v) = true := by
      intro v hv
      simp only [uids_reverse, List.mem_append, List.mem_reverse] at hv
      exact decide_eq_true (hdown u v (hasc.2.2 v hv u hu) hP)
    have hnew : 1 ≤ (uids newer).countP (fun u => decide (P u)) :=
      List.countP_pos_iff.mpr ⟨u, hu, decide_eq_true hP⟩
    rw [uids_append, uids_append, List.countP_append,
      List.countP_eq_length.mpr hbefore] at hcount
    simp only [uids, List.length_append, List.length_map, List.length_reverse] at hcount hnew
    omega

/-- No message that at most `served` pages of messages are as new as is older than the page. -/
theorem page_reaches_down_to (m : Mailbox) (page : Nat) {u : Nat} (hu : m.has u)
    (hcount : (uids m.messages).countP (fun v => decide (u ≤ v)) ≤
      pageSize * servedPage m.messages.length page) :
    u ∈ uids (fetchHeaders m page).1 ∨ ∀ x ∈ uids (fetchHeaders m page).1, x < u := by
  obtain ⟨older, newer, hsplit, holder, hnewer⟩ := page_split m page
  have hasc := m.ascending
  set served := servedPage m.messages.length page with hs
  have hserved : 1 ≤ served := by
    rw [hs]
    unfold servedPage
    omega
  have hlen := length_of_split hsplit
  unfold Mailbox.has at hu
  rw [hsplit] at hu hasc hcount
  simp only [uids_append, uids_reverse, List.pairwise_append, List.mem_append, List.mem_reverse]
    at hu hasc
  rcases hu with (hu | hu) | hu
  -- An older message has the whole page and everything newer above it.
  · exfalso
    have hpage : ∀ v ∈ uids (fetchHeaders m page).1.reverse, decide (u ≤ v) = true := by
      intro v hv
      rw [uids_reverse, List.mem_reverse] at hv
      exact decide_eq_true (Nat.le_of_lt (hasc.1.2.2 u hu v hv))
    have hnew : ∀ v ∈ uids newer, decide (u ≤ v) = true := fun v hv =>
      decide_eq_true (Nat.le_of_lt (hasc.2.2 u (Or.inl hu) v hv))
    have hself : 1 ≤ (uids older).countP (fun v => decide (u ≤ v)) :=
      List.countP_pos_iff.mpr ⟨u, hu, by simp⟩
    have hpos : 0 < older.length := by simpa [uids] using List.length_pos_of_mem hu
    rw [uids_append, uids_append, List.countP_append, List.countP_append,
      List.countP_eq_length.mpr hpage, List.countP_eq_length.mpr hnew] at hcount
    simp only [uids, List.length_map, List.length_reverse] at hcount hself
    unfold startOf stopOf pageSize at *
    omega
  · exact Or.inl hu
  · exact Or.inr fun x hx => hasc.2.2 x (Or.inr hx) u hu

/-- The newest page: what is not on it is older than its oldest message.  In particular an empty
page says that the mailbox is empty. -/
theorem first_page_reaches_top (m : Mailbox) {page : Nat}
    (hserved : servedPage m.messages.length page = 1) {u : Nat} (hu : m.has u) :
    u ∈ uids (fetchHeaders m page).1 ∨ u < OpenFolder.floorOf (fetchHeaders m page).1 := by
  have hreach := page_reaches_up_to m page (P := fun _ => True) (fun _ _ _ _ => trivial)
    (by
      rw [hserved]
      refine Nat.le_trans List.countP_le_length ?_
      simp [uids, stopOf]) hu trivial
  rcases hreach with hmem | hlt
  · exact Or.inl hmem
  · refine Or.inr ?_
    cases hl : (fetchHeaders m page).1.getLast? with
    | some x =>
      simp only [OpenFolder.floorOf, hl, Option.map_some, Option.getD_some]
      exact hlt x.uid (mem_uids_of_mem (List.mem_of_getLast? hl))
    | none => exact absurd (List.getLast?_eq_none_iff.mp hl) (page_nonempty m page hu)

/-- The last page: what is not on it is newer, unless the number of pages wrapped. -/
theorem last_page_reaches_bottom (m : Mailbox) {page : Nat}
    (hsize : m.messages.length + (pageSize - 1) < 2 ^ 32)
    (hlast : (fetchHeaders m page).2.1 ≤ page) {u : Nat} (hu : m.has u) :
    u ∈ uids (fetchHeaders m page).1 ∨ ∀ x ∈ uids (fetchHeaders m page).1, x < u := by
  refine page_reaches_down_to m page hu (Nat.le_trans List.countP_le_length ?_)
  by_cases h0 : m.messages.length = 0
  · simp [uids, h0]
  · have htotal : (fetchHeaders m page).2.1 = totalPagesOf m.messages.length := by
      simp [fetchHeaders, h0]
    rw [htotal] at hlast
    have hwrap : totalPagesOf m.messages.length = (m.messages.length + (pageSize - 1)) / pageSize := by
      unfold totalPagesOf
      rw [Nat.mod_eq_of_lt hsize]
    unfold servedPage
    rw [hwrap] at hlast ⊢
    simp only [uids, List.length_map]
    unfold pageSize at *
    omega

end Esmail
