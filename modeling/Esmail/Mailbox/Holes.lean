/-
# Can the list keep a hole?

The newest page is merged above the rows, an older page is appended below them, and nothing ever
fills what lies between: when more than a page of mail has arrived since the rows were loaded (or
since the cache was written), the messages between the newest row and the page stay out of the
list, also after every page was read (`burst_leaves_hole`).

`rows_have_no_hole` is about the runs in which whatever the rows miss above their oldest fits on the page
that is merged next, and an older page starts where the rows end (`joinsRows`): from the first page on,
every message of the server between two of the rows is one of the rows.

`Unbroken` is the invariant, of rows, a waiting older page (`below`) and a waiting newest page (`above`)
together, as either may be applied first.  Mail that arrives is above everything, mail that leaves makes
no hole (`of_shrink`), and the two ways a page comes to the rows have a lemma each (`merge`, `appended`).

That the rows go down to the oldest message is another question: see `Completeness.lean`.
-/
import Esmail.Mailbox.Session

namespace Esmail.Session

open Transition OpenFolder

/-! ## 1. The runs, and the condition -/

/-- Seeds are newest first and come before the server's first page is on its way. -/
def refreshing (s : Session) : Action → Prop
  | .seed headers => Descending headers ∧ ∀ r ∈ s.replies, s.folder.pageRequest ≠ some r.id
  | _ => True

/-- Whether the reply to a request will be merged as the newest page. -/
def mergesAbove (s : Session) (id : Nat) : Prop :=
  s.folder.refreshRequest = some id ∨
    (s.folder.firstPageArrived = false ∧ s.folder.pageRequest = some id)

/-- What the rows miss above their oldest is not further down than the page served now. -/
def missingFits (s : Session) (page : Nat) : Prop :=
  ∀ u ∈ uids s.mailbox.messages, u ∉ s.rows → (∃ a ∈ s.rows, a < u) →
    (uids s.mailbox.messages).countP (fun v => decide (u ≤ v)) ≤
      pageSize * servedPage s.mailbox.messages.length page

/-- A reply reaches an empty list only when no other current reply waits. -/
def emptyTakesOne (s : Session) (r : HeadersReply) : Prop :=
  s.folder.headers = [] → ∀ q ∈ s.replies,
    (s.folder.pageRequest = some r.id → s.folder.refreshRequest ≠ some q.id) ∧
    (s.folder.refreshRequest = some r.id → s.folder.pageRequest ≠ some q.id)

/-- The condition on one step of a run. -/
def joinsRows (s : Session) : Action → Prop
  | .answer i => ∀ q ∈ s.requests[i]?,
      (mergesAbove s q.id → missingFits s q.page) ∧
      (s.folder.pageRequest = some q.id → s.folder.firstPageArrived = true →
        s.folder.headers ≠ [] → pageAdjoins s q.page)
  | .apply i => ∀ r ∈ s.replies[i]?, emptyTakesOne s r
  | a => refreshing s a

instance (l : List MailHeader) : Decidable (Descending l) :=
  inferInstanceAs (Decidable (List.Pairwise _ _))

instance (s : Session) : (a : Action) → Decidable (refreshing s a)
  | .seed headers => inferInstanceAs (Decidable (Descending headers ∧
      ∀ r ∈ s.replies, s.folder.pageRequest ≠ some r.id))
  | .arrive _ | .expunge _ | .move _ | .removeRow _ | .setFlags .. | .nextRequest | .refreshRequest |
    .pageFailed | .answer _ | .apply _ => isTrue trivial

instance (s : Session) (id : Nat) : Decidable (mergesAbove s id) :=
  inferInstanceAs (Decidable (_ ∨ _))

instance (s : Session) (page : Nat) : Decidable (missingFits s page) :=
  inferInstanceAs (Decidable (∀ u ∈ uids s.mailbox.messages, _))

instance (s : Session) (r : HeadersReply) : Decidable (emptyTakesOne s r) :=
  inferInstanceAs (Decidable (s.folder.headers = [] → ∀ q ∈ s.replies, _))

instance (s : Session) : (a : Action) → Decidable (joinsRows s a)
  | .answer i => inferInstanceAs (Decidable (∀ q ∈ s.requests[i]?, _ ∧ _))
  | .apply i => inferInstanceAs (Decidable (∀ r ∈ s.replies[i]?, emptyTakesOne s r))
  | .seed headers => inferInstanceAs (Decidable (refreshing s (.seed headers)))
  | .arrive _ | .expunge _ | .move _ | .removeRow _ | .setFlags .. | .nextRequest | .refreshRequest |
    .pageFailed => isTrue trivial

/-! ## 2. Lists without a hole -/

/-- No message on the server lies between two of the list and is not in it. -/
def HoleFree (m : Mailbox) (l : List Nat) : Prop :=
  ∀ u, m.has u → (∃ a ∈ l, a < u) → (∃ b ∈ l, u < b) → u ∈ l

theorem HoleFree.of_shrink {m m' : Mailbox} {l l' : List Nat} (h : HoleFree m l)
    (hhas : ∀ u, m'.has u → m.has u) (hsub : ∀ u ∈ l', u ∈ l)
    (hkeep : ∀ u, m'.has u → u ∈ l → u ∈ l') : HoleFree m' l' := by
  rintro u hu ⟨a, ha, hau⟩ ⟨b, hb, hub⟩
  exact hkeep u hu (h u (hhas u hu) ⟨a, hsub a ha, hau⟩ ⟨b, hsub b hb, hub⟩)

theorem floorOf_mem {l : List MailHeader} (h : l ≠ []) : floorOf l ∈ uids l := by
  cases hl : l.getLast? with
  | none => exact absurd (List.getLast?_eq_none_iff.mp hl) h
  | some x =>
    simp only [floorOf, hl, Option.map_some, Option.getD_some]
    exact mem_uids_of_mem (List.mem_of_getLast? hl)

/-- Merging a page above rows that miss nothing below it. -/
theorem HoleFree.merge {m : Mailbox} {l : List Nat} {r : HeadersReply} {headers : List MailHeader}
    (hf : Faithful m r)
    (habove : ∀ u, m.has u → u ∉ l → (∃ a ∈ l, a < u) →
      u ∈ uids r.headers ∨ ∀ x ∈ uids r.headers, x < u)
    (hload : ∀ u, u ∈ uids headers ↔ u ∈ uids r.headers ∨ (u ∈ l ∧ u < floorOf r.headers)) :
    HoleFree m (uids headers) := by
  rintro u hu ⟨a, ha, hau⟩ ⟨b, hb, hub⟩
  have hne : r.headers ≠ [] := by
    intro hnil
    have hb' := (hload b).mp hb
    rw [hnil] at hb'
    simp [floorOf] at hb'
  have hfloor := floorOf_mem hne
  rcases hf.segment u hu with hin | hlt | hgt
  · exact (hload u).mpr (Or.inl hin)
  · have hu' := hlt _ hfloor
    rcases (hload a).mp ha with hain | ⟨hal, -⟩
    · have := hlt a hain
      omega
    · by_cases hul : u ∈ l
      · exact (hload u).mpr (Or.inr ⟨hul, hu'⟩)
      · rcases habove u hu hul ⟨a, hal, hau⟩ with hin | hgt
        · exact (hload u).mpr (Or.inl hin)
        · have := hgt _ hfloor
          omega
  · rcases (hload b).mp hb with hbin | ⟨-, hbf⟩
    · have := hgt b hbin
      omega
    · have := hgt _ hfloor
      omega

/-! ## 3. The invariant -/

structure Unbroken (s : Session) : Prop where
  descending : Descending s.folder.headers
  assigned : s.folder.firstPageArrived = true → ∀ u ∈ s.rows, u < s.mailbox.uidNext
  holeFree : s.folder.firstPageArrived = true → HoleFree s.mailbox s.rows
  /-- A waiting older page misses nothing between it and the rows. -/
  below : s.folder.firstPageArrived = true → ∀ r ∈ s.replies,
    s.folder.pageRequest = some r.id → s.rows ≠ [] → ∀ u, s.mailbox.has u →
      (∀ b ∈ s.rows, u < b) → u ∈ uids r.headers ∨ ∀ x ∈ uids r.headers, u < x
  /-- A waiting newest page has what the rows miss above their oldest. -/
  above : ∀ r ∈ s.replies, mergesAbove s r.id → ∀ u, s.mailbox.has u → u ∉ s.rows →
    (∃ a ∈ s.rows, a < u) → u ∈ uids r.headers ∨ ∀ x ∈ uids r.headers, x < u

/-- Messages leaving the mailbox, and the rows of such messages going, keep `Unbroken`. -/
theorem Unbroken.of_shrink {s : Session} (hb : Unbroken s) {m : Mailbox} {moved : List Nat}
    {headers : List MailHeader} {rows : List RowModel} (hnext : m.uidNext = s.mailbox.uidNext)
    (hhas : ∀ u, m.has u → s.mailbox.has u) (hdesc : Descending headers)
    (hsub : ∀ u ∈ uids headers, u ∈ s.rows)
    (hkeep : ∀ u, m.has u → u ∈ s.rows → u ∈ uids headers) :
    Unbroken { s with
      mailbox := m
      moved := moved
      folder := { s.folder with headers := headers, rows := rows } } := by
  refine ⟨hdesc, ?_, fun h => (hb.holeFree h).of_shrink hhas hsub hkeep, ?_, ?_⟩
  · intro h u hu
    have hlt := hb.assigned h u (hsub u hu)
    simp only [hnext]
    exact hlt
  · intro h r hr hid hne u hu hold
    obtain ⟨c, hc⟩ := List.exists_mem_of_ne_nil _ hne
    refine hb.below h r hr hid (List.ne_nil_of_mem (hsub c hc)) u (hhas u hu) ?_
    -- A row at or below `u` that went would leave `u` between two rows, hence loaded.
    intro b hbr
    rcases Nat.lt_trichotomy u b with hlt | rfl | hgt
    · exact hlt
    · exact absurd (hold u (hkeep u hu hbr)) (Nat.lt_irrefl u)
    · have hin := hb.holeFree h u (hhas u hu) ⟨b, hbr, hgt⟩ ⟨c, hsub c hc, hold c hc⟩
      exact absurd (hold u (hkeep u hu hin)) (Nat.lt_irrefl u)
  · rintro r hr hid u hu hnot ⟨a, ha, hau⟩
    exact hb.above r hr hid u (hhas u hu) (fun hin => hnot (hkeep u hu hin)) ⟨a, hsub a ha, hau⟩

theorem Unbroken.arrived {s : Session} {h : MailHeader} {m : Mailbox} (hs : Sound s)
    (hb : Unbroken s) (hm : s.mailbox.arrive h = some m) : Unbroken { s with mailbox := m } := by
  obtain ⟨hle, hnext⟩ := Mailbox.uidNext_arrive hm
  have hcases : ∀ u, m.has u → s.mailbox.has u ∨ u = h.uid := fun u => (Mailbox.has_arrive hm).mp
  refine ⟨hb.descending, ?_, ?_, ?_, ?_⟩
  · intro hfirst u hu
    have hlt := hb.assigned hfirst u hu
    simp only
    omega
  · rintro hfirst u hu hlow ⟨b, hbr, hub⟩
    rcases hcases u hu with hold | rfl
    · exact hb.holeFree hfirst u hold hlow ⟨b, hbr, hub⟩
    · have hlt := hb.assigned hfirst b hbr
      omega
  · intro hfirst r hr hid hne u hu hall
    rcases hcases u hu with hold | rfl
    · exact hb.below hfirst r hr hid hne u hold hall
    · obtain ⟨b, hbr⟩ := List.exists_mem_of_ne_nil _ hne
      have hlt := hb.assigned hfirst b hbr
      have hgt := hall b hbr
      omega
  · intro r hr hid u hu hnot hlow
    rcases hcases u hu with hold | rfl
    · exact hb.above r hr hid u hold hnot hlow
    · refine Or.inr fun x hx => ?_
      have hf := hs.faithful r hr
      have hlt := hf.assigned x hx
      have hnew := hf.uidNext_le
      omega

theorem Unbroken.answered {s : Session} {i : Nat} {q : PageRequest} (hb : Unbroken s)
    (hq : s.requests[i]? = some q) (hok : joinsRows s (.answer i)) :
    Unbroken { s with
      requests := s.requests.eraseIdx i
      replies := s.replies ++ [serve s.mailbox q] } := by
  obtain ⟨hfits, hadj⟩ := hok q hq
  refine ⟨hb.descending, hb.assigned, hb.holeFree, ?_, ?_⟩
  · intro hfirst r hr hid hne u hu hall
    rcases List.mem_append.mp hr with hr | hr
    · exact hb.below hfirst r hr hid hne u hu hall
    · rw [List.mem_singleton.mp hr] at hid ⊢
      refine (hadj hid hfirst ?_).reaches hu hall
      intro hnil
      exact hne (by simp [Session.rows, hnil])
  · intro r hr hid u hu hnot hlow
    rcases List.mem_append.mp hr with hr | hr
    · exact hb.above r hr hid u hu hnot hlow
    · rw [List.mem_singleton.mp hr] at hid ⊢
      exact page_reaches_down_to s.mailbox q.page hu (hfits hid u hu hnot hlow)

/-- An older page goes below the rows. -/
theorem Unbroken.appended {s : Session} {i : Nat} {r : HeadersReply} {rows : List RowModel}
    {nextPage : Nat} {totalPages : Option Nat} (hs : Sound s) (hb : Unbroken s)
    (hr : s.replies[i]? = some r) (hok : emptyTakesOne s r)
    (hpage : s.folder.pageRequest = some r.id) (hc : s.folder.isCachedOnly = false) :
    Unbroken { s with
      replies := s.replies.eraseIdx i
      folder := { s.folder with
        pageRequest := none
        totalPages := totalPages
        firstPageArrived := true
        nextPage := nextPage
        headers := s.folder.headers ++ OpenFolder.appended s.folder.headers r.headers
        rows := rows } } := by
  have hmem : r ∈ s.replies := List.mem_of_getElem? hr
  have hf := hs.faithful r hmem
  have hrows : ∀ u, u ∈ uids (s.folder.headers ++ OpenFolder.appended s.folder.headers r.headers) ↔
      u ∈ s.rows ∨ u ∈ uids (OpenFolder.appended s.folder.headers r.headers) := by
    intro u
    rw [uids_append, List.mem_append]
    rfl
  have hpart : ∀ u ∈ uids (OpenFolder.appended s.folder.headers r.headers), u ∈ uids r.headers :=
    fun u hu => (List.Sublist.map _ List.filter_sublist).subset hu
  have hnext : ∀ u ∈ uids r.headers, u < s.mailbox.uidNext := fun u hu =>
    Nat.lt_of_lt_of_le (hf.assigned u hu) hf.uidNext_le
  have hadd : ∀ u, u ∈ uids r.headers → (∀ b ∈ s.rows, u < b) →
      u ∈ uids (OpenFolder.appended s.folder.headers r.headers) := by
    intro u hin hlt
    obtain ⟨x, hx, rfl⟩ := mem_uids.mp hin
    have hrep := s.mailbox.representable
    have hmax := hnext x.uid hin
    exact mem_uids_of_mem (mem_appended_of_lt hx (by omega) fun b hb => hlt b.uid (mem_uids_of_mem hb))
  have hdesc := hb.descending.append hf.descending
  by_cases hnil : s.folder.headers = []
  · have hempty : ∀ u, u ∈ uids (s.folder.headers ++ OpenFolder.appended s.folder.headers r.headers)
        ↔ u ∈ uids r.headers := by
      intro u
      rw [hrows u]
      constructor
      · rintro (hu | hu)
        · rw [Session.rows, hnil] at hu
          exact absurd hu (by simp)
        · exact hpart u hu
      · intro hu
        refine Or.inr (hadd u hu ?_)
        intro b hbr
        rw [Session.rows, hnil] at hbr
        exact absurd hbr (by simp)
    refine ⟨hdesc, fun _ u hu => hnext u ((hempty u).mp hu), ?_, fun _ q _ hid => absurd hid (by simp), ?_⟩
    · rintro - u hu ⟨a, ha, hau⟩ ⟨b, hbr, hub⟩
      rcases hf.segment u hu with hin | hlt | hgt
      · exact (hempty u).mpr hin
      · have := hlt a ((hempty a).mp ha)
        omega
      · have := hgt b ((hempty b).mp hbr)
        omega
    · rintro q hq (hid | ⟨hid, -⟩)
      · exact absurd hid ((hok hnil q (List.mem_of_mem_eraseIdx hq)).1 hpage)
      · exact absurd hid (by simp)
  · have hfirst : s.folder.firstPageArrived = true := by
      simp only [isCachedOnly, Bool.and_eq_false_iff, Bool.not_eq_false', List.isEmpty_iff] at hc
      exact hc.resolve_right hnil
    have hne : s.rows ≠ [] := by
      intro h
      exact hnil (List.map_eq_nil_iff.mp h)
    -- A message above an appended one and not loaded is above a row that was there before.
    have hlow : ∀ u, s.mailbox.has u →
        u ∉ uids (s.folder.headers ++ OpenFolder.appended s.folder.headers r.headers) →
        (∃ a ∈ uids (s.folder.headers ++ OpenFolder.appended s.folder.headers r.headers), a < u) →
        ∃ a ∈ s.rows, a < u := by
      rintro u hu hnot ⟨a, ha, hau⟩
      by_contra hcon
      have hall : ∀ b ∈ s.rows, u < b := by
        intro b hbr
        rcases Nat.lt_trichotomy u b with hlt | rfl | hgt
        · exact hlt
        · exact absurd ((hrows u).mpr (Or.inl hbr)) hnot
        · exact absurd ⟨b, hbr, hgt⟩ hcon
      rcases hb.below hfirst r hmem hpage hne u hu hall with hin | hlt
      · exact hnot ((hrows u).mpr (Or.inr (hadd u hin hall)))
      · rcases (hrows a).mp ha with har | hap
        · exact hcon ⟨a, har, hau⟩
        · have := hlt a (hpart a hap)
          omega
    refine ⟨hdesc, ?_, ?_, fun _ q _ hid => absurd hid (by simp), ?_⟩
    · intro _ u hu
      rcases (hrows u).mp hu with hold | hnew
      · exact hb.assigned hfirst u hold
      · exact hnext u (hpart u hnew)
    · rintro - u hu ha ⟨b, hbr, hub⟩
      by_contra hnot
      obtain ⟨a, har, hau⟩ := hlow u hu hnot ha
      rcases (hrows b).mp hbr with hold | hnew
      · exact hnot ((hrows u).mpr (Or.inl (hb.holeFree hfirst u hu ⟨a, har, hau⟩ ⟨b, hold, hub⟩)))
      · obtain ⟨x, hx, rfl⟩ := mem_uids.mp hnew
        obtain ⟨y, hy, rfl⟩ := mem_uids.mp har
        have := hb.descending.lt_of_appended hx hy
        omega
    · rintro q hq (hid | ⟨hid, -⟩) u hu hnot ha
      · exact hb.above q (List.mem_of_mem_eraseIdx hq) (Or.inl hid) u hu
          (fun hin => hnot ((hrows u).mpr (Or.inl hin))) (hlow u hu hnot ha)
      · exact absurd hid (by simp)

theorem Unbroken.applied {s : Session} {i : Nat} {r : HeadersReply} {f : OpenFolder}
    (hs : Sound s) (hb : Unbroken s) (hr : s.replies[i]? = some r) (hok : emptyTakesOne s r)
    (he : s.folder.ReplyEffect r.id r.page r.totalPages r.headers f) :
    Unbroken { s with folder := f, replies := s.replies.eraseIdx i } := by
  have hkeep : ∀ r' ∈ s.replies.eraseIdx i, r' ∈ s.replies := fun r' => List.mem_of_mem_eraseIdx
  have hmem : r ∈ s.replies := List.mem_of_getElem? hr
  have hf := hs.faithful r hmem
  have hassigned : ∀ headers : List MailHeader, (∀ u, u ∈ uids headers ↔
      u ∈ uids r.headers ∨ (u ∈ s.rows ∧ u < floorOf r.headers)) →
      ∀ u ∈ uids headers, u < s.mailbox.uidNext := by
    intro headers hload u hu
    rcases (hload u).mp hu with hin | ⟨-, hlt⟩
    · exact Nat.lt_of_lt_of_le (hf.assigned u hin) hf.uidNext_le
    · have hne : r.headers ≠ [] := by
        intro hnil
        simp [floorOf, hnil] at hlt
      have hfl := hf.assigned _ (floorOf_mem hne)
      have hle := hf.uidNext_le
      omega
  cases he with
  | stale _ _ =>
    exact ⟨hb.descending, hb.assigned, hb.holeFree,
      fun h r' hr' => hb.below h r' (hkeep r' hr'), fun r' hr' => hb.above r' (hkeep r' hr')⟩
  | appended hpage hc hload =>
    subst hload
    exact hb.appended hs hr hok hpage hc
  | merged hpage hc hdesc hload =>
    have hfirst : s.folder.firstPageArrived = false := by
      simp only [isCachedOnly, Bool.and_eq_true, Bool.not_eq_true'] at hc
      exact hc.1
    refine ⟨hdesc hb.descending, fun _ => hassigned _ hload,
      fun _ => HoleFree.merge hf (hb.above r hmem (Or.inr ⟨hfirst, hpage⟩)) hload,
      fun _ q _ hid => absurd hid (by simp), ?_⟩
    rintro q - (hid | ⟨hid, -⟩)
    · exact absurd ((hs.refreshLater hfirst).symm.trans hid) (by simp)
    · exact absurd hid (by simp)
  | @refreshed headers rows hpage hreq hdesc hload =>
    have hfirst : s.folder.firstPageArrived = true := by
      cases h : s.folder.firstPageArrived with
      | true => rfl
      | false => exact absurd ((hs.refreshLater h).symm.trans hreq) (by simp)
    refine ⟨hdesc hb.descending, fun _ => hassigned _ hload,
      fun _ => HoleFree.merge hf (hb.above r hmem (Or.inl hreq)) hload, ?_, ?_⟩
    · intro _ q hq hid hne u hu hall
      have hne' : s.rows ≠ [] := by
        intro hnil
        exact (hok (List.map_eq_nil_iff.mp hnil) q (hkeep q hq)).2 hreq hid
      refine hb.below hfirst q (hkeep q hq) hid hne' u hu ?_
      -- A row that the merge dropped is at or above the page's oldest message, which is a row now.
      intro b hbr
      by_cases hbf : b < floorOf r.headers
      · exact hall b ((hload b).mpr (Or.inr ⟨hbr, hbf⟩))
      · have hrne : r.headers ≠ [] := by
          intro hnil
          obtain ⟨c, hc⟩ := List.exists_mem_of_ne_nil _ hne
          have hc' := (hload c).mp hc
          rw [hnil] at hc'
          simp [floorOf] at hc'
        have hlt := hall _ ((hload _).mpr (Or.inl (floorOf_mem hrne)))
        omega
    · rintro q - (hid | ⟨hid, -⟩)
      · exact absurd hid (by simp)
      · exact absurd (hfirst.symm.trans hid) (by simp)

theorem Unbroken.effect {s s' : Session} {a : Action} (hs : Sound s) (hb : Unbroken s)
    (hok : joinsRows s a) (h : Effect s a s') : Unbroken s' := by
  cases h with
  | arrived hm => exact hb.arrived hs hm
  | expunged =>
    exact hb.of_shrink rfl (fun u hu => (Mailbox.has_expunge.mp hu).1) hb.descending
      (fun u hu => hu) (fun u _ hu => hu)
  | moved _ =>
    exact hb.of_shrink rfl (fun u hu => (Mailbox.has_expunge.mp hu).1) hb.descending
      (fun u hu => hu) (fun u _ hu => hu)
  | @rowRemoved uid headers _ hmoved hsub hkeep =>
    refine hb.of_shrink rfl (fun u hu => hu) (List.Pairwise.sublist (hsub.map _) hb.descending)
      (fun u hu => (hsub.map _).subset hu) ?_
    intro u hu hrow
    refine hkeep u hrow ?_
    rintro rfl
    exact (hs.movedGone u hmoved).1 hu
  | @flagged _ _ headers _ hu =>
    refine hb.of_shrink rfl (fun u hu => hu) ?_ ?_ ?_
    · simpa only [Descending, hu] using hb.descending
    · exact fun u h => by simpa only [Session.rows, hu] using h
    · exact fun u _ h => by simpa only [Session.rows, hu] using h
  | refused => exact hb
  | seeded hfirst _ =>
    refine ⟨hok.1, fun h => absurd (hfirst.symm.trans h) (by simp),
      fun h => absurd (hfirst.symm.trans h) (by simp),
      fun h => absurd (hfirst.symm.trans h) (by simp), ?_⟩
    rintro r hr (hid | ⟨-, hid⟩)
    · exact absurd ((hs.refreshLater hfirst).symm.trans hid) (by simp)
    · exact absurd hid (hok.2 r hr)
  | pageRequested _ _ =>
    refine ⟨hb.descending, hb.assigned, hb.holeFree,
      fun _ r hr hid => absurd hid (hs.reply_id_ne hr), ?_⟩
    rintro r hr (hid | ⟨-, hid⟩)
    · exact hb.above r hr (Or.inl hid)
    · exact absurd hid (hs.reply_id_ne hr)
  | refreshRequested hfirst =>
    refine ⟨hb.descending, hb.assigned, hb.holeFree, hb.below, ?_⟩
    rintro r hr (hid | ⟨hid, -⟩)
    · exact absurd hid (hs.reply_id_ne hr)
    · exact absurd (hfirst.symm.trans hid) (by simp)
  | pageFailed =>
    refine ⟨hb.descending, hb.assigned, hb.holeFree, fun _ r _ hid => absurd hid (by simp), ?_⟩
    rintro r hr (hid | ⟨-, hid⟩)
    · exact hb.above r hr (Or.inl hid)
    · exact absurd hid (by simp)
  | answered hq => exact hb.answered hq hok
  | applied hr he => exact hb.applied hs hr (hok _ hr) he

variable {zone : LocalDateTime}

theorem unbroken_of_reach {s : Session} (h : (machine zone).Reach joinsRows s) : Unbroken s := by
  refine h.invariant ?_ ?_
  · rintro s ⟨hf, -, hr, -⟩
    refine ⟨?_, ?_, ?_, ?_, ?_⟩ <;> simp [Session.rows, hf, hr, Descending]
  · intro s a s' hreach hb hok hst
    exact hb.effect (sound_of_reach zone hreach) hok (step_effect zone hst)

/-! ## 4. No hole -/

/-- In a run whose pages join the rows, the list has no hole from the first page on: every message of the server
between two rows is a row.  What is above the newest row, or below the oldest, may be missing. -/
theorem rows_have_no_hole {s : Session} (h : (machine zone).Reach joinsRows s)
    (hfirst : s.folder.firstPageArrived = true) {u a b : Nat} (hu : s.mailbox.has u)
    (ha : a ∈ s.rows) (hb : b ∈ s.rows) (hau : a ≤ u) (hub : u ≤ b) : u ∈ s.rows := by
  rcases Nat.eq_or_lt_of_le hau with rfl | hlt
  · exact ha
  · rcases Nat.eq_or_lt_of_le hub with rfl | hgt
    · exact hb
    · exact (unbroken_of_reach h).holeFree hfirst u hu ⟨a, ha, hlt⟩ ⟨b, hb, hgt⟩

/-- Such a run: three cached rows of ten messages, the newest page, mail, and a refresh. -/
theorem rows_have_no_hole_of_refresh : ∃ s : Session, 11 ∈ s.rows ∧ 1 ∈ s.rows ∧ 7 ∈ s.rows := by
  obtain ⟨s, hr, hp⟩ := Machine.exists_reach_of_trace (machine fun _ => none) joinsRows
    [.seed (newestFirst 3), .nextRequest, .answer 0, .apply 0, .arrive (plainHeader 11),
      .refreshRequest, .answer 0, .apply 0]
    (fun s => decide (s.folder.firstPageArrived = true ∧ s.mailbox.has 7 ∧ 1 ∈ s.rows ∧
      11 ∈ s.rows))
    (opened_openedOn 10 (by decide)) (by decide)
  obtain ⟨hfirst, h7, h1, h11⟩ := of_decide_eq_true hp
  exact ⟨s, h11, h1, rows_have_no_hole hr hfirst h7 h1 h11 (by decide) (by decide)⟩

/-- Without the condition a hole stays.  The cache holds message 1 of 52: the newest page is
merged above it, page 2 brings nothing older, and 2 is never loaded. -/
theorem burst_leaves_hole : ¬ ∀ (s : Session) (u a b : Nat),
    (machine fun _ => none).Reach refreshing s → s.folder.firstPageArrived = true →
    s.folder.isComplete = true → s.folder.pageRequest = none → s.mailbox.has u →
    a ∈ s.rows → b ∈ s.rows → a ≤ u → u ≤ b → u ∈ s.rows := by
  intro hall
  obtain ⟨s, hr, hp⟩ := Machine.exists_reach_of_trace (machine fun _ => none) refreshing
    [.seed (newestFirst 1), .nextRequest, .answer 0, .apply 0, .nextRequest, .answer 0, .apply 0]
    (fun s => decide (s.folder.firstPageArrived = true ∧ s.folder.isComplete = true ∧
      s.folder.pageRequest = none ∧ s.mailbox.has 2 ∧ 1 ∈ s.rows ∧ 3 ∈ s.rows ∧ 2 ∉ s.rows))
    (opened_openedOn 52 (by decide)) (by decide +kernel)
  obtain ⟨hfirst, hc, hreq, h2, h1, h3, hgone⟩ := of_decide_eq_true hp
  exact hgone (hall s 2 1 3 hr hfirst hc hreq h2 h1 h3 (by decide) (by decide))

end Esmail.Session
