/-
# An open folder talking to its server: the machine

The state is the mailbox on the server, the folder on screen, and what is under way between them:
requests the server has not answered, replies that were computed but not applied, and messages
the user moved out whose rows are still there.  A step is one of these moving on.  Requests are
answered and replies applied in ANY order, a request may stay unanswered for ever, and a reply is
what `fetchHeaders` computes from the mailbox of the moment it is answered.

`step_effect` says once what each action can do; every invariant of the sections that follow is
a case analysis over `Effect`, and none unfolds `step` again.  `Sound` is the invariant that
needs no condition on the run: which replies are current, and what a reply says of the mailbox.
-/
import Esmail.Library.Machine
import Esmail.Mailbox.Server

namespace Esmail

open Transition

/-- `ImapEvent::Headers`: the reply to a `FetchHeaders`, with the page that was ASKED for. -/
structure HeadersReply where
  id : Nat
  page : Nat
  totalPages : Nat
  headers : List MailHeader
  state : MailboxState
  deriving DecidableEq, Repr

/-- `ImapCommand::FetchHeaders` served: `page` and `req_id` are echoed. -/
def serve (m : Mailbox) (q : PageRequest) : HeadersReply :=
  let r := fetchHeaders m q.page
  { id := q.id, page := q.page, totalPages := r.2.1, headers := r.1, state := r.2.2 }

structure Session where
  mailbox : Mailbox
  folder : OpenFolder
  requests : List PageRequest
  replies : List HeadersReply
  moved : List Nat

namespace Session

inductive Action
  /-- New mail. -/
  | arrive (h : MailHeader)
  /-- Another client deletes a message. -/
  | expunge (uid : Nat)
  /-- The user's move is carried out on the server. -/
  | move (uid : Nat)
  /-- The row of a moved message goes. -/
  | removeRow (uid : Nat)
  | setFlags (uid : Nat) (flags : List String)
  | seed (headers : List MailHeader)
  | nextRequest
  | refreshRequest
  | pageFailed
  /-- The server answers a request. -/
  | answer (i : Nat)
  /-- A reply reaches the folder. -/
  | apply (i : Nat)
  deriving DecidableEq, Repr

variable (zone : LocalDateTime)

def step (s : Session) : Action → Option Session
  | .arrive h => (s.mailbox.arrive h).map fun m => { s with mailbox := m }
  | .expunge uid => some { s with mailbox := s.mailbox.expunge uid }
  | .move uid =>
    if s.mailbox.has uid then
      some { s with mailbox := s.mailbox.expunge uid, moved := uid :: s.moved }
    else none
  | .removeRow uid =>
    if uid ∈ s.moved then
      some { s with folder := (s.folder.remove uid).1, moved := s.moved.erase uid }
    else none
  | .setFlags uid flags => some { s with folder := (s.folder.setFlags zone uid flags).1 }
  | .seed headers => some { s with folder := (s.folder.seed zone headers).1 }
  | .nextRequest =>
    some { s with
      folder := s.folder.nextRequest.1
      requests := s.requests ++ s.folder.nextRequest.2.toList }
  | .refreshRequest =>
    some { s with
      folder := s.folder.refreshRequestOf.1
      requests := s.requests ++ (s.folder.refreshRequestOf.2.map (PageRequest.mk 1)).toList }
  | .pageFailed => some { s with folder := s.folder.pageFailed }
  | .answer i =>
    (s.requests[i]?).map fun q =>
      { s with requests := s.requests.eraseIdx i, replies := s.replies ++ [serve s.mailbox q] }
  | .apply i =>
    (s.replies[i]?).map fun r =>
      { s with
        folder := (s.folder.applyReply zone r.id r.page r.totalPages r.headers).1
        replies := s.replies.eraseIdx i }

/-- A folder that was just opened, over any mailbox. -/
def opened (s : Session) : Prop :=
  s.folder = {} ∧ s.requests = [] ∧ s.replies = [] ∧ s.moved = []

def machine : Machine Session Action := ⟨opened, step zone⟩

/-- A folder just opened over the mailbox of the messages `1, .., n`. -/
def openedOn (n : Nat) (hn : n < u32Max) : Session := ⟨numbered n hn, {}, [], [], []⟩

theorem opened_openedOn (n : Nat) (hn : n < u32Max) : opened (openedOn n hn) :=
  ⟨rfl, rfl, rfl, rfl⟩

/-- The UIDs on screen. -/
def rows (s : Session) : List Nat := uids s.folder.headers

/-! ## 1. What a step does -/

inductive Effect (s : Session) : Action → Session → Prop
  | arrived {h : MailHeader} {m : Mailbox} : s.mailbox.arrive h = some m →
      Effect s (.arrive h) { s with mailbox := m }
  | expunged {uid : Nat} : Effect s (.expunge uid) { s with mailbox := s.mailbox.expunge uid }
  | moved {uid : Nat} : s.mailbox.has uid →
      Effect s (.move uid)
        { s with mailbox := s.mailbox.expunge uid, moved := uid :: s.moved }
  | rowRemoved {uid : Nat} {headers : List MailHeader} {rows : List RowModel} : uid ∈ s.moved →
      List.Sublist headers s.folder.headers →
      (∀ u ∈ uids s.folder.headers, u ≠ uid → u ∈ uids headers) →
      Effect s (.removeRow uid)
        { s with
          folder := { s.folder with headers := headers, rows := rows }
          moved := s.moved.erase uid }
  | flagged {uid : Nat} {flags : List String} {headers : List MailHeader} {rows : List RowModel} :
      uids headers = uids s.folder.headers →
      Effect s (.setFlags uid flags)
        { s with folder := { s.folder with headers := headers, rows := rows } }
  /-- A seed, or a request, that the folder refuses. -/
  | refused {a : Action} : Effect s a s
  | seeded {headers : List MailHeader} {rows : List RowModel} :
      s.folder.firstPageArrived = false → s.folder.headers = [] →
      Effect s (.seed headers)
        { s with
          folder := { s.folder with
            nextPage := max (headers.length / pageSize) 1
            rows := rows
            headers := headers } }
  | pageRequested : s.folder.pageRequest = none → s.folder.isComplete = false →
      Effect s .nextRequest
        { s with
          folder := { s.folder with
            ids := ⟨s.folder.ids.current + 1⟩
            pageRequest := some (s.folder.ids.current + 1) }
          requests := s.requests ++ [⟨s.folder.nextPage, s.folder.ids.current + 1⟩] }
  | refreshRequested : s.folder.firstPageArrived = true →
      Effect s .refreshRequest
        { s with
          folder := { s.folder with
            ids := ⟨s.folder.ids.current + 1⟩
            refreshRequest := some (s.folder.ids.current + 1) }
          requests := s.requests ++ [⟨1, s.folder.ids.current + 1⟩] }
  | pageFailed : Effect s .pageFailed { s with folder := { s.folder with pageRequest := none } }
  | answered {i : Nat} {q : PageRequest} : s.requests[i]? = some q →
      Effect s (.answer i)
        { s with requests := s.requests.eraseIdx i, replies := s.replies ++ [serve s.mailbox q] }
  | applied {i : Nat} {r : HeadersReply} {f : OpenFolder} : s.replies[i]? = some r →
      s.folder.ReplyEffect r.id r.page r.totalPages r.headers f →
      Effect s (.apply i) { s with folder := f, replies := s.replies.eraseIdx i }

theorem step_effect {s s' : Session} {a : Action} (h : step zone s a = some s') :
    Effect s a s' := by
  cases a with
  | arrive hd =>
    obtain ⟨m, hm, rfl⟩ := Option.map_eq_some_iff.mp h
    exact Effect.arrived hm
  | expunge uid =>
    obtain rfl := Option.some.inj h
    exact Effect.expunged
  | move uid =>
    simp only [step] at h
    split at h
    · rename_i hhas
      obtain rfl := Option.some.inj h
      exact Effect.moved hhas
    · exact absurd h (by simp)
  | removeRow uid =>
    simp only [step] at h
    split at h
    · rename_i hmem
      obtain rfl := Option.some.inj h
      obtain ⟨headers, rows, he, hsub, hkeep⟩ := s.folder.remove_effect uid
      rw [he]
      exact Effect.rowRemoved hmem hsub hkeep
    · exact absurd h (by simp)
  | setFlags uid flags =>
    obtain rfl := Option.some.inj h
    obtain ⟨headers, rows, he, hu⟩ := s.folder.setFlags_effect zone uid flags
    rw [he]
    exact Effect.flagged hu
  | seed headers =>
    obtain rfl := Option.some.inj h
    rcases s.folder.seed_cases zone headers with he | ⟨hfirst, hnil, he⟩
    · rw [he]
      exact Effect.refused
    · rw [he]
      exact Effect.seeded hfirst hnil
  | nextRequest =>
    obtain rfl := Option.some.inj h
    rcases s.folder.nextRequest_cases with he | ⟨hreq, hcomplete, he⟩
    · rw [he]
      simpa using Effect.refused (s := s) (a := .nextRequest)
    · rw [he]
      exact Effect.pageRequested hreq hcomplete
  | refreshRequest =>
    obtain rfl := Option.some.inj h
    rcases s.folder.refreshRequestOf_cases with he | ⟨hfirst, he⟩
    · rw [he]
      simpa using Effect.refused (s := s) (a := .refreshRequest)
    · rw [he]
      exact Effect.refreshRequested hfirst
  | pageFailed =>
    obtain rfl := Option.some.inj h
    exact Effect.pageFailed
  | answer i =>
    obtain ⟨q, hq, rfl⟩ := Option.map_eq_some_iff.mp h
    exact Effect.answered hq
  | apply i =>
    obtain ⟨r, hr, rfl⟩ := Option.map_eq_some_iff.mp h
    exact Effect.applied hr (s.folder.applyReply_effect zone _ _ _ _)

/-! ## 2. What a waiting reply says of the mailbox -/

/-- What stays true of a reply while the mailbox goes on changing: it is a contiguous stretch, and
a newest page lacks nothing from its oldest message up that was there when it was computed. -/
structure Faithful (m : Mailbox) (r : HeadersReply) : Prop where
  uidNext_le : r.state.uidNext ≤ m.uidNext
  assigned : ∀ u ∈ uids r.headers, u < r.state.uidNext
  descending : OpenFolder.Descending r.headers
  segment : ∀ u, m.has u → u ∈ uids r.headers ∨ (∀ x ∈ uids r.headers, u < x) ∨
    ∀ x ∈ uids r.headers, x < u
  newest : min r.page r.totalPages ≤ 1 → ∀ u, m.has u → u < r.state.uidNext →
    u ∈ uids r.headers ∨ u < OpenFolder.floorOf r.headers

theorem serve_faithful (m : Mailbox) (q : PageRequest) : Faithful m (serve m q) := by
  have hsub : List.Sublist (fetchHeaders m q.page).1.reverse m.messages := by
    obtain ⟨older, newer, hsplit, -, -⟩ := page_split m q.page
    rw [hsplit, List.append_assoc]
    exact (List.sublist_append_left _ _).trans (List.sublist_append_right _ _)
  refine ⟨?_, ?_, ?_, fun u hu => page_segment m q.page hu, ?_⟩
  · simp [serve]
  · intro u hu
    have hmem : u ∈ uids (fetchHeaders m q.page).1.reverse := by
      rw [uids_reverse, List.mem_reverse]
      exact hu
    simpa [serve] using m.assigned u ((hsub.map _).subset hmem)
  · have hasc : (uids (fetchHeaders m q.page).1.reverse).Pairwise (· < ·) :=
      List.Pairwise.sublist (hsub.map _) m.ascending
    rw [uids_reverse, List.pairwise_reverse] at hasc
    exact hasc
  · intro hpage u hu _
    refine first_page_reaches_top m ?_ hu
    have htotal : (fetchHeaders m q.page).2.1 = totalPagesOf m.messages.length := by
      have hpos : m.messages.length ≠ 0 := by
        have := List.length_pos_of_mem hu
        simp only [uids, List.length_map] at this
        omega
      simp [fetchHeaders, hpos]
    simp only [serve, htotal] at hpage
    unfold servedPage
    omega

/-- Every message the mailbox gains is newer than any reply that waits. -/
theorem Faithful.grow {m m' : Mailbox} {r : HeadersReply} (hr : Faithful m r)
    (hnext : m.uidNext ≤ m'.uidNext) (hgrow : ∀ u, m'.has u → m.has u ∨ m.uidNext ≤ u) :
    Faithful m' r := by
  have hnew := hr.uidNext_le
  refine ⟨Nat.le_trans hnew hnext, hr.assigned, hr.descending, ?_, ?_⟩
  · intro u hu
    rcases hgrow u hu with hold | hfresh
    · exact hr.segment u hold
    · refine Or.inr (Or.inr fun x hx => ?_)
      have hx' := hr.assigned x hx
      omega
  · intro hpage u hu hlt
    rcases hgrow u hu with hold | hfresh
    · exact hr.newest hpage u hold hlt
    · omega

/-! ## 3. The invariant of every run -/

/-- What holds in every run: ids are handed out once, only the newest page is asked for in a
refresh, which waits for the first page, and waiting replies are faithful. -/
structure Sound (s : Session) : Prop where
  movedGone : ∀ u ∈ s.moved, ¬ s.mailbox.has u ∧ u < s.mailbox.uidNext
  requestIds : ∀ q ∈ s.requests, q.id ≤ s.folder.ids.current
  replyIds : ∀ r ∈ s.replies, r.id ≤ s.folder.ids.current
  refreshId : ∀ id, s.folder.refreshRequest = some id → id ≤ s.folder.ids.current
  refreshLater : s.folder.firstPageArrived = false → s.folder.refreshRequest = none
  refreshPage : ∀ q ∈ s.requests, s.folder.refreshRequest = some q.id → q.page = 1
  refreshReply : ∀ r ∈ s.replies, s.folder.refreshRequest = some r.id → r.page = 1
  faithful : ∀ r ∈ s.replies, Faithful s.mailbox r

/-- No reply carries the id that is handed out next. -/
theorem Sound.reply_id_ne {s : Session} (hs : Sound s) {r : HeadersReply} (hr : r ∈ s.replies) :
    some (s.folder.ids.current + 1) ≠ some r.id := by
  intro heq
  have hle := hs.replyIds r hr
  have hid := Option.some.inj heq
  omega

theorem Sound.of_grow {s : Session} (hs : Sound s) {m : Mailbox} {moved : List Nat}
    (hnext : s.mailbox.uidNext ≤ m.uidNext)
    (hgrow : ∀ u, m.has u → s.mailbox.has u ∨ s.mailbox.uidNext ≤ u)
    (hmoved : ∀ u ∈ moved, ¬ m.has u ∧ u < m.uidNext) :
    Sound { s with mailbox := m, moved := moved } :=
  { hs with
    movedGone := hmoved
    faithful := fun r hr => (hs.faithful r hr).grow hnext hgrow }

/-- The id of a new request is the newest. -/
theorem Sound.requestIds_append {s : Session} (hs : Sound s) {new : PageRequest}
    (hnew : new.id ≤ s.folder.ids.current + 1) :
    ∀ q ∈ s.requests ++ [new], q.id ≤ s.folder.ids.current + 1 := by
  intro q hq
  rcases List.mem_append.mp hq with hq | hq
  · exact Nat.le_succ_of_le (hs.requestIds q hq)
  · rwa [List.mem_singleton.mp hq]

theorem Sound.effect {s s' : Session} {a : Action} (hs : Sound s) (h : Effect s a s') :
    Sound s' := by
  cases h with
  | @arrived hd m hm =>
    obtain ⟨hle, hnext⟩ := Mailbox.uidNext_arrive hm
    refine hs.of_grow (by omega) ?_ ?_
    · intro u hu
      rcases (Mailbox.has_arrive hm).mp hu with hu | rfl
      · exact Or.inl hu
      · exact Or.inr hle
    · intro u hu
      obtain ⟨hgone, hlt⟩ := hs.movedGone u hu
      refine ⟨fun hhas => ?_, by omega⟩
      rcases (Mailbox.has_arrive hm).mp hhas with hhas | rfl
      · exact hgone hhas
      · omega
  | @expunged uid =>
    refine hs.of_grow (Nat.le_refl _) (fun u hu => Or.inl (Mailbox.has_expunge.mp hu).1) ?_
    intro u hu
    obtain ⟨hgone, hlt⟩ := hs.movedGone u hu
    exact ⟨fun hhas => hgone (Mailbox.has_expunge.mp hhas).1, hlt⟩
  | @moved uid hhas =>
    refine hs.of_grow (Nat.le_refl _) (fun u hu => Or.inl (Mailbox.has_expunge.mp hu).1) ?_
    intro u hu
    rcases List.mem_cons.mp hu with rfl | hu
    · exact ⟨fun h => (Mailbox.has_expunge.mp h).2 rfl, s.mailbox.assigned u hhas⟩
    · obtain ⟨hgone, hlt⟩ := hs.movedGone u hu
      exact ⟨fun h => hgone (Mailbox.has_expunge.mp h).1, hlt⟩
  | rowRemoved _ _ _ =>
    exact { hs with movedGone := fun u hu => hs.movedGone u (List.mem_of_mem_erase hu) }
  | flagged _ => exact { hs with }
  | refused => exact hs
  | seeded _ _ => exact { hs with }
  | pageRequested _ _ =>
    refine { hs with requestIds := ?_, replyIds := ?_, refreshId := ?_, refreshPage := ?_ }
    · exact hs.requestIds_append (Nat.le_refl _)
    · exact fun r hr => Nat.le_succ_of_le (hs.replyIds r hr)
    · exact fun id hid => Nat.le_succ_of_le (hs.refreshId id hid)
    · intro q hq hid
      rcases List.mem_append.mp hq with hq | hq
      · exact hs.refreshPage q hq hid
      · rw [List.mem_singleton.mp hq] at hid
        have hle := hs.refreshId _ hid
        simp only at hle
        omega
  | refreshRequested hfirst =>
    refine { hs with requestIds := ?_, replyIds := ?_, refreshId := ?_, refreshLater := ?_,
                     refreshPage := ?_, refreshReply := ?_ }
    · exact hs.requestIds_append (Nat.le_refl _)
    · exact fun r hr => Nat.le_succ_of_le (hs.replyIds r hr)
    · intro id hid
      exact Nat.le_of_eq (Option.some.inj hid).symm
    · exact fun hnot => absurd (hfirst.symm.trans hnot) (by simp)
    · intro q hq hid
      rcases List.mem_append.mp hq with hq | hq
      · have hle := hs.requestIds q hq
        have heq := Option.some.inj hid
        omega
      · rw [List.mem_singleton.mp hq]
    · exact fun r hr hid => absurd hid (hs.reply_id_ne hr)
  | pageFailed => exact { hs with }
  | @answered i q hq =>
    have hmem : q ∈ s.requests := List.mem_of_getElem? hq
    refine { hs with requestIds := ?_, replyIds := ?_, refreshPage := ?_, refreshReply := ?_,
                     faithful := ?_ }
    · exact fun q' hq' => hs.requestIds q' (List.mem_of_mem_eraseIdx hq')
    · intro r hr
      rcases List.mem_append.mp hr with hr | hr
      · exact hs.replyIds r hr
      · rw [List.mem_singleton.mp hr]
        exact hs.requestIds q hmem
    · exact fun q' hq' => hs.refreshPage q' (List.mem_of_mem_eraseIdx hq')
    · intro r hr hid
      rcases List.mem_append.mp hr with hr | hr
      · exact hs.refreshReply r hr hid
      · rw [List.mem_singleton.mp hr] at hid ⊢
        exact hs.refreshPage q hmem hid
    · intro r hr
      rcases List.mem_append.mp hr with hr | hr
      · exact hs.faithful r hr
      · rw [List.mem_singleton.mp hr]
        exact serve_faithful s.mailbox q
  | @applied i r f hr he =>
    have hkeep : ∀ r' ∈ s.replies.eraseIdx i, r' ∈ s.replies := fun r' =>
      List.mem_of_mem_eraseIdx
    have hids : ∀ r' ∈ s.replies.eraseIdx i, r'.id ≤ s.folder.ids.current := fun r' hr' =>
      hs.replyIds r' (hkeep r' hr')
    have hfaith : ∀ r' ∈ s.replies.eraseIdx i, Faithful s.mailbox r' := fun r' hr' =>
      hs.faithful r' (hkeep r' hr')
    cases he with
    | stale _ _ =>
      exact { hs with
              replyIds := hids
              refreshReply := fun r' hr' => hs.refreshReply r' (hkeep r' hr')
              faithful := hfaith }
    | appended _ _ _ =>
      exact { hs with
              replyIds := hids
              refreshLater := fun h => absurd h (by simp)
              refreshReply := fun r' hr' => hs.refreshReply r' (hkeep r' hr')
              faithful := hfaith }
    | merged _ _ _ _ =>
      exact { hs with
              replyIds := hids
              refreshLater := fun h => absurd h (by simp)
              refreshReply := fun r' hr' => hs.refreshReply r' (hkeep r' hr')
              faithful := hfaith }
    | refreshed _ _ _ _ =>
      exact { hs with
              replyIds := hids
              refreshId := fun id hid => absurd hid (by simp)
              refreshLater := fun _ => rfl
              refreshPage := fun q _ hid => absurd hid (by simp)
              refreshReply := fun r' _ hid => absurd hid (by simp)
              faithful := hfaith }

theorem sound_of_reach {ok : Session → Action → Prop} {s : Session}
    (h : (machine zone).Reach ok s) : Sound s := by
  refine h.invariant ?_ (fun s a s' _ hs _ hst => hs.effect (step_effect zone hst))
  rintro s ⟨hf, hq, hr, hm⟩
  refine ⟨?_, ?_, ?_, ?_, ?_, ?_, ?_, ?_⟩ <;> simp [hf, hq, hr, hm]

/-! ## 4. A page that starts where the rows end -/

/-- The page that would be served now starts no further down than the loaded rows reach: at least
`served - 1` pages of the messages on the server are as new as some loaded row. -/
def pageAdjoins (s : Session) (page : Nat) : Prop :=
  pageSize * (servedPage s.mailbox.messages.length page - 1) ≤
    (uids s.mailbox.messages).countP (fun u => decide (∃ b ∈ s.rows, b ≤ u))

instance (s : Session) (page : Nat) : Decidable (pageAdjoins s page) :=
  inferInstanceAs (Decidable (_ ≤ _))

/-- The newest message that is not loaded is on a page that adjoins the rows. -/
theorem pageAdjoins.reaches {s : Session} {page : Nat} (h : pageAdjoins s page) {u : Nat}
    (hu : s.mailbox.has u) (hold : ∀ b ∈ s.rows, u < b) :
    u ∈ uids (fetchHeaders s.mailbox page).1 ∨
      ∀ x ∈ uids (fetchHeaders s.mailbox page).1, u < x := by
  refine page_reaches_up_to s.mailbox page (P := fun u => ∀ b ∈ s.rows, u < b)
    (fun u v hlt hP b hb => Nat.lt_trans hlt (hP b hb)) ?_ hu hold
  -- The messages older than every row are the rest of those that are as new as some row.
  have hrest : (uids s.mailbox.messages).countP (fun u => decide (∀ b ∈ s.rows, u < b)) +
      (uids s.mailbox.messages).countP (fun u => decide (∃ b ∈ s.rows, b ≤ u)) =
        s.mailbox.messages.length := by
    have hsplit := List.length_eq_countP_add_countP (fun u => decide (∀ b ∈ s.rows, u < b))
      (l := uids s.mailbox.messages)
    simp only [uids, List.length_map] at hsplit ⊢
    rw [hsplit]
    congr 1
    refine List.countP_congr (fun u _ => ?_)
    simp
  unfold pageAdjoins at h
  unfold stopOf
  rw [Nat.mul_comm]
  omega

end Session

end Esmail
