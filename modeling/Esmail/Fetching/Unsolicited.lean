/-
# Whose answer a reader takes

The responses to a command come in any order, and others may stand between them: a server reports what other
clients did when it likes.  `fetch_headers` takes all of them, in their order; `fetch_raw` the first;
`store_flags` the last.  None of them looks whose they are.

`reads_own_answer_iff` says of each of the three exactly when what it takes is right, for every mailbox
and every stream that a server may legally send:

* the page, where the responses are those of its messages, oldest first (`fetchHeaders_iff`);
* the body, where the first response is the message's own, or has the same body (`fetchRaw_iff`);
* the flags, where the last one is the message's own, or shows the same flags (`storeFlags_iff`).

Each is an analysis of the end that the reader takes from: what is first, or last, of a stream in which the
message's own responses stand somewhere.  "Right" is what the mailbox has, not what the reader could know.

The legal streams are those of `Reply.Answers`; a server that reports what is not so is not one.
-/
import Esmail.Fetching.Answers

namespace Esmail.Imap

open Fetching (Error)

/-! ## 1. All of them -/

/-- Where two lists agree in one respect, they agree in what follows from it. -/
theorem map_eq_map_of_imp {α β γ δ : Type} {f : α → γ} {g : β → γ} {p : α → δ} {q : β → δ}
    {xs : List α} {ys : List β} (h : xs.map f = ys.map g)
    (himp : ∀ x ∈ xs, ∀ y ∈ ys, f x = g y → p x = q y) : xs.map p = ys.map q := by
  induction xs generalizing ys with
  | nil =>
    obtain rfl : ys = [] := List.map_eq_nil_iff.mp h.symm
    rfl
  | cons x xs ih =>
    obtain ⟨y, ys, rfl, hy, hys⟩ := List.map_eq_cons_iff.mp h.symm
    have hrest := ih hys.symm fun x' hx' y' hy' =>
      himp x' (List.mem_cons_of_mem x hx') y' (List.mem_cons_of_mem y hy')
    rw [List.map_cons, List.map_cons, hrest,
      himp x List.mem_cons_self y List.mem_cons_self hy.symm]

/-- A rearrangement that keeps the keys where they are, where no key comes twice. -/
theorem eq_of_perm_of_map_eq {α β : Type} {key : α → β} {xs ys : List α} (h : xs.Perm ys)
    (hmap : xs.map key = ys.map key) (hnodup : (ys.map key).Nodup) : xs = ys := by
  have hsame : xs.map id = ys.map id := map_eq_map_of_imp hmap fun x hx y hy hkey =>
    List.inj_on_of_nodup_map hnodup (h.mem_iff.mp hx) hy hkey
  rwa [List.map_id, List.map_id] at hsame

section Page

variable (parseHeader : List UInt8 → Option (List Char))

/-- A response that is read as a header has its UID. -/
theorem uid_of_headerOf {r : Fetch} {h : MailHeader} (hread : headerOf parseHeader (.ok r) = .ok h) :
    r.uid = some h.uid := by
  obtain ⟨message, uid, envelope, flags, body⟩ := r
  cases uid with
  | none => cases hread
  | some uid =>
    cases envelope with
    | none => cases hread
    | some envelope =>
      obtain rfl := Except.ok.inj hread
      rfl

theorem Contents.nodup_uids_described (box : Contents) (start stop : Nat) :
    ((box.described start stop).map Fetch.uid).Nodup := by
  have hsub : ((box.described start stop).map Fetch.uid).Sublist
      ((box.messages.map Message.uid).map some) := by
    have hfst : box.numbered.map Prod.fst = box.messages := List.zipIdx_map_fst 1 box.messages
    rw [← hfst, Contents.described, List.map_map, List.map_map, List.map_map]
    exact ((List.drop_sublist _ _).trans (List.take_sublist _ _)).map _
  refine List.Nodup.sublist hsub (List.Nodup.map (Option.some_injective _) ?_)
  exact box.ascending.imp Nat.ne_of_lt

/-- All the responses are read as the headers of a page, oldest first, exactly where they are the
answers for it, oldest first, and no more. -/
theorem mapM_headerOf_iff {box : Contents} (reply : Reply box) {start stop : Nat}
    {asked : Nat → Bool} (hanswers : reply.Answers asked (box.described start stop)) :
    reply.stream.mapM (headerOf parseHeader) = .ok (box.page parseHeader start stop) ↔
      reply.responses = box.described start stop := by
  constructor
  · intro hread
    have hmap : reply.responses.map (fun r => headerOf parseHeader (.ok r)) =
        (box.page parseHeader start stop).map .ok := by
      rw [mapM_eq_ok_iff, Reply.stream, List.map_map] at hread
      exact hread
    have hcount : (box.described start stop).length = (box.page parseHeader start stop).length := by
      rw [← box.map_page, Contents.described, List.length_map, List.length_map]
    -- There is room for the answers only.
    have hall : reply.responses.Perm (box.described start stop) := by
      have hlength := congrArg List.length hmap
      rw [List.length_map, List.length_map, ← hcount, ← hanswers.length_eq] at hlength
      have hfilter := List.filter_sublist.eq_of_length hlength.symm
      rw [Reply.Answers, hfilter] at hanswers
      exact hanswers
    have huids : reply.responses.map Fetch.uid =
        (box.page parseHeader start stop).map (some ·.uid) :=
      map_eq_map_of_imp hmap fun _ _ _ _ hread => uid_of_headerOf parseHeader hread
    have hdescribed : (box.described start stop).map Fetch.uid =
        (box.page parseHeader start stop).map (some ·.uid) := by
      rw [← box.map_page, Contents.described, List.map_map, List.map_map]
      rfl
    exact eq_of_perm_of_map_eq hall (huids.trans hdescribed.symm) (box.nodup_uids_described _ _)
  · intro hall
    rw [Reply.stream, hall, Contents.described, mapM_describe, box.map_page]

/-- The last number of the page that is served for a page, and its first. -/
def Contents.stop (box : Contents) (page : Nat) : Nat :=
  stopOf box.messages.length (servedPage box.messages.length page)

def Contents.start (box : Contents) (page : Nat) : Nat := startOf (box.stop page)

/-- The page is right exactly where the responses are the answers for its messages, oldest first, and
no others. -/
theorem fetchHeaders_iff {box : Contents} {server : Server} {mailboxName : String} {page : Nat}
    (reply : Reply box) (hexamine : server.examine mailboxName = .ok box.examined)
    (hfetch : server.fetch s!"{box.start page}:{box.stop page}" "(UID ENVELOPE FLAGS)" =
      .ok reply.stream)
    (hanswers : reply.Answers (fun k => box.start page ≤ k ∧ k ≤ box.stop page)
      (box.described (box.start page) (box.stop page))) :
    fetchHeaders parseHeader server mailboxName page =
        .ok (Esmail.fetchHeaders (box.mailbox parseHeader) page) ↔
      box.messages = [] ∨ reply.responses = box.described (box.start page) (box.stop page) := by
  have hlength : (box.mailbox parseHeader).messages.length = box.messages.length :=
    List.length_map _
  by_cases hempty : box.messages.length = 0
  · have hnil : box.messages = [] := List.length_eq_zero_iff.mp hempty
    refine iff_of_true ?_ (.inl hnil)
    rw [fetchHeaders, hexamine, Esmail.fetchHeaders, hlength]
    simp only [bind, Except.bind, pure, Except.pure, Contents.examined, hempty, if_true]
    rfl
  · have hne : box.messages ≠ [] := fun hnil => hempty (by rw [hnil]; rfl)
    have hread : fetchHeaders parseHeader server mailboxName page =
        (reply.stream.mapM (headerOf parseHeader)).map fun headers =>
          (headers.reverse, totalPagesOf box.messages.length, ⟨box.uidValidity, box.uidNext⟩) := by
      unfold Contents.start Contents.stop at hfetch
      rw [fetchHeaders, hexamine]
      simp only [bind, Except.bind, pure, Except.pure, Contents.examined, hempty, if_false, hfetch]
      cases reply.stream.mapM (headerOf parseHeader) <;> rfl
    have hright : Esmail.fetchHeaders (box.mailbox parseHeader) page =
        ((box.page parseHeader (box.start page) (box.stop page)).reverse,
          totalPagesOf box.messages.length, ⟨box.uidValidity, box.uidNext⟩) := by
      rw [Esmail.fetchHeaders, hlength]
      simp only [hempty, if_false]
      rfl
    rw [hread, hright, ← mapM_headerOf_iff parseHeader reply hanswers]
    refine Iff.trans ?_ (or_iff_right hne).symm
    cases reply.stream.mapM (headerOf parseHeader) with
    | error e => exact iff_of_false (by simp [Except.map]) (by simp)
    | ok headers =>
      simp only [Except.map, Except.ok.injEq, Prod.mk.injEq, and_true]
      exact List.reverse_inj

end Page

/-! ## 2. The first -/

/-- `fetch_raw` returns the body of the message, or fails where there is none. -/
def Contents.RightBody (box : Contents) (uid : Nat) (result : Except Error (List UInt8)) : Prop :=
  match box.find uid with
  | some p => result = .ok p.1.body
  | none => ∀ body, result ≠ .ok body

/-- The first response is that of the message, or has the same body; where there is no such message,
the first response has no body. -/
def Reply.OwnFirst {box : Contents} (reply : Reply box) (uid : Nat) : Prop :=
  match box.find uid with
  | some p => ∃ r ∈ reply.responses.head?, r.message = p.2 ∨ r.body = some p.1.body
  | none => ∀ r ∈ reply.responses.head?, r.body = none

theorem readRaw_eq_ok_iff (responses : List Fetch) (body : List UInt8) :
    readRaw (responses.map .ok) = .ok body ↔ ∃ r ∈ responses.head?, r.body = some body := by
  cases responses with
  | nil => exact iff_of_false nofun (by simp)
  | cons r rest =>
    simp only [List.map_cons, readRaw, bind, Except.bind, List.head?_cons, Option.mem_def,
      Option.some.injEq, exists_eq_left']
    cases r.body with
    | none => exact iff_of_false nofun nofun
    | some b => simp [okOrElse]

/-- What is said of the message is its answer. -/
theorem body_of_answers {box : Contents} {reply : Reply box} {uid : Nat} {p : Message × Nat}
    (hfind : box.find uid = some p)
    (hanswers : reply.Answers (box.isNumberOf uid) (box.bodyOf uid)) {r : Fetch}
    (hmem : r ∈ reply.responses) (hnumber : r.message = p.2) : r.body = some p.1.body := by
  have hown : r ∈ reply.responses.filter fun r => box.isNumberOf uid r.message :=
    List.mem_filter.mpr ⟨hmem, by simp [Contents.isNumberOf, hfind, hnumber]⟩
  have hanswer := hanswers.mem_iff.mp hown
  simp only [Contents.bodyOf, hfind, Option.toList_some, List.map_cons, List.map_nil,
    List.mem_singleton] at hanswer
  rw [hanswer]

/-- The body is right exactly where the first response is the message's own or no worse. -/
theorem fetchRaw_iff {box : Contents} {server : Server} {mailboxName : String} {uid : Nat}
    (reply : Reply box) (hexamine : server.examine mailboxName = .ok box.examined)
    (hfetch : server.uidFetch 0 s!"{uid}" "RFC822" = .ok reply.stream)
    (hanswers : reply.Answers (box.isNumberOf uid) (box.bodyOf uid)) :
    box.RightBody uid (fetchRaw server mailboxName uid) ↔ reply.OwnFirst uid := by
  have hread : fetchRaw server mailboxName uid = readRaw (reply.responses.map .ok) := by
    simp only [fetchRaw, hexamine, hfetch, bind, Except.bind, Reply.stream]
  rw [Contents.RightBody, Reply.OwnFirst, hread]
  cases hfind : box.find uid with
  | none =>
    simp only [ne_eq, readRaw_eq_ok_iff, not_exists, not_and]
    refine ⟨fun h r hr => ?_, fun h body r hr hbody => ?_⟩
    · exact Option.eq_none_iff_forall_ne_some.mpr fun body => h body r hr
    · rw [h r hr] at hbody
      cases hbody
  | some p =>
    simp only [readRaw_eq_ok_iff]
    refine exists_congr fun r => and_congr_right fun hr => ⟨.inr, fun h => ?_⟩
    rcases h with hnumber | hbody
    · exact body_of_answers hfind hanswers (List.mem_of_mem_head? hr) hnumber
    · exact hbody

/-! ## 3. The last -/

theorem okOrElse_inj {α : Type} {x y : Option α} {message : String} :
    okOrElse x message = okOrElse y message ↔ x = y := by
  cases x <;> cases y <;> simp [okOrElse]

theorem readFlags_eq (responses : List Fetch) (lastFlags : Option (List String)) :
    readFlags (responses.map .ok) lastFlags =
      .ok ((responses.getLast?.map Fetch.fetchFlags).or lastFlags) := by
  induction responses generalizing lastFlags with
  | nil => rfl
  | cons r rest ih =>
    simp only [List.map_cons, readFlags, bind, Except.bind, ih, Except.ok.injEq]
    rw [List.getLast?_cons]
    cases rest.getLast? <;> rfl

/-- What is heard while the STOREs run: of a side without flags, nothing. -/
def heard (add remove : List String) (added removed : List Fetch) : List Fetch :=
  (if add = [] then [] else added) ++ if remove = [] then [] else removed

/-- The text of a STORE. -/
def storeQuery (sign : String) (flags : List String) : String :=
  sign ++ "FLAGS (" ++ " ".intercalate flags ++ ")"

theorem storeSide_eq {server : Server} {uid : Nat} {sign : String} {flags : List String}
    {responses : List Fetch}
    (hstore : flags ≠ [] → server.uidStore s!"{uid}" (storeQuery sign flags) =
      .ok (responses.map .ok)) (lastFlags : Option (List String)) :
    storeSide server uid sign flags lastFlags =
      .ok (((if flags = [] then [] else responses).getLast?.map Fetch.fetchFlags).or lastFlags) := by
  rw [storeSide]
  by_cases hnone : flags = []
  · simp [hnone, pure, Except.pure]
  · have hstore := hstore hnone
    rw [storeQuery] at hstore
    simp only [hnone, if_false, hstore, bind, Except.bind]
    exact readFlags_eq responses lastFlags

/-- `store_flags` reads the last response of all. -/
theorem storeFlags_eq {server : Server} {mailboxName : String} {uid : Nat} {add remove : List String}
    {state : Examined} {added removed : List Fetch} (hselect : server.select mailboxName = .ok state)
    (hadd : add ≠ [] → server.uidStore s!"{uid}" (storeQuery "+" add) = .ok (added.map .ok))
    (hremove : remove ≠ [] →
      server.uidStore s!"{uid}" (storeQuery "-" remove) = .ok (removed.map .ok)) :
    storeFlags server mailboxName uid add remove =
      okOrElse ((heard add remove added removed).getLast?.map Fetch.fetchFlags)
        s!"STORE completed but the server reported no resulting flags for UID {uid}" := by
  simp only [storeFlags, hselect, bind, Except.bind, storeSide_eq hadd, storeSide_eq hremove,
    Option.or_none, heard, List.getLast?_append, Option.map_or]

/-- The flags reported last for a UID: those of the STORE that was sent last. -/
def Contents.lastReported (box : Contents) (uid : Nat) (add remove : List String)
    (flagsAdded flagsRemoved : List Flag) : Option (List String) :=
  if box.find uid = none then none
  else if remove ≠ [] then some (flagsRemoved.map flagToStr)
  else if add ≠ [] then some (flagsAdded.map flagToStr)
  else none

/-- The answer to a STORE is somewhere in its reply. -/
theorem ne_nil_of_stored {box : Contents} {reply : Reply box} {uid : Nat} {p : Message × Nat}
    {flags : List Flag} (hfind : box.find uid = some p)
    (hanswers : reply.Answers (box.isNumberOf uid) (box.stored uid flags)) : reply.responses ≠ [] := by
  intro hnil
  rw [Reply.Answers, hnil, Contents.stored, hfind] at hanswers
  exact absurd hanswers.symm.eq_nil (by simp)

/-- What is said of the message is the answer to the STORE. -/
theorem flags_of_stored {box : Contents} {reply : Reply box} {uid : Nat} {flags : List Flag}
    (hanswers : reply.Answers (box.isNumberOf uid) (box.stored uid flags)) {r : Fetch}
    (hmem : r ∈ reply.responses) (hown : box.isNumberOf uid r.message = true) :
    r.fetchFlags = flags.map flagToStr := by
  have hanswer := hanswers.mem_iff.mp (List.mem_filter.mpr ⟨hmem, hown⟩)
  obtain ⟨p, -, rfl⟩ := List.mem_map.mp hanswer
  rfl

section Store

variable {box : Contents} {uid : Nat} {add remove : List String} {added removed : Reply box}
  {flagsAdded flagsRemoved : List Flag}
  (hadd : add ≠ [] → added.Answers (box.isNumberOf uid) (box.stored uid flagsAdded))
  (hremove : remove ≠ [] → removed.Answers (box.isNumberOf uid) (box.stored uid flagsRemoved))

include hadd hremove

/-- Where nothing is heard, nothing was reported. -/
theorem lastReported_of_silence
    (hsilent : heard add remove added.responses removed.responses = []) :
    box.lastReported uid add remove flagsAdded flagsRemoved = none := by
  obtain ⟨hadded, hremoved⟩ := List.append_eq_nil_iff.mp hsilent
  rw [Contents.lastReported]
  cases hfind : box.find uid with
  | none => rfl
  | some p =>
    have hnoremove : remove = [] := by
      by_contra hne
      rw [if_neg hne] at hremoved
      exact ne_nil_of_stored hfind (hremove hne) hremoved
    have hnoadd : add = [] := by
      by_contra hne
      rw [if_neg hne] at hadded
      exact ne_nil_of_stored hfind (hadd hne) hadded
    simp [hnoremove, hnoadd]

/-- Where the message's own response is heard last, its flags are those reported last. -/
theorem lastReported_of_own {r : Fetch}
    (hlast : (heard add remove added.responses removed.responses).getLast? = some r)
    (hown : box.isNumberOf uid r.message = true) :
    box.lastReported uid add remove flagsAdded flagsRemoved = some r.fetchFlags := by
  cases hfind : box.find uid with
  | none => simp [Contents.isNumberOf, hfind] at hown
  | some p =>
    rw [heard, List.getLast?_append] at hlast
    rw [Contents.lastReported, hfind, if_neg (Option.some_ne_none p)]
    by_cases hnoremove : remove = []
    · rw [if_pos hnoremove, List.getLast?_nil, Option.none_or] at hlast
      by_cases hnoadd : add = []
      · rw [if_pos hnoadd, List.getLast?_nil] at hlast
        cases hlast
      · rw [if_neg hnoadd] at hlast
        rw [if_neg (not_not.mpr hnoremove), if_pos hnoadd,
          flags_of_stored (hadd hnoadd) (List.mem_of_getLast? hlast) hown]
    · rw [if_neg hnoremove] at hlast
      obtain ⟨last, hsome⟩ := Option.isSome_iff_exists.mp
        (List.getLast?_isSome.mpr (ne_nil_of_stored hfind (hremove hnoremove)))
      rw [hsome, Option.some_or] at hlast
      obtain rfl := Option.some.inj hlast
      rw [if_pos hnoremove, flags_of_stored (hremove hnoremove) (List.mem_of_getLast? hsome) hown]

/-- The flags are right exactly where the response heard last, if any, is the message's own, or shows
the same flags. -/
theorem storeFlags_iff {server : Server} {mailboxName : String} {state : Examined}
    (hselect : server.select mailboxName = .ok state)
    (hadded : add ≠ [] → server.uidStore s!"{uid}" (storeQuery "+" add) = .ok added.stream)
    (hremoved : remove ≠ [] →
      server.uidStore s!"{uid}" (storeQuery "-" remove) = .ok removed.stream) :
    storeFlags server mailboxName uid add remove =
        okOrElse (box.lastReported uid add remove flagsAdded flagsRemoved)
          s!"STORE completed but the server reported no resulting flags for UID {uid}" ↔
      ∀ r ∈ (heard add remove added.responses removed.responses).getLast?,
        box.isNumberOf uid r.message = true ∨
          box.lastReported uid add remove flagsAdded flagsRemoved = some r.fetchFlags := by
  rw [storeFlags_eq hselect hadded hremoved, okOrElse_inj]
  cases hlast : (heard add remove added.responses removed.responses).getLast? with
  | none =>
    have hsilent := List.getLast?_eq_none_iff.mp hlast
    exact iff_of_true (lastReported_of_silence hadd hremove hsilent).symm nofun
  | some last =>
    simp only [Option.map_some, Option.mem_def, Option.some.injEq, forall_eq']
    constructor
    · exact fun hflags => .inr hflags.symm
    · rintro (hown | hflags)
      · exact (lastReported_of_own hadd hremove hlast hown).symm
      · exact hflags.symm

end Store

/-! ## 4. The three readers -/

/-- Whatever a server may legally send while a command runs: the page is right exactly where nothing
but its messages is reported, and oldest first; the body, where the first response is the message's
own, or no worse; the flags, where the last response is. -/
theorem reads_own_answer_iff (parseHeader : List UInt8 → Option (List Char)) (box : Contents)
    (server : Server) (mailboxName : String)
    (hexamine : server.examine mailboxName = .ok box.examined)
    (hselect : server.select mailboxName = .ok box.examined) :
    (∀ (page : Nat) (reply : Reply box),
      server.fetch s!"{box.start page}:{box.stop page}" "(UID ENVELOPE FLAGS)" = .ok reply.stream →
      reply.Answers (fun k => box.start page ≤ k ∧ k ≤ box.stop page)
        (box.described (box.start page) (box.stop page)) →
      (fetchHeaders parseHeader server mailboxName page =
          .ok (Esmail.fetchHeaders (box.mailbox parseHeader) page) ↔
        box.messages = [] ∨ reply.responses = box.described (box.start page) (box.stop page))) ∧
    (∀ (uid : Nat) (reply : Reply box),
      server.uidFetch 0 s!"{uid}" "RFC822" = .ok reply.stream →
      reply.Answers (box.isNumberOf uid) (box.bodyOf uid) →
      (box.RightBody uid (fetchRaw server mailboxName uid) ↔ reply.OwnFirst uid)) ∧
    (∀ (uid : Nat) (add remove : List String) (added removed : Reply box)
      (flagsAdded flagsRemoved : List Flag),
      (add ≠ [] → server.uidStore s!"{uid}" (storeQuery "+" add) = .ok added.stream ∧
        added.Answers (box.isNumberOf uid) (box.stored uid flagsAdded)) →
      (remove ≠ [] → server.uidStore s!"{uid}" (storeQuery "-" remove) = .ok removed.stream ∧
        removed.Answers (box.isNumberOf uid) (box.stored uid flagsRemoved)) →
      (storeFlags server mailboxName uid add remove =
          okOrElse (box.lastReported uid add remove flagsAdded flagsRemoved)
            s!"STORE completed but the server reported no resulting flags for UID {uid}" ↔
        ∀ r ∈ (heard add remove added.responses removed.responses).getLast?,
          box.isNumberOf uid r.message = true ∨
            box.lastReported uid add remove flagsAdded flagsRemoved = some r.fetchFlags)) := by
  refine ⟨fun page reply hfetch hanswers => ?_, fun uid reply hfetch hanswers => ?_, ?_⟩
  · exact fetchHeaders_iff parseHeader reply hexamine hfetch hanswers
  · exact fetchRaw_iff reply hexamine hfetch hanswers
  · intro uid add remove added removed flagsAdded flagsRemoved hadd hremove
    exact storeFlags_iff (fun hne => (hadd hne).2) (fun hne => (hremove hne).2) hselect
      (fun hne => (hadd hne).1) (fun hne => (hremove hne).1)

/-- A mailbox of two messages, of the UIDs 5 and 9. -/
def twoMessages : Contents where
  messages := [⟨5, {}, [], [104, 105]⟩, ⟨9, {}, [.seen], []⟩]
  uidValidity := 1
  uidNext := 10
  ascending := by simp
  assigned := by simp
  representable := by decide

/-- What another client did to the second message. -/
def secondDeleted : Fetch := { message := 2, flags := [.deleted] }

theorem describes_secondDeleted : twoMessages.Describes secondDeleted :=
  Contents.describes_flags (p := (⟨9, {}, [.seen], []⟩, 2))
    (by simp [twoMessages, Contents.numbered]) [.deleted]

/-- Answers that come in their order, and backwards; behind that report, and before it. -/
def inOrder (answers : List Fetch) (h : ∀ r ∈ answers, twoMessages.Describes r) : Reply twoMessages :=
  ⟨answers, h⟩

def backwards (answers : List Fetch) (h : ∀ r ∈ answers, twoMessages.Describes r) :
    Reply twoMessages :=
  ⟨answers.reverse, fun r hr => h r (List.mem_reverse.mp hr)⟩

def behind (answers : List Fetch) (h : ∀ r ∈ answers, twoMessages.Describes r) : Reply twoMessages :=
  ⟨secondDeleted :: answers, List.forall_mem_cons.mpr ⟨describes_secondDeleted, h⟩⟩

def before (answers : List Fetch) (h : ∀ r ∈ answers, twoMessages.Describes r) : Reply twoMessages :=
  ⟨answers ++ [secondDeleted], List.forall_mem_append.mpr
    ⟨h, List.forall_mem_singleton.mpr describes_secondDeleted⟩⟩

/-- The page in order, the body before the other report, the flags behind it. -/
theorem reads_own_answer_five :
    fetchHeaders (fun _ => none) (.saying twoMessages (twoMessages.described 1 2)) "INBOX" 1 =
        .ok (Esmail.fetchHeaders (twoMessages.mailbox fun _ => none) 1) ∧
      twoMessages.RightBody 5
        (fetchRaw (.saying twoMessages (twoMessages.bodyOf 5 ++ [secondDeleted])) "INBOX" 5) ∧
      storeFlags (.saying twoMessages (secondDeleted :: twoMessages.stored 5 [.flagged])) "INBOX" 5
        ["\\Flagged"] [] = okOrElse (some ["\\Flagged"])
          s!"STORE completed but the server reported no resulting flags for UID {5}" := by
  refine ⟨?_, ?_, ?_⟩
  · exact ((reads_own_answer_iff (fun _ => none) twoMessages _ "INBOX" rfl rfl).1 1
      (inOrder (twoMessages.described 1 2) fun _ => Contents.describes_described) rfl (.refl _)).mpr
      (.inr rfl)
  · exact ((reads_own_answer_iff (fun _ => none) twoMessages _ "INBOX" rfl rfl).2.1 5
      (before (twoMessages.bodyOf 5) fun _ => Contents.describes_bodyOf) rfl (.refl _)).mpr
      ⟨_, rfl, .inl rfl⟩
  · have hlast := (reads_own_answer_iff (fun _ => none) twoMessages
      (.saying twoMessages (secondDeleted :: twoMessages.stored 5 [.flagged])) "INBOX" rfl rfl).2.2 5
      ["\\Flagged"] [] (behind (twoMessages.stored 5 [.flagged]) fun _ => Contents.describes_stored)
      (inOrder [] nofun) [.flagged] [] (fun _ => ⟨rfl, .refl _⟩) (fun hne => absurd rfl hne)
    exact hlast.mpr fun r hr => .inl (by obtain rfl := Option.some.inj hr; rfl)

/-- A page that comes newest first is shown oldest first; a body behind the other report is not found;
and behind the flags of the message, those of the other one are taken for its own. -/
theorem other_answers_read :
    (let reply := backwards (twoMessages.described 1 2) fun _ => Contents.describes_described;
      reply.Answers (fun k => 1 ≤ k ∧ k ≤ 2) (twoMessages.described 1 2) ∧
        fetchHeaders (fun _ => none) (.saying twoMessages reply.responses) "INBOX" 1 ≠
          .ok (Esmail.fetchHeaders (twoMessages.mailbox fun _ => none) 1)) ∧
    (let reply := behind (twoMessages.bodyOf 5) fun _ => Contents.describes_bodyOf;
      reply.Answers (twoMessages.isNumberOf 5) (twoMessages.bodyOf 5) ∧
        fetchRaw (.saying twoMessages reply.responses) "INBOX" 5 = .error ⟨"No body", []⟩) ∧
    (let reply := before (twoMessages.stored 5 [.flagged]) fun _ => Contents.describes_stored;
      reply.Answers (twoMessages.isNumberOf 5) (twoMessages.stored 5 [.flagged]) ∧
        storeFlags (.saying twoMessages reply.responses) "INBOX" 5 ["\\Flagged"] [] =
          .ok ["\\Deleted"]) := by
  have hboth : (twoMessages.described 1 2).reverse.Perm (twoMessages.described 1 2) :=
    List.reverse_perm _
  refine ⟨⟨hboth, fun h => ?_⟩, ⟨.refl _, rfl⟩, .refl _, rfl⟩
  have huids := congrArg (fun result => result.map fun page => uids page.1) h
  exact absurd (Except.ok.inj (huids : Except.ok [5, 9] = Except.ok [9, 5])) (by decide)

end Esmail.Imap
