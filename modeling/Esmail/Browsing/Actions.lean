/-
# Flags, moves and exports, and how many are pending

`app/actions.rs`: each flag, move or export is a command to the message's session, and the actions are
disabled while `pending_actions` counts one.  Every accepted command has one reply, which counts it off,
unless the mail core is replaced before: then the reply is lost, and nobody counts it off.

`outstanding` and `lost` are not the program's: the commands that the present core has accepted and whose
reply has not been handled, and how many a replaced core took with it.

* `pending_eq`, of every run: the count is what is outstanding and what was lost;
* `pending_counted`: so it is what is outstanding, if the core is replaced only while nothing is.

`Owes` is the invariant, with the number of lost replies as a parameter, so that one lemma does for each
function that orders commands (`order`, and the loops over it) whatever was lost before.  A reply counts off
the command it answers, of which there is one, as a session replies only to what it has taken (`working`).

What the commands do to the messages is not modelled here; `Mailbox/Moving.lean` has the moves.
-/
import Esmail.Browsing.Window

namespace Esmail.Browsing

open Transition
open App (ImapEvent)

/-! ## 1. Commands and their replies -/

/-- Whether the command is one that `pending_actions` counts. -/
def ImapCommand.isAction : ImapCommand → Bool
  | .storeFlags .. | .moveMessage .. | .exportMessage .. => true
  | _ => false

/-- The replies that count a command off. -/
def finishesAction : ImapEvent → Bool
  | .flagsUpdated .. | .flagsUpdateFailed .. | .moved .. | .moveFailed .. | .exported _
  | .exportFailed _ => true
  | _ => false

/-- The replies that the session gives to a command. -/
def answersAction : ImapCommand → ImapEvent → Bool
  | .storeFlags mailbox uid _ _ reqId, .flagsUpdated mailbox' uid' _ reqId'
  | .storeFlags mailbox uid _ _ reqId, .flagsUpdateFailed mailbox' uid' _ reqId'
  | .moveMessage mailbox uid _ reqId, .moveFailed mailbox' uid' _ reqId' =>
    mailbox' = mailbox && uid' = uid && reqId' = reqId
  | .moveMessage mailbox uid dest reqId, .moved mailbox' uid' dest' reqId' =>
    mailbox' = mailbox && uid' = uid && dest' = dest && reqId' = reqId
  | .exportMessage .., .exported _ | .exportMessage .., .exportFailed _ => true
  | _, _ => false

/-! ## 2. The actions -/

/-- A message and the folder it lives in. -/
abbrev Target := FolderRef × MailHeader

/-- `App` with its actions. -/
structure Acting where
  window : Window
  pendingActions : Nat := 0
  actionIds : Latest := {}
  outstanding : List (Nat × ImapCommand) := []
  lost : Nat := 0
  deriving DecidableEq

namespace Acting

/-- What `store_flags`, `move_selected` and `export_selected` do with a command: it is counted if it is
accepted. -/
def order (a : Acting) (account : Nat) (command : ImapCommand) : Acting × Bool :=
  match a.window.core.send account command with
  | (core, true) =>
    ({ a with
        window := { a.window with core := core }
        pendingActions := a.pendingActions + 1
        outstanding := a.outstanding ++ [(account, command)] },
      true)
  | (_, false) => ({ a with window := a.window.accountUnavailable }, false)

/-- `App::targets`. -/
def targets (a : Acting) (selection : List Nat) : List Target := selection.filterMap a.window.messageAt

/-- `App::store_flags`. -/
def storeFlags (a : Acting) (folder : FolderRef) (uid : Nat) (add remove : List String) : Acting :=
  let (ids, reqId) := a.actionIds.begin
  ({ a with actionIds := ids }.order folder.account
    (.storeFlags folder.mailbox uid add remove reqId)).1

/-- `App::set_flag`. -/
def setFlag (a : Acting) (folder : FolderRef) (uid : Nat) (flag : String) (on : Bool) : Acting :=
  if on then a.storeFlags folder uid [flag] [] else a.storeFlags folder uid [] [flag]

/-- `App::toggle_flag_of`. -/
def toggleFlagOf (a : Acting) (targets : List Target) : Acting :=
  let flag := !targets.all fun target => target.2.isFlagged
  (targets.filter fun target => target.2.isFlagged ≠ flag).foldl
    (fun a target => a.setFlag target.1 target.2.uid "\\Flagged" flag) a

/-- `App::toggle_flag`. -/
def toggleFlag (a : Acting) (selection : List Nat) : Acting := a.toggleFlagOf (a.targets selection)

/-- `App::toggle_flag_at`. -/
def toggleFlagAt (a : Acting) (selection : List Nat) (row : Nat) : Acting :=
  if selection.contains row then a.toggleFlag selection
  else a.toggleFlagOf (a.window.messageAt row).toList

/-- `App::set_seen`. -/
def setSeen (a : Acting) (selection : List Nat) (seen : Bool) : Acting :=
  ((a.targets selection).filter fun target => target.2.isSeen ≠ seen).foldl
    (fun a target => a.setFlag target.1 target.2.uid "\\Seen" seen) a

/-- `App::mark_seen_when_due`, for the message that was pending when the delay was over. -/
def markSeenWhenDue (a : Acting) (uid : Nat) : Acting :=
  if a.window.selected.map MailHeader.uid ≠ some uid then a
  else
    match a.window.selectedIn with
    | some folder => a.storeFlags folder uid ["\\Seen"] []
    | none => a

/-- The loop of `move_selected`; `dest` is the account's special folder.  At the first command that is
refused it ends. -/
def moveAll (dest : Nat → String) (a : Acting) : List Target → Acting
  | [] => a
  | (folder, header) :: rest =>
    if dest folder.account = folder.mailbox then moveAll dest a rest
    else
      let (ids, reqId) := a.actionIds.begin
      match { a with actionIds := ids }.order folder.account
          (.moveMessage folder.mailbox header.uid (dest folder.account) reqId) with
      | (a, true) => moveAll dest a rest
      | (a, false) => a

/-- `App::move_selected`. -/
def moveSelected (a : Acting) (selection : List Nat) (dest : Nat → String) : Acting :=
  a.moveAll dest (a.targets selection)

/-- `App::export_selected`; `chosen` says whether the user chose a file. -/
def exportSelected (a : Acting) (chosen : Bool) : Acting :=
  match a.window.selectedIn, a.window.selected with
  | some folder, some header =>
    if chosen then (a.order folder.account (.exportMessage folder.mailbox header.uid)).1 else a
  | _, _ => a

/-- `App::action_finished`. -/
def actionFinished (a : Acting) : Acting := { a with pendingActions := a.pendingActions - 1 }

/-- `App::handle`. -/
def handle (zone : LocalDateTime) (a : Acting) (account : Nat) (event : ImapEvent) : Acting :=
  let a := { a with window := a.window.handle zone account event }
  if finishesAction event then a.actionFinished else a

/-- What becomes of the commands when the accounts are changed: nothing, if the new core could not be
started. -/
def reloaded (a : Acting) (window : Window) (replaced : Bool) : Acting :=
  if replaced then
    { a with window := window, outstanding := [], lost := a.lost + a.outstanding.length }
  else { a with window := window }

end Acting

/-! ## 3. The machine -/

/-- What is no reply to an action, orders none, and leaves the accounts as they are. -/
def Action.plain : Action → Bool
  | .order _ command => !command.isAction
  | .hear _ event => !finishesAction event
  | .accountSaved .. | .accountRemoved .. => false
  | _ => true

/-- What the user does with messages and accounts, what the sessions reply, and the rest. -/
inductive Move
  | browse (action : Action)
  | toggleFlag (selection : List Nat)
  | toggleFlagAt (selection : List Nat) (row : Nat)
  | setSeen (selection : List Nat) (seen : Bool)
  | markSeenWhenDue (uid : Nat)
  | moveSelected (selection : List Nat) (dest : Nat → String)
  | exportSelected (chosen : Bool)
  | reply (request : Nat × ImapCommand) (event : ImapEvent)
  | accountSaved (config : List AccountId) (id : AccountId) (credentials : Option (AccountId → Bool))
  | accountRemoved (config : List AccountId) (credentials : Option (AccountId → Bool))

namespace Acting

/-- Whether a session has taken one of the commands like this one from its queue, and has not replied. -/
def working (a : Acting) (request : Nat × ImapCommand) : Bool :=
  ((a.window.core.sessions[request.1]?).join.getD []).count request.2 < a.outstanding.count request

variable (zone : LocalDateTime)

/-- Each accepted command is replied to once, after its session has taken it.  A core that is replaced
replies no more; without credentials it is one that could not be started. -/
def step (a : Acting) : Move → Option Acting
  | .browse action =>
    if action.plain then (a.window.step zone action).map fun window => { a with window := window }
    else none
  | .toggleFlag selection => some (a.toggleFlag selection)
  | .toggleFlagAt selection row => some (a.toggleFlagAt selection row)
  | .setSeen selection seen => some (a.setSeen selection seen)
  | .markSeenWhenDue uid => some (a.markSeenWhenDue uid)
  | .moveSelected selection dest => some (a.moveSelected selection dest)
  | .exportSelected chosen => some (a.exportSelected chosen)
  | .reply request event =>
    if a.working request && answersAction request.2 event then
      (a.window.core.accountOf request.1).map fun account =>
        { a with outstanding := a.outstanding.erase request }.handle zone account event
    else none
  | .accountSaved config id credentials =>
    (a.window.step zone (.accountSaved config id (credentials.map (Core.start config)))).map
      fun window => a.reloaded window credentials.isSome
  | .accountRemoved config credentials =>
    (a.window.step zone (.accountRemoved config (credentials.map (Core.start config)))).map
      fun window => a.reloaded window credentials.isSome

def machine : Machine Acting Move :=
  ⟨fun a => ∃ accounts credentials, a = ⟨Window.built accounts credentials, 0, {}, [], 0⟩, step zone⟩

/-! ## 4. The count -/

variable {zone : LocalDateTime} {a : Acting} {n : Nat}

/-- So many replies were lost, and what is counted beside them is outstanding. -/
structure Owes (n : Nat) (a : Acting) : Prop where
  lost : a.lost = n
  pending : a.pendingActions = a.outstanding.length + n

theorem Owes.order (h : a.Owes n) (account : Nat) (command : ImapCommand) :
    (a.order account command).1.Owes n := by
  unfold Acting.order
  split
  · refine ⟨h.lost, ?_⟩
    have hpending := h.pending
    simp only [List.length_append, List.length_singleton]
    omega
  · exact ⟨h.lost, h.pending⟩

theorem Owes.storeFlags (h : a.Owes n) (folder : FolderRef) (uid : Nat) (add remove : List String) :
    (a.storeFlags folder uid add remove).Owes n := by
  have hbegun : ({ a with actionIds := a.actionIds.begin.1 } : Acting).Owes n := ⟨h.lost, h.pending⟩
  exact hbegun.order _ _

theorem Owes.setFlag (h : a.Owes n) (folder : FolderRef) (uid : Nat) (flag : String) (on : Bool) :
    (a.setFlag folder uid flag on).Owes n := by
  unfold Acting.setFlag
  split
  · exact h.storeFlags folder uid _ _
  · exact h.storeFlags folder uid _ _

theorem Owes.foldl_setFlag (h : a.Owes n) (targets : List Target) (flag : String) (on : Bool) :
    (targets.foldl (fun a target => a.setFlag target.1 target.2.uid flag on) a).Owes n := by
  induction targets generalizing a with
  | nil => exact h
  | cons target rest ih => exact ih (h.setFlag target.1 target.2.uid flag on)

theorem Owes.moveAll (h : a.Owes n) (dest : Nat → String) (targets : List Target) :
    (a.moveAll dest targets).Owes n := by
  induction targets generalizing a with
  | nil => exact h
  | cons target rest ih =>
    obtain ⟨folder, header⟩ := target
    unfold Acting.moveAll
    split
    · exact ih h
    · have hbegun : ({ a with actionIds := a.actionIds.begin.1 } : Acting).Owes n :=
        ⟨h.lost, h.pending⟩
      have hordered := hbegun.order folder.account
        (.moveMessage folder.mailbox header.uid (dest folder.account) a.actionIds.begin.2)
      simp only
      split
      · next heq =>
        rw [heq] at hordered
        exact ih hordered
      · next heq =>
        rw [heq] at hordered
        exact hordered

/-- A reply counts off the command that it answers. -/
theorem Owes.reply (h : a.Owes n) {request : Nat × ImapCommand} (hmem : request ∈ a.outstanding)
    {event : ImapEvent} (hanswers : answersAction request.2 event = true) (account : Nat) :
    ({ a with outstanding := a.outstanding.erase request }.handle zone account event).Owes n := by
  have hfinishes : finishesAction event = true := by
    unfold answersAction at hanswers
    split at hanswers <;> first | rfl | cases hanswers
  have hpos := List.length_pos_of_mem hmem
  have hpending := h.pending
  unfold handle
  rw [if_pos hfinishes]
  refine ⟨h.lost, ?_⟩
  simp only [actionFinished, List.length_erase_of_mem hmem]
  omega

theorem mem_of_working {request : Nat × ImapCommand} (h : a.working request = true) :
    request ∈ a.outstanding := by
  have hlt := of_decide_eq_true h
  exact List.count_pos_iff.mp (by omega)

/-- How many replies are lost in a step. -/
def loses (a : Acting) : Move → Nat
  | .accountSaved _ _ (some _) | .accountRemoved _ (some _) => a.outstanding.length
  | _ => 0

theorem Owes.reloaded (h : a.Owes n) (window : Window) (replaced : Bool) :
    (a.reloaded window replaced).Owes (n + if replaced then a.outstanding.length else 0) := by
  have hpending := h.pending
  unfold Acting.reloaded
  split
  · exact ⟨congrArg (· + a.outstanding.length) h.lost, by simp only [List.length_nil]; omega⟩
  · exact ⟨h.lost, h.pending⟩

theorem Owes.step {a' : Acting} {move : Move} (h : a.Owes n) (hst : a.step zone move = some a') :
    a'.Owes (n + a.loses move) := by
  cases move with
  | browse action =>
    simp only [Acting.step] at hst
    split at hst
    · obtain ⟨window, -, rfl⟩ := Option.map_eq_some_iff.mp hst
      exact ⟨h.lost, h.pending⟩
    · cases hst
  | toggleFlag selection => exact Option.some.inj hst ▸ h.foldl_setFlag _ _ _
  | toggleFlagAt selection row =>
    obtain rfl := Option.some.inj hst
    unfold Acting.toggleFlagAt
    split
    · exact h.foldl_setFlag _ _ _
    · exact h.foldl_setFlag _ _ _
  | setSeen selection seen => exact Option.some.inj hst ▸ h.foldl_setFlag _ _ _
  | markSeenWhenDue uid =>
    obtain rfl := Option.some.inj hst
    unfold Acting.markSeenWhenDue
    split
    · exact h
    · split
      · exact h.storeFlags _ _ _ _
      · exact h
  | moveSelected selection dest => exact Option.some.inj hst ▸ h.moveAll dest _
  | exportSelected chosen =>
    obtain rfl := Option.some.inj hst
    unfold Acting.exportSelected
    split
    · split
      · exact h.order _ _
      · exact h
    · exact h
  | reply request event =>
    simp only [Acting.step] at hst
    split at hst
    · next hcan =>
      obtain ⟨hworking, hanswers⟩ := Bool.and_eq_true_iff.mp hcan
      obtain ⟨account, -, rfl⟩ := Option.map_eq_some_iff.mp hst
      exact h.reply (mem_of_working hworking) hanswers account
    · cases hst
  | accountSaved config id credentials | accountRemoved config credentials =>
    simp only [Acting.step] at hst
    obtain ⟨window, -, rfl⟩ := Option.map_eq_some_iff.mp hst
    cases credentials with
    | none => exact h.reloaded window false
    | some credentials => exact h.reloaded window true

/-- In every run the count is what is outstanding and what was lost. -/
theorem pending_eq (h : (machine zone).Reach Machine.any a) :
    a.pendingActions = a.outstanding.length + a.lost := by
  have howes : ∃ n, a.Owes n := by
    refine h.invariant (P := fun a => ∃ n, a.Owes n) ?_ fun a move a' _ howes _ hst => ?_
    · rintro a ⟨accounts, credentials, rfl⟩
      exact ⟨0, rfl, rfl⟩
    · obtain ⟨n, hn⟩ := howes
      exact ⟨_, hn.step hst⟩
  obtain ⟨n, hn⟩ := howes
  rw [hn.lost]
  exact hn.pending

/-! ## 5. The runs in which nothing is lost -/

/-- The core is replaced only while no action is outstanding. -/
def settled (a : Acting) (move : Move) : Prop := a.loses move = 0

instance (a : Acting) (move : Move) : Decidable (a.settled move) :=
  inferInstanceAs (Decidable (_ = _))

/-- If the core is replaced only while no action is outstanding, the count is what is outstanding: no reply
was lost with a core, and what else is counted is zero (`pending_eq`). -/
theorem pending_counted (h : (machine zone).Reach settled a) :
    a.pendingActions = a.outstanding.length := by
  have howes : a.Owes 0 := by
    refine h.invariant (P := Owes 0) ?_ fun a move a' _ howes hok hst => ?_
    · rintro a ⟨accounts, credentials, rfl⟩
      exact ⟨rfl, rfl⟩
    · have hnext := howes.step hst
      rwa [show a.loses move = 0 from hok] at hnext
  exact howes.pending

/-- A folder is open with a message in it, whose flag has been set. -/
def flagged : List Move :=
  [.browse (.openFolder ⟨0, "INBOX"⟩),
    .browse (.hear 0 (.headers "INBOX" [Viewed.bareHeader 7] 1 1 1 ⟨1, 8⟩)), .toggleFlag [0]]

/-- Such a run: the flag has been set before an account is added, and then a message is deleted. -/
theorem pending_counted_of_move : ∃ a : Acting, a.pendingActions = 1 ∧
    a.pendingActions = a.outstanding.length := by
  obtain ⟨a, hr, hp⟩ := Machine.exists_reach_of_trace (machine fun _ => none) settled
    (s := ⟨Window.built ["me"] fun _ => true, 0, {}, [], 0⟩)
    (flagged ++ [.browse (.take 0), .browse (.take 0), .browse (.take 0),
      .reply (0, .storeFlags "INBOX" 7 ["\\Flagged"] [] 1) (.flagsUpdated "INBOX" 7 ["\\Flagged"] 1),
      .accountSaved ["me", "work"] "me" (some fun _ => true),
      .browse (.hear 0 (.headers "INBOX" [Viewed.bareHeader 7] 1 1 1 ⟨1, 8⟩)),
      .moveSelected [0] fun _ => "Trash"])
    (fun a => decide (a.pendingActions = 1)) ⟨["me"], fun _ => true, rfl⟩ (by decide)
  exact ⟨a, of_decide_eq_true hp, pending_counted hr⟩

/-- An account is added while the flag is being set: the reply never comes, and it is counted for ever. -/
theorem reply_lost : ¬ ∀ a : Acting, (machine fun _ => none).Reach Machine.any a →
    a.pendingActions = a.outstanding.length := by
  intro hall
  obtain ⟨a, hr, hp⟩ := Machine.exists_reach_of_trace (machine fun _ => none) Machine.any
    (s := ⟨Window.built ["me"] fun _ => true, 0, {}, [], 0⟩)
    (flagged ++ [.browse (.take 0), .browse (.take 0), .browse (.take 0),
      .accountSaved ["me", "work"] "work" (some fun _ => true)])
    (fun a => decide (a.pendingActions = 1 ∧ a.outstanding = [])) ⟨["me"], fun _ => true, rfl⟩
    (by decide)
  obtain ⟨hone, hnone⟩ := of_decide_eq_true hp
  have hcounted := hall a hr
  rw [hone, hnone] at hcounted
  cases hcounted

end Acting

end Esmail.Browsing
