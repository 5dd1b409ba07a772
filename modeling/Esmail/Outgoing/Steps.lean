/-
# What a step does to the books

One inversion for all actions: `Effect s a b' delivered' nextMsg'` lists what the books, the ledger
of deliveries and the number of the next message can be after the action `a`.  The invariants of the
modules that follow take their cases from it, and none of them unfolds `step`.
-/
import Esmail.Outgoing.Books

namespace Esmail

namespace System

inductive Effect (s : System) : Action → Books → List Stamp → Nat → Prop
  | quiet {a : Action} : Effect s a s.main.books s.delivered s.nextMsg
  | compose {text : Text} {account : Nat} {opens : Bool} {config : AccountId} :
      Effect s (.compose text account opens)
        (s.main.books.startCompose ⟨text, some config, none, ⟨s.nextMsg, s.clock⟩⟩ opens)
        s.delivered (s.nextMsg + 1)
  | send {refusal : Option String} {id : ComposeId} {state : ComposeState}
      {rest : List (ComposeId × Request)} {account : Nat} {config : AccountId} :
      s.requests = (id, .send state) :: rest →
      Effect s (.handleRequest refusal)
        ((s.main.books.hand id config state).withDeliveries
          (s.main.books.deliveries.begin id account state)) s.delivered s.nextMsg
  | save {refusal : Option String} {id : ComposeId} {state : ComposeState} {explicit : Bool}
      {rest : List (ComposeId × Request)} :
      s.requests = (id, .saveDraft state explicit) :: rest →
      Effect s (.handleRequest refusal) (s.main.books.saveDraft s.main.free id state explicit)
        s.delivered s.nextMsg
  | discard {refusal : Option String} {id : ComposeId} {rest : List (ComposeId × Request)} :
      s.requests = (id, .discard) :: rest →
      Effect s (.handleRequest refusal) (s.main.books.discard s.main.free id) s.delivered s.nextMsg
  | closed {refusal : Option String} {id : ComposeId} {rest : List (ComposeId × Request)} :
      s.requests = (id, .closed) :: rest →
      Effect s (.handleRequest refusal) (s.main.books.windowClosed id) s.delivered s.nextMsg
  | draftSaved {refusal : ComposeId → Option String} {opens : Bool} {row : Row} {id : ComposeId}
      {rest : List CacheEvent} : s.main.books.events = .draftSaved row id :: rest →
      Effect s (.handleEvent refusal opens)
        ({ s.main.books with events := rest }.draftSaved s.main.free row id) s.delivered s.nextMsg
  | outboxEnqueued {refusal : ComposeId → Option String} {opens : Bool} {row : Row} {id : ComposeId}
      {rest : List CacheEvent} : s.main.books.events = .outboxEnqueued row id :: rest →
      Effect s (.handleEvent refusal opens)
        ({ s.main.books with events := rest }.outboxEnqueued row id) s.delivered s.nextMsg
  | due {refusal : ComposeId → Option String} {opens : Bool} {items : List OutboxItem}
      {rest : List CacheEvent} : s.main.books.events = .outboxDue items :: rest →
      Effect s (.handleEvent refusal opens)
        ({ s.main with events := rest }.outboxDue refusal items).books s.delivered s.nextMsg
  | listed {refusal : ComposeId → Option String} {opens : Bool} {items : List OutboxItem}
      {rest : List CacheEvent} : s.main.books.events = .outbox items :: rest →
      Effect s (.handleEvent refusal opens)
        { s.main.books with events := rest, listed := items } s.delivered s.nextMsg
  | loaded {refusal : ComposeId → Option String} {opens : Bool} {row : Row} {state : ComposeState}
      {rest : List CacheEvent} : s.main.books.events = .draftLoaded row state :: rest →
      Effect s (.handleEvent refusal opens)
        ({ s.main.books with events := rest }.startCompose { state with draftId := some row } opens)
        s.delivered s.nextMsg
  | told {refusal : ComposeId → Option String} {opens : Bool} {e : CacheEvent}
      {rest : List CacheEvent} : s.main.books.events = e :: rest → e = .drafts ∨ e = .failed →
      Effect s (.handleEvent refusal opens) { s.main.books with events := rest } s.delivered s.nextMsg
  | sent {id : ComposeId} {rest : List SmtpEvent} : s.main.books.outcomes = .sent id :: rest →
      Effect s .handleOutcome ({ s.main.books with outcomes := rest }.outcomeSent s.main.free id)
        s.delivered s.nextMsg
  | failed {id : ComposeId} {error : String} {rest : List SmtpEvent} :
      s.main.books.outcomes = .error id error :: rest →
      Effect s .handleOutcome ({ s.main.books with outcomes := rest }.outcomeFailed s.main.free id)
        s.delivered s.nextMsg
  | deleteDraft {row : Row} : row < s.main.books.nextDraft →
      Effect s (.deleteRow .drafts row) (s.main.books.push s.main.free (.deleteDraft row))
        s.delivered s.nextMsg
  | deleteOutbox {row : Row} : row < s.main.books.nextOutbox →
      Effect s (.deleteRow .outbox row) (s.main.books.push s.main.free (.deleteOutbox row))
        s.delivered s.nextMsg
  | edit {row : Row} {opens : Bool} {item : OutboxItem} : s.main.listedItem row = some item →
      Effect s (.editQueued row opens) (s.main.books.editQueued s.main.free item opens)
        s.delivered s.nextMsg
  | retry {row : Row} {refusal : ComposeId → Option String} {item : OutboxItem} :
      s.main.listedItem row = some item →
      Effect s (.retryQueued row refusal) (s.main.outboxDue refusal [item]).books s.delivered s.nextMsg
  | write {c : DbCommand} {ws : List DbCommand} : s.main.books.writes = c :: ws →
      Effect s .execute ({ s.main.books with writes := ws }.run c) s.delivered s.nextMsg
  | read {es : List CacheEvent} : s.main.books.Answer es →
      Effect s .execute { s.main.books with events := s.main.books.events ++ es } s.delivered s.nextMsg
  | mail {error : Option String} {c : SmtpCommand} {rest : List SmtpCommand} :
      s.main.books.mails = c :: rest →
      Effect s (.mail error)
        { s.main.books with
          mails := rest
          outcomes := s.main.books.outcomes ++ [outcomeOf c.id error] }
        (s.delivered ++ if error = none then [c.compose.stamp] else []) s.nextMsg
  | reload {accounts : List AccountId} :
      Effect s (.reload accounts) (s.main.books.reload accounts) s.delivered s.nextMsg

/-- A request is handled. -/
theorem effect_handleRequest {s : System} (refusal : Option String) {id : ComposeId} {r : Request}
    {rest : List (ComposeId × Request)} (h : s.requests = (id, r) :: rest) :
    Effect s (.handleRequest refusal) (s.main.composeRequest refusal id r).books s.delivered
      s.nextMsg := by
  cases r with
  | send state =>
    rcases s.main.books_sendMessage refusal id state with heq | ⟨account, config, -, heq⟩
    · rw [MainWindow.composeRequest, heq]
      exact .quiet
    · rw [MainWindow.composeRequest, heq]
      exact .send h
  | saveDraft state explicit =>
    rw [MainWindow.composeRequest, MainWindow.books_saveDraft]
    exact .save h
  | discard =>
    rw [MainWindow.composeRequest, MainWindow.books_discardMessage]
    exact .discard h
  | closed =>
    rw [MainWindow.composeRequest, MainWindow.books_windowClosed]
    exact .closed h

/-- An answer is handled. -/
theorem effect_handleCache {s : System} (refusal : ComposeId → Option String) (opens : Bool)
    {e : CacheEvent} {rest : List CacheEvent} (h : s.main.events = e :: rest) :
    Effect s (.handleEvent refusal opens)
      (handleCache { s.main with events := rest } refusal opens e).books s.delivered s.nextMsg := by
  cases e with
  | draftSaved row id =>
    rw [handleCache, MainWindow.books_draftSaved]
    exact .draftSaved h
  | outboxEnqueued row id =>
    rw [handleCache, MainWindow.books_outboxEnqueued]
    exact .outboxEnqueued h
  | outboxDue items => exact .due h
  | outbox items => exact .listed h
  | draftLoaded row state =>
    rw [handleCache, MainWindow.books_draftLoaded]
    exact .loaded h
  | drafts => exact .told h (.inl rfl)
  | failed => exact .told h (.inr rfl)

theorem effect {s s' : System} {a : Action} (hstep : s.step a = some s') :
    Effect s a s'.main.books s'.delivered s'.nextMsg := by
  have hquiet : s'.main.books = s.main.books → s'.delivered = s.delivered →
      s'.nextMsg = s.nextMsg → Effect s a s'.main.books s'.delivered s'.nextMsg := by
    intro hb hd hn
    rw [hb, hd, hn]
    exact .quiet
  cases a with
  | compose text account opens =>
    simp only [System.step] at hstep
    split at hstep
    · cases hstep
      exact .quiet
    · cases hstep
      dsimp only
      rw [MainWindow.books_startCompose]
      exact .compose
  | edit id text sender =>
    obtain ⟨w, -, hstep⟩ := Option.bind_eq_some_iff.mp hstep
    obtain ⟨w', -, rfl⟩ := Option.map_eq_some_iff.mp hstep
    exact .quiet
  | attach id files =>
    obtain ⟨w, -, rfl⟩ := Option.map_eq_some_iff.mp hstep
    exact .quiet
  | clickSend id =>
    obtain ⟨w, -, rfl⟩ := Option.map_eq_some_iff.mp hstep
    exact .quiet
  | clickSave id =>
    obtain ⟨w, -, rfl⟩ := Option.map_eq_some_iff.mp hstep
    exact .quiet
  | timer id =>
    obtain ⟨w, -, rfl⟩ := Option.map_eq_some_iff.mp hstep
    exact .quiet
  | clickDiscard id =>
    obtain ⟨w, -, rfl⟩ := Option.map_eq_some_iff.mp hstep
    exact .quiet
  | closeBox id choice =>
    obtain ⟨w, -, rfl⟩ := Option.map_eq_some_iff.mp hstep
    split <;> exact .quiet
  | receive id =>
    obtain ⟨w, -, hstep⟩ := Option.bind_eq_some_iff.mp hstep
    obtain ⟨p, -, rfl⟩ := Option.map_eq_some_iff.mp hstep
    dsimp only
    split <;> exact .quiet
  | handleRequest refusal =>
    obtain ⟨id, r, rest, hrequests, rfl⟩ := of_step_handleRequest hstep
    exact effect_handleRequest refusal hrequests
  | handleEvent refusal opens =>
    obtain ⟨e, rest, hevents, rfl⟩ := of_step_handleEvent hstep
    exact effect_handleCache refusal opens hevents
  | handleOutcome =>
    obtain ⟨o, rest, houtcomes, rfl⟩ := of_step_handleOutcome hstep
    cases o with
    | sent id =>
      dsimp only [goOn, MainWindow.smtpEvent]
      rw [MainWindow.books_outcomeSent]
      exact .sent houtcomes
    | error id error =>
      dsimp only [goOn, MainWindow.smtpEvent]
      rw [MainWindow.books_outcomeFailed]
      exact .failed houtcomes
  | poll =>
    cases hstep
    exact hquiet (MainWindow.books_command_quiet _ rfl) rfl rfl
  | showQueue kind =>
    cases hstep
    exact hquiet (MainWindow.books_showQueue ..) rfl rfl
  | closeQueue kind =>
    cases hstep
    exact hquiet (MainWindow.books_closeQueue ..) rfl rfl
  | openDraft row =>
    cases hstep
    exact hquiet (MainWindow.books_command_quiet _ rfl) rfl rfl
  | deleteRow kind row =>
    obtain ⟨hgiven, heq⟩ := Option.ite_none_right_eq_some.mp hstep
    cases heq
    dsimp only
    rw [MainWindow.books_deleteRow]
    cases kind with
    | drafts => exact .deleteDraft (of_decide_eq_true hgiven)
    | outbox => exact .deleteOutbox (of_decide_eq_true hgiven)
  | editQueued row opens =>
    simp only [System.step] at hstep
    split at hstep
    · cases hstep
      exact .quiet
    · next item hitem =>
      cases hstep
      dsimp only
      rw [MainWindow.books_editQueued]
      exact .edit hitem
  | retryQueued row refusal =>
    simp only [System.step] at hstep
    split at hstep
    · cases hstep
      exact .quiet
    · next item hitem =>
      cases hstep
      exact .retry hitem
  | execute =>
    obtain ⟨m, hm, rfl⟩ := Option.map_eq_some_iff.mp hstep
    rcases MainWindow.books_execute hm with ⟨c, ws, hwrites, -, heq⟩ | ⟨es, hanswer, -, heq⟩
    · dsimp only
      rw [heq]
      exact .write hwrites
    · dsimp only
      rw [heq]
      exact .read hanswer
  | otherCommand =>
    cases hstep
    exact hquiet (MainWindow.books_command_quiet _ rfl) rfl rfl
  | tick seconds =>
    cases hstep
    exact hquiet rfl rfl rfl
  | mail error =>
    obtain ⟨c, rest, hmails, rfl⟩ := of_step_mail hstep
    exact .mail hmails
  | reload accounts =>
    cases hstep
    dsimp only
    rw [MainWindow.books_reloadAccounts]
    exact .reload

end System

end Esmail
