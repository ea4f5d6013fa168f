import Workflow.Proofs.Store.Memory
import Workflow.Proofs.Store.Tables

/-!
# What a call does

A call that is carried out to its end does one of few things to a session, and
announces what it has done.  Whatever has to hold after every call is shown for
each of them.

    the outcome of a call is one of its effects                    (effect_program)

A call that fails has written nothing, but for one: an action on the approval that
has been saved and could not be recorded.
-/

namespace Workflow.Service

open Store (Backend Step)
open Program (Session Outcome)

/-! ## Definitions -/

namespace Call

/-- The definition that a call is to change without taking an action on its approval. -/
def editing? : Call → Option Uuid
  | update id _ _ | saveEdited id _ _ | activate id | pause id => some id
  | create _ | get _ | list _ | editorView _ | delete _ | govern .. | approvals _ | templates
  | install .. | startRun .. | completeRun .. | cancelRun _ | getRun _ | listRuns .. | listOrgRuns ..
  | summary _ => none

/-- The run that a call is to finish. -/
def finishing? : Call → Option Uuid
  | completeRun id _ _ | cancelRun id => some id
  | create _ | get _ | list _ | update .. | editorView _ | saveEdited .. | delete _ | govern ..
  | approvals _ | activate _ | pause _ | templates | install .. | startRun .. | getRun _
  | listRuns .. | listOrgRuns .. | summary _ => none

/-- What a call makes of a run that it has read. -/
def finish (now : Timestamp) (r : Run) : Call → Except Error Run
  | completeRun _ outcome error => do r.complete (← Named.read outcome) error now
  | cancelRun _ => r.cancel now
  | create _ | get _ | list _ | update .. | editorView _ | saveEdited .. | delete _ | govern ..
  | approvals _ | activate _ | pause _ | templates | install .. | startRun .. | getRun _
  | listRuns .. | listOrgRuns .. | summary _ => .ok r

/-- What is announced once a call has changed a definition that it had loaded as `d`. -/
def announces (now : Timestamp) (d : Definition) : Call → List Event
  | activate id => if d.isActive then [] else [⟨id, now, .activated⟩]
  | pause id => [⟨id, now, .paused none⟩]
  | govern action id actor notes =>
    (if action = .request ∧ d.isActive then [⟨id, now, .paused (some "re-approval requested")⟩]
      else []) ++ [⟨id, now, .ofAction action actor notes⟩]
  | create _ | get _ | list _ | update .. | editorView _ | saveEdited .. | delete _ | approvals _
  | templates | install .. | startRun .. | completeRun .. | cancelRun _ | getRun _ | listRuns ..
  | listOrgRuns .. | summary _ => []

end Call

/-- What the finishing of a run is announced as. -/
def finishedAs (id : Uuid) (r : Run) : Happening :=
  if r.status = .cancelled then .runCancelled id else .runCompleted id r.status r.lastError

/-- The event that records the action on an approval that was taken. -/
def Reply.event? : Reply → Option ApprovalEvent
  | .event e => some e
  | .nothing | .definition _ | .definitions _ | .edited _ | .events _ | .templates _ | .run _
  | .runs _ | .summary _ => none

/-- What a call proposes as a new definition: what it was given, or what a template proposes. -/
inductive Proposes {σ : Type} [Backend σ] (store : σ) : Call → Definition.Proposal → Prop where
  | given (p : Definition.Proposal) : Proposes store (.create p) p
  | offered {key : TemplateKey} {t : Template} (context : Context) (name : Value)
      (found : Backend.take (.template key) store = (.ok t, store)) :
      Proposes store (.install key context name) (t.proposal context name)

/-- What a call does to a session, and its outcome. -/
inductive Effect {σ : Type} [Backend σ] (sources : Program.Sources) (now : Timestamp)
    (s : Session σ) : Call → Outcome σ Reply → Prop where
  /-- nothing was written, so no action was taken, and nothing is announced -/
  | quiet {call : Call} (result : Except Error Reply) {idsTaken : Nat} (drawsTaken : Nat)
      (first : s.idsTaken ≤ idsTaken) (last : idsTaken ≤ s.idsTaken + 1)
      (idle : result.toOption.bind Reply.event? = none) :
      Effect sources now s call ⟨result, [], ⟨s.store, idsTaken, drawsTaken⟩⟩
  /-- a definition was created -/
  | founded {call : Call} {p : Definition.Proposal} {name : String} {d : Definition}
      {events : List Event} {store : σ} (proposed : Proposes s.store call p)
      (accepted : p.accept = .ok name)
      (named : d = p.define name (sources.ids s.idsTaken) now)
      (saved : Backend.take (.save d .null) s.store = (.ok (), store))
      (told : events = [] ∨ ∃ template, events = [⟨d.id, now, .installed template d.org⟩]) :
      Effect sources now s call
        ⟨.ok (.definition d), events, ⟨store, s.idsTaken + 1, s.drawsTaken⟩⟩
  /-- a definition was changed, but not by an action on its approval -/
  | edited {call : Call} {id : Uuid} {d d' : Definition} {store : σ}
      (own : call.editing? = some id)
      (loaded : Backend.take (.load id) s.store = (.ok d, s.store))
      (changed : call.change now d = .ok d')
      (saved : Backend.take (.save d' (.int d.version)) s.store = (.ok (), store)) :
      Effect sources now s call
        ⟨.ok (.definition d'), call.announces now d, ⟨store, s.idsTaken, s.drawsTaken⟩⟩
  /-- an action on the approval was saved and recorded -/
  | governed {action : ApprovalAction} {id : Uuid} {actor notes : Value} {d d' : Definition}
      {e : ApprovalEvent} {between store : σ}
      (loaded : Backend.take (.load id) s.store = (.ok d, s.store))
      (changed : d.govern action actor notes now = .ok (d', e))
      (saved : Backend.take (.save d' (.int d.version)) s.store = (.ok (), between))
      (recorded : Backend.take (.appendApproval e) between = (.ok (), store)) :
      Effect sources now s (.govern action id actor notes)
        ⟨.ok (.event e), (Call.govern action id actor notes).announces now d,
          ⟨store, s.idsTaken, s.drawsTaken⟩⟩
  /-- an action on the approval was saved and could not be recorded -/
  | unrecorded {action : ApprovalAction} {id : Uuid} {actor notes : Value} {d d' : Definition}
      {e : ApprovalEvent} {failure : Error} {store : σ}
      (loaded : Backend.take (.load id) s.store = (.ok d, s.store))
      (changed : d.govern action actor notes now = .ok (d', e))
      (saved : Backend.take (.save d' (.int d.version)) s.store = (.ok (), store))
      (refused : Backend.take (.appendApproval e) store = (.error failure, store)) :
      Effect sources now s (.govern action id actor notes)
        ⟨.error failure, [], ⟨store, s.idsTaken, s.drawsTaken⟩⟩
  /-- a definition was deleted, with its trail and its runs -/
  | deleted {id : Uuid} {d : Definition} {store : σ}
      (loaded : Backend.take (.load id) s.store = (.ok d, s.store))
      (removed : Backend.take (.delete id) s.store = (.ok (), store)) :
      Effect sources now s (.delete id)
        ⟨.ok .nothing, [⟨id, now, .deleted d.org⟩], ⟨store, s.idsTaken, s.drawsTaken⟩⟩
  /-- a run of an active definition was started -/
  | started {id : Uuid} {context : Value} {d : Definition} {ms : Config} {r : Run} {store : σ}
      (loaded : Backend.take (.load id) s.store = (.ok d, s.store)) (active : d.isActive = true)
      (given : r = Run.start (sources.ids s.idsTaken) id d.org (.object ms) now)
      (appended : Backend.take (.appendRun r) s.store = (.ok (), store)) :
      Effect sources now s (.startRun id context)
        ⟨.ok (.run r), [⟨id, now, .runStarted r.id⟩], ⟨store, s.idsTaken + 1, s.drawsTaken⟩⟩
  /-- a run was finished -/
  | finished {call : Call} {id : Uuid} {r r' : Run} {store : σ} (own : call.finishing? = some id)
      (found : Backend.take (.run id) s.store = (.ok r, s.store))
      (ended : call.finish now r = .ok r')
      (updated : Backend.take (.updateRun r') s.store = (.ok (), store)) :
      Effect sources now s call
        ⟨.ok (.run r'), [⟨r'.definition, now, finishedAs id r'⟩],
          ⟨store, s.idsTaken, s.drawsTaken⟩⟩

/-! ## Finishing -/

/-- What is done to a run that is to have a status. -/
def endedBy (status : RunStatus) : RunAction := if status = .cancelled then .cancel else .complete

/-- The statuses by which a run is completed. -/
def completion (status : RunStatus) : Except Error RunStatus :=
  match status with
  | .success | .failed => .ok status
  | .running | .cancelled => .error (.faulty (.noOutcome status))

namespace Call

/-- The status that a call is to give to a run. -/
def outcome : Call → Except Error RunStatus
  | completeRun _ outcome _ => do completion (← Named.read outcome)
  | cancelRun _ => .ok .cancelled
  | create _ | get _ | list _ | update .. | editorView _ | saveEdited .. | delete _ | govern ..
  | approvals _ | activate _ | pause _ | templates | install .. | startRun .. | getRun _
  | listRuns .. | listOrgRuns .. | summary _ => .ok .running

/-- The error that a call leaves with a run to which it gives a status. -/
def lastError (status : RunStatus) : Call → Value
  | completeRun _ _ error => if status = .failed then error else .null
  | create _ | get _ | list _ | update .. | editorView _ | saveEdited .. | delete _ | govern ..
  | approvals _ | activate _ | pause _ | templates | install .. | startRun .. | cancelRun _
  | getRun _ | listRuns .. | listOrgRuns .. | summary _ => .null

variable {call : Call} {id : Uuid} {now : Timestamp} {status : RunStatus} {r r' : Run}

/-- The outcome is looked at first, and then the run. -/
theorem finish_eq (own : call.finishing? = some id) (now : Timestamp) (r : Run) :
    call.finish now r
      = call.outcome >>= fun s => r.finish s (endedBy s) (call.lastError s) now := by
  cases call with
  | completeRun id' outcome error =>
    show (Named.read outcome >>= fun s => r.complete s error now)
      = (Named.read outcome >>= completion) >>= _
    cases (Named.read outcome : Except Error RunStatus) with
    | error e => rfl
    | ok s => cases s <;> rfl
  | cancelRun id' => rfl
  | _ => cases own

theorem finish_of_error {e : Error} (own : call.finishing? = some id) (h : call.outcome = .error e)
    (now : Timestamp) (r : Run) : call.finish now r = .error e := by
  rw [finish_eq own, h]
  rfl

theorem finish_of_terminal (own : call.finishing? = some id) (h : call.outcome = .ok status)
    (now : Timestamp) (hr : r.status.isTerminal = true) :
    call.finish now r = .error (.runFinished r.id r.status (endedBy status)) := by
  rw [finish_eq own, h]
  exact Run.finish_terminal r status (endedBy status) _ now hr

/-- A call finishes a run that has been running, and nothing but how it ended changes. -/
theorem finish_eq_ok (own : call.finishing? = some id) (h : call.finish now r = .ok r') :
    r.status.isTerminal = false ∧ ∃ status, call.outcome = .ok status ∧
      r' = { r with
        status := status
        finishedAt := some now
        lastError := call.lastError status } := by
  rw [finish_eq own] at h
  obtain ⟨status, hs, h⟩ := bind_eq_ok.1 h
  cases ht : r.status.isTerminal with
  | true =>
    rw [Run.finish_terminal r _ _ _ _ ht] at h
    cases h
  | false =>
    rw [Run.finish_running r _ _ _ _ ht] at h
    exact ⟨rfl, status, hs, (Except.ok.inj h).symm⟩

/-- A run is never given the status of one that goes on, and is cancelled just by being asked
to be. -/
theorem outcome_eq_ok (own : call.finishing? = some id) (h : call.outcome = .ok status) :
    status.isTerminal = true ∧ (status = .cancelled ↔ call = .cancelRun id) := by
  cases call with
  | completeRun id' outcome error =>
    obtain ⟨s, -, h⟩ := bind_eq_ok.1 h
    cases s with
    | success | failed =>
      obtain rfl := Except.ok.inj h
      simp [RunStatus.isTerminal]
    | running | cancelled => cases h
  | cancelRun id' =>
    obtain rfl : id' = id := Option.some.inj own
    obtain rfl := Except.ok.inj h
    simp [RunStatus.isTerminal]
  | _ => cases own

/-- Only a failure leaves an error. -/
theorem failed_of_lastError (h : call.lastError status ≠ .null) : status = .failed := by
  cases call with
  | completeRun id outcome error =>
    by_cases hs : status = .failed
    · exact hs
    · exact absurd (if_neg hs) h
  | _ => exact absurd rfl h

end Call

/-- What is left of a call once its run has been replaced. -/
def ending (id : Uuid) (now : Timestamp) (r : Run) : Program Reply :=
  .announce ⟨r.definition, now, finishedAs id r⟩ (.done (.run r))

/-- What is left of a call once it has read its run. -/
def closing (call : Call) (id : Uuid) (now : Timestamp) (r : Run) : Program Reply :=
  match call.finish now r with
  | .error e => .fail e
  | .ok r' => .take (.updateRun r') fun _ => ending id now r'

theorem finishRun_eq {call : Call} {id : Uuid} {now : Timestamp} {happening : Run → Happening}
    (h : ∀ r r', call.finish now r = .ok r' → happening r' = finishedAs id r') :
    (finishRun id now (fun r => call.finish now r) happening >>= fun r => pure (.run r))
      = .take (.run id) (closing call id now) := by
  refine congrArg (Program.take (.run id)) (funext fun r => ?_)
  show Program.bind (Program.bind (Program.lift (call.finish now r)) _) _ = closing call id now r
  unfold closing
  cases hf : call.finish now r with
  | error e => rfl
  | ok r' =>
    have htold := h r r' hf
    dsimp only [ending]
    rw [← htold]
    rfl

/-- The two calls that finish a run go the same way. -/
theorem program_finishing {call : Call} {id : Uuid} (own : call.finishing? = some id)
    (canvas : Editor.Canvas) (now : Timestamp) :
    call.program canvas now = .take (.run id) (closing call id now) := by
  have hstatus : ∀ r r', call.finish now r = .ok r' →
      (r'.status = .cancelled ↔ call = .cancelRun id) := by
    intro r r' h
    obtain ⟨-, status, hs, rfl⟩ := Call.finish_eq_ok own h
    exact (Call.outcome_eq_ok own hs).2
  cases call with
  | completeRun id' outcome error =>
    obtain rfl : id' = id := Option.some.inj own
    have hprogram : (finishRun id' now ((Call.completeRun id' outcome error).finish now ·)
        (fun r => .runCompleted id' r.status r.lastError) >>= fun r => pure (.run r))
          = .take (.run id') (closing (.completeRun id' outcome error) id' now) := by
      refine finishRun_eq fun r r' h => (if_neg fun hs => ?_).symm
      cases (hstatus r r' h).1 hs
    exact hprogram
  | cancelRun id' =>
    obtain rfl : id' = id := Option.some.inj own
    have hprogram : (finishRun id' now ((Call.cancelRun id').finish now ·)
        (fun _ => .runCancelled id') >>= fun r => pure (.run r))
          = .take (.run id') (closing (.cancelRun id') id' now) :=
      finishRun_eq fun r r' h => (if_pos ((hstatus r r' h).2 rfl)).symm
    exact hprogram
  | _ => cases own

/-- What is left of an action on the approval once it has been recorded. -/
def concluding (action : ApprovalAction) (id : Uuid) (actor notes : Value) (now : Timestamp)
    (wasActive : Bool) (e : ApprovalEvent) : Program Reply :=
  if action = .request ∧ wasActive then
    .announce ⟨id, now, .paused (some "re-approval requested")⟩
      (.announce ⟨id, now, .ofAction action actor notes⟩ (.done (.event e)))
  else .announce ⟨id, now, .ofAction action actor notes⟩ (.done (.event e))

/-- What is left of it once the definition has been loaded. -/
def deciding (action : ApprovalAction) (id : Uuid) (actor notes : Value) (now : Timestamp)
    (d : Definition) : Program Reply :=
  match d.govern action actor notes now with
  | .error e => .fail e
  | .ok (d', e) => .take (.save d' (.int d.version)) fun _ => .take (.appendApproval e) fun _ =>
    concluding action id actor notes now d.isActive e

/-- A change is saved over the version that was loaded, if that is the expected one. -/
theorem mutate_eq {α : Type} (id : Uuid) (expected : Value)
    (change : Definition → Except Error (Definition × α)) :
    mutate id expected change = .take (.load id) fun d =>
      if expected ≠ .null ∧ !expected.same (.int d.version) then
        .fail (.stale id expected d.version)
      else (Program.lift (change d)).bind fun r =>
        .take (.save r.1 (.int d.version)) fun _ => .done r :=
  rfl

theorem program_govern (action : ApprovalAction) (id : Uuid) (actor notes : Value)
    (canvas : Editor.Canvas) (now : Timestamp) :
    (Call.govern action id actor notes).program canvas now
      = .take (.load id) (deciding action id actor notes now) := by
  show Program.bind (Program.bind (mutate id .null fun d =>
    d.govern action actor notes now >>= fun r => pure (r.1, d.isActive, r.2)) _) _ = _
  rw [mutate_eq]
  refine congrArg (Program.take (.load id)) (funext fun d => ?_)
  dsimp only
  rw [if_neg fun h => h.1 rfl]
  unfold deciding
  show Program.bind (Program.bind (Program.bind
    (Program.lift (d.govern action actor notes now >>= _)) _) _) _ = _
  cases d.govern action actor notes now with
  | error e => rfl
  | ok r =>
    refine congrArg (Program.take _) (funext fun _ => ?_)
    refine congrArg (Program.take _) (funext fun _ => ?_)
    show Program.bind (if action = .request ∧ d.isActive = true then _ else _) _
      = if action = .request ∧ d.isActive = true then _ else _
    split
    · rfl
    · rfl

/-! ## Stores -/

/-- Whether a step only reads. -/
def reads : Step → Bool
  | .save .. | .delete _ | .appendApproval _ | .appendRun _ | .updateRun _ => false
  | .load _ | .definitions _ | .approvals _ | .run _ | .runs .. | .orgRuns .. | .summary _
  | .templates | .template _ => true

/-- A step that fails changes nothing, and nor does one that only reads. -/
structure Atomic (σ : Type) [Backend σ] : Prop where
  take_error : ∀ {s : Step} {st st' : σ} {e}, Backend.take s st = (.error e, st') → st' = st
  take_read : ∀ {s : Step} {st st' : σ} {a}, reads s = true → Backend.take s st = (a, st') →
    st' = st

theorem atomic_memory : Atomic Store.Memory where
  take_error := Store.Memory.take_error_eq
  take_read := by
    intro s m m' a hr h
    cases s with
    | save _ _ | delete _ | appendApproval _ | appendRun _ | updateRun _ => cases hr
    | load _ | definitions _ | approvals _ | run _ | runs _ _ | orgRuns _ _ | summary _
    | templates | template _ => exact (Prod.mk.inj h).2.symm

theorem atomic_tables : Atomic Store.Tables where
  take_error := Store.Tables.take_error_eq
  take_read := by
    intro s t t' a hr h
    cases s with
    | save _ _ | delete _ | appendApproval _ | appendRun _ | updateRun _ => cases hr
    | load _ | definitions _ | approvals _ | run _ | runs _ _ | orgRuns _ _ | summary _
    | templates | template _ => exact (Prod.mk.inj h).2.symm

/-! ## Programs -/

section

variable {σ : Type} [Backend σ] {sources : Program.Sources} {α β : Type}

/-- A step is refused and nothing has happened, or what comes after it is carried out. -/
theorem Atomic.run_step (ha : Atomic σ) (s : Session σ) (step : Step)
    (next : step.Answer → Program α) :
    (∃ e, Backend.take step s.store = (.error e, s.store) ∧
        (Program.take step next).run sources s = ⟨.error e, [], s⟩) ∨
      ∃ a store, Backend.take step s.store = (.ok a, store) ∧
        (Program.take step next).run sources s = (next a).run sources { s with store := store } := by
  cases ht : Backend.take step s.store with
  | mk r store =>
    cases r with
    | error e =>
      left
      obtain rfl := ha.take_error ht
      refine ⟨e, rfl, ?_⟩
      simp only [Program.run, ht]
    | ok a =>
      right
      refine ⟨a, store, rfl, ?_⟩
      simp only [Program.run, ht]

theorem Atomic.run_read (ha : Atomic σ) (s : Session σ) (step : Step) (hr : reads step = true)
    (next : step.Answer → Program α) :
    (∃ e, (Program.take step next).run sources s = ⟨.error e, [], s⟩) ∨
      ∃ a, Backend.take step s.store = (.ok a, s.store) ∧
        (Program.take step next).run sources s = (next a).run sources s := by
  rcases ha.run_step s step next with ⟨e, -, hfailed⟩ | ⟨a, store, ht, hrun⟩
  · exact Or.inl ⟨e, hfailed⟩
  · obtain rfl := ha.take_read hr ht
    exact Or.inr ⟨a, ht, hrun⟩

/-- A change is saved over what was loaded, or nothing has happened. -/
theorem Atomic.run_mutate (ha : Atomic σ) (s : Session σ) (id : Uuid) (expected : Value)
    (change : Definition → Except Error (Definition × α)) (next : Definition × α → Program β) :
    (∃ e, (mutate id expected change >>= next).run sources s = ⟨.error e, [], s⟩) ∨
      ∃ d d' a store, Backend.take (.load id) s.store = (.ok d, s.store) ∧
        change d = .ok (d', a) ∧
        Backend.take (.save d' (.int d.version)) s.store = (.ok (), store) ∧
        (mutate id expected change >>= next).run sources s
          = (next (d', a)).run sources { s with store := store } := by
  let save (d : Definition) : Program β := Program.bind
    (if expected ≠ .null ∧ !expected.same (.int d.version) then .fail (.stale id expected d.version)
      else do
        let x ← Program.lift (change d)
        let _ ← Program.step (.save x.1 (.int d.version))
        pure x) next
  have hprogram : mutate id expected change >>= next = Program.take (.load id) save := rfl
  rw [hprogram]
  rcases ha.run_read s (.load id) rfl save with
    hfailed | ⟨d, hload, hrun⟩
  · exact Or.inl hfailed
  · rw [hrun]
    by_cases hv : expected ≠ .null ∧ !expected.same (.int d.version)
    · left
      refine ⟨.stale id expected d.version, ?_⟩
      show (Program.bind (if _ then _ else _) next).run sources s = _
      rw [if_pos hv]
      rfl
    · have hsave : save d = Program.bind (do
          let x ← Program.lift (change d)
          let _ ← Program.step (.save x.1 (.int d.version))
          pure x) next := by
        show Program.bind (if _ then _ else _) next = _
        rw [if_neg hv]
      rw [hsave]
      cases hc : change d with
      | error e => exact Or.inl ⟨e, rfl⟩
      | ok r =>
        obtain ⟨d', a⟩ := r
        rcases ha.run_step s (.save d' (.int d.version))
          (fun _ => next (d', a)) with ⟨e, -, hfailed⟩ | ⟨_, store, hsaved, hrun'⟩
        · exact Or.inl ⟨e, hfailed⟩
        · exact Or.inr ⟨d, d', a, store, hload, hc, hsaved, hrun'⟩

/-! ## Calls -/

variable {s : Session σ} {call : Call} {now : Timestamp} {id : Uuid} {expected : Value}

theorem Effect.failed (e : Error) : Effect sources now s call ⟨.error e, [], s⟩ :=
  .quiet (.error e) s.drawsTaken (Nat.le_refl _) (Nat.le_succ _) rfl

/-- A program that has failed before it did anything, or has some other effect. -/
theorem Effect.of_failed {o : Outcome σ Reply} {P : Prop}
    (h : (∃ e, o = ⟨.error e, [], s⟩) ∨ P) (hp : P → Effect sources now s call o) :
    Effect sources now s call o := by
  rcases h with ⟨e, rfl⟩ | h
  · exact Effect.failed e
  · exact hp h

/-- What a call reads is all that comes of it. -/
theorem Atomic.effect_read (ha : Atomic σ) (step : Step) (hr : reads step = true)
    (reply : step.Answer → Reply) (hreply : ∀ a, (reply a).event? = none) :
    Effect sources now s call
      ((Program.step step >>= fun a => pure (reply a)).run sources s) := by
  refine Effect.of_failed (ha.run_read s step hr fun a => pure (reply a)) ?_
  rintro ⟨a, -, hrun⟩
  show Effect sources now s call ((Program.take step fun a => pure (reply a)).run sources s)
  rw [hrun]
  exact .quiet _ s.drawsTaken (Nat.le_refl _) (Nat.le_succ _) (hreply a)

/-- What a call reads of a definition it reads once the definition has been found. -/
theorem Atomic.effect_ifStored (ha : Atomic σ) (id : Uuid) {p : Program Reply}
    (hp : Effect sources now s call (p.run sources s)) :
    Effect sources now s call ((Program.step (.load id) >>= fun _ => p).run sources s) := by
  refine Effect.of_failed (ha.run_read s (.load id) rfl fun _ => p) ?_
  rintro ⟨d, -, hrun⟩
  show Effect sources now s call ((Program.take (.load id) fun _ => p).run sources s)
  rw [hrun]
  exact hp

/-- A change that is saved and then announced. -/
theorem Atomic.effect_edit (ha : Atomic σ) (own : call.editing? = some id)
    {change : Definition → Except Error (Definition × α)} {next : Definition × α → Program Reply}
    (h : ∀ d d' a, change d = .ok (d', a) → call.change now d = .ok d' ∧ ∀ t : Session σ,
      (next (d', a)).run sources t = ⟨.ok (.definition d'), call.announces now d, t⟩) :
    Effect sources now s call ((mutate id expected change >>= next).run sources s) := by
  refine Effect.of_failed (ha.run_mutate s id expected change next) ?_
  rintro ⟨d, d', a, store, hload, hchange, hsave, hrun⟩
  obtain ⟨hcall, hnext⟩ := h d d' a hchange
  rw [hrun, hnext]
  exact .edited own hload hcall hsave

theorem Atomic.effect_modify (ha : Atomic σ) (own : call.editing? = some id)
    {change : Definition → Except Error Definition} {next : Definition → Program Reply}
    (hcall : ∀ d d', change d = .ok d' → call.change now d = .ok d')
    (hnext : ∀ d d' (t : Session σ), change d = .ok d' →
      (next d').run sources t = ⟨.ok (.definition d'), call.announces now d, t⟩) :
    Effect sources now s call ((modify id expected change >>= next).run sources s) := by
  show Effect sources now s call (Program.run sources s ((Program.bind _ _).bind next))
  rw [Program.bind_assoc]
  refine ha.effect_edit own ?_
  intro d d' a h
  obtain ⟨d₁, h₁, he⟩ := map_eq_ok.1 h
  obtain rfl := (Prod.mk.inj he).1
  exact ⟨hcall d d₁ h₁, fun t => hnext d d₁ t h₁⟩

theorem Atomic.effect_activate (ha : Atomic σ) :
    Effect sources now s (.activate id)
      ((activate id now >>= fun d => pure (.definition d)).run sources s) := by
  show Effect sources now s (.activate id) (Program.run sources s ((Program.bind _ _).bind _))
  rw [Program.bind_assoc]
  refine ha.effect_edit rfl ?_
  intro d d' wasActive h
  obtain ⟨d₁, h₁, he⟩ := map_eq_ok.1 h
  obtain ⟨rfl, rfl⟩ := Prod.mk.inj he
  refine ⟨h₁, fun t => ?_⟩
  show Program.run sources t (Program.bind (if d.isActive = true then _ else _) _)
    = ⟨_, if d.isActive = true then [] else _, t⟩
  cases d.isActive with
  | true => rfl
  | false => rfl

theorem Atomic.effect_pause (ha : Atomic σ) :
    Effect sources now s (.pause id)
      ((pause id now >>= fun d => pure (.definition d)).run sources s) := by
  show Effect sources now s (.pause id) (Program.run sources s ((Program.bind _ _).bind _))
  rw [Program.bind_assoc]
  exact ha.effect_modify rfl (fun d d' h => h) (fun d d' t h => rfl)

theorem Atomic.effect_govern (ha : Atomic σ) {action : ApprovalAction} {actor notes : Value}
    (canvas : Editor.Canvas) :
    Effect sources now s (.govern action id actor notes)
      (((Call.govern action id actor notes).program canvas now).run sources s) := by
  rw [program_govern]
  refine Effect.of_failed (ha.run_read s (.load id) rfl (deciding action id actor notes now)) ?_
  rintro ⟨d, hload, hrun⟩
  rw [hrun]
  unfold deciding
  cases hg : d.govern action actor notes now with
  | error e => exact Effect.failed e
  | ok r =>
    obtain ⟨d', e⟩ := r
    have htell : ∀ t : Session σ, (concluding action id actor notes now d.isActive e).run sources t
        = ⟨.ok (.event e), (Call.govern action id actor notes).announces now d, t⟩ := by
      intro t
      show Program.run sources t (if _ then _ else _)
        = ⟨_, (if action = .request ∧ d.isActive then _ else _) ++ _, t⟩
      by_cases hp : action = .request ∧ d.isActive
      · rw [if_pos hp, if_pos hp]
        rfl
      · rw [if_neg hp, if_neg hp]
        rfl
    let record : Program Reply := .take (.appendApproval e) fun _ =>
      concluding action id actor notes now d.isActive e
    show Effect sources now s _
      (Program.run sources s (.take (.save d' (.int d.version)) fun _ => record))
    rcases ha.run_step s (.save d' (.int d.version)) (fun _ => record) with
      ⟨failure, -, hfailed⟩ | ⟨_, between, hsave, hrun'⟩
    · rw [hfailed]
      exact Effect.failed failure
    · rw [hrun']
      rcases ha.run_step { s with store := between } (.appendApproval e)
        (fun _ => concluding action id actor notes now d.isActive e) with
        ⟨failure, hrefused, hfailed⟩ | ⟨_, store, hrecorded, hrun''⟩
      · rw [show record.run sources _ = _ from hfailed]
        exact .unrecorded hload hg hsave hrefused
      · rw [show record.run sources _ = _ from hrun'', htell]
        exact .governed hload hg hsave hrecorded

/-- What was accepted is stored under the next identifier, and then announced. -/
theorem Atomic.effect_found (ha : Atomic σ) {p : Definition.Proposal}
    (proposed : Proposes s.store call p) {next : Definition → Program Reply}
    {events : Definition → List Event}
    (hnext : ∀ d (t : Session σ), (next d).run sources t = ⟨.ok (.definition d), events d, t⟩)
    (htold : ∀ d, events d = [] ∨ ∃ template, events d = [⟨d.id, now, .installed template d.org⟩]) :
    Effect sources now s call ((found p now >>= next).run sources s) := by
  unfold found
  cases hname : p.accept with
  | error e => exact Effect.failed e
  | ok name =>
    let d := p.define name (sources.ids s.idsTaken) now
    let t : Session σ := { s with idsTaken := s.idsTaken + 1 }
    show Effect sources now s call ((Program.take (.save d .null) fun _ => next d).run sources t)
    rcases ha.run_step t (.save d .null) (fun _ => next d) with
      ⟨e, -, hfailed⟩ | ⟨_, store, hsave, hrun⟩
    · rw [hfailed]
      exact .quiet (.error e) s.drawsTaken (Nat.le_succ _) (Nat.le_refl _) rfl
    · rw [hrun, hnext]
      exact .founded proposed hname rfl hsave (htold d)

theorem Atomic.effect_install (ha : Atomic σ) {key : TemplateKey} {context : Context}
    {name : Value} :
    Effect sources now s (.install key context name)
      ((install key context name now >>= fun d => pure (.definition d)).run sources s) := by
  unfold install
  refine Effect.of_failed (ha.run_read s (.template key) rfl _) ?_
  rintro ⟨t, hfound, hrun⟩
  rw [show Program.run sources s (Program.step (.template key) >>= _ >>= _) = _ from hrun]
  show Effect sources now s _ (Program.run sources s
    ((Program.bind (found (t.proposal context name) now) _).bind _))
  rw [Program.bind_assoc]
  have htell : ∀ d (u : Session σ), Program.run sources u (Program.bind (do
        Program.tell d.id now (.installed t.id d.org)
        pure d) fun d => pure (Reply.definition d))
      = ⟨.ok (.definition d), [⟨d.id, now, .installed t.id d.org⟩], u⟩ := fun d u => rfl
  exact ha.effect_found (.offered context name hfound) htell fun d => Or.inr ⟨t.id, rfl⟩

theorem Atomic.effect_delete (ha : Atomic σ) :
    Effect sources now s (.delete id)
      ((delete id now >>= fun _ => pure .nothing).run sources s) := by
  unfold delete
  refine Effect.of_failed (ha.run_read s (.load id) rfl _) ?_
  rintro ⟨d, hload, hrun⟩
  rw [show Program.run sources s (Program.step (.load id) >>= _ >>= _) = _ from hrun]
  let tell : Program Reply :=
    Program.bind (Program.tell id now (.deleted d.org)) fun _ => pure .nothing
  show Effect sources now s (.delete id) ((Program.take (.delete id) fun _ => tell).run sources s)
  rcases ha.run_step s (.delete id) (fun _ => tell) with
    ⟨e, -, hfailed⟩ | ⟨_, store, hremove, hrun'⟩
  · rw [hfailed]
    exact Effect.failed e
  · rw [hrun']
    exact .deleted hload hremove

theorem Atomic.effect_startRun (ha : Atomic σ) {context : Value} :
    Effect sources now s (.startRun id context)
      ((startRun id context now >>= fun r => pure (.run r)).run sources s) := by
  unfold startRun
  refine Effect.of_failed (ha.run_read s (.load id) rfl _) ?_
  rintro ⟨d, hload, hrun⟩
  rw [show Program.run sources s (Program.step (.load id) >>= _ >>= _) = _ from hrun]
  cases hactive : d.isActive with
  | false =>
    show Effect sources now s _
      (Program.run sources s (Program.bind (if d.isActive = true then _ else _) _))
    rw [hactive]
    exact Effect.failed _
  | true =>
    show Effect sources now s _
      (Program.run sources s (Program.bind (if d.isActive = true then _ else _) _))
    rw [hactive]
    show Effect sources now s _
      (Program.run sources s (Program.bind (recordRun id d.org context now) _))
    unfold recordRun
    cases hc : context.toObject with
    | error e => exact Effect.failed e
    | ok ms =>
      let r := Run.start (sources.ids s.idsTaken) id d.org (.object ms) now
      let t : Session σ := { s with idsTaken := s.idsTaken + 1 }
      let tell : Program Reply :=
        Program.bind (Program.tell id now (.runStarted r.id)) fun _ => pure (.run r)
      show Effect sources now s _ ((Program.take (.appendRun r) fun _ => tell).run sources t)
      rcases ha.run_step t (.appendRun r) (fun _ => tell) with
        ⟨e, -, hfailed⟩ | ⟨_, store, happend, hrun'⟩
      · rw [hfailed]
        exact .quiet (.error e) s.drawsTaken (Nat.le_succ _) (Nat.le_refl _) rfl
      · rw [hrun']
        exact .started hload hactive rfl happend

/-- A run that was read is finished and announced. -/
theorem Atomic.effect_finishing (ha : Atomic σ) (own : call.finishing? = some id)
    (canvas : Editor.Canvas) :
    Effect sources now s call ((call.program canvas now).run sources s) := by
  rw [program_finishing own]
  refine Effect.of_failed (ha.run_read s (.run id) rfl (closing call id now)) ?_
  rintro ⟨r, hread, hrun⟩
  rw [hrun]
  unfold closing
  cases hf : call.finish now r with
  | error e => exact Effect.failed e
  | ok r' =>
    rcases ha.run_step s (.updateRun r') (fun _ => ending id now r') with
      ⟨e, -, hfailed⟩ | ⟨_, store, hupdate, hrun'⟩
    · show Effect sources now s call
        (Program.run sources s (.take (.updateRun r') fun _ => ending id now r'))
      rw [hfailed]
      exact Effect.failed e
    · show Effect sources now s call
        (Program.run sources s (.take (.updateRun r') fun _ => ending id now r'))
      rw [hrun']
      exact .finished own hread hf hupdate

/-- Whatever is asked, the outcome is one of the effects of a call. -/
theorem Atomic.effect_program (ha : Atomic σ) (sources : Program.Sources) (canvas : Editor.Canvas)
    (now : Timestamp) (s : Session σ) (call : Call) :
    Effect sources now s call ((call.program canvas now).run sources s) := by
  cases call with
  | create p => exact ha.effect_found (.given p) (fun d t => rfl) fun d => Or.inl rfl
  | get id => exact ha.effect_read (.load id) rfl .definition fun _ => rfl
  | list org => exact ha.effect_read (.definitions org) rfl .definitions fun _ => rfl
  | update id r expected => exact ha.effect_modify rfl (fun d d' h => h) (fun d d' t h => rfl)
  | editorView id =>
    refine Effect.of_failed (ha.run_read s (.load id) rfl _) ?_
    rintro ⟨d, -, hrun⟩
    rw [show Program.run sources s ((Call.editorView id).program canvas now) = _ from hrun]
    let view : Except Error Editor.Graph :=
      d.edited canvas fun i => sources.draws (s.drawsTaken + i)
    show Effect sources now s _ (Program.run sources _ (Program.bind (Program.lift view) _))
    cases view with
    | error e => exact .quiet _ _ (Nat.le_refl _) (Nat.le_succ _) rfl
    | ok g => exact .quiet _ _ (Nat.le_refl _) (Nat.le_succ _) rfl
  | saveEdited id edited expected =>
    exact ha.effect_modify rfl (fun d d' h => h) (fun d d' t h => rfl)
  | delete id => exact ha.effect_delete
  | govern action id actor notes => exact ha.effect_govern canvas
  | approvals id => exact ha.effect_ifStored id (ha.effect_read (.approvals id) rfl .events fun _ => rfl)
  | activate id => exact ha.effect_activate
  | pause id => exact ha.effect_pause
  | templates => exact ha.effect_read .templates rfl .templates fun _ => rfl
  | install key context name => exact ha.effect_install
  | startRun id context => exact ha.effect_startRun
  | completeRun id outcome error => exact ha.effect_finishing rfl canvas
  | cancelRun id => exact ha.effect_finishing rfl canvas
  | getRun id => exact ha.effect_read (.run id) rfl .run fun _ => rfl
  | listRuns id limit => exact ha.effect_read (.runs id limit) rfl .runs fun _ => rfl
  | listOrgRuns org limit => exact ha.effect_read (.orgRuns org limit) rfl .runs fun _ => rfl
  | summary id => exact ha.effect_ifStored id (ha.effect_read (.summary id) rfl .summary fun _ => rfl)

/-! ## What every step keeps -/

/-- What every step of a store keeps, a call keeps. -/
theorem Effect.keeps {I : σ → Prop} {o : Outcome σ Reply}
    (step : ∀ {step : Step} {st st' : σ} {r}, Backend.take step st = (r, st') → I st → I st')
    (ho : Effect sources now s call o) (hi : I s.store) : I o.session.store := by
  cases ho with
  | quiet result drawsTaken first last => exact hi
  | founded proposed accepted named saved told => exact step saved hi
  | edited own loaded changed saved => exact step saved hi
  | governed loaded changed saved recorded => exact step recorded (step saved hi)
  | unrecorded loaded changed saved refused => exact step saved hi
  | deleted loaded removed => exact step removed hi
  | started loaded active given appended => exact step appended hi
  | finished own found ended updated => exact step updated hi

end

end Workflow.Service
