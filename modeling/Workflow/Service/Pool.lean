import Workflow.Service.Call

/-!
# Clients of one store

Any number of clients use one store at a time.  Each carries out a call, and the
next step may be one of any client, so the steps of their programs interleave in
any order.  What was written of definitions is kept in a log: replaying it tells
which definitions there are, were each change made where the one before left off.
-/

namespace Workflow.Service

/-- A client within its call. -/
structure Client where
  call : Call
  now : Timestamp
  rest : Program Reply
  /-- the definition that it has loaded and not written since -/
  loaded : Option Definition
  /-- the identifier that it was given and has not used since -/
  given : Option Uuid

/-- One write to the definitions. -/
inductive Entry where
  | created (d : Definition)
  | changed (id : Uuid) (call : Call) (now : Timestamp)
  | deleted (id : Uuid)
  deriving DecidableEq, Repr

/-! ## Replaying -/

/-- The definitions by identifier. -/
abbrev Shelf := Uuid → Option Definition

namespace Shelf

def put (s : Shelf) (id : Uuid) (d : Option Definition) : Shelf :=
  fun id' => if id' = id then d else s id'

/-- Makes the change that an entry tells of. -/
def replayOne (s : Shelf) : Entry → Shelf
  | .created d => s.put d.id (some d)
  | .changed id call now => s.put id ((s id).bind fun d => (call.change now d).toOption)
  | .deleted id => s.put id none

def replay (s : Shelf) (log : List Entry) : Shelf := log.foldl replayOne s

@[simp] theorem put_self (s : Shelf) (id : Uuid) (d : Option Definition) :
    s.put id d id = d := if_pos rfl

theorem put_of_ne (s : Shelf) {id id' : Uuid} (h : id' ≠ id) (d : Option Definition) :
    s.put id d id' = s id' := if_neg h

theorem replay_snoc (s : Shelf) (log : List Entry) (e : Entry) :
    s.replay (log ++ [e]) = (s.replay log).replayOne e := by
  unfold replay
  rw [List.foldl_append]
  rfl

end Shelf

/-! ## Steps of clients -/

/-- What a client has loaded and not written after a step. -/
def loadedAfter (loaded : Option Definition) : (s : Store.Step) → s.Answer → Option Definition
  | .load _, d => some d
  | .save .., _ => none
  | .delete _, _ | .definitions _, _ | .appendApproval _, _ | .approvals _, _ | .appendRun _, _
  | .updateRun _, _ | .run _, _ | .runs .., _ | .orgRuns .., _ | .summary _, _ | .templates, _
  | .template _, _ => loaded

/-- What a client has been given and not used after a step. -/
def givenAfter (given : Option Uuid) : Store.Step → Option Uuid
  | .save .. => none
  | .load _ | .delete _ | .definitions _ | .appendApproval _ | .approvals _ | .appendRun _
  | .updateRun _ | .run _ | .runs .. | .orgRuns .. | .summary _ | .templates | .template _ =>
    given

namespace Client

def start (canvas : Editor.Canvas) (now : Timestamp) (call : Call) : Client :=
  ⟨call, now, call.program canvas now, none, none⟩

/-- What a step of a client writes to the log. -/
def entries (c : Client) : Store.Step → List Entry
  | .save d expected =>
    if expected = .null then [.created d] else [.changed d.id c.call c.now]
  | .delete id => [.deleted id]
  | .load _ | .definitions _ | .appendApproval _ | .approvals _ | .appendRun _ | .updateRun _
  | .run _ | .runs .. | .orgRuns .. | .summary _ | .templates | .template _ => []

/-- What a client announces by its next step. -/
def tells (c : Client) : List Event :=
  match c.rest with
  | .announce e _ => [e]
  | .done _ | .fail _ | .take .. | .fresh _ | .draw .. => []

/-- Nothing is left of its call. -/
def Over (c : Client) : Prop := (∃ a, c.rest = .done a) ∨ ∃ e, c.rest = .fail e

/-- The step on the store that a client takes next, unless it is refused. -/
def takes {σ : Type} [Store.Backend σ] (store : σ) (c : Client) : Option Store.Step :=
  match c.rest with
  | .take s _ => if (Store.Backend.take s store).1.toOption.isSome then some s else none
  | .done _ | .fail _ | .announce .. | .fresh _ | .draw .. => none

end Client

/-- A store, the clients that use it, how much of the sources they have taken, and what
they have written. -/
structure Pool (σ : Type) where
  store : σ
  clients : List Client
  idsTaken : Nat
  drawsTaken : Nat
  log : List Entry

namespace Pool

variable {σ : Type}

/-- Each call with its time is carried out by a client of its own. -/
def start (canvas : Editor.Canvas) (store : σ) (calls : List (Timestamp × Call)) : Pool σ :=
  ⟨store, calls.map fun (now, call) => Client.start canvas now call, 0, 0, []⟩

def setClient (P : Pool σ) (i : Nat) (c : Client) : Pool σ :=
  { P with clients := P.clients.set i c }

/-- Something holds of a client. -/
def At (P : Pool σ) (i : Nat) (holds : Client → Prop) : Prop :=
  ∃ c, P.clients[i]? = some c ∧ holds c

section

variable {P P' : Pool σ} {i : Nat} {c c' : Client}

theorem mem_start {canvas : Editor.Canvas} {store : σ} {calls : List (Timestamp × Call)}
    (hc : c ∈ (start canvas store calls).clients) :
    ∃ p ∈ calls, c = Client.start canvas p.1 p.2 := by
  obtain ⟨p, hp, rfl⟩ := List.mem_map.1 hc
  exact ⟨p, hp, rfl⟩

theorem at_set (hc : P.clients[i]? = some c) (hset : P'.clients = P.clients.set i c') (j : Nat)
    (holds : Client → Prop) : P'.At j holds ↔ if j = i then holds c' else P.At j holds := by
  have hlt : i < P.clients.length := (List.getElem?_eq_some_iff.1 hc).1
  unfold At
  rw [hset, List.getElem?_set]
  by_cases hj : j = i
  · subst hj
    simp [hlt]
  · rw [if_neg (Ne.symm hj), if_neg hj]

/-- What holds of all clients does so after one has gone on, if it holds of that one then. -/
theorem forall_set {holds : Client → Prop} (hset : P'.clients = P.clients.set i c')
    (h : ∀ c ∈ P.clients, holds c) (hc' : holds c') : ∀ c ∈ P'.clients, holds c := by
  intro c hc
  rw [hset] at hc
  rcases List.mem_or_eq_of_mem_set hc with hc | rfl
  · exact h c hc
  · exact hc'

/-- Something that holds of a client before just if it does after. -/
theorem at_congr {holds : Client → Prop} (hc : P.clients[i]? = some c)
    (hset : P'.clients = P.clients.set i c') (h : holds c' ↔ holds c) (j : Nat) :
    P'.At j holds ↔ P.At j holds := by
  rw [at_set hc hset]
  by_cases hj : j = i
  · subst hj
    rw [if_pos rfl, h]
    constructor
    · exact fun hl => ⟨c, hc, hl⟩
    · rintro ⟨c₁, hc₁, hl⟩
      obtain rfl := Option.some.inj (hc.symm.trans hc₁)
      exact hl
  · rw [if_neg hj]

end

variable [Store.Backend σ]

/-- A client goes on by one step.  A step on the store that fails ends its call. -/
def advanceClient (sources : Program.Sources) (P : Pool σ) (i : Nat) (c : Client) : Pool σ :=
  match c.rest with
  | .done _ | .fail _ => P
  | .take s next =>
    match Store.Backend.take s P.store with
    | (.ok a, store) =>
      { P with
        store := store
        clients := P.clients.set i
          { c with
            rest := next a
            loaded := loadedAfter c.loaded s a
            given := givenAfter c.given s }
        log := P.log ++ c.entries s }
    | (.error e, store) =>
      { P with store := store, clients := P.clients.set i { c with rest := .fail e } }
  | .announce _ next => P.setClient i { c with rest := next }
  | .fresh next =>
    let id := sources.ids P.idsTaken
    { P with
      clients := P.clients.set i { c with rest := next id, given := some id }
      idsTaken := P.idsTaken + 1 }
  | .draw count next =>
    { P with
      clients := P.clients.set i
        { c with rest := next fun k => sources.draws (P.drawsTaken + k) }
      drawsTaken := P.drawsTaken + count }

def advance (sources : Program.Sources) (P : Pool σ) (i : Nat) : Pool σ :=
  match P.clients[i]? with
  | none => P
  | some c => P.advanceClient sources i c

/-- The pool after the clients have gone on in the given order. -/
def after (sources : Program.Sources) (P : Pool σ) (order : List Nat) : Pool σ :=
  order.foldl (advance sources) P

/-- All that is announced while the clients go on in the given order. -/
def told (sources : Program.Sources) (P : Pool σ) : List Nat → List Event
  | [] => []
  | i :: order => P.clients[i]?.elim [] Client.tells ++ (P.advance sources i).told sources order

/-- All steps on the store that the clients take while they go on in the given order, each with
the client that takes it. -/
def taken (sources : Program.Sources) (P : Pool σ) : List Nat → List (Nat × Store.Step)
  | [] => []
  | i :: order => (P.clients[i]?.bind (Client.takes P.store)).toList.map (i, ·) ++
      (P.advance sources i).taken sources order

/-! ## Lemmas -/

variable {sources : Program.Sources} {P : Pool σ} {i : Nat} {c : Client}

theorem takes_ok {s : Store.Step} {next : s.Answer → Program Reply} (hr : c.rest = .take s next)
    {a : s.Answer} {st st' : σ} (ht : Store.Backend.take s st = (.ok a, st')) :
    c.takes st = some s := by
  unfold Client.takes
  simp only [hr, ht]
  rfl

theorem takes_eq_none (hr : ∀ s next, c.rest ≠ .take s next) (st : σ) : c.takes st = none := by
  unfold Client.takes
  cases hrest : c.rest with
  | take s next => exact absurd hrest (hr s next)
  | done _ | fail _ | announce _ _ | fresh _ | draw _ _ => rfl

theorem takes_error {s : Store.Step} {next : s.Answer → Program Reply} (hr : c.rest = .take s next)
    {e : Error} {st st' : σ} (ht : Store.Backend.take s st = (.error e, st')) :
    c.takes st = none := by
  unfold Client.takes
  simp only [hr, ht]
  rfl

theorem advance_of_none (hc : P.clients[i]? = none) : P.advance sources i = P := by
  unfold advance
  rw [hc]

theorem advance_of_over (hc : P.clients[i]? = some c) (hover : c.Over) :
    P.advance sources i = P := by
  unfold advance advanceClient
  rw [hc]
  rcases hover with ⟨a, hr⟩ | ⟨e, hr⟩
  · simp only [hr]
  · simp only [hr]

/-- A step on the store that fails ends the call and changes nothing else. -/
theorem advance_error (hc : P.clients[i]? = some c) {s : Store.Step}
    {next : s.Answer → Program Reply} (hr : c.rest = .take s next) {e : Error}
    (ht : Store.Backend.take s P.store = (.error e, P.store)) :
    P.advance sources i = P.setClient i { c with rest := .fail e } := by
  unfold advance advanceClient
  rw [hc]
  simp only [hr, ht]
  rfl

theorem advance_ok (hc : P.clients[i]? = some c) {s : Store.Step}
    {next : s.Answer → Program Reply} (hr : c.rest = .take s next) {a : s.Answer} {store : σ}
    (ht : Store.Backend.take s P.store = (.ok a, store)) :
    P.advance sources i = { P with
      store := store
      clients := P.clients.set i { c with
        rest := next a
        loaded := loadedAfter c.loaded s a
        given := givenAfter c.given s }
      log := P.log ++ c.entries s } := by
  unfold advance advanceClient
  rw [hc]
  simp only [hr, ht]

theorem advance_announce (hc : P.clients[i]? = some c) {e : Event} {next : Program Reply}
    (hr : c.rest = .announce e next) :
    P.advance sources i = P.setClient i { c with rest := next } := by
  unfold advance advanceClient
  rw [hc]
  simp only [hr]

theorem advance_fresh (hc : P.clients[i]? = some c) {next : Uuid → Program Reply}
    (hr : c.rest = .fresh next) :
    P.advance sources i = { P with
      clients := P.clients.set i { c with
        rest := next (sources.ids P.idsTaken)
        given := some (sources.ids P.idsTaken) }
      idsTaken := P.idsTaken + 1 } := by
  unfold advance advanceClient
  rw [hc]
  simp only [hr]

theorem advance_draw (hc : P.clients[i]? = some c) {count : Nat}
    {next : (Nat → Number) → Program Reply} (hr : c.rest = .draw count next) :
    P.advance sources i = { P with
      clients := P.clients.set i { c with
        rest := next fun k => sources.draws (P.drawsTaken + k) }
      drawsTaken := P.drawsTaken + count } := by
  unfold advance advanceClient
  rw [hc]
  simp only [hr]

/-- What each step of a client keeps, together with the steps that were taken, any order of steps
keeps. -/
theorem after_induction {I : Pool σ → List (Nat × Store.Step) → Prop} {taken : List (Nat × Store.Step)}
    (step : ∀ (P : Pool σ) taken (i : Nat) (c : Client), I P taken → P.clients[i]? = some c →
      I (P.advance sources i) (taken ++ (c.takes P.store).toList.map (i, ·)))
    (h : I P taken) (order : List Nat) :
    I (P.after sources order) (taken ++ P.taken sources order) := by
  induction order generalizing P taken with
  | nil =>
    show I P (taken ++ [])
    rw [List.append_nil]
    exact h
  | cons i order ih =>
    have hstep : I (P.advance sources i)
        (taken ++ (P.clients[i]?.bind (Client.takes P.store)).toList.map (i, ·)) := by
      cases hc : P.clients[i]? with
      | none =>
        rw [advance_of_none hc]
        exact (List.append_nil taken).symm ▸ h
      | some c => exact step P taken i c h hc
    have hnext := ih hstep
    rw [List.append_assoc] at hnext
    exact hnext

end Pool

end Workflow.Service
