import Workflow.Event
import Workflow.Store.Step

/-!
# Programs over a store

An operation of the service is a program: it takes steps on the store, announces
events, and takes identifiers and draws from a source.  What the program does is
laid open step by step, so that the steps of several programs can be interleaved;
`Program.run` carries one out without interruption.
-/

namespace Workflow

inductive Program (α : Type) where
  | done (a : α)
  | fail (e : Error)
  | take (s : Store.Step) (next : s.Answer → Program α)
  | announce (e : Event) (next : Program α)
  /-- asks for an identifier that has not been used -/
  | fresh (next : Uuid → Program α)
  /-- takes a number of draws from `[0, 1)` -/
  | draw (count : Nat) (next : (Nat → Number) → Program α)

namespace Program

variable {α β : Type}

/-! ## Composition -/

def bind (p : Program α) (f : α → Program β) : Program β :=
  match p with
  | done a => f a
  | fail e => fail e
  | take s next => take s fun a => bind (next a) f
  | announce e next => announce e (bind next f)
  | fresh next => fresh fun id => bind (next id) f
  | draw count next => draw count fun draws => bind (next draws) f

instance : Monad Program where
  pure := done
  bind := bind

/-- A step on the store, and its answer. -/
def step (s : Store.Step) : Program s.Answer := take s done

def lift : Except Error α → Program α
  | .ok a => done a
  | .error e => fail e

/-- Announces what happened to a definition. -/
def tell (definition : Uuid) (now : Timestamp) (h : Happening) : Program Unit :=
  announce ⟨definition, now, h⟩ (done ())

def newId : Program Uuid := fresh done

/-- What a program is bound to lead to, when nothing is left but to announce it. -/
def settled? : Program α → Option α
  | done a => some a
  | announce _ next => settled? next
  | fail _ | take .. | fresh _ | draw .. => none

/-! ## Execution -/

/-- Where identifiers and draws come from. -/
structure Sources where
  ids : Nat → Uuid
  draws : Nat → Number

/-- The first identifiers differ from each other. -/
def Sources.Distinct (sources : Sources) (bound : Nat) : Prop :=
  ∀ j k, j < bound → k < bound → sources.ids j = sources.ids k → j = k

/-- A store, and how much of the sources has been used. -/
structure Session (σ : Type) where
  store : σ
  idsTaken : Nat
  drawsTaken : Nat

/-- What a program leads to: its result, what it announced, and the session after it. -/
structure Outcome (σ α : Type) where
  result : Except Error α
  events : List Event
  session : Session σ

def run {σ : Type} [Store.Backend σ] (sources : Sources) (s : Session σ) : Program α → Outcome σ α
  | done a => ⟨.ok a, [], s⟩
  | fail e => ⟨.error e, [], s⟩
  | take t next =>
    match Store.Backend.take t s.store with
    | (.ok a, store) => run sources { s with store := store } (next a)
    | (.error e, store) => ⟨.error e, [], { s with store := store }⟩
  | announce e next =>
    let out := run sources s next
    { out with events := e :: out.events }
  | fresh next => run sources { s with idsTaken := s.idsTaken + 1 } (next (sources.ids s.idsTaken))
  | draw count next =>
    run sources { s with drawsTaken := s.drawsTaken + count }
      (next fun i => sources.draws (s.drawsTaken + i))

/-! ## Lemmas -/

@[simp] theorem bind_done (a : α) (f : α → Program β) : bind (done a) f = f a := rfl

@[simp] theorem bind_fail (e : Error) (f : α → Program β) : bind (fail e) f = fail e := rfl

theorem bind_assoc {γ : Type} (p : Program α) (f : α → Program β) (g : β → Program γ) :
    bind (bind p f) g = bind p fun a => bind (f a) g := by
  induction p with
  | done a => rfl
  | fail e => rfl
  | take s next ih => simp only [bind, ih]
  | announce e next ih => simp only [bind, ih]
  | fresh next ih => simp only [bind, ih]
  | draw count next ih => simp only [bind, ih]

end Program

end Workflow
