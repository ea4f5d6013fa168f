import Workflow.Service.Call

/-!
# Calls one after another

One client asks for one thing after another, each at a time of its own.  Each call
is carried out to its end, and is answered by its result and by what it announced.
-/

namespace Workflow.Service

structure Answer where
  result : Except Error Reply
  events : List Event

/-- The answers to a sequence of calls. -/
def serve {σ : Type} [Store.Backend σ] (sources : Program.Sources) (canvas : Editor.Canvas) :
    Program.Session σ → List (Timestamp × Call) → List Answer
  | _, [] => []
  | s, (now, call) :: rest =>
    let out := (call.program canvas now).run sources s
    ⟨out.result, out.events⟩ :: serve sources canvas out.session rest

/-- The session after a sequence of calls. -/
def sessionAfter {σ : Type} [Store.Backend σ] (sources : Program.Sources)
    (canvas : Editor.Canvas) : Program.Session σ → List (Timestamp × Call) → Program.Session σ
  | s, [] => s
  | s, (now, call) :: rest =>
    sessionAfter sources canvas ((call.program canvas now).run sources s).session rest

/-- All that is announced during a sequence of calls, in order. -/
def announced {σ : Type} [Store.Backend σ] (sources : Program.Sources) (canvas : Editor.Canvas)
    (s : Program.Session σ) (calls : List (Timestamp × Call)) : List Event :=
  (serve sources canvas s calls).flatMap Answer.events

/-- A session with a store of which nothing has been asked. -/
def newSession {σ : Type} (store : σ) : Program.Session σ := ⟨store, 0, 0⟩

end Workflow.Service
