import Workflow.Event

/-!
# What an observer makes of the announcements

Whoever hears the announcements and nothing else can keep a picture of the
automations: which of them are active, how their approval stands, and the runs with
their statuses.  A new automation is inactive and its approval is a draft, so it need
not be announced.  Some events can only follow certain others: what is announced to
be paused has been active.
-/

namespace Workflow

structure Picture where
  active : Uuid → Bool
  approval : Uuid → ApprovalStatus
  /-- the runs that are known: the automation of each, and its status -/
  runs : Uuid → Option (Uuid × RunStatus)

namespace Picture

/-- The picture of one who has heard nothing. -/
def blank : Picture := ⟨fun _ => false, fun _ => .draft, fun _ => none⟩

def assign {α : Type} (f : Uuid → α) (id : Uuid) (a : α) : Uuid → α :=
  fun id' => if id' = id then a else f id'

/-- The picture after an event. -/
def see (p : Picture) (e : Event) : Picture :=
  match e.happening with
  | .approvalRequested .. => { p with approval := assign p.approval e.definition .pending }
  | .approved .. => { p with approval := assign p.approval e.definition .approved }
  | .rejected .. => { p with approval := assign p.approval e.definition .draft }
  | .activated => { p with active := assign p.active e.definition true }
  | .paused _ => { p with active := assign p.active e.definition false }
  | .deleted _ => {
      active := assign p.active e.definition false
      approval := assign p.approval e.definition .draft
      runs := fun id => (p.runs id).filter (·.1 ≠ e.definition) }
  | .installed .. => p
  | .runStarted run => { p with runs := assign p.runs run (some (e.definition, .running)) }
  | .runCompleted run status _ => { p with runs := assign p.runs run (some (e.definition, status)) }
  | .runCancelled run => { p with runs := assign p.runs run (some (e.definition, .cancelled)) }

def watch (p : Picture) (events : List Event) : Picture := events.foldl see p

/-- Whether an event may come next. -/
def Expects (p : Picture) (e : Event) : Prop :=
  match e.happening with
  | .approvalRequested .. => p.active e.definition = false ∧ p.approval e.definition ≠ .pending
  | .approved .. | .rejected .. => p.approval e.definition = .pending
  | .activated => p.active e.definition = false ∧ p.approval e.definition = .approved
  | .paused _ => p.active e.definition = true
  | .deleted _ => True
  | .installed .. => p.active e.definition = false ∧ p.approval e.definition = .draft
  | .runStarted run => p.active e.definition = true ∧ p.runs run = none
  | .runCompleted run status _ =>
    p.runs run = some (e.definition, .running) ∧ (status = .success ∨ status = .failed)
  | .runCancelled run => p.runs run = some (e.definition, .running)

/-- Whether each event may come where it comes. -/
def Foresees (p : Picture) : List Event → Prop
  | [] => True
  | e :: rest => p.Expects e ∧ Foresees (p.see e) rest

/-- A picture shows what is stored: the status of definitions, and the runs. -/
structure Shows (p : Picture) (status : Uuid → Option (Lifecycle × ApprovalStatus))
    (runs : Uuid → Option Run) : Prop where
  active : ∀ id, p.active id = (status id).any fun s => s.1 = .active
  approval : ∀ id, p.approval id = ((status id).map Prod.snd).getD .draft
  runs : ∀ id, p.runs id = (runs id).map fun r => (r.definition, r.status)

/-! ## Lemmas -/

theorem watch_append (p : Picture) (before after : List Event) :
    p.watch (before ++ after) = (p.watch before).watch after :=
  List.foldl_append

theorem foresees_append {p : Picture} {before after : List Event} :
    p.Foresees (before ++ after) ↔ p.Foresees before ∧ (p.watch before).Foresees after := by
  induction before generalizing p with
  | nil => simp [Foresees, watch]
  | cons e rest ih =>
    show p.Expects e ∧ (p.see e).Foresees (rest ++ after) ↔ _
    rw [ih, ← and_assoc]
    rfl

end Picture

end Workflow
