import Workflow.Proofs.Service.Change
import Workflow.Proofs.Service.Consistency
import Workflow.Proofs.Service.Effect
import Workflow.Proofs.Store.Registry
import Workflow.Proofs.Store.Transaction

/-!
# Failing leaves no trace

A call that fails leaves the store as it was and announces nothing, whatever is
stored and whatever it was given.  An action on an approval writes twice, and each
write of a store stands on its own: if the event fits no row, then the definition
has been saved and stays so.  That happens in tables only, to an actor or notes
that no column of texts holds.

    what a failure leaves is an unrecorded action      (Effect.store_of_error_or_advanced)
    a revision is applied in all its parts, or not at all                   (run_update)
-/

namespace Workflow.Service

open Store (Backend Connection Memory Step Tables)
open Program (Session Outcome)

/-! ## Failures -/

/-- A failure leaves the store as it was and announces nothing. -/
def Traceless {σ α : Type} (s : Session σ) (o : Outcome σ α) : Prop :=
  ∀ e, o.result = .error e → o.session.store = s.store ∧ o.events = []

/-- A column of texts holds a value, as it is or as a text. -/
def Holds (v : Value) : Prop := ∃ w, Store.Column.text v = .ok w

namespace Call

/-- Whether a call only reads. -/
def reading : Call → Bool
  | get _ | list _ | editorView _ | approvals _ | templates | getRun _ | listRuns .. | listOrgRuns ..
  | summary _ => true
  | create _ | update .. | saveEdited .. | delete _ | govern .. | activate _ | pause _ | install ..
  | startRun .. | completeRun .. | cancelRun _ => false

end Call

/-- What a failed action on the approval leaves behind: its actor or its notes fit no column, and
the row of the definition is that of the definition after the action. -/
inductive Advanced (now : Timestamp) (t : Tables) : Call → Tables → Prop where
  | saved {action : ApprovalAction} {id : Uuid} {actor notes : Value} {d d' : Definition}
      {e : ApprovalEvent} {row : Store.DefinitionRow} {t' : Tables}
      (unfit : ¬(Holds actor ∧ Holds notes))
      (loaded : t.load id = .ok d)
      (changed : d.govern action actor notes now = .ok (d', e))
      (stored : t.save d' (.int d.version) = .ok t')
      (standing : Tables.StandsFor row d')
      (frame : t' = { t with
        definitions := t.definitions.map fun r => if r.id = id then row else r }) :
      Advanced now t (.govern action id actor notes) t'

section

variable {σ : Type} [Backend σ] {sources : Program.Sources} {now : Timestamp} {s : Session σ}
  {call : Call} {o : Outcome σ Reply}

/-- Nothing is announced by a call that fails. -/
theorem Effect.events_of_error (ho : Effect sources now s call o) {e : Error}
    (h : o.result = .error e) : o.events = [] := by
  cases ho with
  | quiet result drawsTaken first last => rfl
  | unrecorded loaded changed saved refused => rfl
  | _ => cases h

/-- Where any event can be recorded, a call that fails leaves the store as it was. -/
theorem Effect.store_of_error (hr : ∀ (st : σ) (e : ApprovalEvent) (failure : Error) (st' : σ),
      Backend.take (.appendApproval e) st ≠ (.error failure, st'))
    (ho : Effect sources now s call o) {e : Error} (h : o.result = .error e) :
    o.session.store = s.store := by
  cases ho with
  | quiet result drawsTaken first last => rfl
  | unrecorded loaded changed saved refused => exact absurd refused (hr _ _ _ _)
  | _ => cases h

/-- A call that only reads leaves the store as it was, whether or not it fails. -/
theorem Effect.store_of_reading (ho : Effect sources now s call o) (h : call.reading = true) :
    o.session.store = s.store := by
  cases ho with
  | quiet result drawsTaken first last => rfl
  | founded proposed accepted named saved told => cases proposed <;> cases h
  | edited own loaded changed saved =>
    cases call with
    | update _ _ _ | saveEdited _ _ _ | activate _ | pause _ => cases h
    | _ => cases own
  | finished own found ended updated =>
    cases call with
    | completeRun _ _ _ | cancelRun _ => cases h
    | _ => cases own
  | _ => cases h

end

/-- What could be saved had a time that can be stored, so its event is refused only for its actor
or its notes. -/
theorem not_holds_of_refused {t t' : Tables} {d d' : Definition} {action : ApprovalAction}
    {actor notes v : Value} {now : Timestamp} {e : ApprovalEvent} {failure : Error}
    (changed : d.govern action actor notes now = .ok (d', e)) (saved : t.save d' v = .ok t')
    (refused : t'.appendApproval e = .error failure) : ¬(Holds actor ∧ Holds notes) := by
  rintro ⟨⟨actor', hactor⟩, notes', hnotes⟩
  obtain ⟨target, -, -, rfl, rfl⟩ := Definition.govern_eq_ok changed
  obtain ⟨hstorable, -⟩ := Tables.save_eq_ok saved
  cases refused.symm.trans (t'.appendApproval_of_column hstorable hactor hnotes)

/-- In tables, a call that fails leaves at most a definition whose action on the approval could
not be recorded. -/
theorem Effect.store_of_error_or_advanced {sources : Program.Sources} {now : Timestamp}
    {s : Session Tables} {call : Call} {o : Outcome Tables Reply}
    (ho : Effect sources now s call o) {e : Error} (h : o.result = .error e) :
    o.session.store = s.store ∨ Advanced now s.store call o.session.store := by
  cases ho with
  | quiet result drawsTaken first last => exact .inl rfl
  | @unrecorded action id actor notes d d' event failure store loaded changed saved refused =>
    obtain ⟨hload, -⟩ := Prod.mk.inj loaded
    have hsaved := Tables.written_eq_ok saved
    have hrefused := Tables.refused_of_written refused
    obtain ⟨current, hrow, hstands⟩ := Tables.row?_of_load hload
    have hid : d'.id = id :=
      (Definition.govern_keeps changed).1.trans (hstands.id.symm.trans (Tables.id_of_row? hrow))
    obtain ⟨-, row, hstands', -, ⟨hnone, -⟩ | ⟨-, hframe⟩⟩ := Tables.save_eq_ok hsaved
    · rw [hid, hrow] at hnone
      cases hnone
    · rw [hid] at hframe
      exact .inr (.saved (not_holds_of_refused changed hsaved hrefused) hload changed hsaved
        hstands' hframe)
  | _ => cases h

/-! ## Revisions -/

namespace Revision

/-- All parts of a revision are applied, and nothing else has changed. -/
structure Applied (r : Revision) (d d' : Definition) : Prop where
  /-- a name that is set stands without the white space around it -/
  name : if r.name = .null ∧ r.description = .null then d'.name = d.name
    else ∃ s, (if r.name = .null then d.name else r.name) = .text s ∧ d'.name = .text (Text.strip s)
  description : d'.description = if r.description = .null then d.description else r.description
  trigger : d'.trigger = r.trigger.getD d.trigger
  graph : d'.graph = r.graph.getD d.graph
  layout : d'.layout = (r.graph.map d.layout.prune).getD d.layout
  rest : d' = { d with
    name := d'.name
    description := d'.description
    trigger := d'.trigger
    graph := d'.graph
    layout := d'.layout
    version := d'.version
    updatedAt := d'.updatedAt }

variable {r : Revision} {d d' : Definition} {now : Timestamp}

theorem rename_eq_ok (h : r.rename d now = .ok d') :
    (if r.name = .null ∧ r.description = .null then d'.name = d.name
      else ∃ s, (if r.name = .null then d.name else r.name) = .text s ∧
        d'.name = .text (Text.strip s)) ∧
      d' = { d with
        name := d'.name
        description := if r.description = .null then d.description else r.description
        version := d'.version
        updatedAt := d'.updatedAt } := by
  unfold rename at h
  split at h
  next hnone =>
    obtain rfl := Except.ok.inj h
    rw [if_pos hnone, if_pos hnone.2]
    exact ⟨rfl, rfl⟩
  next hsome =>
    obtain ⟨s, hs, -, rfl⟩ := Definition.rename_eq_ok h
    rw [if_neg hsome]
    exact ⟨⟨s, hs, rfl⟩, rfl⟩

theorem retrigger_eq_ok (h : r.retrigger d now = .ok d') :
    d' = { d with
      trigger := r.trigger.getD d.trigger
      version := d'.version
      updatedAt := d'.updatedAt } := by
  unfold retrigger at h
  cases ht : r.trigger with
  | none =>
    rw [ht] at h
    obtain rfl := Except.ok.inj h
    rfl
  | some t =>
    rw [ht] at h
    obtain ⟨-, rfl⟩ := Definition.updateTrigger_eq_ok h
    rfl

theorem regraph_eq_ok (h : r.regraph d now = .ok d') :
    d' = { d with
      graph := r.graph.getD d.graph
      layout := (r.graph.map d.layout.prune).getD d.layout
      version := d'.version
      updatedAt := d'.updatedAt } := by
  unfold regraph at h
  cases hg : r.graph with
  | none =>
    rw [hg] at h
    obtain rfl := Except.ok.inj h
    rfl
  | some g =>
    rw [hg] at h
    obtain ⟨-, -, layout, hl, rfl⟩ := Definition.updateGraph_eq_ok h
    obtain rfl := Except.ok.inj ((Places.prune_ofLayout d.layout g).symm.trans hl)
    rfl

theorem applied (h : r.apply d now = .ok d') : r.Applied d d' := by
  rw [apply_eq] at h
  obtain ⟨d₁, h₁, h⟩ := bind_eq_ok.1 h
  obtain ⟨d₂, h₂, h₃⟩ := bind_eq_ok.1 h
  obtain ⟨hname, h₁⟩ := rename_eq_ok h₁
  have h₂ := retrigger_eq_ok h₂
  have h₃ := regraph_eq_ok h₃
  rw [h₁] at h₂
  rw [h₂] at h₃
  rw [h₃]
  exact ⟨hname, rfl, rfl, rfl, rfl, rfl⟩

end Revision

/-- The parts of a revision are saved as one, or nothing is. -/
def AllOrNone {σ : Type} [Backend σ] (id : Uuid) (r : Revision) (s : Session σ)
    (o : Outcome σ Reply) : Prop :=
  (∃ e, o = ⟨.error e, [], s⟩) ∨
    ∃ d d' store, Backend.take (.load id) s.store = (.ok d, s.store) ∧ r.Applied d d' ∧
      Backend.take (.save d' (.int d.version)) s.store = (.ok (), store) ∧
      o = ⟨.ok (.definition d'), [], { s with store := store }⟩

theorem run_update {σ : Type} [Backend σ] (ha : Atomic σ) (sources : Program.Sources)
    (canvas : Editor.Canvas) (now : Timestamp) (s : Session σ) (id : Uuid) (r : Revision)
    (expected : Value) :
    AllOrNone id r s (((Call.update id r expected).program canvas now).run sources s) := by
  let answer (d : Definition) : Program Reply := pure (.definition d)
  have hprogram : (Call.update id r expected).program canvas now
      = mutate id expected (fun d => (r.apply d now).map (·, ())) >>= fun x => answer x.1 :=
    Program.bind_assoc _ _ _
  rw [hprogram]
  rcases ha.run_mutate s id expected (fun d => (r.apply d now).map (·, ()))
    (fun x => answer x.1) with hfailed | ⟨d, d', a, store, hload, hchange, hsave, hrun⟩
  · exact .inl hfailed
  · obtain ⟨d₁, happly, hd⟩ := map_eq_ok.1 hchange
    obtain rfl := (Prod.mk.inj hd).1
    exact .inr ⟨d, d₁, store, hload, Revision.applied happly, hsave, hrun⟩

/-! ## Theorem -/

/-- Whatever is stored and whatever is asked, what fails leaves nothing behind, but for what is
said to be left. -/
structure LeavesNoTrace (σ : Type) [Backend σ] (Left : Timestamp → σ → Call → σ → Prop) :
    Prop where
  /-- a step that fails, or that only reads, changes nothing -/
  steps : Atomic σ
  calls : ∀ sources canvas now (s : Session σ) (call : Call) (o : Outcome σ Reply),
    o = (call.program canvas now).run sources s → ∀ e, o.result = .error e →
      o.events = [] ∧
        (o.session.store = s.store ∨ Left now s.store call o.session.store)
  reading : ∀ sources canvas now (s : Session σ) (call : Call), call.reading = true →
    ((call.program canvas now).run sources s).session.store = s.store
  update : ∀ sources canvas now (s : Session σ) id r expected,
    AllOrNone id r s (((Call.update id r expected).program canvas now).run sources s)

theorem leavesNoTrace_of_atomic {σ : Type} [Backend σ]
    {Left : Timestamp → σ → Call → σ → Prop} (ha : Atomic σ)
    (h : ∀ sources now (s : Session σ) (call : Call) (o : Outcome σ Reply),
      Effect sources now s call o → ∀ e, o.result = .error e →
        o.session.store = s.store ∨ Left now s.store call o.session.store) :
    LeavesNoTrace σ Left where
  steps := ha
  calls := by
    rintro sources canvas now s call o rfl e he
    have ho := ha.effect_program sources canvas now s call
    exact ⟨ho.events_of_error he, h sources now s call _ ho e he⟩
  reading := fun sources canvas now s call hr =>
    (ha.effect_program sources canvas now s call).store_of_reading hr
  update := run_update ha

/-- What fails leaves nothing in memory, and in tables at most a definition whose action on the
approval could not be recorded.  The statements by which a definition is deleted are one step,
and are undone if there is no such definition. -/
theorem failures_traceless :
    LeavesNoTrace Memory (fun _ _ _ _ => False) ∧ LeavesNoTrace Tables Advanced ∧
      ∀ (t : Tables) (id : Uuid),
        (t.row? id = none → (Connection.fresh t).delete id
          = (.error (.definitionMissing id), Connection.fresh t)) ∧
        (Connection.Keyed t → (Connection.fresh t).delete id
          = ((Backend.take (.delete id) t).1,
            Connection.fresh (Backend.take (.delete id) t).2)) := by
  refine ⟨leavesNoTrace_of_atomic atomic_memory fun sources now s call o ho e he => .inl ?_,
    leavesNoTrace_of_atomic atomic_tables fun sources now s call o ho e he => ?_,
    fun t id => ⟨Connection.delete_missing, fun hk => Connection.delete_eq_take hk id⟩⟩
  · refine ho.store_of_error (fun m e failure m' hrefused => ?_) he
    cases hrefused
  · exact ho.store_of_error_or_advanced he

/-- Notes that are a list fit no column: the request is saved, and then it fails. -/
theorem request_saved_unrecorded :
    let created := ((Call.create Definition.welcomeProposal).program .standard ⟨0, some 0⟩).run
      counting (newSession Tables.empty)
    let call := Call.govern .request (Uuid.ofNat 0) (.text "al") (.list [.text "please"])
    let o := (call.program .standard ⟨1, some 0⟩).run counting created.session
    o.result = .error (.faulty .rowRefused) ∧ o.session.store ≠ created.session.store ∧
      (o.session.store.definitions.map Store.DefinitionRow.approval, o.session.store.approvals)
        = ([.pending], []) ∧
      ¬Traceless created.session o := by
  intro created call o
  have herror : o.result = .error (.faulty .rowRefused) := by decide +kernel
  have hchanged : o.session.store ≠ created.session.store := by decide +kernel
  exact ⟨herror, hchanged, by decide +kernel, fun h => hchanged (h _ herror).1⟩

end Workflow.Service
