import Workflow.Proofs.Definition.ReadBack
import Workflow.Rest.View
import Workflow.Service.Call

/-!
# What a response shows

What is shown of a definition, an approval event or a run is an object with a member
for each of its fields but a definition's layout and history.  Identifiers, statuses,
triggers and templates are read back from their members by the readers of the wire
form, and so is a time whose zone is off by whole minutes; steps and edges are shown
one by one and in order.  So a body tells all definitions apart that differ in more than
their layouts and histories.

    a definition is shown by its view          (Definition.shownBy_view)
    so is an approval event                    (ApprovalEvent.shownBy_view)
    so is a run                                (Run.shownBy_view)
    one body shows one definition              (Definition.ShownBy.inj)
-/

namespace Workflow

/-- An object that has this member, whose value is as asked for. -/
def Value.Shows (body : Value) (key : String) (asked : Value → Prop) : Prop :=
  ∃ ms v, body = .object ms ∧ Assoc.find? key ms = some v ∧ asked v

theorem Value.shows_object {ms : Config} {key : String} {v : Value} {asked : Value → Prop}
    (hv : Assoc.find? key ms = some v) (h : asked v) : (Value.object ms).Shows key asked :=
  ⟨ms, v, rfl, hv, h⟩

theorem Value.ofText?_inj {s t : Option String} (h : Value.ofText? s = Value.ofText? t) :
    s = t := by
  cases s with
  | none =>
    cases t with
    | none => rfl
    | some t => cases h
  | some s =>
    cases t with
    | none => cases h
    | some t => exact congrArg some (Value.text.inj h)

/-- What is asked of one member is asked of one value. -/
theorem Value.Shows.exists_both {body : Value} {key : String} {asked asked' : Value → Prop}
    (h : body.Shows key asked) (h' : body.Shows key asked') : ∃ v, asked v ∧ asked' v := by
  obtain ⟨ms, v, rfl, hv, ha⟩ := h
  obtain ⟨ms', v', hms, hv', ha'⟩ := h'
  obtain rfl := Value.object.inj hms
  obtain rfl := Option.some.inj (hv.symm.trans hv')
  exact ⟨v, ha, ha'⟩

/-- What is read of one member is one thing. -/
theorem Value.Shows.read_inj {α : Type} {body : Value} {key : String} {read : Value → Except Error α}
    {a b : α} (h : body.Shows key (read · = .ok a)) (h' : body.Shows key (read · = .ok b)) :
    a = b := by
  obtain ⟨v, ha, hb⟩ := h.exists_both h'
  exact Except.ok.inj (ha.symm.trans hb)

/-- A member has one value. -/
theorem Value.Shows.inj {body : Value} {key : String} {v w : Value} (h : body.Shows key (· = v))
    (h' : body.Shows key (· = w)) : v = w := by
  obtain ⟨u, hv, hw⟩ := h.exists_both h'
  exact hv.symm.trans hw

/-! ## Times -/

/-- Null if there is no time, and otherwise a text from which a date and time is read back whose
zone is off by whole minutes. -/
def Timestamp.ShownBy : Option Timestamp → Value → Prop
  | none, v => v = .null
  | some t, v => v = .text t.responseText ∧
      (t.IsDatetime → t.InMinutes → Timestamp.ofValue v = .ok t)

theorem Timestamp.shownBy_view (t : Option Timestamp) : Timestamp.ShownBy t (Timestamp.view t) := by
  cases t with
  | none => rfl
  | some t =>
    refine ⟨rfl, fun ht hm => ?_⟩
    show Timestamp.ofValue (.text t.responseText) = .ok t
    unfold Timestamp.ofValue
    dsimp only
    rw [Timestamp.ofText_responseText ht hm]

theorem Timestamp.ShownBy.inj {t u : Timestamp} (ht : t.IsDatetime) (htm : t.InMinutes)
    (hu : u.IsDatetime) (hum : u.InMinutes) {v : Value} (h : Timestamp.ShownBy (some t) v)
    (h' : Timestamp.ShownBy (some u) v) : t = u :=
  Except.ok.inj ((h.2 ht htm).symm.trans (h'.2 hu hum))

/-! ## Graphs -/

structure Node.ShownBy (n : Node) (v : Value) : Prop where
  id : v.Shows "id" (· = .text n.id)
  kind : v.Shows "type" (Named.read · = .ok n.kind)
  name : v.Shows "name" (· = .text n.name)
  config : v.Shows "config" (· = .object n.config)

structure Edge.ShownBy (e : Edge) (v : Value) : Prop where
  source : v.Shows "from" (· = .text e.source)
  target : v.Shows "to" (· = .text e.target)
  condition : v.Shows "condition" (· = .ofText? e.condition)

/-- The steps and the edges are shown one by one, in their order. -/
structure Graph.ShownBy (g : Graph) (v : Value) : Prop where
  nodes : v.Shows "nodes" fun w =>
    ∃ shown, w = .list shown ∧ List.Forall₂ Node.ShownBy g.nodes shown
  edges : v.Shows "edges" fun w =>
    ∃ shown, w = .list shown ∧ List.Forall₂ Edge.ShownBy g.edges shown

theorem Node.shownBy_toValue (n : Node) (layout : Layout) : n.ShownBy (n.toValue layout) where
  id := Value.shows_object rfl rfl
  kind := Value.shows_object rfl (Named.read_eq_ok n.kind.ofName?_name)
  name := Value.shows_object rfl rfl
  config := Value.shows_object rfl rfl

theorem Edge.shownBy_toValue (e : Edge) : e.ShownBy e.toValue where
  source := Value.shows_object rfl rfl
  target := Value.shows_object rfl rfl
  condition := Value.shows_object rfl rfl

theorem Graph.shownBy_toValue (g : Graph) (layout : Layout) : g.ShownBy (g.toValue layout) where
  nodes := Value.shows_object rfl ⟨_, rfl, List.forall₂_map_right_iff.2
    (List.forall₂_same.2 fun n _ => n.shownBy_toValue layout)⟩
  edges := Value.shows_object rfl ⟨_, rfl, List.forall₂_map_right_iff.2
    (List.forall₂_same.2 fun e _ => e.shownBy_toValue)⟩

theorem Node.ShownBy.inj {n m : Node} {v : Value} (h : n.ShownBy v) (h' : m.ShownBy v) :
    n = m := by
  have hid := Value.text.inj (h.id.inj h'.id)
  have hkind := h.kind.read_inj h'.kind
  have hname := Value.text.inj (h.name.inj h'.name)
  have hconfig := Value.object.inj (h.config.inj h'.config)
  cases n
  cases m
  congr

theorem Edge.ShownBy.inj {e f : Edge} {v : Value} (h : e.ShownBy v) (h' : f.ShownBy v) :
    e = f := by
  have hsource := Value.text.inj (h.source.inj h'.source)
  have htarget := Value.text.inj (h.target.inj h'.target)
  have hcondition := Value.ofText?_inj (h.condition.inj h'.condition)
  cases e
  cases f
  congr

theorem Graph.ShownBy.inj {g h : Graph} {v : Value} (hg : g.ShownBy v) (hh : h.ShownBy v) :
    g = h := by
  obtain ⟨_, ⟨ns, rfl, hn⟩, ms, hms, hn'⟩ := hg.nodes.exists_both hh.nodes
  obtain ⟨_, ⟨es, rfl, he⟩, fs, hfs, he'⟩ := hg.edges.exists_both hh.edges
  obtain rfl := Value.list.inj hms
  obtain rfl := Value.list.inj hfs
  have hnode : Relator.LeftUnique Node.ShownBy := fun _ _ _ => Node.ShownBy.inj
  have hedge : Relator.LeftUnique Edge.ShownBy := fun _ _ _ => Edge.ShownBy.inj
  have hnodes := List.left_unique_forall₂' hnode hn hn'
  have hedges := List.left_unique_forall₂' hedge he he'
  cases g
  cases h
  congr

/-! ## Records -/

/-- All of a definition but its layout and its history. -/
structure Definition.ShownBy (d : Definition) (v : Value) : Prop where
  id : v.Shows "id" (Uuid.ofValue · = .ok d.id)
  org : v.Shows "org_id" (· = d.org)
  name : v.Shows "name" (· = d.name)
  description : v.Shows "description" (· = d.description)
  lifecycle : v.Shows "lifecycle_status" (Named.read · = .ok d.lifecycle)
  approval : v.Shows "approval_status" (Named.read · = .ok d.approval)
  trigger : v.Shows "trigger" (Trigger.ofValue · = .ok d.trigger)
  summary : v.Shows "trigger_summary" (· = .text d.trigger.describe)
  graph : v.Shows "graph" d.graph.ShownBy
  steps : v.Shows "node_count" (· = .int d.graph.nodes.length)
  edges : v.Shows "edge_count" (· = .int d.graph.edges.length)
  version : v.Shows "version" (· = .int d.version)
  createdAt : v.Shows "created_at" (Timestamp.ShownBy (some d.createdAt))
  updatedAt : v.Shows "updated_at" (Timestamp.ShownBy (some d.updatedAt))
  createdBy : v.Shows "created_by" (· = d.createdBy)
  template : v.Shows "source_template_id" (Definition.templateOf · = .ok d.template)

theorem Definition.shownBy_view (d : Definition) : d.ShownBy d.view where
  id := Value.shows_object rfl d.id.ofValue_text
  org := Value.shows_object rfl rfl
  name := Value.shows_object rfl rfl
  description := Value.shows_object rfl rfl
  lifecycle := Value.shows_object rfl (Named.read_eq_ok d.lifecycle.ofName?_name)
  approval := Value.shows_object rfl (Named.read_eq_ok d.approval.ofName?_name)
  trigger := Value.shows_object rfl d.trigger.ofValue_toValue
  summary := Value.shows_object rfl rfl
  graph := Value.shows_object rfl (d.graph.shownBy_toValue [])
  steps := Value.shows_object rfl rfl
  edges := Value.shows_object rfl rfl
  version := Value.shows_object rfl rfl
  createdAt := Value.shows_object rfl (Timestamp.shownBy_view _)
  updatedAt := Value.shows_object rfl (Timestamp.shownBy_view _)
  createdBy := Value.shows_object rfl rfl
  template := Value.shows_object rfl (Definition.templateOf_ofText? _)

/-- Definitions that are shown alike differ in their layouts and histories only, if their times
are read back. -/
theorem Definition.ShownBy.inj {d e : Definition} {v : Value} (h : d.ShownBy v) (h' : e.ShownBy v)
    (ht : ∀ t ∈ [d.createdAt, d.updatedAt, e.createdAt, e.updatedAt], t.IsDatetime ∧ t.InMinutes) :
    d = { e with layout := d.layout, history := d.history } := by
  have hid := h.id.read_inj h'.id
  have horg := h.org.inj h'.org
  have hname := h.name.inj h'.name
  have hdescription := h.description.inj h'.description
  have hlifecycle := h.lifecycle.read_inj h'.lifecycle
  have happroval := h.approval.read_inj h'.approval
  have htrigger := h.trigger.read_inj h'.trigger
  have hgraph : d.graph = e.graph := by
    obtain ⟨_, hg, hg'⟩ := h.graph.exists_both h'.graph
    exact hg.inj hg'
  have hversion := Value.int.inj (h.version.inj h'.version)
  have hcreatedBy := h.createdBy.inj h'.createdBy
  have htemplate := h.template.read_inj h'.template
  have htime {key : String} {t u : Timestamp} (h : v.Shows key (Timestamp.ShownBy (some t)))
      (h' : v.Shows key (Timestamp.ShownBy (some u))) (ht : t.IsDatetime ∧ t.InMinutes)
      (hu : u.IsDatetime ∧ u.InMinutes) : t = u := by
    obtain ⟨_, hs, hs'⟩ := h.exists_both h'
    exact Timestamp.ShownBy.inj ht.1 ht.2 hu.1 hu.2 hs hs'
  have hcreatedAt := htime h.createdAt h'.createdAt (ht _ (by simp)) (ht _ (by simp))
  have hupdatedAt := htime h.updatedAt h'.updatedAt (ht _ (by simp)) (ht _ (by simp))
  cases d
  cases e
  congr

structure ApprovalEvent.ShownBy (e : ApprovalEvent) (v : Value) : Prop where
  definition : v.Shows "workflow_id" (Uuid.ofValue · = .ok e.definition)
  action : v.Shows "action" (Named.read · = .ok e.action)
  source : v.Shows "from_status" (Named.read · = .ok e.source)
  target : v.Shows "to_status" (Named.read · = .ok e.target)
  time : v.Shows "timestamp" (Timestamp.ShownBy (some e.time))
  actor : v.Shows "actor_id" (· = e.actor)
  notes : v.Shows "notes" (· = e.notes)

theorem ApprovalEvent.shownBy_view (e : ApprovalEvent) : e.ShownBy e.view where
  definition := Value.shows_object rfl e.definition.ofValue_text
  action := Value.shows_object rfl (Named.read_eq_ok e.action.ofName?_name)
  source := Value.shows_object rfl (Named.read_eq_ok e.source.ofName?_name)
  target := Value.shows_object rfl (Named.read_eq_ok e.target.ofName?_name)
  time := Value.shows_object rfl (Timestamp.shownBy_view _)
  actor := Value.shows_object rfl rfl
  notes := Value.shows_object rfl rfl

structure Run.ShownBy (r : Run) (v : Value) : Prop where
  id : v.Shows "id" (Uuid.ofValue · = .ok r.id)
  definition : v.Shows "workflow_id" (Uuid.ofValue · = .ok r.definition)
  status : v.Shows "status" (Named.read · = .ok r.status)
  startedAt : v.Shows "started_at" (Timestamp.ShownBy (some r.startedAt))
  finishedAt : v.Shows "finished_at" (Timestamp.ShownBy r.finishedAt)
  lastError : v.Shows "last_error" (· = r.lastError)
  org : v.Shows "org_id" (· = r.org)
  context : v.Shows "context" (· = r.context)

theorem Run.shownBy_view (r : Run) : r.ShownBy r.view where
  id := Value.shows_object rfl r.id.ofValue_text
  definition := Value.shows_object rfl r.definition.ofValue_text
  status := Value.shows_object rfl (Named.read_eq_ok r.status.ofName?_name)
  startedAt := Value.shows_object rfl (Timestamp.shownBy_view _)
  finishedAt := Value.shows_object rfl (Timestamp.shownBy_view _)
  lastError := Value.shows_object rfl rfl
  org := Value.shows_object rfl rfl
  context := Value.shows_object rfl rfl

/-! ## Replies -/

namespace Service.Reply

/-- What a response shows of a reply. -/
def view : Reply → Value
  | .nothing => .null
  | .definition d => d.view
  | .definitions ds => .list (ds.map Definition.view)
  | .edited g => g.toValue
  | .event e => e.view
  | .events es => .list (es.map ApprovalEvent.view)
  | .templates ts => .list (ts.map Template.view)
  | .run r => r.view
  | .runs rs => .list (rs.map Run.view)
  | .summary s => s.view

/-- The reply to a change, and a body that shows what was made of it. -/
inductive CarriedBy : Reply → Value → Prop
  | nothing : CarriedBy .nothing .null
  | definition {d : Definition} {body : Value} (shown : d.ShownBy body) :
      CarriedBy (.definition d) body
  | event {e : ApprovalEvent} {body : Value} (shown : e.ShownBy body) : CarriedBy (.event e) body
  | run {r : Run} {body : Value} (shown : r.ShownBy body) : CarriedBy (.run r) body

end Service.Reply

end Workflow
