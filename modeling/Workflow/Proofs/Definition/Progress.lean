import Workflow.Proofs.Definition.Change
import Workflow.Proofs.Editor.Compiling
import Workflow.Proofs.Graph.Rules
import Workflow.Proofs.Store.Row

/-!
# What operations keep

An operation keeps the identifier, the organization and the time of creation of a
definition, and raises its version by one unless it changes nothing at all.  History
and approval change by actions on the approval only, and the lifecycle by those, an
activation or a pause.  Fields stay of their declared types.

    op succeeds → d' = d or d'.version = d.version + 1      (Operation.apply_keeps)
    d typed, op typed → d' typed                            (Typed.apply)
-/

namespace Workflow

/-! ## Layouts -/

/-- The places of the steps are doubles. -/
def Editor.Graph.IsPlaced (edited : Editor.Graph) : Prop :=
  ∀ n ∈ edited.nodes, n.position.IsReal

theorem Layout.IsReal.prune {layout : Layout} (h : layout.IsReal) (g : Graph) :
    (layout.prune g).IsReal :=
  fun e he => h e (List.mem_filter.1 he).1

theorem Editor.Graph.IsPlaced.layout {edited : Editor.Graph} (h : edited.IsPlaced) :
    edited.layout.IsReal := by
  intro e he
  obtain ⟨n, hn, rfl⟩ := List.mem_map.1 (Assoc.mem_ofList he)
  exact h n hn

/-- The places among what is given as a layout are doubles. -/
def Places.IsReal : Places → Prop
  | .entries es => ∀ id p, (id, some p) ∈ es → p.IsReal
  | .shapeless => True

theorem Layout.IsReal.places {layout : Layout} (h : layout.IsReal) :
    (Places.ofLayout layout).IsReal := by
  intro id p hp
  obtain ⟨e, he, heq⟩ := List.mem_map.1 hp
  obtain ⟨rfl, hsome⟩ := Prod.mk.inj heq
  exact Option.some.inj hsome ▸ h e he

theorem Places.IsReal.prune {places : Places} (h : places.IsReal) {g : Graph} {layout : Layout}
    (hl : places.prune g = .ok layout) : layout.IsReal := by
  obtain ⟨es, rfl, hmem⟩ := Places.of_prune hl
  exact fun e he => h e.1 e.2 (hmem e he).2

/-- So it is with those that stay if no places are given. -/
theorem Places.isReal_getD {places : Option Places} (hp : ∀ p ∈ places, p.IsReal)
    {layout : Layout} (hl : layout.IsReal) : (places.getD (.ofLayout layout)).IsReal := by
  cases places with
  | none => exact hl.places
  | some p => exact hp p rfl

/-! ## Operations -/

namespace Definition

/-- The arguments of an operation are of their declared types. -/
def Operation.Typed : Operation → Prop
  | .rename _ description => description.IsTextOrNull
  | .updateGraph graph places => graph.ids.Nodup ∧ ∀ p ∈ places, p.IsReal
  | .applyEdited edited => edited.IsPlaced
  | .updateTrigger _ | .govern .. | .activate | .pause => True

variable {d d' : Definition} {op : Operation} {now : Timestamp}

/-- Whether an operation is recorded in the history. -/
def Operation.isRecorded : Operation → Bool
  | .govern .. => true
  | .rename .. | .updateTrigger _ | .updateGraph .. | .applyEdited _ | .activate | .pause => false

/-- What an operation that succeeds leaves as it is. -/
structure Operation.Keeps (op : Operation) (d d' : Definition) : Prop where
  id : d'.id = d.id
  org : d'.org = d.org
  createdAt : d'.createdAt = d.createdAt
  /-- it either changes nothing or raises the version -/
  version : d' = d ∨ d'.version = d.version + 1
  history : op.isRecorded = false → d'.history = d.history
  approval : op.isRecorded = false → d'.approval = d.approval
  lifecycle : op.isRecorded = false → op ≠ .activate → op ≠ .pause → d'.lifecycle = d.lifecycle

/-- An edit of what the definition says keeps the rest. -/
theorem Operation.Keeps.edit (op : Operation) (d : Definition) (now : Timestamp)
    (name description : Value) (trigger : Trigger) (graph : Graph) (layout : Layout) :
    op.Keeps d ({ d with name, description, trigger, graph, layout }.touch now) :=
  ⟨rfl, rfl, rfl, Or.inr rfl, fun _ => rfl, fun _ => rfl, fun _ _ _ => rfl⟩

theorem Operation.apply_keeps (h : op.apply d now = .ok d') : op.Keeps d d' := by
  cases op with
  | rename name description =>
    obtain ⟨t, -, -, rfl⟩ := rename_eq_ok h
    exact .edit ..
  | updateTrigger trigger =>
    obtain ⟨-, rfl⟩ := updateTrigger_eq_ok h
    exact .edit ..
  | updateGraph graph places =>
    obtain ⟨-, -, _, -, rfl⟩ := updateGraph_eq_ok h
    exact .edit ..
  | applyEdited edited =>
    obtain ⟨graph, -, h⟩ := applyEdited_eq_ok h
    obtain ⟨-, -, _, -, rfl⟩ := updateGraph_eq_ok h
    exact .edit ..
  | govern action actor notes =>
    obtain ⟨⟨d₁, e⟩, hg, rfl⟩ := map_eq_ok.1 h
    obtain ⟨target, -, -, -, rfl⟩ := govern_eq_ok hg
    unfold suspend
    split
    · exact ⟨rfl, rfl, rfl, Or.inr rfl, nofun, nofun, nofun⟩
    · exact ⟨rfl, rfl, rfl, Or.inr rfl, nofun, nofun, nofun⟩
  | activate =>
    obtain ⟨-, ⟨-, rfl⟩ | ⟨-, -, -, rfl⟩⟩ := activate_eq_ok h
    · exact ⟨rfl, rfl, rfl, Or.inl rfl, fun _ => rfl, fun _ => rfl, fun _ _ _ => rfl⟩
    · exact ⟨rfl, rfl, rfl, Or.inr rfl, fun _ => rfl, fun _ => rfl, fun _ ha => absurd rfl ha⟩
  | pause =>
    obtain ⟨-, rfl⟩ := pause_eq_ok h
    exact ⟨rfl, rfl, rfl, Or.inr rfl, fun _ => rfl, fun _ => rfl, fun _ _ hp => absurd rfl hp⟩

theorem Typed.touch (hd : d.Typed) (hn : now.IsUniversal) : (d.touch now).Typed where
  org := hd.org
  name := hd.name
  description := hd.description
  createdBy := hd.createdBy
  graph := hd.graph
  layout := hd.layout
  createdAt := hd.createdAt
  updatedAt := hn
  version := by
    have hv := hd.version
    show 0 ≤ d.version + 1
    omega

theorem Typed.updateGraph (hd : d.Typed) (hn : now.IsUniversal) {graph : Graph}
    {places : Option Places} (hg : graph.ids.Nodup) (hp : ∀ p ∈ places, p.IsReal)
    (h : d.updateGraph graph places now = .ok d') : d'.Typed := by
  obtain ⟨hv, -, layout, hl, rfl⟩ := updateGraph_eq_ok h
  refine Typed.touch ?_ hn
  exact { hd with
    graph := ⟨fun n hn => Graph.id_ne_empty hv hn, hg⟩
    layout := (Places.isReal_getD hp hd.layout).prune hl }

/-- Fields stay of their declared types. -/
theorem Typed.apply (hd : d.Typed) (hop : op.Typed) (hn : now.IsUniversal)
    (h : op.apply d now = .ok d') : d'.Typed := by
  cases op with
  | rename name description =>
    obtain ⟨t, -, -, rfl⟩ := rename_eq_ok h
    refine Typed.touch ?_ hn
    exact { hd with name := ⟨_, rfl⟩, description := hd.description.ite_null hop }
  | updateTrigger trigger =>
    obtain ⟨-, rfl⟩ := updateTrigger_eq_ok h
    exact Typed.touch { hd with } hn
  | updateGraph graph places => exact hd.updateGraph hn hop.1 hop.2 h
  | applyEdited edited =>
    obtain ⟨graph, hc, h⟩ := applyEdited_eq_ok h
    refine hd.updateGraph hn (Editor.Graph.readable_of_compileBounded hc).ids_nodup ?_ h
    rintro p ⟨⟩
    exact hop.layout.places
  | govern action actor notes =>
    obtain ⟨⟨d₁, e⟩, hg, rfl⟩ := map_eq_ok.1 h
    obtain ⟨target, -, -, -, rfl⟩ := govern_eq_ok hg
    have hs : (d.suspend action).Typed := by
      unfold suspend
      split
      · exact { hd with }
      · exact hd
    exact Typed.touch { hs with } hn
  | activate =>
    obtain ⟨-, ⟨-, rfl⟩ | ⟨-, -, -, rfl⟩⟩ := activate_eq_ok h
    · exact hd
    · exact Typed.touch { hd with } hn
  | pause =>
    obtain ⟨-, rfl⟩ := pause_eq_ok h
    exact Typed.touch { hd with } hn

/-- A proposal whose fields are of their declared types. -/
structure Proposal.Typed (p : Proposal) : Prop where
  org : p.context.org.IsText
  user : p.context.user.IsTextOrNull
  description : p.description.IsText
  graph : p.graph.ids.Nodup
  layout : p.layout.IsReal

/-- What is created of a typed proposal is typed. -/
theorem Proposal.Typed.define {p : Proposal} (hp : p.Typed) (hn : now.IsUniversal)
    {name : String} (id : Uuid) (ha : p.accept = .ok name) : (p.define name id now).Typed := by
  have hc : create p id now = .ok (p.define name id now) := bind_eq_ok.2 ⟨name, ha, rfl⟩
  obtain ⟨_, -, -, -, hv, -⟩ := create_eq_ok hc
  exact {
    org := hp.org
    name := ⟨_, rfl⟩
    description := hp.description
    createdBy := hp.user
    graph := ⟨fun n hn => Graph.id_ne_empty hv hn, hp.graph⟩
    layout := hp.layout.prune p.graph
    createdAt := hn
    updatedAt := hn
    version := by
      show (0 : Int) ≤ 1
      decide }

end Definition

end Workflow
