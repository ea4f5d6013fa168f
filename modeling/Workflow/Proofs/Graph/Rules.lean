import Workflow.Graph.Sketch
import Workflow.Proofs.Graph.Reading

/-!
# What an accepted graph satisfies

A graph that breaks no rule has settings that break none, step by step, and
guards that are not blank.

    g.violations = [] → the settings of each step break no rule   (configViolations_eq_nil)
    g.violations = [] → each transition leads from a step to a step   (ends_mem_ids)
    g.violations = [] → each guard is a text that is not blank    (isFilled_condition)
-/

namespace Workflow

/-! ## Rules one by one -/

namespace Sketch

/-- A delay that breaks no rule has a natural number of milliseconds and no label. -/
theorem delayViolations_eq_nil {id : Message} {config : Config}
    (h : delayViolations id config = []) :
    (∃ ms : Nat, Assoc.find? "duration_ms" config = some (.int ms)) ∧
      Assoc.find? "duration" config = none := by
  unfold delayViolations at h
  split at h
  next n hn =>
    by_cases hneg : n < 0
    · simp [hneg] at h
    · rw [if_neg hneg] at h
      obtain ⟨ms, rfl⟩ := Int.eq_ofNat_of_zero_le (Int.not_lt.1 hneg)
      refine ⟨⟨ms, hn⟩, ?_⟩
      cases hd : Assoc.find? "duration" config with
      | none => rfl
      | some v => simp [Assoc.contains, hd] at h
  · cases h

theorem conditionViolations_eq_nil {id : Message} {config : Config}
    (h : conditionViolations id config = []) :
    Value.isFilled (Assoc.find? "expr" config) = true := by
  unfold conditionViolations at h
  by_cases hf : Value.isFilled (Assoc.find? "expr" config) = true
  · exact hf
  · simp [hf] at h

theorem endViolations_eq_nil_iff {keys : List Value} {index : Nat} {part : String} {v : Value} :
    endViolations keys index part v = [] ↔ keys.any (·.same v) = true := by
  unfold endViolations
  by_cases hk : keys.any (·.same v) = true
  · simp [hk]
  · simp [hk]

theorem guardViolations_eq_nil_iff {index : Nat} {condition : Value} :
    guardViolations index condition = [] ↔
      condition = .null ∨ Value.isFilled (some condition) = true := by
  unfold guardViolations
  by_cases hc : condition = .null ∨ Value.isFilled (some condition) = true
  · simp [hc]
  · simp [hc]

theorem edgeViolations_eq_nil {keys : List Value} {index : Nat} {e : SketchEdge}
    (h : edgeViolations keys index e = []) :
    keys.any (·.same e.source) = true ∧ keys.any (·.same e.target) = true ∧
      (e.condition = .null ∨ Value.isFilled (some e.condition) = true) := by
  obtain ⟨h, hc⟩ := List.append_eq_nil_iff.1 h
  obtain ⟨hs, ht⟩ := List.append_eq_nil_iff.1 h
  exact ⟨endViolations_eq_nil_iff.1 hs, endViolations_eq_nil_iff.1 ht,
    guardViolations_eq_nil_iff.1 hc⟩

/-- What is wrong with a sketch is wrong with a step, a transition or the whole. -/
theorem violations_eq_nil_iff_parts {s : Sketch} : s.violations = [] ↔
    (∀ e ∈ s.nodes, nodeViolations e.1 e.2 = []) ∧
    (∀ e ∈ s.edges.zipIdx, edgeViolations s.keys e.2 e.1 = []) ∧ s.entryViolations = [] := by
  unfold violations messages
  rw [List.map_eq_nil_iff, List.append_eq_nil_iff, List.append_eq_nil_iff, and_assoc,
    List.flatMap_eq_nil_iff, List.flatMap_eq_nil_iff]

end Sketch

/-! ## Graphs -/

namespace Graph

variable {g : Graph}

theorem nodeViolations_eq_nil (h : g.violations = []) {n : Node} (hn : n ∈ g.nodes) :
    Sketch.nodeViolations (.text n.id) n.sketch = [] := by
  exact (Sketch.violations_eq_nil_iff_parts.1 h).1 (.text n.id, n.sketch) (List.mem_map.2 ⟨n, hn, rfl⟩)

/-- A graph that breaks no rule has no empty identifier. -/
theorem id_ne_empty (h : g.violations = []) {n : Node} (hn : n ∈ g.nodes) :
    n.id.isEmpty = false := by
  have hv := nodeViolations_eq_nil h hn
  unfold Sketch.nodeViolations at hv
  obtain ⟨hk, -⟩ := List.append_eq_nil_iff.1 hv
  unfold Sketch.keyViolations at hk
  cases he : n.id.isEmpty with
  | false => rfl
  | true => simp [Node.sketch, Value.isTruthy, he] at hk

theorem configViolations_eq_nil (h : g.violations = []) {n : Node} (hn : n ∈ g.nodes) :
    Sketch.configViolations n.kind (Value.text n.id).message (Value.object n.config).keyMessage
      n.config = [] := by
  have hv := nodeViolations_eq_nil h hn
  unfold Sketch.nodeViolations at hv
  obtain ⟨-, hv⟩ := List.append_eq_nil_iff.1 hv
  simp only [Node.sketch, Named.ofValue?_name_nodeKind, Value.entries?] at hv
  exact hv

theorem edgeViolations_eq_nil (h : g.violations = []) {e : Edge} (he : e ∈ g.edges) :
    ∃ index, Sketch.edgeViolations g.sketch.keys index e.sketch = [] := by
  have hm : e.sketch ∈ g.sketch.edges := List.mem_map.2 ⟨e, he, rfl⟩
  obtain ⟨i, hi, hg⟩ := List.getElem_of_mem hm
  have hz : (e.sketch, i) ∈ g.sketch.edges.zipIdx := by
    rw [List.mem_zipIdx_iff_getElem?, List.getElem?_eq_getElem hi, hg]
  exact ⟨i, (Sketch.violations_eq_nil_iff_parts.1 h).2.1 _ hz⟩

/-- A transition leads from a step to a step. -/
theorem ends_mem_ids (h : g.violations = []) {e : Edge} (he : e ∈ g.edges) :
    e.source ∈ g.ids ∧ e.target ∈ g.ids := by
  have hfound {id : String} (hk : g.sketch.keys.any (·.same (.text id)) = true) : id ∈ g.ids := by
    obtain ⟨key, hkey, hsame⟩ := List.any_eq_true.1 hk
    obtain ⟨_, hentry, rfl⟩ := List.mem_map.1 hkey
    obtain ⟨n, hn, rfl⟩ := List.mem_map.1 hentry
    rw [Value.same_text] at hsame
    exact List.mem_map.2 ⟨n, hn, of_decide_eq_true hsame⟩
  obtain ⟨index, hv⟩ := edgeViolations_eq_nil h he
  obtain ⟨hs, ht, -⟩ := Sketch.edgeViolations_eq_nil hv
  exact ⟨hfound hs, hfound ht⟩

theorem isFilled_condition (h : g.violations = []) {e : Edge} (he : e ∈ g.edges) {s : String}
    (hs : e.condition = some s) : Text.isBlank s = false := by
  obtain ⟨index, hv⟩ := edgeViolations_eq_nil h he
  obtain ⟨-, -, hc⟩ := Sketch.edgeViolations_eq_nil hv
  simpa [Edge.sketch, hs, Value.ofText?, Value.isFilled] using hc

end Graph

end Workflow
