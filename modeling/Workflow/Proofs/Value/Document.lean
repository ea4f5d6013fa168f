import Mathlib.Algebra.Group.Int.Defs
import Mathlib.Algebra.Group.Nat.Defs
import Workflow.Proofs.Graph.Reading
import Workflow.Value.Printer

/-!
# Values that are read from a text

No object that is read from a text holds a key twice, and no integer has more digits
than are read.  So it is with everything inside a value that was read, and with the
settings of a graph that was read from one.

    g was read from a document → so were its settings       (Graph.IsRead.settings)
-/

namespace Workflow

namespace Value

/-- No object holds a key twice, and no integer has too many digits. -/
structure IsRead (v : Value) : Prop where
  distinct : v.hasDistinctKeys = true
  writable : v.isWritable = true

theorem allWritable_iff (vs : List Value) :
    allWritable vs = true ↔ ∀ v ∈ vs, v.isWritable = true := by
  induction vs with
  | nil => simp [allWritable]
  | cons v rest ih => simp [allWritable, ih]

theorem membersWritable_iff (ms : Config) :
    membersWritable ms = true ↔ ∀ e ∈ ms, e.2.isWritable = true := by
  induction ms with
  | nil => simp [membersWritable]
  | cons e rest ih => simp [membersWritable, ih]

namespace IsRead

theorem empty : (Value.object []).IsRead := ⟨rfl, rfl⟩

variable {ms : Config} {vs : List Value}

theorem keys_nodup (h : (Value.object ms).IsRead) : (Assoc.keys ms).Nodup :=
  (hasDistinctKeys_object h.distinct).1

theorem member (h : (Value.object ms).IsRead) {k : String} {v : Value}
    (hk : Assoc.find? k ms = some v) : v.IsRead where
  distinct := hasDistinctKeys_find? h.distinct hk
  writable := by
    have hw := h.writable
    rw [isWritable] at hw
    exact (membersWritable_iff ms).1 hw _ (Assoc.mem_of_find? hk)

theorem item (h : (Value.list vs).IsRead) {v : Value} (hv : v ∈ vs) : v.IsRead where
  distinct := hasDistinctKeys_list h.distinct v hv
  writable := by
    have hw := h.writable
    rw [isWritable] at hw
    exact (allWritable_iff vs).1 hw v hv

theorem natAbs_lt {n : Int} (h : (Value.int n).IsRead) : n.natAbs < 10 ^ Numeral.maxDigits := by
  have hw := h.writable
  rw [isWritable, isWritableInt] at hw
  -- the power is too large to be computed
  generalize Numeral.maxDigits = digits at hw ⊢
  exact of_decide_eq_true hw

end IsRead

end Value

/-! ## Graphs -/

/-- The items of the two lists of a document that is read. -/
theorem requireLists_read {subject : String} {raw : Value} {nodes edges : List Value}
    (hr : raw.IsRead) (h : requireLists subject raw = .ok (nodes, edges)) :
    (∀ v ∈ nodes, v.IsRead) ∧ ∀ v ∈ edges, v.IsRead := by
  obtain ⟨ms, rfl, hnodes, hedges⟩ := requireLists_eq_ok h
  have hlist {k : String} {vs : List Value} (hk : Assoc.find? k ms = some (.list vs) ∨
      Assoc.find? k ms = none ∧ vs = []) : ∀ v ∈ vs, v.IsRead := by
    rcases hk with hk | ⟨-, rfl⟩
    · exact fun v hv => (hr.member hk).item hv
    · exact fun v hv => absurd hv List.not_mem_nil
  exact ⟨hlist hnodes, hlist hedges⟩

theorem Node.configOf_read {ms : Config} {id : String} {config : Config}
    (hm : (Value.object ms).IsRead) (h : Node.configOf ms id = .ok config) :
    (Value.object config).IsRead := by
  unfold Node.configOf at h
  split at h
  · obtain rfl := Except.ok.inj h
    exact Value.IsRead.empty
  · obtain rfl := Except.ok.inj h
    exact Value.IsRead.empty
  next c hc =>
    obtain rfl := Except.ok.inj h
    exact hm.member hc
  · cases h

/-- The graph was read from a document. -/
def Graph.IsRead (g : Graph) : Prop := ∃ raw : Value, raw.IsRead ∧ Graph.ofValue raw = .ok g

theorem Graph.IsRead.settings {g : Graph} (hg : g.IsRead) :
    ∀ n ∈ g.nodes, (Value.object n.config).IsRead := by
  obtain ⟨raw, hr, h⟩ := hg
  obtain ⟨nodes, edges, hl, hn⟩ := Graph.ofValue_eq_ok h
  intro n hmem
  rcases (Node.allOfValues_eq_ok Graph.readable_nil hn).2 n hmem with hm | ⟨ms, hms, hc⟩
  · cases hm
  · exact Node.configOf_read ((requireLists_read hr hl).1 _ hms) hc

/-- Of a graph only the settings can be too long to be written. -/
theorem Graph.isWritable_iff {g : Graph} : (g.toValue []).isWritable = true ↔
    ∀ n ∈ g.nodes, ∀ e ∈ n.config, e.2.isWritable = true := by
  have hedges : ∀ v ∈ g.edges.map Edge.toValue, v.isWritable = true := by
    intro v hv
    obtain ⟨⟨source, target, condition⟩, -, rfl⟩ := List.mem_map.1 hv
    cases condition <;> rfl
  have hnode (n : Node) : (n.toValue []).isWritable = Value.membersWritable n.config := by
    show (true && (true && (true && (Value.membersWritable n.config && true)))) = _
    simp
  show (Value.allWritable (g.nodes.map (·.toValue []))
    && (Value.allWritable (g.edges.map Edge.toValue) && true)) = true ↔ _
  rw [(Value.allWritable_iff _).2 hedges, Bool.and_true, Bool.and_true, Value.allWritable_iff]
  simp only [List.forall_mem_map, hnode, Value.membersWritable_iff]

end Workflow
