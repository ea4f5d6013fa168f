import Workflow.Proofs.Blame
import Workflow.Proofs.Store.Row
import Workflow.Proofs.Value.Document

/-!
# Editor graphs as documents

An editor graph is read back from its wire form if its places are doubles and its
transitions have identifiers.  What is read of a document has places of doubles, and
its settings are read as well.

    edited was read from a document → its places are doubles      (Graph.IsRead.nodes)
    places are doubles, transitions have identifiers →
      Graph.ofValue edited.toValue = .ok edited                   (Graph.ofValue_toValue)
-/

namespace Workflow

/-! ## Places -/

theorem Position.isReal_of_ofValue {raw : Value} {id : String} {p : Position}
    (h : Position.ofValue raw id = .ok p) : p.IsReal := by
  unfold Position.ofValue at h
  split at h
  · split at h
    · split at h
      · exact ⟨_, _, (Except.ok.inj h).symm⟩
      · cases h
    · cases h
  · cases h

theorem Position.ofValue_toValue {p : Position} (h : p.IsReal) (id : String) :
    Position.ofValue p.toValue id = .ok p := by
  obtain ⟨x, y, rfl⟩ := h
  rfl

namespace Editor

/-! ## Reading -/

/-- A step is read of an object, its settings stand there or are empty, and its place is one of
doubles. -/
theorem Node.ofValue_eq_ok {index : Nat} {raw : Value} {n : Node}
    (h : Node.ofValue index raw = .ok n) :
    (∃ ms, raw = .object ms ∧ (Assoc.find? "data" ms = some (.object n.data) ∨ n.data = [])) ∧
      n.position.IsReal := by
  unfold Node.ofValue at h
  split at h
  next ms =>
    obtain ⟨id, -, h⟩ := bind_eq_ok.1 h
    unfold Node.ofMembers at h
    split at h
    next data ui hdata _ =>
      obtain ⟨kind, -, h⟩ := bind_eq_ok.1 h
      obtain ⟨name, -, h⟩ := bind_eq_ok.1 h
      obtain ⟨p, hp, h⟩ := bind_eq_ok.1 h
      obtain rfl := pure_eq_ok.1 h
      refine ⟨⟨ms, rfl, ?_⟩, Position.isReal_of_ofValue hp⟩
      cases hf : Assoc.find? "data" ms with
      | none =>
        rw [hf] at hdata
        exact .inr (Value.object.inj hdata).symm
      | some v =>
        rw [hf] at hdata
        exact .inl (congrArg some hdata)
    · cases h
  · cases h

theorem Node.counts_allOfValues : Counts Node.allOfValues Node.ofValue :=
  ⟨fun _ => rfl, fun _ _ _ => rfl⟩

theorem Edge.counts_allOfValues : Counts Edge.allOfValues Edge.ofValue :=
  ⟨fun _ => rfl, fun _ _ _ => rfl⟩

/-- Each step and each transition is read of its own value. -/
theorem Graph.ofValue_eq_ok {raw : Value} {edited : Graph} (h : Graph.ofValue raw = .ok edited) :
    ∃ nodes edges, requireLists "Editable graph" raw = .ok (nodes, edges) ∧
      (∀ n ∈ edited.nodes, ∃ i, ∃ v ∈ nodes, Node.ofValue i v = .ok n) ∧
      ∀ e ∈ edited.edges, ∃ i, ∃ v ∈ edges, Edge.ofValue i v = .ok e := by
  obtain ⟨⟨nodes, edges⟩, hl, h⟩ := bind_eq_ok.1 h
  obtain ⟨ns, hn, h⟩ := bind_eq_ok.1 h
  obtain ⟨es, he, h⟩ := bind_eq_ok.1 h
  obtain rfl := pure_eq_ok.1 h
  exact ⟨nodes, edges, hl, Node.counts_allOfValues.step_of_mem hn,
    Edge.counts_allOfValues.step_of_mem he⟩

theorem Graph.keys_nodup_of_ofValue {raw : Value} {edited : Graph}
    (hr : raw.hasDistinctKeys = true) (h : Graph.ofValue raw = .ok edited) :
    ∀ n ∈ edited.nodes, (Assoc.keys n.data).Nodup := by
  obtain ⟨nodes, edges, hl, hn, -⟩ := Graph.ofValue_eq_ok h
  intro n hmem
  obtain ⟨_, v, hv, hv'⟩ := hn n hmem
  obtain ⟨⟨ms, rfl, hdata | hdata⟩, -⟩ := Node.ofValue_eq_ok hv'
  · have hdistinct := requireLists_distinct hr hl _ hv
    exact (Value.hasDistinctKeys_object (Value.hasDistinctKeys_find? hdistinct hdata)).1
  · rw [hdata]
    exact List.nodup_nil

/-- The editor graph was read from a document. -/
def Graph.IsRead (edited : Graph) : Prop :=
  ∃ raw : Value, raw.IsRead ∧ Graph.ofValue raw = .ok edited

theorem Graph.IsRead.nodes {edited : Graph} (h : edited.IsRead) :
    ∀ n ∈ edited.nodes, (Value.object n.data).IsRead ∧ n.position.IsReal := by
  obtain ⟨raw, hr, h⟩ := h
  obtain ⟨nodes, edges, hl, hn, -⟩ := Graph.ofValue_eq_ok h
  intro n hmem
  obtain ⟨_, v, hv, hv'⟩ := hn n hmem
  obtain ⟨⟨ms, rfl, hdata | hdata⟩, hp⟩ := Node.ofValue_eq_ok hv'
  · exact ⟨((requireLists_read hr hl).1 _ hv).member hdata, hp⟩
  · rw [hdata]
    exact ⟨Value.IsRead.empty, hp⟩

/-! ## Reading what was written -/

theorem Node.ofValue_toValue {n : Node} (hp : n.position.IsReal) (index : Nat) :
    Node.ofValue index n.toValue = .ok n := by
  obtain ⟨id, kind, name, position, data, ui⟩ := n
  have hk : requireKind (.text (Named.name kind)) id = .ok kind := by
    unfold requireKind
    rw [Named.ofValue?_name_nodeKind]
  have hp : Position.ofValue position.toValue id = .ok position := Position.ofValue_toValue hp id
  show (requireKind (.text (Named.name kind)) id >>= fun kind => _) = _
  rw [hk]
  show (Position.ofValue position.toValue id >>= fun p => _) = _
  rw [hp]
  rfl

theorem Node.allOfValues_toValue {ns : List Node} (hp : ∀ n ∈ ns, n.position.IsReal)
    (index : Nat) : Node.allOfValues index (ns.map Node.toValue) = .ok ns := by
  induction ns generalizing index with
  | nil => rfl
  | cons n rest ih =>
    have hn := Node.ofValue_toValue (hp n List.mem_cons_self) index
    have hrest := ih (fun m hm => hp m (List.mem_cons_of_mem n hm)) (index + 1)
    exact bind_eq_ok.2 ⟨n, hn, bind_eq_ok.2 ⟨rest, hrest, rfl⟩⟩

theorem Edge.ofValue_toValue {e : Edge} (hid : e.id.isTruthy = true) (index : Nat) :
    Edge.ofValue index e.toValue = .ok e := by
  obtain ⟨id, source, target, label⟩ := e
  have hid : (if id.isTruthy then id else joined source target) = id := if_pos hid
  have hl : optionalText (some (.ofText? label)) "Edge 'label'" (some id) = .ok label := by
    cases label <;> rfl
  show (optionalText (some (.ofText? label)) "Edge 'label'"
    (some (if id.isTruthy then id else joined source target)) >>= fun label =>
      pure (Edge.mk (if id.isTruthy then id else joined source target) source target label)) = _
  rw [hid, hl]
  rfl

theorem Edge.allOfValues_toValue {es : List Edge} (hid : ∀ e ∈ es, e.id.isTruthy = true)
    (index : Nat) : Edge.allOfValues index (es.map Edge.toValue) = .ok es := by
  induction es generalizing index with
  | nil => rfl
  | cons e rest ih =>
    have he := Edge.ofValue_toValue (hid e List.mem_cons_self) index
    have hrest := ih (fun e' he' => hid e' (List.mem_cons_of_mem e he')) (index + 1)
    exact bind_eq_ok.2 ⟨e, he, bind_eq_ok.2 ⟨rest, hrest, rfl⟩⟩

theorem Graph.ofValue_toValue {edited : Graph} (hp : ∀ n ∈ edited.nodes, n.position.IsReal)
    (hid : ∀ e ∈ edited.edges, e.id.isTruthy = true) :
    Graph.ofValue edited.toValue = .ok edited :=
  bind_eq_ok.2 ⟨(edited.nodes.map Node.toValue, edited.edges.map Edge.toValue), rfl,
    bind_eq_ok.2 ⟨_, Node.allOfValues_toValue hp 0,
      bind_eq_ok.2 ⟨_, Edge.allOfValues_toValue hid 0, rfl⟩⟩⟩

end Editor

end Workflow
