import Workflow.Graph.Wire
import Workflow.Proofs.Assoc
import Workflow.Proofs.Except

/-!
# Graphs that are read

A graph that is read from a document has identifiers that are not empty and not
repeated, and its settings are maps, as the objects of a document are.  A graph of
such identifiers is read back from its wire form.

    Graph.ofValue raw = .ok g → g is well-formed      (wellFormed_of_ofValue)
    g is readable → Graph.ofValue (g.toValue _) = .ok g   (ofValue_toValue)
-/

namespace Workflow

/-! ## Documents -/

namespace Value

mutual

/-- Whether no object holds a key twice, at any depth. -/
def hasDistinctKeys : Value → Bool
  | null | bool _ | int _ | float _ | text _ | foreign => true
  | list items => haveDistinctKeys items
  | object ms => decide (Assoc.keys ms).Nodup && membersHaveDistinctKeys ms
  | numbered _ v => hasDistinctKeys v

def haveDistinctKeys : List Value → Bool
  | [] => true
  | v :: rest => hasDistinctKeys v && haveDistinctKeys rest

def membersHaveDistinctKeys : List (String × Value) → Bool
  | [] => true
  | (_, v) :: rest => hasDistinctKeys v && membersHaveDistinctKeys rest

end

theorem haveDistinctKeys_iff (vs : List Value) :
    haveDistinctKeys vs = true ↔ ∀ v ∈ vs, v.hasDistinctKeys = true := by
  induction vs with
  | nil => simp [haveDistinctKeys]
  | cons v rest ih => simp [haveDistinctKeys, ih]

theorem membersHaveDistinctKeys_iff (ms : Config) :
    membersHaveDistinctKeys ms = true ↔ ∀ e ∈ ms, e.2.hasDistinctKeys = true := by
  induction ms with
  | nil => simp [membersHaveDistinctKeys]
  | cons e rest ih => simp [membersHaveDistinctKeys, ih]

theorem hasDistinctKeys_list {vs : List Value} (h : (list vs).hasDistinctKeys = true) :
    ∀ v ∈ vs, v.hasDistinctKeys = true := by
  rw [hasDistinctKeys] at h
  exact (haveDistinctKeys_iff vs).1 h

theorem hasDistinctKeys_object {ms : Config} (h : (object ms).hasDistinctKeys = true) :
    (Assoc.keys ms).Nodup ∧ ∀ e ∈ ms, e.2.hasDistinctKeys = true := by
  rw [hasDistinctKeys, Bool.and_eq_true, decide_eq_true_eq] at h
  exact ⟨h.1, (membersHaveDistinctKeys_iff ms).1 h.2⟩

theorem hasDistinctKeys_find? {ms : Config} {k : String} {v : Value}
    (h : (object ms).hasDistinctKeys = true) (hk : Assoc.find? k ms = some v) :
    v.hasDistinctKeys = true :=
  (hasDistinctKeys_object h).2 _ (Assoc.mem_of_find? hk)

end Value

/-! ## Well-formed graphs -/

/-- The identifiers of the steps are not empty and not repeated. -/
structure Graph.Readable (g : Graph) : Prop where
  ids_ne_empty : ∀ n ∈ g.nodes, n.id.isEmpty = false
  ids_nodup : g.ids.Nodup

/-- What reading guarantees of a graph. -/
structure Graph.WellFormed (g : Graph) : Prop extends g.Readable where
  keys_nodup : ∀ n ∈ g.nodes, (Assoc.keys n.config).Nodup

/-- A step with a new identifier may be added. -/
theorem Graph.Readable.snoc {ns : List Node} {n : Node} (h : (Graph.mk ns []).Readable)
    (hid : n.id.isEmpty = false) (hn : n.id ∉ ns.map Node.id) :
    (Graph.mk (ns ++ [n]) []).Readable := by
  constructor
  · intro m hm
    rcases List.mem_append.1 hm with hm | hm
    · exact h.ids_ne_empty m hm
    · obtain rfl := List.mem_singleton.1 hm
      exact hid
  · show ((ns ++ [n]).map Node.id).Nodup
    rw [List.map_append]
    exact Assoc.nodup_append_singleton h.ids_nodup hn

section

variable {raw : Value} {g : Graph}

theorem Node.configOf_keys {ms : Config} {id : String} {config : Config}
    (hm : (Value.object ms).hasDistinctKeys = true) (h : Node.configOf ms id = .ok config) :
    (Assoc.keys config).Nodup := by
  unfold Node.configOf at h
  split at h
  · cases h
    simp [Assoc.keys]
  · cases h
    simp [Assoc.keys]
  next c hc =>
    cases h
    exact (Value.hasDistinctKeys_object (Value.hasDistinctKeys_find? hm hc)).1
  · cases h

theorem Node.any_id_eq_false {earlier : List Node} {id : String}
    (h : id ∉ earlier.map Node.id) : earlier.any (·.id = id) = false := by
  rw [List.any_eq_false]
  intro m hm he
  exact h (List.mem_map.2 ⟨m, hm, of_decide_eq_true he⟩)

/-- A node that is read has an identifier that is new, and that and its settings are those of
an object. -/
theorem Node.ofValue_eq_ok {earlier : List Node} {index : Nat} {n : Node}
    (h : Node.ofValue earlier index raw = .ok n) :
    n.id.isEmpty = false ∧ n.id ∉ earlier.map Node.id ∧
      ∃ ms, raw = .object ms ∧ Assoc.find? "id" ms = some (.text n.id) ∧
        Node.configOf ms n.id = .ok n.config := by
  unfold Node.ofValue at h
  split at h
  next ms =>
    split at h
    next id hid =>
      by_cases he : id.isEmpty = true
      · simp [he, misshapen] at h
      · rw [if_neg he] at h
        by_cases ha : earlier.any (·.id = id) = true
        · simp [ha] at h
        · rw [if_neg ha] at h
          obtain ⟨config, hc, h⟩ := bind_eq_ok.1 h
          obtain ⟨kind, _, h⟩ := bind_eq_ok.1 h
          obtain ⟨name, _, h⟩ := bind_eq_ok.1 h
          obtain rfl := pure_eq_ok.1 h
          refine ⟨Bool.eq_false_iff.2 he, ?_, ms, rfl, hid, hc⟩
          intro hm
          obtain ⟨m, hm, hm'⟩ := List.mem_map.1 hm
          exact ha (List.any_eq_true.2 ⟨m, hm, decide_eq_true hm'⟩)
    · cases h
  · cases h

theorem Node.allOfValues_eq_ok {earlier ns : List Node} {raws : List Value}
    (he : (Graph.mk earlier []).Readable) (h : Node.allOfValues earlier raws = .ok ns) :
    (Graph.mk ns []).Readable ∧ ∀ n ∈ ns, n ∈ earlier ∨
      ∃ ms, .object ms ∈ raws ∧ Node.configOf ms n.id = .ok n.config := by
  induction raws generalizing earlier with
  | nil =>
    cases h
    exact ⟨he, fun n hn => Or.inl hn⟩
  | cons v rest ih =>
    obtain ⟨n, hn, hrest⟩ := bind_eq_ok.1 h
    obtain ⟨hid, hnew, ms, rfl, -, hc⟩ := Node.ofValue_eq_ok hn
    obtain ⟨hr, hfrom⟩ := ih (he.snoc hid hnew) hrest
    refine ⟨hr, fun m hm => ?_⟩
    rcases hfrom m hm with hm | ⟨ms', hms', hc'⟩
    · rcases List.mem_append.1 hm with hm | hm
      · exact Or.inl hm
      · obtain rfl := List.mem_singleton.1 hm
        exact Or.inr ⟨ms, List.mem_cons_self, hc⟩
    · exact Or.inr ⟨ms', List.mem_cons_of_mem _ hms', hc'⟩

theorem Graph.ofValue_eq_ok (h : Graph.ofValue raw = .ok g) :
    ∃ nodes edges, requireLists "Graph" raw = .ok (nodes, edges) ∧
      Node.allOfValues [] nodes = .ok g.nodes := by
  obtain ⟨⟨nodes, edges⟩, hl, h⟩ := bind_eq_ok.1 h
  obtain ⟨ns, hn, h⟩ := bind_eq_ok.1 h
  obtain ⟨es, _, h⟩ := bind_eq_ok.1 h
  obtain rfl := pure_eq_ok.1 h
  exact ⟨nodes, edges, hl, hn⟩

/-- The two lists that are read stand under their keys, or are missing and then empty. -/
theorem requireLists_eq_ok {subject : String} {nodes edges : List Value}
    (h : requireLists subject raw = .ok (nodes, edges)) :
    ∃ ms, raw = .object ms ∧
      (Assoc.find? "nodes" ms = some (.list nodes) ∨ Assoc.find? "nodes" ms = none ∧ nodes = []) ∧
      (Assoc.find? "edges" ms = some (.list edges) ∨ Assoc.find? "edges" ms = none ∧ edges = []) := by
  have hlist {ms : Config} {k : String} {vs : List Value}
      (hk : (Assoc.find? k ms).getD (.list []) = .list vs) :
      Assoc.find? k ms = some (.list vs) ∨ Assoc.find? k ms = none ∧ vs = [] := by
    cases hf : Assoc.find? k ms with
    | none =>
      rw [hf] at hk
      exact .inr ⟨rfl, (Value.list.inj hk).symm⟩
    | some v =>
      rw [hf] at hk
      exact .inl (congrArg some hk)
  unfold requireLists at h
  split at h
  next ms =>
    split at h
    next hnodes hedges =>
      obtain ⟨rfl, rfl⟩ := Prod.mk.inj (Except.ok.inj h)
      exact ⟨ms, rfl, hlist hnodes, hlist hedges⟩
    · cases h
  · cases h

theorem requireLists_distinct {subject : String} {nodes edges : List Value}
    (hr : raw.hasDistinctKeys = true) (h : requireLists subject raw = .ok (nodes, edges)) :
    ∀ v ∈ nodes, v.hasDistinctKeys = true := by
  obtain ⟨ms, rfl, hk | ⟨-, rfl⟩, -⟩ := requireLists_eq_ok h
  · exact Value.hasDistinctKeys_list (Value.hasDistinctKeys_find? hr hk)
  · exact fun v hv => absurd hv List.not_mem_nil

theorem Graph.readable_nil : (Graph.mk [] []).Readable := by
  constructor <;> simp [Graph.ids]

theorem Graph.readable_of_ofValue (h : Graph.ofValue raw = .ok g) : g.Readable := by
  obtain ⟨nodes, edges, -, hn⟩ := Graph.ofValue_eq_ok h
  have hr := (Node.allOfValues_eq_ok Graph.readable_nil hn).1
  exact ⟨hr.ids_ne_empty, hr.ids_nodup⟩

theorem Graph.wellFormed_of_ofValue (hr : raw.hasDistinctKeys = true)
    (h : Graph.ofValue raw = .ok g) : g.WellFormed := by
  obtain ⟨nodes, edges, hl, hn⟩ := Graph.ofValue_eq_ok h
  have hv := requireLists_distinct hr hl
  refine { Graph.readable_of_ofValue h with keys_nodup := ?_ }
  intro n hn'
  rcases (Node.allOfValues_eq_ok Graph.readable_nil hn).2 n hn' with hm | ⟨ms, hms, hc⟩
  · cases hm
  · exact Node.configOf_keys (hv _ hms) hc

end

/-! ## Reading what was written -/

/-- The name of a case is the only value that names it. -/
theorem Named.ofValue?_eq_some {α : Type} [Named α] {v : Value} {a : α}
    (h : Named.ofValue? v = some a) : v = .text (Named.name a) := by
  cases v with
  | text s =>
    have hs := List.find?_some h
    rw [decide_eq_true_eq] at hs
    rw [hs]
  | _ => cases h

theorem Named.ofValue?_name_nodeKind (kind : NodeKind) :
    Named.ofValue? (.text (Named.name kind)) = some kind := by
  cases kind <;> decide

theorem Node.ofValue_toValue (n : Node) (layout : Layout) {earlier : List Node} (index : Nat)
    (hid : n.id.isEmpty = false) (hn : n.id ∉ earlier.map Node.id) :
    Node.ofValue earlier index (n.toValue layout) = .ok n := by
  have hany := Node.any_id_eq_false hn
  have hk : requireKind (.text (Named.name n.kind)) n.id = .ok n.kind := by
    unfold requireKind
    rw [Named.ofValue?_name_nodeKind]
  unfold Node.ofValue Node.toValue
  simp only [List.cons_append, List.nil_append, Assoc.find?_cons, if_true, hid, hany]
  show (Node.configOf _ n.id >>= _) = _
  have hc : ∀ ms, Assoc.find? "config" ms = some (.object n.config) →
      Node.configOf ms n.id = .ok n.config := by
    intro ms h
    unfold Node.configOf
    rw [h]
  rw [hc _ (by simp [Assoc.find?_cons])]
  show (requireKind _ n.id >>= _) = _
  simp only [String.reduceEq, if_false, Option.getD_some, hk]
  rfl

theorem Node.allOfValues_toValue (layout : Layout) {ns earlier : List Node}
    (hid : ∀ n ∈ ns, n.id.isEmpty = false)
    (hnd : (earlier.map Node.id ++ ns.map Node.id).Nodup) :
    Node.allOfValues earlier (ns.map (·.toValue layout)) = .ok (earlier ++ ns) := by
  induction ns generalizing earlier with
  | nil => rw [List.map_nil, List.append_nil, Node.allOfValues]
  | cons n rest ih =>
    have hn : n.id ∉ earlier.map Node.id := by
      intro h
      exact (List.nodup_append.1 hnd).2.2 n.id h n.id (by simp) rfl
    have hnd' : ((earlier ++ [n]).map Node.id ++ rest.map Node.id).Nodup := by
      simpa using hnd
    rw [List.map_cons, Node.allOfValues,
      Node.ofValue_toValue n layout earlier.length (hid n List.mem_cons_self) hn]
    show Node.allOfValues (earlier ++ [n]) _ = _
    rw [ih (fun m hm => hid m (List.mem_cons_of_mem n hm)) hnd', List.append_assoc,
      List.singleton_append]

theorem Edge.allOfValues_toValue (index : Nat) (es : List Edge) :
    Edge.allOfValues index (es.map Edge.toValue) = .ok es := by
  induction es generalizing index with
  | nil => rfl
  | cons e rest ih =>
    have he : Edge.ofValue index e.toValue = .ok e := by
      obtain ⟨source, target, condition⟩ := e
      cases condition <;> rfl
    rw [List.map_cons, Edge.allOfValues, he]
    exact bind_eq_ok.2 ⟨_, rfl, bind_eq_ok.2 ⟨_, ih (index + 1), rfl⟩⟩

theorem Graph.ofValue_toValue {g : Graph} (hg : g.Readable) (layout : Layout) :
    Graph.ofValue (g.toValue layout) = .ok g := by
  have hnd : (([] : List Node).map Node.id ++ g.nodes.map Node.id).Nodup := hg.ids_nodup
  have hn := Node.allOfValues_toValue layout hg.ids_ne_empty hnd
  have he := Edge.allOfValues_toValue 0 g.edges
  exact bind_eq_ok.2 ⟨(g.nodes.map (·.toValue layout), g.edges.map Edge.toValue), rfl,
    bind_eq_ok.2 ⟨_, hn, bind_eq_ok.2 ⟨_, he, rfl⟩⟩⟩

end Workflow
