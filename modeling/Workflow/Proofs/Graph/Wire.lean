import Mathlib.Data.List.Basic
import Mathlib.Data.List.Nodup
import Mathlib.Data.Set.List
import Workflow.Proofs.Editor.Wire

/-!
# A graph and its layout in one document

The wire form of a graph holds the place of a step beside the step, and it is read
twice, once for the graph and once for the layout.  Nothing is lost: the graph comes
back as it was, and of the layout what its steps have.  A document may leave out a
name or settings, and may place a step by integers; what both readers make of it is
written in full, and is read as the same from then on.

    s is regular → s is the sketch of a readable graph          (Sketch.Regular.exists_graph)
    places are doubles → what is written of `layout` with `g` is read as
      `layout.restrict g.ids`                                   (Layout.ofGraphValue_toValue)
    a layout that was read with `g` is `layout.restrict g.ids`  (Layout.restrict_of_ofGraphValue)
    both readers, before and after                              (Graph.wire_lossless)
-/

namespace Workflow

/-! ## Places of some steps -/

namespace Layout

variable {layout found : Layout} {ids : List String} {id : String}

/-- The places of the given steps, in the order of the steps. -/
def restrict (layout : Layout) (ids : List String) : Layout :=
  ids.filterMap fun id => (Assoc.find? id layout).map fun p => (id, p)

theorem restrict_cons_of_none (h : Assoc.find? id layout = none) :
    layout.restrict (id :: ids) = layout.restrict ids := by
  unfold restrict
  rw [List.filterMap_cons, h]
  rfl

theorem restrict_cons_of_some {p : Position} (h : Assoc.find? id layout = some p) :
    layout.restrict (id :: ids) = (id, p) :: layout.restrict ids := by
  unfold restrict
  rw [List.filterMap_cons, h]
  rfl

theorem keys_restrict_sublist (layout : Layout) (ids : List String) :
    (Assoc.keys (layout.restrict ids)).Sublist ids := by
  induction ids with
  | nil => exact List.Sublist.slnil
  | cons id rest ih =>
    cases h : Assoc.find? id layout with
    | none =>
      rw [restrict_cons_of_none h]
      exact ih.cons id
    | some p =>
      rw [restrict_cons_of_some h]
      exact ih.cons_cons id

theorem find?_restrict (layout : Layout) (ids : List String) (id : String) :
    Assoc.find? id (layout.restrict ids) =
      if id ∈ ids then Assoc.find? id layout else none := by
  induction ids with
  | nil => rfl
  | cons first rest ih =>
    by_cases hid : id = first
    · subst hid
      rw [if_pos List.mem_cons_self]
      cases h : Assoc.find? id layout with
      | none =>
        rw [restrict_cons_of_none h, ih, h, ite_self]
      | some p =>
        rw [restrict_cons_of_some h, Assoc.find?_cons, if_pos rfl]
    · have hrest : Assoc.find? id (layout.restrict (first :: rest)) =
          Assoc.find? id (layout.restrict rest) := by
        cases h : Assoc.find? first layout with
        | none => rw [restrict_cons_of_none h]
        | some p => rw [restrict_cons_of_some h, Assoc.find?_cons, if_neg hid]
      rw [hrest, ih]
      simp only [List.mem_cons, hid, false_or]

/-- A layout that holds some of the steps, in their order, is what it holds of them. -/
theorem restrict_eq_self (hids : ids.Nodup) (h : (Assoc.keys layout).Sublist ids) :
    layout.restrict ids = layout := by
  induction ids generalizing layout with
  | nil =>
    cases layout with
    | nil => rfl
    | cons e rest => cases h
  | cons first rest ih =>
    obtain ⟨hfirst, hrest⟩ := List.nodup_cons.1 hids
    cases layout with
    | nil =>
      rw [restrict_cons_of_none rfl]
      exact ih hrest (List.nil_sublist rest)
    | cons e later =>
      obtain ⟨id, p⟩ := e
      cases h with
      | cons _ h =>
        have hnone : Assoc.find? first ((id, p) :: later) = none :=
          Assoc.find?_eq_none_iff.2 fun hmem => hfirst (h.subset hmem)
        rw [restrict_cons_of_none hnone]
        exact ih hrest h
      | cons_cons _ h =>
        have hsome : Assoc.find? id ((id, p) :: later) = some p := by
          rw [Assoc.find?_cons, if_pos rfl]
        -- the later steps are not the first one, so its place is not looked at for them
        have hlater : restrict ((id, p) :: later) rest = restrict later rest := by
          refine List.filterMap_congr fun id' hid' => ?_
          rw [Assoc.find?_cons, if_neg (ne_of_mem_of_not_mem hid' hfirst)]
        rw [restrict_cons_of_some hsome, hlater, ih hrest h]

/-! ## Reading places that were written -/

theorem field?_id_toValue (n : Node) (layout : Layout) :
    (n.toValue layout).field? "id" = some (.text n.id) := rfl

theorem field?_position_toValue (n : Node) (layout : Layout) :
    (n.toValue layout).field? "position" = (Assoc.find? n.id layout).map Position.toValue := by
  show Assoc.find? "position" (layout.member n.id) = _
  unfold member
  cases Assoc.find? n.id layout <;> rfl

theorem ofNodes_cons_toValue_of_none {n : Node} (h : Assoc.find? n.id layout = none)
    (rest : List Value) : ofNodes found (n.toValue layout :: rest) = ofNodes found rest := by
  rw [ofNodes, field?_id_toValue, field?_position_toValue, h]
  rfl

theorem ofNodes_cons_toValue_of_some {n : Node} {p : Position} (hp : p.IsReal)
    (h : Assoc.find? n.id layout = some p) (hnew : Assoc.find? n.id found = none)
    (rest : List Value) :
    ofNodes found (n.toValue layout :: rest) = ofNodes (found ++ [(n.id, p)]) rest := by
  have htruthy : p.toValue.isTruthy = true := rfl
  rw [ofNodes, field?_id_toValue, field?_position_toValue, h]
  simp only [Option.map_some, htruthy, if_true, Position.ofValue_toValue hp, hnew,
    Option.isSome_none, Bool.false_eq_true, if_false]

/-- The places that are read so far are those of earlier steps, so each new one is added. -/
theorem ofNodes_toValue (hl : layout.IsReal) {ns : List Node}
    (hnd : (Assoc.keys found ++ ns.map Node.id).Nodup) :
    ofNodes found (ns.map (·.toValue layout)) = .ok (found ++ layout.restrict (ns.map Node.id)) := by
  induction ns generalizing found with
  | nil =>
    show Except.ok found = _
    rw [show restrict layout ([].map Node.id) = [] from rfl, List.append_nil]
  | cons n rest ih =>
    rw [List.map_cons] at hnd
    cases h : Assoc.find? n.id layout with
    | none =>
      have hnd' : (Assoc.keys found ++ rest.map Node.id).Nodup :=
        hnd.sublist ((List.sublist_cons_self _ _).append_left _)
      rw [List.map_cons, ofNodes_cons_toValue_of_none h, List.map_cons, restrict_cons_of_none h]
      exact ih hnd'
    | some p =>
      have hnew : Assoc.find? n.id found = none :=
        Assoc.find?_eq_none_iff.2 fun hmem =>
          (List.nodup_append.1 hnd).2.2 n.id hmem n.id List.mem_cons_self rfl
      have hnd' : (Assoc.keys (found ++ [(n.id, p)]) ++ rest.map Node.id).Nodup := by
        simpa [Assoc.keys] using hnd
      rw [List.map_cons, ofNodes_cons_toValue_of_some (hl _ (Assoc.mem_of_find? h)) h hnew,
        ih hnd', List.map_cons, restrict_cons_of_some h, List.append_assoc, List.singleton_append]

/-- Of the layout a graph is written with, the places of its steps are read. -/
theorem ofGraphValue_toValue {g : Graph} (hg : g.Readable) (hl : layout.IsReal) :
    ofGraphValue (g.toValue layout) = .ok (layout.restrict g.ids) := by
  have hnd : (Assoc.keys ([] : Layout) ++ g.nodes.map Node.id).Nodup := hg.ids_nodup
  exact ofNodes_toValue hl hnd

/-! ## Places that were read -/

/-- Reading a step adds at most its place, which is one of doubles. -/
theorem ofNodes_cons_eq_ok {ms : Config} {rest : List Value}
    (hid : Assoc.find? "id" ms = some (.text id)) (hnew : Assoc.find? id found = none)
    (h : ofNodes found (.object ms :: rest) = .ok layout) :
    ofNodes found rest = .ok layout ∨
      ∃ p : Position, p.IsReal ∧ ofNodes (found ++ [(id, p)]) rest = .ok layout := by
  have hid : (Value.object ms).field? "id" = some (.text id) := hid
  rw [ofNodes, hid] at h
  cases hposition : (Value.object ms).field? "position" with
  | none =>
    rw [hposition] at h
    exact .inl h
  | some position =>
    rw [hposition] at h
    by_cases ht : position.isTruthy = true
    · cases hp : Position.ofValue position id with
      | error e => simp [ht, hp] at h
      | ok p =>
        simp only [ht, hp, hnew, Option.isSome_none, if_true, Bool.false_eq_true, if_false] at h
        exact .inr ⟨p, Position.isReal_of_ofValue hp, h⟩
    · simp only [ht, if_false, Bool.false_eq_true] at h
      exact .inl h

/-- Both readers go through the same steps, and no place is found but for a step that is. -/
theorem ofNodes_eq_ok {earlier ns : List Node} {raws : List Value} (hf : found.IsReal)
    (hfrom : (Assoc.keys found).Sublist (earlier.map Node.id))
    (hn : Node.allOfValues earlier raws = .ok ns) (h : ofNodes found raws = .ok layout) :
    layout.IsReal ∧ (Assoc.keys layout).Sublist (ns.map Node.id) := by
  induction raws generalizing earlier found with
  | nil =>
    obtain rfl := Except.ok.inj hn
    obtain rfl := Except.ok.inj h
    exact ⟨hf, hfrom⟩
  | cons raw rest ih =>
    obtain ⟨n, hread, hrest⟩ := bind_eq_ok.1 hn
    obtain ⟨-, hfresh, ms, rfl, hid, -⟩ := Node.ofValue_eq_ok hread
    have hnew : Assoc.find? n.id found = none :=
      Assoc.find?_eq_none_iff.2 fun hmem => hfresh (hfrom.subset hmem)
    have hids : (earlier ++ [n]).map Node.id = earlier.map Node.id ++ [n.id] := List.map_append
    rcases ofNodes_cons_eq_ok hid hnew h with h | ⟨p, hp, h⟩
    · refine ih hf ?_ hrest h
      rw [hids]
      exact hfrom.trans (List.sublist_append_left _ _)
    · refine ih ?_ ?_ hrest h
      · intro e he
        rcases List.mem_append.1 he with he | he
        · exact hf e he
        · obtain rfl := List.mem_singleton.1 he
          exact hp
      · rw [hids, Assoc.keys, List.map_append]
        exact hfrom.append (List.Sublist.refl [n.id])

theorem ofGraphValue_of_requireLists {subject : String} {raw : Value} {nodes edges : List Value}
    (h : requireLists subject raw = .ok (nodes, edges)) :
    ofGraphValue raw = ofNodes [] nodes := by
  obtain ⟨ms, rfl, hnodes, -⟩ := requireLists_eq_ok h
  unfold ofGraphValue
  rw [show (Value.object ms).field? "nodes" = Assoc.find? "nodes" ms from rfl]
  rcases hnodes with hk | ⟨hk, rfl⟩
  · rw [hk]
  · rw [hk]
    rfl

/-- A layout that was read with a graph holds places of its steps only, in their order. -/
theorem restrict_of_ofGraphValue {raw : Value} {g : Graph} (hg : Graph.ofValue raw = .ok g)
    (h : ofGraphValue raw = .ok layout) : layout.IsReal ∧ layout.restrict g.ids = layout := by
  obtain ⟨nodes, edges, hlists, hn⟩ := Graph.ofValue_eq_ok hg
  rw [ofGraphValue_of_requireLists hlists] at h
  have hreal : IsReal [] := fun e he => absurd he List.not_mem_nil
  have hfrom : (Assoc.keys ([] : Layout)).Sublist (([] : List Node).map Node.id) :=
    List.Sublist.slnil
  obtain ⟨hreal, hsub⟩ := ofNodes_eq_ok hreal hfrom hn h
  exact ⟨hreal, restrict_eq_self (Graph.readable_of_ofValue hg).ids_nodup hsub⟩

end Layout

/-! ## Unchecked graphs that can be read back -/

/-- Each step is filed under its identifier, which is a text that is not empty, its kind is
known, its settings are an object, and what should be a text is one. -/
structure Sketch.Regular (s : Sketch) : Prop where
  keys_nodup : s.keys.Nodup
  nodes : ∀ e ∈ s.nodes, ∃ (id : String) (kind : NodeKind) (name : String) (config : Config),
    id.isEmpty = false ∧
      e = (.text id, ⟨.text id, .text (Named.name kind), .text name, .object config⟩)
  edges : ∀ e ∈ s.edges, ∃ (source target : String) (condition : Option String),
    e = ⟨.text source, .text target, .ofText? condition⟩

theorem Sketch.Regular.exists_graph {s : Sketch} (h : s.Regular) :
    ∃ g : Graph, g.Readable ∧ g.sketch = s := by
  obtain ⟨entries, transitions⟩ := s
  have hnodes : entries ∈ Set.range (List.map fun n : Node => (Value.text n.id, n.sketch)) := by
    rw [Set.range_list_map]
    intro e he
    obtain ⟨id, kind, name, config, -, rfl⟩ := h.nodes e he
    exact ⟨⟨id, kind, name, config⟩, rfl⟩
  have hedges : transitions ∈ Set.range (List.map Edge.sketch) := by
    rw [Set.range_list_map]
    intro e he
    obtain ⟨source, target, condition, rfl⟩ := h.edges e he
    exact ⟨⟨source, target, condition⟩, rfl⟩
  obtain ⟨ns, rfl⟩ := hnodes
  obtain ⟨es, rfl⟩ := hedges
  refine ⟨⟨ns, es⟩, ⟨fun n hn => ?_, ?_⟩, rfl⟩
  · obtain ⟨id, kind, name, config, hid, he⟩ := h.nodes (.text n.id, n.sketch)
      (List.mem_map.2 ⟨n, hn, rfl⟩)
    rw [Value.text.inj (Prod.mk.inj he).1]
    exact hid
  · refine List.Nodup.of_map Value.text ?_
    have hkeys := h.keys_nodup
    rw [keys, Assoc.keys, List.map_map] at hkeys
    rwa [Graph.ids, List.map_map]

theorem Node.sketch_toValue (n : Node) (layout : Layout) :
    n.sketch.toValue layout = .ok (n.toValue layout) := by
  have hkind : Named.read (α := NodeKind) n.sketch.kind = .ok n.kind := by
    unfold Named.read
    rw [show n.sketch.kind = .text (Named.name n.kind) from rfl, Named.ofValue?_name_nodeKind]
  exact bind_eq_ok.2 ⟨n.kind, hkind, bind_eq_ok.2 ⟨layout.member n.id, rfl, rfl⟩⟩

/-- A checked graph is written as its sketch is. -/
theorem Graph.sketch_toValue (g : Graph) (layout : Layout) :
    g.sketch.toValue layout = .ok (g.toValue layout) := by
  have hnodes : g.sketch.nodes.mapM (fun e => e.2.toValue layout)
      = .ok (g.nodes.map (·.toValue layout)) := by
    rw [show g.sketch.nodes = g.nodes.map fun n => (.text n.id, n.sketch) from rfl, List.mapM_map]
    simp only [Function.comp_def, Node.sketch_toValue]
    exact List.mapM_pure
  refine bind_eq_ok.2 ⟨_, hnodes, ?_⟩
  have hedges : g.sketch.edges.map SketchEdge.toValue = g.edges.map Edge.toValue :=
    List.map_map
  rw [hedges]
  rfl

/-! ## Both readers -/

/-- The wire form with places is lossless.  A regular graph is read back with its steps and
transitions in their order, and of the layout it was written with what its steps have.  And what is
read of any document, graph and layout, is read again from what is written of the two. -/
theorem Graph.wire_lossless (s : Sketch) (raw : Value) (g : Graph) (layout : Layout) :
    (s.Regular → layout.IsReal →
      ∃ written g kept, s.toValue layout = .ok written ∧ Graph.ofValue written = .ok g ∧
        g.sketch = s ∧ Layout.ofGraphValue written = .ok kept ∧ (Assoc.keys kept).Nodup ∧
        ∀ id, Assoc.find? id kept = if id ∈ g.ids then Assoc.find? id layout else none) ∧
    (Graph.ofValue raw = .ok g → Layout.ofGraphValue raw = .ok layout →
      ∃ written, g.sketch.toValue layout = .ok written ∧ Graph.ofValue written = .ok g ∧
        Layout.ofGraphValue written = .ok layout) := by
  constructor
  · intro hs hl
    obtain ⟨g, hg, rfl⟩ := hs.exists_graph
    refine ⟨g.toValue layout, g, layout.restrict g.ids, Graph.sketch_toValue g layout,
      Graph.ofValue_toValue hg layout, rfl, Layout.ofGraphValue_toValue hg hl, ?_,
      Layout.find?_restrict layout g.ids⟩
    exact hg.ids_nodup.sublist (Layout.keys_restrict_sublist layout g.ids)
  · intro hg h
    have hreadable : g.Readable := Graph.readable_of_ofValue hg
    obtain ⟨hreal, hself⟩ := Layout.restrict_of_ofGraphValue hg h
    refine ⟨g.toValue layout, Graph.sketch_toValue g layout,
      Graph.ofValue_toValue hreadable layout, ?_⟩
    rw [Layout.ofGraphValue_toValue hreadable hreal, hself]

/-- Two steps, of which the second has a place. -/
def letterThenWait : Graph where
  nodes := [⟨"letter", .action, "Letter", [("action_kind", .text "mail")]⟩, ⟨"wait", .delay, "", []⟩]
  edges := [⟨"letter", "wait", none⟩]

/-- The place of the second step, after that of a step that is gone. -/
def strayLayout : Layout :=
  [("gone", ⟨.float (.zero false), .float (.zero true)⟩),
    ("wait", ⟨.float ⟨false, 2 ^ 52, -50⟩, .float (.zero true)⟩)]

/-- No names, no settings, a place of integers and an empty one. -/
def sparseDocument : Value :=
  .object [("nodes", .list [
    .object [("position", .object [("x", .int 4), ("y", .int 0)]), ("id", .text "letter"),
      ("type", .text "action"), ("config", .null)],
    .object [("id", .text "wait"), ("type", .text "delay"), ("position", .object [])]])]

theorem Graph.wire_lossless_sparse :
    (letterThenWait.sketch.Regular ∧ strayLayout.IsReal ∧
      ∃ written g kept, letterThenWait.sketch.toValue strayLayout = .ok written ∧
        Graph.ofValue written = .ok g ∧ g.sketch = letterThenWait.sketch ∧
        Layout.ofGraphValue written = .ok kept ∧ (Assoc.keys kept).Nodup ∧
        ∀ id, Assoc.find? id kept = if id ∈ g.ids then Assoc.find? id strayLayout else none) ∧
    ∃ g layout, Graph.ofValue sparseDocument = .ok g ∧
      Layout.ofGraphValue sparseDocument = .ok layout ∧ layout ≠ [] ∧
      ∃ written, g.sketch.toValue layout = .ok written ∧ written ≠ sparseDocument ∧
        Graph.ofValue written = .ok g ∧ Layout.ofGraphValue written = .ok layout := by
  have hs : letterThenWait.sketch.Regular := by
    refine ⟨by decide, ?_, ?_⟩
    · rintro e (_ | ⟨_, _ | ⟨_, ⟨⟩⟩⟩)
      · exact ⟨"letter", .action, "Letter", _, rfl, rfl⟩
      · exact ⟨"wait", .delay, "", [], rfl, rfl⟩
    · rintro e (_ | ⟨_, ⟨⟩⟩)
      exact ⟨"letter", "wait", none, rfl⟩
  have hl : strayLayout.IsReal := by
    rintro e (_ | ⟨_, _ | ⟨_, ⟨⟩⟩⟩) <;> exact ⟨_, _, rfl⟩
  have hg : Graph.ofValue sparseDocument =
      .ok ⟨[⟨"letter", .action, "", []⟩, ⟨"wait", .delay, "", []⟩], []⟩ := by decide
  have hp : Layout.ofGraphValue sparseDocument =
      .ok [("letter", ⟨.float ⟨false, 2 ^ 52, -50⟩, .float (.zero false)⟩)] := by decide
  obtain ⟨written, hw, hgraph, hlayout⟩ := (Graph.wire_lossless letterThenWait.sketch _ _ _).2 hg hp
  refine ⟨⟨hs, hl, (Graph.wire_lossless letterThenWait.sketch .null letterThenWait _).1 hs hl⟩,
    _, _, hg, hp, List.cons_ne_nil _ _, written, hw, ?_, hgraph, hlayout⟩
  rintro rfl
  exact absurd hw (by decide)

end Workflow
