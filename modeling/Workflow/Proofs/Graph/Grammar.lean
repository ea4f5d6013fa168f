import Mathlib.Algebra.Group.Int.Defs
import Workflow.Proofs.Blame
import Workflow.Proofs.Graph.Reading

/-!
# The grammar of the wire form

A graph is written as an object with a list of steps and a list of transitions.  The
grammar says of each what its members may be and what a missing one stands for; no
identifier may come twice.  The reader accepts what the grammar admits and nothing
else.  Of any other document it blames the first element with which the elements so
far no longer fit the grammar, steps before transitions.

    a step is read ↔ it is spelled, and its identifier is new       (Node.ofValue_eq_ok_iff)
    a transition is read ↔ it is spelled                            (Edge.ofValue_eq_ok_iff)
    what is read of a document, or what is blamed in it             (Graph.ofValueBounded_decides)
-/

namespace Workflow

/-! ## Spellings -/

/-- The words for the kinds of steps. -/
def kindWords : List (String × NodeKind) :=
  [("action", .action), ("condition", .condition), ("delay", .delay), ("split", .split)]

/-- An object that spells a step.  A name that is missing is empty, and so are settings that
are missing or null. -/
inductive Node.Spelled : Value → Node → Prop where
  | object {ms : Config} {n : Node}
    (id : Assoc.find? "id" ms = some (.text n.id)) (filled : n.id ≠ "")
    (kind : ∃ word, Assoc.find? "type" ms = some (.text word) ∧ (word, n.kind) ∈ kindWords)
    (name : Assoc.find? "name" ms = some (.text n.name) ∨
      Assoc.find? "name" ms = none ∧ n.name = "")
    (config : Assoc.find? "config" ms = some (.object n.config) ∨
      (Assoc.find? "config" ms = none ∨ Assoc.find? "config" ms = some .null) ∧ n.config = []) :
    Spelled (.object ms) n

/-- An object that spells a transition, without a guard if that is missing or null. -/
inductive Edge.Spelled : Value → Edge → Prop where
  | object {ms : Config} {e : Edge}
    (source : Assoc.find? "from" ms = some (.text e.source))
    (target : Assoc.find? "to" ms = some (.text e.target))
    (condition : IsOptionalText (Assoc.find? "condition" ms) e.condition) :
    Spelled (.object ms) e

/-- The list under a key, which is empty if it is missing. -/
def ListUnder (key : String) (ms : Config) (items : List Value) : Prop :=
  Assoc.find? key ms = some (.list items) ∨ Assoc.find? key ms = none ∧ items = []

/-- An object with a list of steps and a list of transitions. -/
inductive Graph.HasLists : Value → List Value → List Value → Prop where
  | object {ms : Config} {nodes edges : List Value} (hn : ListUnder "nodes" ms nodes)
    (he : ListUnder "edges" ms edges) : HasLists (.object ms) nodes edges

/-- A document that spells a graph, step by step and transition by transition. -/
inductive Graph.Spelled (raw : Value) (g : Graph) : Prop where
  | lists {nodes edges : List Value} (h : HasLists raw nodes edges)
    (hn : List.Forall₂ Node.Spelled nodes g.nodes) (hids : (g.nodes.map Node.id).Nodup)
    (he : List.Forall₂ Edge.Spelled edges g.edges)

/-! ## Blame -/

/-- Steps that can stand in one graph. -/
def AreNodes (raws : List Value) : Prop :=
  ∃ ns, List.Forall₂ Node.Spelled raws ns ∧ (ns.map Node.id).Nodup

def AreEdges (raws : List Value) : Prop := ∃ es, List.Forall₂ Edge.Spelled raws es

/-- What is blamed in a document that spells no graph: no element if it has not two lists, or
else the first step that does not fit, by its place if it has no identifier, or else the first
transition that does not fit, by its place. -/
inductive Graph.Blames (raw : Value) : Option Value → Prop where
  | shape (h : ∀ nodes edges, ¬ HasLists raw nodes edges) : Blames raw none
  | place {nodes edges before : List Value} {v : Value} (h : HasLists raw nodes edges)
    (hv : FirstOffender AreNodes nodes before v)
    (hid : ∀ id, v.field? "id" = some (.text id) → id = "") :
    Blames raw (some (.text ("node " ++ Nat.repr before.length)))
  | node {nodes edges before : List Value} {v : Value} {id : String}
    (h : HasLists raw nodes edges) (hv : FirstOffender AreNodes nodes before v)
    (hid : v.field? "id" = some (.text id)) (hne : id ≠ "") :
    Blames raw (some (.text id))
  | edge {nodes edges before : List Value} {v : Value} (h : HasLists raw nodes edges)
    (hn : AreNodes nodes) (hv : FirstOffender AreEdges edges before v) :
    Blames raw (some (.text ("edge " ++ Nat.repr before.length)))

/-- The first step that does not fit has `v` as its kind. -/
inductive Graph.MisnamesKind (raw v : Value) : Prop where
  | step {nodes edges before : List Value} {node : Value} (h : HasLists raw nodes edges)
    (hv : FirstOffender AreNodes nodes before node) (kind : node.field? "type" = some v)

/-! ## Members -/

section

variable {ms : Config} {subject id : String} {element : Option Value} {Shown : Value → Prop}

theorem mem_kindWords_iff {word : String} {kind : NodeKind} :
    (word, kind) ∈ kindWords ↔ word = Named.name kind := by
  cases kind <;> simp [kindWords, Named.name]

/-- What is missing is no kind. -/
theorem requireKind_getD_eq_ok_iff {v : Option Value} {kind : NodeKind} :
    requireKind (v.getD .null) id = .ok kind ↔
      ∃ word, v = some (.text word) ∧ (word, kind) ∈ kindWords := by
  have hnamed {w : Value} : requireKind w id = .ok kind ↔ w = .text (Named.name kind) := by
    unfold requireKind
    constructor
    · intro h
      split at h
      next k hk =>
        obtain rfl := Except.ok.inj h
        exact Named.ofValue?_eq_some hk
      · cases h
    · rintro rfl
      rw [Named.ofValue?_name_nodeKind]
  simp only [mem_kindWords_iff, hnamed, exists_eq_right]
  cases v <;> simp

theorem requireText_getD_eq_ok_iff {v : Option Value} {s : String} :
    requireText (some (v.getD (.text ""))) subject element = .ok s ↔
      v = some (.text s) ∨ v = none ∧ s = "" := by
  rw [requireText_eq_ok_iff, Option.some.injEq]
  cases v <;> simp [eq_comm]

theorem Node.configOf_eq_ok_iff {config : Config} : Node.configOf ms id = .ok config ↔
    Assoc.find? "config" ms = some (.object config) ∨
      (Assoc.find? "config" ms = none ∨ Assoc.find? "config" ms = some .null) ∧ config = [] := by
  unfold Node.configOf
  cases Assoc.find? "config" ms with
  | none => simp [eq_comm]
  | some v => cases v <;> simp [misshapen, eq_comm]

theorem Node.configOf_refusesAt (ms : Config) (id : String) :
    RefusesAt (some (.text id)) Shown (Node.configOf ms id) := by
  unfold Node.configOf
  split
  · exact .ok _
  · exact .ok _
  · exact .ok _
  · exact .misshapen ..

theorem requireLists_eq_ok_iff {raw : Value} {nodes edges : List Value} :
    requireLists subject raw = .ok (nodes, edges) ↔ Graph.HasLists raw nodes edges := by
  constructor
  · intro h
    obtain ⟨ms, rfl, hn, he⟩ := requireLists_eq_ok h
    exact .object hn he
  · rintro ⟨hn, he⟩
    have hlist {ms : Config} {key : String} {items : List Value} (h : ListUnder key ms items) :
        (Assoc.find? key ms).getD (.list []) = .list items := by
      rcases h with h | ⟨h, rfl⟩ <;> simp [h]
    unfold requireLists
    simp only [hlist hn, hlist he]

theorem requireLists_refusesAt (subject : String) (raw : Value) :
    RefusesAt none Shown (requireLists subject raw) := by
  unfold requireLists
  split
  · split
    · exact .ok _
    · exact .misshapen ..
  · exact .misshapen ..

end

/-! ## Steps -/

/-- What a step is blamed by: its identifier, or its place if it has none. -/
def Node.blamed (index : Nat) (raw : Value) : Option Value :=
  match raw.field? "id" with
  | some (.text id) => if id.isEmpty then placeOf "node" index else some (.text id)
  | _ => placeOf "node" index

/-- The members of a step after its identifier, in the order in which they are looked at. -/
def Node.ofSettings (ms : Config) (id : String) : Except Error Node := do
  let config ← Node.configOf ms id
  let kind ← requireKind ((Assoc.find? "type" ms).getD .null) id
  let name ← requireText (some ((Assoc.find? "name" ms).getD (.text ""))) "Node 'name'"
    (some (.text id))
  pure ⟨id, kind, name, config⟩

theorem Node.ofSettings_eq_ok_iff {ms : Config} {id : String} {n : Node}
    (hid : Assoc.find? "id" ms = some (.text id)) (hne : id ≠ "") :
    Node.ofSettings ms id = .ok n ↔ n.id = id ∧ Node.Spelled (.object ms) n := by
  constructor
  · intro h
    obtain ⟨config, hc, h⟩ := bind_eq_ok.1 h
    obtain ⟨kind, hk, h⟩ := bind_eq_ok.1 h
    obtain ⟨name, hn, h⟩ := bind_eq_ok.1 h
    obtain rfl := pure_eq_ok.1 h
    exact ⟨rfl, .object hid hne (requireKind_getD_eq_ok_iff.1 hk)
      (requireText_getD_eq_ok_iff.1 hn) (Node.configOf_eq_ok_iff.1 hc)⟩
  · rintro ⟨rfl, -, -, hkind, hname, hconfig⟩
    exact bind_eq_ok.2 ⟨n.config, Node.configOf_eq_ok_iff.2 hconfig,
      bind_eq_ok.2 ⟨n.kind, requireKind_getD_eq_ok_iff.2 hkind,
        bind_eq_ok.2 ⟨n.name, requireText_getD_eq_ok_iff.2 hname, rfl⟩⟩⟩

/-- What a message may show of a step: what stands as its kind. -/
def Node.ShowsKind (raw v : Value) : Prop := v = (raw.field? "type").getD .null

theorem Node.ofSettings_refusesAt (ms : Config) (id : String) :
    RefusesAt (some (.text id)) (Node.ShowsKind (.object ms)) (Node.ofSettings ms id) := by
  have hkind : Node.ShowsKind (.object ms) ((Assoc.find? "type" ms).getD .null) := rfl
  refine (Node.configOf_refusesAt ms id).bind fun config _ => ?_
  refine (requireKind_refusesAt hkind id).bind fun kind _ => ?_
  exact (requireText_refusesAt ..).bind fun name _ => .ok _

theorem Node.ofValue_eq_ok_iff {earlier : List Node} {index : Nat} {raw : Value} {n : Node} :
    Node.ofValue earlier index raw = .ok n ↔
      Node.Spelled raw n ∧ n.id ∉ earlier.map Node.id := by
  constructor
  · intro h
    obtain ⟨hne, hnew, ms, rfl, hid, -⟩ := Node.ofValue_eq_ok h
    refine ⟨?_, hnew⟩
    unfold Node.ofValue at h
    simp only [hid, hne, Node.any_id_eq_false hnew] at h
    exact ((Node.ofSettings_eq_ok_iff hid (by simpa using hne)).1 h).2
  · rintro ⟨⟨hid, hne, hkind, hname, hconfig⟩, hnew⟩
    have hempty : n.id.isEmpty = false := by simpa using hne
    unfold Node.ofValue
    simp only [hid, hempty, Node.any_id_eq_false hnew]
    exact (Node.ofSettings_eq_ok_iff hid hne).2 ⟨rfl, .object hid hne hkind hname hconfig⟩

theorem Node.ofValue_refusesAt (earlier : List Node) (index : Nat) (raw : Value) :
    RefusesAt (Node.blamed index raw) (Node.ShowsKind raw) (Node.ofValue earlier index raw) := by
  unfold Node.ofValue
  split
  next ms =>
    split
    next id hid =>
      have hfield : (Value.object ms).field? "id" = some (.text id) := hid
      unfold Node.blamed
      simp only [hfield]
      split
      · exact .misshapen ..
      · split
        · exact .malformed _ nofun
        · exact Node.ofSettings_refusesAt ms id
    next hid =>
      have hplace : Node.blamed index (.object ms) = placeOf "node" index := by
        unfold Node.blamed
        split
        next id h => exact absurd h (hid id)
        · rfl
      rw [hplace]
      exact .misshapen ..
  next hobject =>
    have hplace : Node.blamed index raw = placeOf "node" index := by
      cases raw with
      | object ms => exact absurd rfl (hobject ms)
      | _ => rfl
    rw [hplace]
    exact .misshapen ..

theorem Node.gathers_allOfValues :
    Gathers Node.allOfValues fun earlier raw => Node.ofValue earlier earlier.length raw :=
  ⟨fun _ => rfl, fun _ _ _ => rfl⟩

theorem Node.allOfValues_eq_ok_iff {raws : List Value} {ns : List Node} :
    Node.allOfValues [] raws = .ok ns ↔
      List.Forall₂ Node.Spelled raws ns ∧ (ns.map Node.id).Nodup := by
  have hnil : (([] : List Node).map Node.id).Nodup := List.nodup_nil
  rw [Node.gathers_allOfValues.eq_ok_iff (fun _ _ _ => Node.ofValue_eq_ok_iff) hnil]
  simp

/-! ## Transitions -/

theorem Edge.ofValue_eq_ok_iff {index : Nat} {raw : Value} {e : Edge} :
    Edge.ofValue index raw = .ok e ↔ Edge.Spelled raw e := by
  constructor
  · intro h
    unfold Edge.ofValue at h
    split at h
    · obtain ⟨condition, hc, h⟩ := bind_eq_ok.1 h
      obtain ⟨source, hs, h⟩ := bind_eq_ok.1 h
      obtain ⟨target, ht, h⟩ := bind_eq_ok.1 h
      obtain rfl := pure_eq_ok.1 h
      exact .object (requireText_eq_ok_iff.1 hs) (requireText_eq_ok_iff.1 ht)
        (optionalText_eq_ok_iff.1 hc)
    · cases h
  · rintro ⟨hs, ht, hc⟩
    exact bind_eq_ok.2 ⟨e.condition, optionalText_eq_ok_iff.2 hc,
      bind_eq_ok.2 ⟨e.source, requireText_eq_ok_iff.2 hs,
        bind_eq_ok.2 ⟨e.target, requireText_eq_ok_iff.2 ht, rfl⟩⟩⟩

theorem Edge.ofValue_refusesAt (index : Nat) (raw : Value) :
    RefusesAt (placeOf "edge" index) (fun _ => False) (Edge.ofValue index raw) := by
  unfold Edge.ofValue
  split
  next ms =>
    refine (optionalText_refusesAt ..).bind fun condition _ => ?_
    refine (requireText_refusesAt ..).bind fun source _ => ?_
    exact (requireText_refusesAt ..).bind fun target _ => .ok _
  · exact .misshapen ..

theorem Edge.counts_allOfValues : Counts Edge.allOfValues Edge.ofValue :=
  ⟨fun _ => rfl, fun _ _ _ => rfl⟩

theorem Edge.allOfValues_eq_ok_iff {index : Nat} {raws : List Value} {es : List Edge} :
    Edge.allOfValues index raws = .ok es ↔ List.Forall₂ Edge.Spelled raws es :=
  Edge.counts_allOfValues.eq_ok_iff fun _ _ _ => Edge.ofValue_eq_ok_iff

/-! ## Graphs -/

namespace Graph

variable {raw : Value} {g : Graph}

theorem ofValue_eq_ok_iff : Graph.ofValue raw = .ok g ↔ Spelled raw g := by
  constructor
  · intro h
    obtain ⟨⟨nodes, edges⟩, hl, h⟩ := bind_eq_ok.1 h
    obtain ⟨ns, hn, h⟩ := bind_eq_ok.1 h
    obtain ⟨es, he, h⟩ := bind_eq_ok.1 h
    obtain rfl := pure_eq_ok.1 h
    obtain ⟨hn, hids⟩ := Node.allOfValues_eq_ok_iff.1 hn
    exact ⟨requireLists_eq_ok_iff.1 hl, hn, hids, Edge.allOfValues_eq_ok_iff.1 he⟩
  · rintro ⟨hl, hn, hids, he⟩
    exact bind_eq_ok.2 ⟨_, requireLists_eq_ok_iff.2 hl,
      bind_eq_ok.2 ⟨_, Node.allOfValues_eq_ok_iff.2 ⟨hn, hids⟩,
        bind_eq_ok.2 ⟨_, Edge.allOfValues_eq_ok_iff.2 he, rfl⟩⟩⟩

theorem HasLists.unique {nodes edges nodes' edges' : List Value} (h : HasLists raw nodes edges)
    (h' : HasLists raw nodes' edges') : nodes = nodes' ∧ edges = edges' := by
  have hl : requireLists "Graph" raw = .ok (nodes, edges) := requireLists_eq_ok_iff.2 h
  have hl' : requireLists "Graph" raw = .ok (nodes', edges') := requireLists_eq_ok_iff.2 h'
  rw [hl] at hl'
  exact Prod.mk.inj (Except.ok.inj hl')

theorem Blames.of_offender {nodes edges before : List Value} {v : Value}
    (h : HasLists raw nodes edges) (hv : FirstOffender AreNodes nodes before v) :
    Blames raw (Node.blamed before.length v) := by
  unfold Node.blamed
  split
  next id hid =>
    split
    next hempty =>
      refine .place h hv fun id' hid' => ?_
      rw [hid] at hid'
      obtain rfl := Value.text.inj (Option.some.inj hid')
      simpa using hempty
    next hfilled => exact .node h hv hid (by simpa using hfilled)
  next hnone => exact .place h hv fun id hid => absurd hid (hnone id)

/-- Whatever goes wrong, an element is to blame, and if the message shows a value, that stands as
the kind of the step that is. -/
theorem blames_of_error {e : Error} (h : Graph.ofValue raw = .error e) :
    ∃ element cause, e = .malformed element cause ∧ Blames raw element ∧
      ∀ v ∈ cause.shown, v = .null ∨ MisnamesKind raw v := by
  rcases bind_eq_error.1 h with hl | ⟨⟨nodes, edges⟩, hl, h⟩
  · have hlists : RefusesAt none (fun _ => False) (requireLists "Graph" raw) :=
      requireLists_refusesAt ..
    obtain ⟨cause, rfl, hshown⟩ := hlists.names e hl
    refine ⟨none, cause, rfl, .shape fun nodes edges hlists => ?_, fun v hv => (hshown v hv).elim⟩
    rw [requireLists_eq_ok_iff.2 hlists] at hl
    cases hl
  · rw [requireLists_eq_ok_iff] at hl
    rcases bind_eq_error.1 h with hn | ⟨ns, hn, h⟩
    · obtain ⟨before, v, bs, hv, hbefore, hstep⟩ := Node.gathers_allOfValues.firstOffender hn
      obtain ⟨cause, rfl, hshown⟩ := (Node.ofValue_refusesAt bs bs.length v).names e hstep
      have hoffends : FirstOffender AreNodes nodes before v :=
        hv.congr fun l => exists_congr fun _ => Node.allOfValues_eq_ok_iff
      refine ⟨_, cause, rfl, ?_, fun w hw => ?_⟩
      · rw [← (Node.allOfValues_eq_ok_iff.1 hbefore).1.length_eq]
        exact .of_offender hl hoffends
      · have hkind := hshown w hw
        unfold Node.ShowsKind at hkind
        cases hf : v.field? "type" with
        | none =>
          rw [hf] at hkind
          exact .inl hkind
        | some kind =>
          rw [hf] at hkind
          exact .inr ⟨hl, hoffends, hkind ▸ hf⟩
    · rcases bind_eq_error.1 h with he | ⟨es, -, h⟩
      · obtain ⟨before, v, hv, hstep⟩ := Edge.counts_allOfValues.firstOffender he
        obtain ⟨cause, rfl, hshown⟩ := (Edge.ofValue_refusesAt _ v).names e hstep
        refine ⟨_, cause, rfl, ?_, fun w hw => (hshown w hw).elim⟩
        rw [Nat.zero_add]
        exact .edge hl ⟨ns, Node.allOfValues_eq_ok_iff.1 hn⟩
          (hv.congr fun l => exists_congr fun _ => Edge.allOfValues_eq_ok_iff)
      · cases h

theorem Blames.isWritable {element : Option Value} (h : Blames raw element) :
    ∀ v ∈ element, v.isWritable = true := by
  cases h <;> rintro _ ⟨⟩ <;> rfl

end Graph

/-! ### One blame -/

theorem AreNodes.of_leading {l l' : List Value} (h : l <+: l') : AreNodes l' → AreNodes l := by
  rintro ⟨ns, hn, hids⟩
  exact ⟨_, forall₂_of_leading h hn, hids.sublist ((List.take_sublist _ _).map _)⟩

theorem AreEdges.of_leading {l l' : List Value} (h : l <+: l') : AreEdges l' → AreEdges l := by
  rintro ⟨es, he⟩
  exact ⟨_, forall₂_of_leading h he⟩

/-- A list in which an item offends is not acceptable as a whole. -/
theorem FirstOffender.not_areNodes {nodes before : List Value} {v : Value}
    (h : FirstOffender AreNodes nodes before v) : ¬ AreNodes nodes :=
  mt (AreNodes.of_leading h.leads) h.offends

namespace Graph

variable {raw : Value}

/-- A document is blamed for one element at most. -/
theorem Blames.unique {element other : Option Value} (h : Blames raw element)
    (h' : Blames raw other) : other = element := by
  cases h with
  | shape hnone =>
    cases h' with
    | shape => rfl
    | place hl | node hl | edge hl => exact absurd hl (hnone _ _)
  | place hl hv hid =>
    cases h' with
    | shape hnone => exact absurd hl (hnone _ _)
    | place hl' hv' =>
      obtain ⟨rfl, rfl⟩ := hl.unique hl'
      rw [(hv.unique AreNodes.of_leading hv').1]
    | node hl' hv' hid' hne =>
      obtain ⟨rfl, rfl⟩ := hl.unique hl'
      obtain ⟨-, rfl⟩ := hv.unique AreNodes.of_leading hv'
      exact absurd (hid _ hid') hne
    | edge hl' hn =>
      obtain ⟨rfl, rfl⟩ := hl.unique hl'
      exact absurd hn hv.not_areNodes
  | node hl hv hid hne =>
    cases h' with
    | shape hnone => exact absurd hl (hnone _ _)
    | place hl' hv' hid' =>
      obtain ⟨rfl, rfl⟩ := hl.unique hl'
      obtain ⟨-, rfl⟩ := hv.unique AreNodes.of_leading hv'
      exact absurd (hid' _ hid) hne
    | node hl' hv' hid' =>
      obtain ⟨rfl, rfl⟩ := hl.unique hl'
      obtain ⟨-, rfl⟩ := hv.unique AreNodes.of_leading hv'
      rw [hid'] at hid
      exact hid
    | edge hl' hn =>
      obtain ⟨rfl, rfl⟩ := hl.unique hl'
      exact absurd hn hv.not_areNodes
  | edge hl hn hv =>
    cases h' with
    | shape hnone => exact absurd hl (hnone _ _)
    | place hl' hv' | node hl' hv' =>
      obtain ⟨rfl, rfl⟩ := hl.unique hl'
      exact absurd hn hv'.not_areNodes
    | edge hl' hn' hv' =>
      obtain ⟨rfl, rfl⟩ := hl.unique hl'
      rw [(hv.unique AreEdges.of_leading hv').1]

/-! ## Theorem -/

/-- A document is read as the graph that it spells, and a document that spells none is refused for
the one element that is to blame; but where that is a step whose kind is a value that cannot be
written, writing the message fails. -/
theorem ofValueBounded_decides (raw : Value) :
    (∀ g, Graph.ofValueBounded raw = .ok g ↔ Spelled raw g) ∧
    ((∀ g, ¬ Spelled raw g) → ∃ element, Blames raw element ∧
      (∀ other, Blames raw other → other = element) ∧
      ((∃ cause, Graph.ofValueBounded raw = .error (.malformed element cause)) ∨
        Graph.ofValueBounded raw = .error (.faulty .unwritable) ∧
          ∃ v, MisnamesKind raw v ∧ v.isWritable = false)) := by
  refine ⟨fun g => mapError_eq_ok.trans ofValue_eq_ok_iff, fun hnone => ?_⟩
  cases h : Graph.ofValue raw with
  | ok g => exact absurd (ofValue_eq_ok_iff.1 h) (hnone g)
  | error e =>
    obtain ⟨element, cause, rfl, hb, hshown⟩ := blames_of_error h
    refine ⟨element, hb, fun other hother => hb.unique hother, ?_⟩
    have hread : Graph.ofValueBounded raw = .error (Error.worded (.malformed element cause)) := by
      unfold Graph.ofValueBounded
      rw [h]
      rfl
    rw [hread]
    rcases worded_malformed cause hb.isWritable with hw | ⟨hw, v, hv, hlong⟩
    · exact .inl ⟨cause, congrArg Except.error hw⟩
    · refine .inr ⟨congrArg Except.error hw, v, ?_, hlong⟩
      rcases hshown v hv with rfl | hkind
      · cases hlong
      · exact hkind

/-- A step without a name and without transitions. -/
def bareDocument : Value :=
  .object [("nodes", .list [
    .object [("type", .text "split"), ("id", .text "fork"), ("config", .object [("arms", .null)])]])]

/-- The second step has settings that are no object, the third has the identifier of the first,
and the transition leads from nowhere. -/
def faultyDocument : Value :=
  .object [
    ("edges", .list [.object [("to", .text "wait")]]),
    ("nodes", .list [
      .object [("id", .text "letter"), ("type", .text "action"), ("config", .null)],
      .object [("id", .text "wait"), ("type", .text "delay"), ("config", .list [])],
      .object [("id", .text "letter"), ("type", .text "delay")]])]

theorem ofValueBounded_decides_faulty :
    Spelled bareDocument ⟨[⟨"fork", .split, "", [("arms", .null)]⟩], []⟩ ∧
    (∀ g, ¬ Spelled faultyDocument g) ∧
    Graph.ofValueBounded faultyDocument =
      .error (.malformed (some (.text "wait")) (.shape "Node 'config'" "an object")) ∧
    Blames faultyDocument (some (.text "wait")) ∧
    ∀ other, Blames faultyDocument other → other = some (.text "wait") := by
  have hbare : Graph.ofValueBounded bareDocument =
      .ok ⟨[⟨"fork", .split, "", [("arms", .null)]⟩], []⟩ := by decide
  have hfaulty : Graph.ofValueBounded faultyDocument =
      .error (.malformed (some (.text "wait")) (.shape "Node 'config'" "an object")) := by decide
  obtain ⟨hread, hrefused⟩ := ofValueBounded_decides faultyDocument
  have hnone : ∀ g, ¬ Spelled faultyDocument g := by
    intro g hg
    rw [(hread g).2 hg] at hfaulty
    cases hfaulty
  obtain ⟨element, hb, hunique, hans⟩ := hrefused hnone
  obtain rfl : some (.text "wait") = element := by
    rcases hans with ⟨cause, he⟩ | ⟨he, -⟩
    · exact (Error.malformed.inj (Except.error.inj (hfaulty.symm.trans he))).1
    · cases hfaulty.symm.trans he
  exact ⟨((ofValueBounded_decides bareDocument).1 _).1 hbare, hnone, hfaulty, hb, hunique⟩

/-- A step with a number for its kind. -/
def numberedKind (n : Int) : Value :=
  .object [("nodes", .list [.object [("id", .text "wait"), ("type", .int n)]])]

/-- The step is to blame, but a number of too many digits cannot be shown, so it is not named. -/
theorem numberedKind_unnamed : Blames (numberedKind (10 ^ 4300)) (some (.text "wait")) ∧
    Graph.ofValueBounded (numberedKind (10 ^ 4300)) = .error (.faulty .unwritable) := by
  have hread : Graph.ofValue (numberedKind (10 ^ 4300)) =
      .error (.malformed (some (.text "wait")) (.unknownNodeKind (.int (10 ^ 4300)))) := rfl
  obtain ⟨element, cause, he, hb, -⟩ := blames_of_error hread
  obtain ⟨rfl, -⟩ := Error.malformed.inj he
  refine ⟨hb, ?_⟩
  unfold Graph.ofValueBounded
  rw [hread]
  decide +kernel

end Graph

end Workflow
