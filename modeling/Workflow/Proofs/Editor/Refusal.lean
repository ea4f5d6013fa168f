import Workflow.Editor.Draft
import Workflow.Proofs.Except
import Workflow.Proofs.Number.Range
import Workflow.Trigger

/-!
# How reading a document fails

Reading a graph, a trigger or an editor graph and compiling what was read fail by
naming an element that is malformed, whatever the document is.  Places are the
exception: a coordinate is turned into a double, and an integer beyond the doubles
has none.

    Graph.ofValue, Trigger.ofValue, Draft.compile refuse      (ofValue_refuses, compile_refuses)
    Layout.ofGraphValue, Editor.Graph.ofValue refuse unless the first node at which they
      stop is placed beyond the doubles                       (ofGraphValue_refusesUnless,
                                                               ofValue_refusesUnless)
-/

namespace Workflow

variable {α β : Type}

/-! ## Refusing -/

/-- An element of the document is malformed. -/
def Error.IsRefusal (e : Error) : Prop := ∃ element cause, e = .malformed element cause

/-- Whatever goes wrong, the document is refused. -/
structure Refuses (x : Except Error α) : Prop where
  isRefusal : ∀ e, x = .error e → e.IsRefusal

/-- The document is refused whatever goes wrong, unless a place in it is beyond the doubles:
then that is the error. -/
structure RefusesUnless (far : Prop) (x : Except Error α) : Prop where
  overflows : far → x = .error (.faulty .integerTooLarge)
  refuses : ¬ far → Refuses x

namespace Refuses

theorem ok (a : α) : Refuses (.ok a) := ⟨nofun⟩

theorem malformed (element : Option Value) (cause : Malformation) :
    Refuses (.error (.malformed element cause) : Except Error α) := by
  constructor
  rintro e ⟨⟩
  exact ⟨element, cause, rfl⟩

theorem misshapen (element : Option Value) (subject expected : String) :
    Refuses (misshapen element subject expected : Except Error α) :=
  malformed element _

theorem bind {x : Except Error α} {f : α → Except Error β} (hx : Refuses x)
    (hf : ∀ a, x = .ok a → Refuses (f a)) : Refuses (x >>= f) := by
  cases x with
  | error e =>
    constructor
    intro e' h
    cases h
    exact hx.isRefusal e rfl
  | ok a => exact hf a rfl

/-- Where no place is too far, refusing is all that can happen. -/
theorem notFar {x : Except Error α} {far : Prop} (hx : Refuses x) (h : ¬ far) :
    RefusesUnless far x :=
  ⟨fun hf => absurd hf h, fun _ => hx⟩

end Refuses

namespace RefusesUnless

variable {far far' : Prop}

theorem congr {x : Except Error α} (hx : RefusesUnless far x) (h : far' ↔ far) :
    RefusesUnless far' x :=
  ⟨fun hf => hx.overflows (h.1 hf), fun hf => hx.refuses (mt h.2 hf)⟩

/-- One read after the other: the first may meet a place, and if it succeeds the second. -/
theorem bind {x : Except Error α} {f : α → Except Error β} {later : α → Prop}
    (hx : RefusesUnless far x) (hf : ∀ a, x = .ok a → RefusesUnless (later a) (f a)) :
    RefusesUnless (far ∨ ∃ a, x = .ok a ∧ later a) (x >>= f) := by
  cases x with
  | error e =>
    constructor
    · rintro (h | ⟨a, ha, -⟩)
      · cases hx.overflows h
        rfl
      · cases ha
    · intro h
      exact (hx.refuses fun hfar => h (.inl hfar)).bind nofun
  | ok a =>
    have hfar : ¬ far := fun h => nomatch hx.overflows h
    refine (hf a rfl).congr ⟨?_, fun h => .inr ⟨a, rfl, h⟩⟩
    rintro (h | ⟨a', ha', h⟩)
    · exact absurd h hfar
    · exact Except.ok.inj ha' ▸ h

/-- What is done with what was read only refuses. -/
theorem bindRefuses {x : Except Error α} {f : α → Except Error β} (hx : RefusesUnless far x)
    (hf : ∀ a, x = .ok a → Refuses (f a)) : RefusesUnless far (x >>= f) :=
  (hx.bind fun a ha => (hf a ha).notFar id).congr
    ⟨.inl, fun h => h.elim id fun ⟨_, _, hfalse⟩ => hfalse.elim⟩

end RefusesUnless

/-- What comes first only refuses; what is read then may meet a place. -/
theorem Refuses.bindUnless {x : Except Error α} {f : α → Except Error β} {later : α → Prop}
    (hx : Refuses x) (hf : ∀ a, x = .ok a → RefusesUnless (later a) (f a)) :
    RefusesUnless (∃ a, x = .ok a ∧ later a) (x >>= f) :=
  ((hx.notFar id).bind hf).congr ⟨.inr, fun h => h.elim False.elim id⟩

/-! ## Parts of documents -/

theorem requireText_refuses (v : Option Value) (subject : String) (element : Option Value) :
    Refuses (requireText v subject element) := by
  unfold requireText
  split
  · exact .ok _
  · exact .misshapen ..

theorem requireKind_refuses (v : Value) (id : String) : Refuses (requireKind v id) := by
  unfold requireKind
  split
  · exact .ok _
  · exact .malformed ..

theorem optionalText_refuses (v : Option Value) (subject : String) (element : Option Value) :
    Refuses (optionalText v subject element) := by
  unfold optionalText
  split
  · exact .ok _
  · exact .ok _
  · exact .ok _
  · exact .misshapen ..

theorem requireLists_refuses (subject : String) (raw : Value) :
    Refuses (requireLists subject raw) := by
  unfold requireLists
  split
  · split
    · exact .ok _
    · exact .misshapen ..
  · exact .misshapen ..

theorem Duration.ofValue_refuses (v : Value) (element : Option Value) :
    Refuses (Duration.ofValue v element) := by
  simp only [Duration.ofValue]
  split
  · exact .ok _
  · exact .malformed ..

/-! ## Graphs -/

theorem Node.configOf_refuses (ms : Config) (id : String) : Refuses (Node.configOf ms id) := by
  unfold Node.configOf
  split
  · exact .ok _
  · exact .ok _
  · exact .ok _
  · exact .misshapen ..

theorem Node.ofValue_refuses (earlier : List Node) (index : Nat) (raw : Value) :
    Refuses (Node.ofValue earlier index raw) := by
  unfold Node.ofValue
  split
  next ms =>
    split
    next id hid =>
      split
      · exact .misshapen ..
      · split
        · exact .malformed ..
        · refine (Node.configOf_refuses ms id).bind fun config _ => ?_
          refine (requireKind_refuses _ id).bind fun kind _ => ?_
          exact (requireText_refuses ..).bind fun name _ => .ok _
    · exact .misshapen ..
  · exact .misshapen ..

theorem Node.allOfValues_refuses (earlier : List Node) (raws : List Value) :
    Refuses (Node.allOfValues earlier raws) := by
  induction raws generalizing earlier with
  | nil => exact .ok _
  | cons raw rest ih => exact (Node.ofValue_refuses ..).bind fun n _ => ih _

theorem Edge.ofValue_refuses (index : Nat) (raw : Value) : Refuses (Edge.ofValue index raw) := by
  simp only [Edge.ofValue]
  split
  next ms =>
    refine (optionalText_refuses ..).bind fun condition _ => ?_
    refine (requireText_refuses ..).bind fun source _ => ?_
    exact (requireText_refuses ..).bind fun target _ => .ok _
  · exact .misshapen ..

theorem Edge.allOfValues_refuses (index : Nat) (raws : List Value) :
    Refuses (Edge.allOfValues index raws) := by
  induction raws generalizing index with
  | nil => exact .ok _
  | cons raw rest ih =>
    exact (Edge.ofValue_refuses index raw).bind fun e _ => (ih _).bind fun es _ => .ok _

theorem Graph.ofValue_refuses (raw : Value) : Refuses (Graph.ofValue raw) := by
  refine (requireLists_refuses "Graph" raw).bind fun (nodes, edges) _ => ?_
  refine (Node.allOfValues_refuses [] nodes).bind fun ns _ => ?_
  exact (Edge.allOfValues_refuses 0 edges).bind fun es _ => .ok _

theorem Trigger.ofValue_refuses (raw : Value) : Refuses (Trigger.ofValue raw) := by
  simp only [Trigger.ofValue]
  split
  · split
    · split
      · exact .ok _
      · exact .malformed ..
    · split
      · split
        · exact .ok _
        · exact .malformed ..
      · exact .malformed ..
  · exact .malformed ..

/-! ## Compiling -/

namespace Editor

theorem compileData_refuses (kind : NodeKind) (id : String) (data : Config) :
    Refuses (compileData kind id data) := by
  cases kind with
  | delay =>
    show Refuses (compileDelay id data)
    simp only [compileDelay]
    split
    · exact .malformed ..
    · exact .ok _
    · exact .misshapen ..
    · exact (Duration.ofValue_refuses ..).bind fun n _ => .ok _
  | condition =>
    show Refuses (compileCondition id data)
    unfold compileCondition
    split
    · exact .ok _
    · exact .ok _
    · exact .misshapen ..
  | action => exact .ok _
  | split => exact .ok _

theorem DraftNode.compile_refuses (n : DraftNode) (earlier : List Workflow.Node) :
    Refuses (n.compile earlier) := by
  unfold DraftNode.compile DraftNode.checkedId
  refine Refuses.bind ?_ fun id _ => ?_
  · refine (requireText_refuses ..).bind fun id _ => ?_
    split
    · exact .malformed ..
    · split
      · exact .malformed ..
      · exact .ok _
  · refine (requireKind_refuses _ id).bind fun kind _ => ?_
    refine (requireText_refuses ..).bind fun name _ => ?_
    split
    · exact (compileData_refuses kind id _).bind fun config _ => .ok _
    · exact .misshapen ..

theorem DraftNode.compileAll_refuses (earlier : List Workflow.Node) (ns : List DraftNode) :
    Refuses (DraftNode.compileAll earlier ns) := by
  induction ns generalizing earlier with
  | nil => exact .ok _
  | cons n rest ih => exact (n.compile_refuses earlier).bind fun m _ => ih _

theorem DraftEdge.compileAll_refuses (index : Nat) (es : List DraftEdge) :
    Refuses (DraftEdge.compileAll index es) := by
  induction es generalizing index with
  | nil => exact .ok _
  | cons e rest ih =>
    refine Refuses.bind ?_ fun e' _ => (ih _).bind fun es' _ => .ok _
    refine (requireText_refuses ..).bind fun source _ => ?_
    refine (requireText_refuses ..).bind fun target _ => ?_
    exact (optionalText_refuses ..).bind fun label _ => .ok _

theorem Draft.compile_refuses (d : Draft) : Refuses d.compile := by
  refine (DraftNode.compileAll_refuses [] d.nodes).bind fun ns _ => ?_
  exact (DraftEdge.compileAll_refuses 0 d.edges).bind fun es _ => .ok _

end Editor

/-! ## Places -/

/-- An integer beyond the doubles. -/
def Number.TooLarge (n : Number) : Prop := ∃ k, n = .int k ∧ Binary64.overflow ≤ k.natAbs

/-- A place of two numbers, one of which is an integer beyond the doubles. -/
def Position.TooLarge (raw : Value) : Prop :=
  ∃ ms x y, raw = .object ms ∧ (Assoc.find? "x" ms).bind Value.number? = some x ∧
    (Assoc.find? "y" ms).bind Value.number? = some y ∧ (x.TooLarge ∨ y.TooLarge)

theorem Number.toFloat?_eq_none_iff (n : Number) : n.toFloat? = none ↔ n.TooLarge := by
  cases n with
  | int k =>
    rw [Number.toFloat?, Binary64.ofInt?_eq_none_iff]
    exact ⟨fun h => ⟨k, rfl, h⟩, fun ⟨_, hk, h⟩ => Number.int.inj hk ▸ h⟩
  | float x => exact iff_of_false nofun nofun

theorem Position.tooLarge_object {ms : Config} {x y : Number}
    (hx : (Assoc.find? "x" ms).bind Value.number? = some x)
    (hy : (Assoc.find? "y" ms).bind Value.number? = some y) :
    Position.TooLarge (.object ms) ↔ x.toFloat? = none ∨ y.toFloat? = none := by
  rw [x.toFloat?_eq_none_iff, y.toFloat?_eq_none_iff]
  constructor
  · rintro ⟨ms', x', y', he, hx', hy', h⟩
    obtain rfl := Value.object.inj he
    obtain rfl := Option.some.inj (hx.symm.trans hx')
    obtain rfl := Option.some.inj (hy.symm.trans hy')
    exact h
  · intro h
    exact ⟨ms, x, y, rfl, hx, hy, h⟩

theorem Position.ofValue_refusesUnless (raw : Value) (id : String) :
    RefusesUnless (Position.TooLarge raw) (Position.ofValue raw id) := by
  simp only [Position.ofValue]
  split
  next ms =>
    split
    next x y hx hy =>
      rw [Position.tooLarge_object hx hy]
      constructor
      · rintro (h | h)
        · rw [h]
        · rw [h]
          split
          · contradiction
          · rfl
      · intro h
        split
        · exact .ok _
        next hnone =>
          obtain ⟨u, hu⟩ := Option.ne_none_iff_exists'.1 fun he => h (.inl he)
          obtain ⟨v, hv⟩ := Option.ne_none_iff_exists'.1 fun he => h (.inr he)
          exact absurd hv (hnone u v hu)
    next hnone =>
      refine (Refuses.misshapen ..).notFar ?_
      rintro ⟨ms', x, y, he, hx, hy, -⟩
      obtain rfl := Value.object.inj he
      exact hnone x y hx hy
  next hnot =>
    refine (Refuses.misshapen ..).notFar ?_
    rintro ⟨ms, x, y, rfl, -⟩
    exact hnot ms rfl

theorem Position.TooLarge.isTruthy {raw : Value} (h : Position.TooLarge raw) :
    raw.isTruthy = true := by
  obtain ⟨ms, x, y, rfl, hx, -⟩ := h
  cases ms with
  | nil => cases hx
  | cons e rest => rfl

/-! ## Reading places -/

/-- A node that has an identifier, and a place that is too large. -/
def Layout.Far (raw : Value) : Prop :=
  ∃ id position, raw.field? "id" = some (.text id) ∧ raw.field? "position" = some position ∧
    Position.TooLarge position

/-- The places of the nodes before some node are read, and the place of that one is too
large. -/
def Layout.MeetsFar (found : Layout) (raws : List Value) : Prop :=
  ∃ before raw after kept, raws = before ++ raw :: after ∧
    Layout.ofNodes found before = .ok kept ∧ Layout.Far raw

theorem Layout.ofNodes_cons (found : Layout) (raw : Value) (rest : List Value) :
    Layout.ofNodes found (raw :: rest) =
      Layout.ofNodes found [raw] >>= fun kept => Layout.ofNodes kept rest := by
  simp only [Layout.ofNodes]
  split
  · split
    · split <;> rfl
    · rfl
  · rfl

theorem Layout.ofNodes_singleton (found : Layout) (raw : Value) :
    RefusesUnless (Layout.Far raw) (Layout.ofNodes found [raw]) := by
  simp only [Layout.ofNodes]
  split
  next id position hid hposition =>
    have hfar : Layout.Far raw ↔ Position.TooLarge position := by
      constructor
      · rintro ⟨id', position', -, hp, h⟩
        exact Option.some.inj (hp.symm.trans hposition) ▸ h
      · intro h
        exact ⟨id, position, hid, hposition, h⟩
    have hread := Position.ofValue_refusesUnless position id
    split
    · split
      next e he =>
        rw [he] at hread
        constructor
        · intro h
          cases hread.overflows (hfar.1 h)
          rfl
        · intro h
          obtain ⟨element, cause, rfl⟩ := (hread.refuses (mt hfar.2 h)).isRefusal e rfl
          exact .malformed ..
      next p hp =>
        rw [hp] at hread
        exact (Refuses.ok _).notFar fun h => nomatch hread.overflows (hfar.1 h)
    next hfalsy =>
      exact (Refuses.ok _).notFar fun h => hfalsy (hfar.1 h).isTruthy
  next hnone =>
    exact (Refuses.ok _).notFar fun ⟨id, position, hid, hp, _⟩ => hnone id position hid hp

theorem Layout.meetsFar_cons (found : Layout) (raw : Value) (rest : List Value) :
    Layout.MeetsFar found (raw :: rest) ↔
      Layout.Far raw ∨ ∃ kept, Layout.ofNodes found [raw] = .ok kept ∧ kept.MeetsFar rest := by
  constructor
  · rintro ⟨before, far, after, kept, he, hb, hf⟩
    cases before with
    | nil =>
      obtain ⟨rfl, rfl⟩ := List.cons.inj he
      exact .inl hf
    | cons first before =>
      obtain ⟨rfl, rfl⟩ := List.cons.inj he
      rw [Layout.ofNodes_cons] at hb
      obtain ⟨kept', h, hb⟩ := bind_eq_ok.1 hb
      exact .inr ⟨kept', h, before, far, after, kept, rfl, hb, hf⟩
  · rintro (hf | ⟨kept', h, before, far, after, kept, rfl, hb, hf⟩)
    · exact ⟨[], raw, rest, found, rfl, rfl, hf⟩
    · refine ⟨raw :: before, far, after, kept, rfl, ?_, hf⟩
      rw [Layout.ofNodes_cons]
      exact bind_eq_ok.2 ⟨kept', h, hb⟩

theorem Layout.ofNodes_refusesUnless (found : Layout) (raws : List Value) :
    RefusesUnless (Layout.MeetsFar found raws) (Layout.ofNodes found raws) := by
  induction raws generalizing found with
  | nil => exact (Refuses.ok _).notFar fun ⟨before, _, _, _, h, _⟩ => by cases before <;> cases h
  | cons raw rest ih =>
    rw [Layout.ofNodes_cons]
    exact ((Layout.ofNodes_singleton found raw).bind fun kept _ => ih kept).congr
      (Layout.meetsFar_cons found raw rest)

/-- Reading the places of a graph gets as far as a place that is too large. -/
def Layout.Unplaceable (raw : Value) : Prop :=
  ∃ nodes, raw.field? "nodes" = some (.list nodes) ∧ Layout.MeetsFar [] nodes

theorem Layout.ofGraphValue_refusesUnless (raw : Value) :
    RefusesUnless (Layout.Unplaceable raw) (Layout.ofGraphValue raw) := by
  unfold Layout.ofGraphValue
  split
  next nodes hnodes =>
    refine (Layout.ofNodes_refusesUnless [] nodes).congr ⟨?_, fun h => ⟨nodes, hnodes, h⟩⟩
    rintro ⟨nodes', hnodes', h⟩
    obtain rfl := Value.list.inj (Option.some.inj (hnodes.symm.trans hnodes'))
    exact h
  next hnone =>
    exact (Refuses.ok _).notFar fun ⟨nodes, hnodes, _⟩ => hnone nodes hnodes

namespace Editor

/-- The place of a step before it is moved. -/
def origin : Value := Position.toValue ⟨.int 0, .int 0⟩

/-- A step that would be read if it stood at the origin, and whose place is too large. -/
def Node.Far (index : Nat) (raw : Value) : Prop :=
  ∃ ms position n, raw = .object ms ∧ Assoc.find? "position" ms = some position ∧
    Position.TooLarge position ∧
    Node.ofValue index (.object (Assoc.put "position" origin ms)) = .ok n

/-- The steps before some step are read, and that one is well-formed but for its place. -/
def Node.MeetsFar (index : Nat) (raws : List Value) : Prop :=
  ∃ before raw after ns, raws = before ++ raw :: after ∧
    Node.allOfValues index before = .ok ns ∧ Node.Far (index + before.length) raw

/-- A step but for its place. -/
def Node.unplaced (index : Nat) (ms : Config) : Except Error (Position → Node) := do
  let id ← requireText (Assoc.find? "id" ms) "Node 'id'" (placeOf "node" index)
  match (Assoc.find? "data" ms).getD (.object []), (Assoc.find? "ui" ms).getD (.object []) with
  | .object data, .object ui => do
    let kind ← requireKind ((Assoc.find? "type" ms).getD .null) id
    let name ← requireText (some ((Assoc.find? "name" ms).getD (.text ""))) "Node 'name'"
      (some (.text id))
    pure fun position => ⟨id, kind, name, position, data, ui⟩
  | _, _ => misshapen (some (.text id)) "Node 'data' and 'ui'" "objects"

theorem Node.unplaced_refuses (index : Nat) (ms : Config) : Refuses (Node.unplaced index ms) := by
  refine (requireText_refuses ..).bind fun id _ => ?_
  split
  · refine (requireKind_refuses ..).bind fun kind _ => ?_
    exact (requireText_refuses ..).bind fun name _ => .ok _
  · exact .misshapen ..

/-- The place is read last. -/
theorem Node.ofValue_eq (index : Nat) (ms : Config) :
    Node.ofValue index (.object ms) = Node.unplaced index ms >>= fun place =>
      Position.ofValue ((Assoc.find? "position" ms).getD .null) (place default).id >>= fun p =>
        pure (place p) := by
  unfold Node.unplaced
  simp only [Node.ofValue, bind_assoc]
  congr 1
  funext id
  unfold Node.ofMembers
  generalize (Assoc.find? "data" ms).getD (.object []) = data
  generalize (Assoc.find? "ui" ms).getD (.object []) = ui
  cases data with
  | object data =>
    cases ui with
    | object ui => simp only [bind_assoc, pure_bind]
    | _ => rfl
  | _ => rfl

theorem Node.unplaced_put (index : Nat) (ms : Config) (place : Value) :
    Node.unplaced index (Assoc.put "position" place ms) = Node.unplaced index ms := by
  unfold Node.unplaced
  simp only [Assoc.find?_put_of_ne, ne_eq, String.reduceEq, not_false_eq_true]

theorem Node.far_object (index : Nat) (ms : Config) :
    Node.Far index (.object ms) ↔ ∃ place, Node.unplaced index ms = .ok place ∧
      Position.TooLarge ((Assoc.find? "position" ms).getD .null) := by
  constructor
  · rintro ⟨ms', position, n, he, hp, hfar, hn⟩
    obtain rfl := Value.object.inj he
    rw [Node.ofValue_eq, Node.unplaced_put] at hn
    obtain ⟨place, hplace, -⟩ := bind_eq_ok.1 hn
    rw [hp]
    exact ⟨place, hplace, hfar⟩
  · rintro ⟨place, hplace, hfar⟩
    cases hp : Assoc.find? "position" ms with
    | none =>
      rw [hp] at hfar
      obtain ⟨_, _, _, h, _⟩ := hfar
      cases h
    | some position =>
      rw [hp] at hfar
      refine ⟨ms, position, place ⟨.float (Binary64.zero false), .float (Binary64.zero false)⟩,
        rfl, hp, hfar, ?_⟩
      rw [Node.ofValue_eq, Node.unplaced_put, hplace, Assoc.find?_put_self]
      rfl

theorem Node.ofValue_refusesUnless (index : Nat) (raw : Value) :
    RefusesUnless (Node.Far index raw) (Node.ofValue index raw) := by
  cases raw with
  | object ms =>
    rw [Node.ofValue_eq, Node.far_object]
    refine (Node.unplaced_refuses index ms).bindUnless fun place _ => ?_
    exact (Position.ofValue_refusesUnless ..).bindRefuses fun p _ => .ok _
  | _ =>
    refine (Refuses.misshapen ..).notFar ?_
    rintro ⟨_, _, _, h, -⟩
    cases h

theorem Node.meetsFar_cons (index : Nat) (raw : Value) (rest : List Value) :
    Node.MeetsFar index (raw :: rest) ↔
      Node.Far index raw ∨ ∃ n, Node.ofValue index raw = .ok n ∧ Node.MeetsFar (index + 1) rest := by
  constructor
  · rintro ⟨before, far, after, ns, he, hb, hf⟩
    cases before with
    | nil =>
      obtain ⟨rfl, rfl⟩ := List.cons.inj he
      exact .inl hf
    | cons first before =>
      obtain ⟨rfl, rfl⟩ := List.cons.inj he
      obtain ⟨n, hn, hb⟩ := bind_eq_ok.1 hb
      obtain ⟨ns', hns', -⟩ := bind_eq_ok.1 hb
      refine .inr ⟨n, hn, before, far, after, ns', rfl, hns', ?_⟩
      rwa [Nat.add_assoc, Nat.add_comm 1]
  · rintro (hf | ⟨n, hn, before, far, after, ns, rfl, hb, hf⟩)
    · exact ⟨[], raw, rest, [], rfl, rfl, hf⟩
    · refine ⟨raw :: before, far, after, n :: ns, rfl, ?_, ?_⟩
      · exact bind_eq_ok.2 ⟨n, hn, bind_eq_ok.2 ⟨ns, hb, rfl⟩⟩
      · rwa [Nat.add_assoc, Nat.add_comm 1] at hf

theorem Node.allOfValues_refusesUnless (index : Nat) (raws : List Value) :
    RefusesUnless (Node.MeetsFar index raws) (Node.allOfValues index raws) := by
  induction raws generalizing index with
  | nil => exact (Refuses.ok _).notFar fun ⟨before, _, _, _, h, _⟩ => by cases before <;> cases h
  | cons raw rest ih =>
    refine ((Node.ofValue_refusesUnless index raw).bind fun n _ => ?_).congr
      (Node.meetsFar_cons index raw rest)
    exact (ih (index + 1)).bindRefuses fun ns _ => .ok _

theorem Edge.ofValue_refuses (index : Nat) (raw : Value) : Refuses (Edge.ofValue index raw) := by
  simp only [Edge.ofValue]
  split
  next ms =>
    refine (requireText_refuses ..).bind fun source _ => ?_
    refine (requireText_refuses ..).bind fun target _ => ?_
    exact (optionalText_refuses ..).bind fun label _ => .ok _
  · exact .misshapen ..

theorem Edge.allOfValues_refuses (index : Nat) (raws : List Value) :
    Refuses (Edge.allOfValues index raws) := by
  induction raws generalizing index with
  | nil => exact .ok _
  | cons raw rest ih =>
    exact (Edge.ofValue_refuses index raw).bind fun e _ => (ih _).bind fun es _ => .ok _

/-- Reading an editor graph gets as far as a step that is well-formed but for its place,
which is too large. -/
def Graph.Unplaceable (raw : Value) : Prop :=
  ∃ lists, requireLists "Editable graph" raw = .ok lists ∧ Node.MeetsFar 0 lists.1

theorem Graph.ofValue_refusesUnless (raw : Value) :
    RefusesUnless (Graph.Unplaceable raw) (Graph.ofValue raw) := by
  refine (requireLists_refuses "Editable graph" raw).bindUnless fun (nodes, edges) _ => ?_
  refine (Node.allOfValues_refusesUnless 0 nodes).bindRefuses fun ns _ => ?_
  exact (Edge.allOfValues_refuses 0 edges).bind fun es _ => .ok _

end Editor

end Workflow
