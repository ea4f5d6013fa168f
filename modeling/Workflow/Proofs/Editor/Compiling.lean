import Mathlib.Data.List.Forall2
import Mathlib.Data.List.TakeWhile
import Workflow.Editor.Draft
import Workflow.Proofs.Blame
import Workflow.Proofs.Graph.Reading

/-!
# What compiling makes of an editor graph

Compiling takes the steps and the transitions one by one and keeps their order.  Of
a step only the settings change, and of those only the label of a delay, which
becomes milliseconds.

    edited compiles to g → each step of g comes from its own of edited, and the
      identifiers are not empty and not repeated                 (Graph.compile_eq_ok)
    the labels are accepted ↔ none has too many digits           (checkLabels_eq_ok_iff)
-/

namespace Workflow.Editor

/-! ## Settings -/

/-- The milliseconds that a delay stands for: those of its label, or its own if the label is
missing or null. -/
def milliseconds? (data : Config) : Option Int :=
  match (Assoc.find? "duration" data).getD .null, Assoc.find? "duration_ms" data with
  | .null, some (.int n) => some n
  | .text s, _ => (Duration.ofLabel? s).map Int.ofNat
  | _, _ => none

/-- They are its own, or those of a label that is a text. -/
theorem milliseconds?_eq_some {data : Config} {ms : Int} (h : milliseconds? data = some ms) :
    Assoc.find? "duration_ms" data = some (.int ms) ∨
      ∃ s n, Assoc.find? "duration" data = some (.text s) ∧ Duration.ofLabel? s = some n ∧
        ms = (n : Int) := by
  unfold milliseconds? at h
  split at h
  next n _ hms =>
    obtain rfl := Option.some.inj h
    exact Or.inl hms
  next s hlabel =>
    obtain ⟨n, hn, rfl⟩ := Option.map_eq_some_iff.1 h
    refine Or.inr ⟨s, n, ?_, hn, rfl⟩
    cases hd : Assoc.find? "duration" data with
    | none =>
      rw [hd] at hlabel
      cases hlabel
    | some v =>
      rw [hd] at hlabel
      exact congrArg some hlabel
  · cases h

theorem ofValue_eq_ok {label : Value} {element : Option Value} {n : Nat}
    (h : Duration.ofValue label element = .ok n) :
    ∃ s, label = .text s ∧ Duration.ofLabel? s = some n := by
  unfold Duration.ofValue at h
  cases label with
  | text s =>
    cases hs : Duration.ofLabel? s with
    | none => simp [hs] at h
    | some k =>
      simp only [hs, Except.ok.injEq] at h
      exact ⟨s, rfl, by rw [hs, h]⟩
  | null | bool _ | int _ | float _ | list _ | object _ | numbered _ _ | foreign => cases h

variable {id : String} {data config : Config}

/-- A delay keeps the settings beside its label and its milliseconds. -/
theorem compileDelay_eq_ok (h : compileDelay id data = .ok config) :
    ∃ n, milliseconds? data = some n ∧ Assoc.find? "duration_ms" config = some (.int n) ∧
      Assoc.drop "duration_ms" config
        = Assoc.drop "duration" (Assoc.drop "duration_ms" data) := by
  unfold compileDelay at h
  unfold milliseconds?
  split at h
  · cases h
  next n hlabel hms =>
    obtain rfl := Except.ok.inj h
    refine ⟨n, by rw [hlabel, hms], ?_, Assoc.drop_comm _ _ _⟩
    rw [Assoc.find?_drop_of_ne (by decide), hms]
  · cases h
  next label _ _ _ =>
    obtain ⟨n, hn, h⟩ := bind_eq_ok.1 h
    obtain rfl := pure_eq_ok.1 h
    obtain ⟨s, hlabel, hs⟩ := ofValue_eq_ok hn
    refine ⟨n, ?_, Assoc.find?_put_self _ _ _, ?_⟩
    · simp only [hlabel, hs, Option.map_some, Int.ofNat_eq_natCast]
    · rw [Assoc.drop_put_self, Assoc.drop_comm]

theorem compileData_of_ne_delay {kind : NodeKind} (hk : kind ≠ .delay)
    (h : compileData kind id data = .ok config) : config = data := by
  cases kind with
  | delay => exact absurd rfl hk
  | condition =>
    change compileCondition id data = .ok config at h
    unfold compileCondition at h
    split at h
    · exact (Except.ok.inj h).symm
    · exact (Except.ok.inj h).symm
    · cases h
  | action | split => exact (Except.ok.inj h).symm

theorem compileData_keys {kind : NodeKind} (hd : (Assoc.keys data).Nodup)
    (h : compileData kind id data = .ok config) : (Assoc.keys config).Nodup := by
  by_cases hk : kind = .delay
  · subst hk
    change compileDelay id data = .ok config at h
    unfold compileDelay at h
    split at h
    · cases h
    · obtain rfl := Except.ok.inj h
      exact Assoc.nodup_keys_drop _ hd
    · cases h
    · obtain ⟨n, -, h⟩ := bind_eq_ok.1 h
      obtain rfl := pure_eq_ok.1 h
      exact Assoc.nodup_keys_put (Assoc.nodup_keys_drop _ hd)
  · rw [compileData_of_ne_delay hk h]
    exact hd

/-! ## Steps -/

/-- What compiling keeps of a step and what it makes of its settings. -/
structure Compiles (n : Node) (m : Workflow.Node) : Prop where
  id : m.id = n.id
  kind : m.kind = n.kind
  name : m.name = n.name
  data : compileData n.kind n.id n.data = .ok m.config

namespace Node

variable {n : Node} {earlier : List Workflow.Node} {m : Workflow.Node}

theorem compile_nameless (hid : n.id = "") :
    n.draft.compile earlier = .error (.malformed none .emptyNodeId) := by
  have hc : n.draft.checkedId earlier = .error (.malformed none .emptyNodeId) := by
    show (if n.id.isEmpty then _ else _) = _
    rw [hid]
    rfl
  unfold DraftNode.compile
  rw [hc]
  rfl

theorem compile_repeated (hne : n.id ≠ "") (hid : n.id ∈ earlier.map Workflow.Node.id) :
    n.draft.compile earlier = .error (.malformed (some (.text n.id)) .duplicateNode) := by
  have hempty : n.id.isEmpty = false := by simpa using hne
  have hany : earlier.any (·.id = n.id) = true := by
    obtain ⟨m, hm, he⟩ := List.mem_map.1 hid
    exact List.any_eq_true.2 ⟨m, hm, decide_eq_true he⟩
  have hc : n.draft.checkedId earlier =
      .error (.malformed (some (.text n.id)) .duplicateNode) := by
    show (if n.id.isEmpty then _ else if earlier.any (·.id = n.id) then _ else _) = _
    rw [hempty, hany]
    rfl
  unfold DraftNode.compile
  rw [hc]
  rfl

/-- Of a step with a new identifier only the settings are left to compile. -/
theorem compile_new (hne : n.id ≠ "") (hnew : n.id ∉ earlier.map Workflow.Node.id) :
    n.draft.compile earlier =
      (compileData n.kind n.id n.data).map (⟨n.id, n.kind, n.name, ·⟩) := by
  have hempty : n.id.isEmpty = false := by simpa using hne
  have hany := Node.any_id_eq_false hnew
  have hc : n.draft.checkedId earlier = .ok n.id := by
    show (if n.id.isEmpty then _ else if earlier.any (·.id = n.id) then _ else _) = _
    rw [hempty, hany]
    rfl
  have hk : requireKind (.text (Named.name n.kind)) n.id = .ok n.kind := by
    unfold requireKind
    rw [Named.ofValue?_name_nodeKind]
  unfold DraftNode.compile
  rw [hc]
  show (requireKind (.text (Named.name n.kind)) n.id >>= _) = _
  rw [hk]
  show (compileData n.kind n.id n.data >>= _) = _
  cases compileData n.kind n.id n.data <;> rfl

theorem compile_eq_ok_iff : n.draft.compile earlier = .ok m ↔
    (Compiles n m ∧ n.id ≠ "") ∧ m.id ∉ earlier.map Workflow.Node.id := by
  by_cases hid : n.id = ""
  · rw [compile_nameless hid]
    exact iff_of_false nofun fun h => h.1.2 hid
  by_cases hnew : n.id ∈ earlier.map Workflow.Node.id
  · rw [compile_repeated hid hnew]
    refine iff_of_false nofun fun h => h.2 ?_
    rwa [h.1.1.id]
  rw [compile_new hid hnew, map_eq_ok]
  constructor
  · rintro ⟨config, hc, rfl⟩
    exact ⟨⟨⟨rfl, rfl, rfl, hc⟩, hid⟩, hnew⟩
  · rintro ⟨⟨hc, -⟩, -⟩
    refine ⟨m.config, hc.data, ?_⟩
    rw [← hc.id, ← hc.kind, ← hc.name]

theorem gathers_compile :
    Gathers (fun got ns => DraftNode.compileAll got (ns.map Node.draft))
      (fun got n => n.draft.compile got) :=
  ⟨fun _ => rfl, fun _ _ _ => rfl⟩

theorem compileAll_eq_ok_iff {ns : List Node} {ms : List Workflow.Node} :
    DraftNode.compileAll [] (ns.map Node.draft) = .ok ms ↔
      List.Forall₂ (fun n m => Compiles n m ∧ n.id ≠ "") ns ms ∧
        (ms.map Workflow.Node.id).Nodup := by
  have hnil : (([] : List Workflow.Node).map Workflow.Node.id).Nodup := List.nodup_nil
  refine (gathers_compile.eq_ok_iff (fun _ _ _ => compile_eq_ok_iff) hnil).trans ?_
  simp only [List.nil_append, exists_eq_left']

end Node

/-! ## Transitions -/

/-- A transition without an identifier of its own. -/
def Edge.compiled (e : Edge) : Workflow.Edge := ⟨e.source, e.target, DraftEdge.guardOf e.label⟩

theorem Edge.compiled_eq (t : Edge) :
    t.compiled = ⟨t.source, t.target, if t.label = some "" then none else t.label⟩ := by
  obtain ⟨id, source, target, label⟩ := t
  unfold Edge.compiled DraftEdge.guardOf
  cases label with
  | none => rfl
  | some s => by_cases hs : s = "" <;> simp [hs]

theorem Edge.compileAll_draft (index : Nat) (es : List Edge) :
    DraftEdge.compileAll index (es.map Edge.draft) = .ok (es.map Edge.compiled) := by
  induction es generalizing index with
  | nil => rfl
  | cons e rest ih =>
    have he : e.draft.compile index = .ok e.compiled := by
      obtain ⟨id, source, target, label⟩ := e
      cases label <;> rfl
    rw [List.map_cons, DraftEdge.compileAll, he, List.map_cons]
    exact bind_eq_ok.2 ⟨_, rfl, bind_eq_ok.2 ⟨_, ih (index + 1), rfl⟩⟩

/-! ## Graphs -/

namespace Graph

variable {edited : Graph} {g : Workflow.Graph}

theorem compile_eq_ok (h : edited.compile = .ok g) :
    g.Readable ∧ List.Forall₂ Compiles edited.nodes g.nodes ∧
      g.edges = edited.edges.map Edge.compiled := by
  obtain ⟨ns, hn, h⟩ := bind_eq_ok.1 h
  obtain ⟨es, he, h⟩ := bind_eq_ok.1 h
  obtain rfl := pure_eq_ok.1 h
  obtain ⟨hall, hnd⟩ := Node.compileAll_eq_ok_iff.1 hn
  have hedges : DraftEdge.compileAll 0 (edited.edges.map Edge.draft) = .ok es := he
  rw [Edge.compileAll_draft] at hedges
  refine ⟨⟨fun m hm => ?_, hnd⟩, hall.imp fun _ _ hc => hc.1, (Except.ok.inj hedges).symm⟩
  obtain ⟨n, -, hc, hne⟩ := exists_mem_of_forall₂ hall m hm
  simpa [hc.id] using hne

theorem compile_ids (h : edited.compile = .ok g) : g.ids = edited.nodes.map Node.id :=
  map_eq_of_forall₂ (fun _ _ hc => hc.id) (compile_eq_ok h).2.1

theorem compile_wellFormed (hk : ∀ n ∈ edited.nodes, (Assoc.keys n.data).Nodup)
    (h : edited.compile = .ok g) : g.WellFormed := by
  obtain ⟨hr, hn, -⟩ := compile_eq_ok h
  refine { hr with keys_nodup := fun m hm => ?_ }
  obtain ⟨n, hmem, hc⟩ := exists_mem_of_forall₂ hn m hm
  exact compileData_keys (hk n hmem) hc.data

end Graph

/-! ## Labels of few digits -/

/-- Only the label of a delay is looked at. -/
theorem DraftNode.overlong?_of_kind (kind : NodeKind) (id name : Value) (data : Config) :
    (DraftNode.mk id (.text (Named.name kind)) name (.object data)).overlong?
      = if kind = .delay then (Assoc.find? "duration" data).bind Duration.overlong? else none := by
  unfold DraftNode.overlong?
  by_cases hk : kind = .delay
  · rw [if_pos hk, if_pos (congrArg (fun k => Value.text (Named.name k)) hk)]
    rfl
  · rw [if_neg hk]
    refine if_neg fun h => hk ?_
    have hname : Named.ofValue? (.text (Named.name kind)) = some NodeKind.delay := by
      rw [show Value.text (Named.name kind) = _ from h, Named.ofValue?_name_nodeKind]
    rw [Named.ofValue?_name_nodeKind] at hname
    exact Option.some.inj hname

theorem Draft.checkLabels_eq_ok_iff {d : Draft} :
    d.checkLabels = .ok () ↔ ∀ n ∈ d.nodes, n.overlong? = none := by
  have hdrop : d.nodes.drop (d.nodes.takeWhile fun n => n.overlong?.isNone).length
      = d.nodes.dropWhile fun n => n.overlong?.isNone := by
    have hsplit : (d.nodes.takeWhile fun n => n.overlong?.isNone)
        ++ (d.nodes.dropWhile fun n => n.overlong?.isNone) = d.nodes :=
      List.takeWhile_append_dropWhile
    conv => lhs; arg 2; rw [← hsplit]
    exact List.drop_left
  have hall : (d.nodes.dropWhile fun n => n.overlong?.isNone) = [] ↔
      ∀ n ∈ d.nodes, n.overlong? = none := by
    simp only [List.dropWhile_eq_nil_iff, Option.isNone_iff_eq_none]
  rw [← hall]
  unfold Draft.checkLabels
  simp only [hdrop]
  cases d.nodes.dropWhile fun n => n.overlong?.isNone with
  | nil => simp
  | cons n rest =>
    constructor
    · intro h
      obtain ⟨_, -, h⟩ := bind_eq_ok.1 h
      cases h
    · intro h
      cases h

/-- What compiles within the limit of digits compiles. -/
theorem Graph.compileBounded_eq_ok {e : Graph} {g : Workflow.Graph}
    (h : e.compileBounded = .ok g) :
    (∀ n ∈ e.nodes, n.draft.overlong? = none) ∧ e.compile = .ok g := by
  obtain ⟨_, hlabels, h⟩ := bind_eq_ok.1 (mapError_eq_ok.1 h)
  refine ⟨fun n hn => ?_, h⟩
  exact Draft.checkLabels_eq_ok_iff.1 hlabels _ (List.mem_map.2 ⟨n, hn, rfl⟩)

theorem Graph.readable_of_compileBounded {e : Graph} {g : Workflow.Graph}
    (h : e.compileBounded = .ok g) : g.Readable :=
  (compile_eq_ok (compileBounded_eq_ok h).2).1

end Workflow.Editor
