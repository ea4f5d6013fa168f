import Workflow.Proofs.Blame
import Workflow.Proofs.Editor.Limit
import Workflow.Proofs.Editor.RoundTrip

/-!
# Which editor graphs compile

An editor graph compiles just if its steps have identifiers that are not empty and not
repeated, each delay has a label that is read or, without one, milliseconds, and the `expr`
of a condition is a text.  If not, the first step with which this fails is refused, and named
if it has an identifier.  Only numbers of too many digits keep a step from being named: one in
a label, which is refused where numbers are read, and one in the value in place of a label,
which cannot be shown.

    what one step of the loop makes of a step of the editor    (Node.compileBounded_eq_ok_iff,
                                                                Node.refusal_of_error)
    an editor graph compiles ↔ its steps do                    (Graph.compileBounded_isOk_iff)
    it does not compile → its first offender is refused        (Graph.refusal_of_error)
-/

namespace Workflow.Editor

/-! ## Steps that compile -/

/-- What the settings of a delay say: the duration that its label stands for or, if the label
is missing or null, its own milliseconds. -/
inductive Denotes (data : Config) : Int → Prop where
  | label {v : Value} {n : Nat} (hlabel : Assoc.find? "duration" data = some v)
      (hread : Duration.ofValueBounded v none = .ok n) : Denotes data n
  | own {ms : Int}
      (hlabel : Assoc.find? "duration" data = none ∨ Assoc.find? "duration" data = some .null)
      (hms : Assoc.find? "duration_ms" data = some (.int ms)) : Denotes data ms

/-- The settings of a step can be compiled. -/
structure Node.IsSettled (n : Node) : Prop where
  delay : n.kind = .delay → ∃ ms, Denotes n.data ms
  condition : n.kind = .condition → ∀ v, Assoc.find? "expr" n.data = some v → ∃ s, v = .text s

/-- Steps that can be compiled one after the other. -/
structure Compilable (ns : List Node) : Prop where
  named : ∀ n ∈ ns, n.id ≠ ""
  distinct : (ns.map Node.id).Nodup
  settled : ∀ n ∈ ns, n.IsSettled

/-- How a step is refused that follows others, whose identifiers are taken. -/
inductive Refusal (taken : List String) (n : Node) : Error → Prop where
  | nameless (hid : n.id = "") : Refusal taken n (.malformed none .emptyNodeId)
  | repeated (hid : n.id ≠ "") (hold : n.id ∈ taken) :
      Refusal taken n (.malformed (some (.text n.id)) .duplicateNode)
  | unsettled (hid : n.id ≠ "") (hnew : n.id ∉ taken) (hshort : n.draft.overlong? = none)
      (cause : Malformation) : Refusal taken n (.malformed (some (.text n.id)) cause)
  /-- a number of too many digits is not told from any other number until it is read -/
  | overlong (hid : n.id ≠ "") (hnew : n.id ∉ taken) {k : Nat}
      (hlong : n.draft.overlong? = some k) : Refusal taken n (.faulty (.tooManyDigits k))
  /-- a value that is no label is shown as what it is -/
  | unwritable (hid : n.id ≠ "") (hnew : n.id ∉ taken) (hk : n.kind = .delay) {v : Value}
      (hlabel : Assoc.find? "duration" n.data = some v) (hlong : v.isWritable = false) :
      Refusal taken n (.faulty .unwritable)

theorem Compilable.of_leading {ns ns' : List Node} (h : ns <+: ns') (hc : Compilable ns') :
    Compilable ns where
  named n hn := hc.named n (h.subset hn)
  distinct := hc.distinct.sublist (h.map Node.id).sublist
  settled n hn := hc.settled n (h.subset hn)

/-! ## Settings -/

section

variable {data : Config} {ms : Int}

theorem ofValueBounded_eq_ok_iff {v : Value} {element : Option Value} {n : Nat} :
    Duration.ofValueBounded v element = .ok n ↔
      Duration.overlong? v = none ∧ ∃ s, v = .text s ∧ Duration.ofLabel? s = some n := by
  unfold Duration.ofValueBounded
  cases Duration.overlong? v with
  | some k => simp
  | none =>
    simp only [true_and, mapError_eq_ok]
    constructor
    · exact ofValue_eq_ok
    · rintro ⟨s, rfl, hs⟩
      simp only [Duration.ofValue, hs]

theorem denotes_iff : Denotes data ms ↔ milliseconds? data = some ms ∧
    (Assoc.find? "duration" data).bind Duration.overlong? = none := by
  constructor
  · rintro (⟨hlabel, hread⟩ | ⟨hlabel, hms⟩)
    · obtain ⟨hshort, s, rfl, hs⟩ := ofValueBounded_eq_ok_iff.1 hread
      rw [hlabel, Option.bind_some]
      refine ⟨?_, hshort⟩
      unfold milliseconds?
      simp only [hlabel, Option.getD_some, hs, Option.map_some, Int.ofNat_eq_natCast]
    · unfold milliseconds?
      rcases hlabel with h | h
      · rw [h, hms]
        exact ⟨rfl, rfl⟩
      · rw [h, hms]
        exact ⟨rfl, rfl⟩
  · rintro ⟨h, hshort⟩
    cases hd : Assoc.find? "duration" data with
    | none =>
      rcases milliseconds?_eq_some h with hms | ⟨s, n, hs, -⟩
      · exact .own (.inl hd) hms
      · rw [hd] at hs
        cases hs
    | some v =>
      unfold milliseconds? at h
      rw [hd, Option.getD_some] at h
      rw [hd, Option.bind_some] at hshort
      split at h
      next n hv hms =>
        obtain rfl := Option.some.inj h
        exact .own (.inr hd) hms
      next s =>
        obtain ⟨n, hn, rfl⟩ := Option.map_eq_some_iff.1 h
        exact .label hd (ofValueBounded_eq_ok_iff.2 ⟨hshort, s, rfl, hn⟩)
      · cases h

theorem compileDelay_isOk (id : String) (h : milliseconds? data = some ms) :
    ∃ config, compileDelay id data = .ok config := by
  unfold milliseconds? at h
  unfold compileDelay
  split at h
  next n hlabel hms => exact ⟨_, by rw [hlabel, hms]⟩
  next s hlabel =>
    obtain ⟨n, hn, -⟩ := Option.map_eq_some_iff.1 h
    refine ⟨Assoc.put "duration_ms" (.int n) (Assoc.drop "duration" data), ?_⟩
    rw [hlabel]
    simp only [Duration.ofValue, hn]
    rfl
  · cases h

/-- Of the settings of a delay only the label is shown in a message. -/
theorem compileDelay_refusesAt (id : String) (data : Config) :
    RefusesAt (some (.text id)) (fun v => Assoc.find? "duration" data = some v)
      (compileDelay id data) := by
  unfold compileDelay
  split
  · exact .malformed _ nofun
  · exact .ok _
  · exact .misshapen ..
  next hmissing _ hnull =>
    refine .bind ?_ fun n _ => .ok _
    have hlabel : Assoc.find? "duration" data = some ((Assoc.find? "duration" data).getD .null) := by
      cases hd : Assoc.find? "duration" data with
      | some v => rfl
      | none =>
        rw [hd] at hmissing hnull
        cases hms : Assoc.find? "duration_ms" data with
        | none => exact (hmissing rfl hms).elim
        | some v => exact (hnull v rfl hms).elim
    rcases Duration.ofValue_eq ((Assoc.find? "duration" data).getD .null) (some (.text id)) with
      ⟨_, _, _, _, h⟩ | ⟨_, h⟩
    · rw [h]
      exact .ok _
    · rw [h]
      exact .malformed _ fun v hv => List.mem_singleton.1 hv ▸ hlabel

theorem compileData_refusesAt (kind : NodeKind) (id : String) (data : Config) :
    RefusesAt (some (.text id)) (fun v => kind = .delay ∧ Assoc.find? "duration" data = some v)
      (compileData kind id data) := by
  cases kind with
  | delay => exact (compileDelay_refusesAt id data).mono fun v hv => ⟨rfl, hv⟩
  | condition =>
    show RefusesAt _ _ (compileCondition id data)
    unfold compileCondition
    split
    · exact .ok _
    · exact .ok _
    · exact .misshapen ..
  | action | split => exact .ok _

end

theorem compileCondition_eq_ok_iff {id : String} {data config : Config} :
    compileCondition id data = .ok config ↔
      config = data ∧ ∀ v, Assoc.find? "expr" data = some v → ∃ s, v = .text s := by
  constructor
  · intro h
    have hne : NodeKind.condition ≠ .delay := by decide
    refine ⟨compileData_of_ne_delay hne h, fun v hv => ?_⟩
    unfold compileCondition at h
    rw [hv] at h
    cases v with
    | text s => exact ⟨s, rfl⟩
    | null | bool _ | int _ | float _ | list _ | object _ | numbered _ _ | foreign => cases h
  · rintro ⟨rfl, h⟩
    exact compileCondition_of_text h

/-- The label of a delay has not too many digits, and the settings compile. -/
theorem Node.isSettled_iff {n : Node} : n.IsSettled ↔
    n.draft.overlong? = none ∧ ∃ config, compileData n.kind n.id n.data = .ok config := by
  have hlong : n.draft.overlong? = if n.kind = .delay then
      (Assoc.find? "duration" n.data).bind Duration.overlong? else none :=
    DraftNode.overlong?_of_kind n.kind _ _ _
  rw [hlong]
  constructor
  · intro h
    cases hk : n.kind with
    | delay =>
      obtain ⟨ms, hms⟩ := h.delay hk
      obtain ⟨hms, hshort⟩ := denotes_iff.1 hms
      exact ⟨hshort, compileDelay_isOk n.id hms⟩
    | condition =>
      exact ⟨rfl, _, compileCondition_of_text (h.condition hk)⟩
    | action | split => exact ⟨rfl, n.data, rfl⟩
  · rintro ⟨hshort, config, hc⟩
    constructor
    · intro hk
      rw [hk] at hc hshort
      obtain ⟨ms, hms, -⟩ := compileDelay_eq_ok hc
      exact ⟨ms, denotes_iff.2 ⟨hms, hshort⟩⟩
    · intro hk
      rw [hk] at hc
      exact (compileCondition_eq_ok_iff.1 hc).2

/-! ## Steps -/

namespace Node

variable {n : Node} {earlier : List Workflow.Node} {m : Workflow.Node} {e : Error}

/-- The same step with a short label. -/
def shortened (n : Node) : Node :=
  { n with data := Assoc.put "duration" (.text (Duration.label 0)) n.data }

theorem shortened_draft (n : Node) : n.draft.shortened = n.shortened.draft := rfl

theorem compile_shortened {k : Nat} (hk : n.draft.overlong? = some k) (hne : n.id ≠ "")
    (hnew : n.id ∉ earlier.map Workflow.Node.id) :
    ∃ m, n.shortened.draft.compile earlier = .ok m := by
  have hkind : n.kind = .delay := by
    by_contra hkind
    rw [show n.draft.overlong? = _ from DraftNode.overlong?_of_kind n.kind _ _ _,
      if_neg hkind] at hk
    cases hk
  have hms : milliseconds? n.shortened.data = some ((0 : Nat) : Int) := by
    unfold milliseconds? shortened
    rw [Assoc.find?_put_self]
    exact congrArg (Option.map Int.ofNat) (Duration.ofLabel?_label 0)
  obtain ⟨config, hc⟩ := compileDelay_isOk n.id hms
  refine ⟨⟨n.id, n.kind, n.name, config⟩, ?_⟩
  rw [compile_new (n := n.shortened) hne hnew]
  refine map_eq_ok.2 ⟨config, ?_, rfl⟩
  rw [show n.shortened.kind = .delay from hkind]
  exact hc

/-- What a step that is compiled within the limit of digits has to be. -/
theorem compileBounded_eq_ok_iff : n.draft.compileBounded earlier = .ok m ↔
    (Compiles n m ∧ n.id ≠ "" ∧ n.draft.overlong? = none) ∧
      m.id ∉ earlier.map Workflow.Node.id := by
  cases hk : n.draft.overlong? with
  | some k =>
    refine iff_of_false (fun h => ?_) (by simp)
    rw [DraftNode.compileBounded_of_overlong hk] at h
    obtain ⟨_, -, h⟩ := bind_eq_ok.1 h
    cases h
  | none =>
    rw [DraftNode.compileBounded_of_short hk, compile_eq_ok_iff]
    simp

theorem compileBounded_of_refused (h : n.draft.compile earlier = .error e)
    (hs : n.shortened.draft.compile earlier = .error e) :
    n.draft.compileBounded earlier = .error e := by
  cases hk : n.draft.overlong? with
  | none => rw [DraftNode.compileBounded_of_short hk, h]
  | some k =>
    rw [DraftNode.compileBounded_of_overlong hk]
    exact bind_eq_error.2 (.inl hs)

theorem refusal_of_error (h : n.draft.compileBounded earlier = .error e) :
    Refusal (earlier.map Workflow.Node.id) n e.worded := by
  by_cases hid : n.id = ""
  · rw [compileBounded_of_refused (compile_nameless hid)
      (compile_nameless (n := n.shortened) hid)] at h
    obtain rfl := Except.error.inj h
    exact .nameless hid
  by_cases hnew : n.id ∈ earlier.map Workflow.Node.id
  · rw [compileBounded_of_refused (compile_repeated hid hnew)
      (compile_repeated (n := n.shortened) hid hnew)] at h
    obtain rfl := Except.error.inj h
    exact .repeated hid hnew
  cases hk : n.draft.overlong? with
  | none =>
    rw [DraftNode.compileBounded_of_short hk, compile_new hid hnew] at h
    cases hc : compileData n.kind n.id n.data with
    | ok config =>
      rw [hc] at h
      cases h
    | error e' =>
      obtain ⟨cause, rfl, hshown⟩ := (compileData_refusesAt n.kind n.id n.data).names e' hc
      rw [hc] at h
      obtain rfl := Except.error.inj h
      have hname : ∀ v ∈ some (Value.text n.id), v.isWritable = true := by
        rintro _ ⟨⟩
        rfl
      rcases worded_malformed cause hname with hw | ⟨hw, v, hv, hlong⟩
      · rw [hw]
        exact .unsettled hid hnew hk cause
      · rw [hw]
        obtain ⟨hdelay, hlabel⟩ := hshown v hv
        exact .unwritable hid hnew hdelay hlabel hlong
  | some k =>
    obtain ⟨m, hm⟩ := compile_shortened hk hid hnew
    rw [DraftNode.compileBounded_of_overlong hk, shortened_draft, hm] at h
    obtain rfl := Except.error.inj h
    exact .overlong hid hnew hk

theorem gathers_compileBounded :
    Gathers (fun got ns => DraftNode.compileAllBounded got (ns.map Node.draft))
      (fun got n => n.draft.compileBounded got) :=
  ⟨fun _ => rfl, fun _ _ _ => rfl⟩

theorem compileAllBounded_eq_ok_iff {ns : List Node} {ms : List Workflow.Node} :
    DraftNode.compileAllBounded [] (ns.map Node.draft) = .ok ms ↔
      List.Forall₂ (fun n m => Compiles n m ∧ n.id ≠ "" ∧ n.draft.overlong? = none) ns ms ∧
        (ms.map Workflow.Node.id).Nodup := by
  have hnil : (([] : List Workflow.Node).map Workflow.Node.id).Nodup := List.nodup_nil
  refine (gathers_compileBounded.eq_ok_iff (fun _ _ _ => compileBounded_eq_ok_iff) hnil).trans ?_
  simp only [List.nil_append, exists_eq_left']

end Node

/-! ## Graphs -/

theorem compilable_iff {ns : List Node} : Compilable ns ↔
    ∃ ms, DraftNode.compileAllBounded [] (ns.map Node.draft) = .ok ms := by
  simp only [Node.compileAllBounded_eq_ok_iff]
  constructor
  · intro h
    have hall : ∀ n ∈ ns, ∃ m, Compiles n m ∧ n.id ≠ "" ∧ n.draft.overlong? = none := by
      intro n hn
      obtain ⟨hshort, config, hc⟩ := Node.isSettled_iff.1 (h.settled n hn)
      exact ⟨⟨n.id, n.kind, n.name, config⟩, ⟨rfl, rfl, rfl, hc⟩, h.named n hn, hshort⟩
    obtain ⟨ms, hms⟩ := exists_forall₂_iff.2 hall
    refine ⟨ms, hms, ?_⟩
    rw [map_eq_of_forall₂ (fun n m hnm => hnm.1.id) hms]
    exact h.distinct
  · rintro ⟨ms, hms, hnd⟩
    rw [map_eq_of_forall₂ (fun n m hnm => hnm.1.id) hms] at hnd
    have hall := exists_forall₂_iff.1 ⟨ms, hms⟩
    refine ⟨fun n hn => ?_, hnd, fun n hn => ?_⟩
    · obtain ⟨m, -, hne, -⟩ := hall n hn
      exact hne
    · obtain ⟨m, hc, -, hshort⟩ := hall n hn
      exact Node.isSettled_iff.2 ⟨hshort, _, hc.data⟩

namespace Graph

variable {e : Graph} {g : Workflow.Graph} {err : Error}

theorem compileBounded_eq (e : Graph) : e.compileBounded =
    ((DraftNode.compileAllBounded [] (e.nodes.map Node.draft)).map
      (⟨·, e.edges.map Edge.compiled⟩)).mapError Error.worded := by
  unfold Graph.compileBounded
  rw [Draft.compileBounded_eq]
  refine congrArg _ ?_
  have hedges : DraftEdge.compileAll 0 e.draft.edges = .ok (e.edges.map Edge.compiled) :=
    Edge.compileAll_draft 0 e.edges
  rw [hedges]
  show (DraftNode.compileAllBounded [] (e.nodes.map Node.draft) >>= _) = _
  cases DraftNode.compileAllBounded [] (e.nodes.map Node.draft) <;> rfl

theorem compileBounded_isOk_iff : (∃ g, e.compileBounded = .ok g) ↔ Compilable e.nodes := by
  simp only [compileBounded_eq, compilable_iff, mapError_eq_ok]
  constructor
  · rintro ⟨g, h⟩
    obtain ⟨ms, hms, -⟩ := map_eq_ok.1 h
    exact ⟨ms, hms⟩
  · rintro ⟨ms, hms⟩
    exact ⟨_, map_eq_ok.2 ⟨ms, hms, rfl⟩⟩

/-- The loop stops at the first step with which the steps so far do not compile. -/
theorem refusal_of_error (h : e.compileBounded = .error err) :
    ∃ before n, FirstOffender Compilable e.nodes before n ∧
      Refusal (before.map Node.id) n err := by
  rw [compileBounded_eq] at h
  obtain ⟨err', hmap, rfl⟩ := mapError_eq_error.1 h
  have hloop : DraftNode.compileAllBounded [] (e.nodes.map Node.draft) = .error err' := by
    cases hn : DraftNode.compileAllBounded [] (e.nodes.map Node.draft) with
    | ok ms =>
      rw [hn] at hmap
      cases hmap
    | error e =>
      rw [hn] at hmap
      exact congrArg Except.error (Except.error.inj hmap)
  obtain ⟨before, n, ms, hfirst, hbefore, hn⟩ := Node.gathers_compileBounded.firstOffender hloop
  have hids := map_eq_of_forall₂ (fun n m hnm => hnm.1.id)
    (Node.compileAllBounded_eq_ok_iff.1 hbefore).1
  refine ⟨before, n, hfirst.congr fun ns => compilable_iff.symm, ?_⟩
  rw [← hids]
  exact Node.refusal_of_error hn

end Graph

end Workflow.Editor
