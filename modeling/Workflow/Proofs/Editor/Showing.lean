import Workflow.Editor.Draft
import Workflow.Editor.View
import Workflow.Proofs.Except
import Workflow.Proofs.Number.Range

/-!
# Showing a graph

Every extent in the range of the doubles and every draw give a place, so a graph
can be shown unless the milliseconds of a delay are no natural number or have a label
that cannot be written.  What is compiled of a shown graph depends on neither places
nor draws.

    g can be shown ↔ each delay can be shown              (ofGraph_isOk_iff)
    why a delay is not shown                              (ofGraph_error)
    the draft of a shown graph is `shownGraph`            (draft_ofGraph)
-/

namespace Workflow.Editor

/-! ## Places -/

namespace Canvas

/-- The extent is a number in the range of the doubles. -/
def InRange (extent : Value) : Prop :=
  ∃ x, extent.quantity?.bind Number.toFloat? = some x ∧ x.IsFinite

def IsFinite (canvas : Canvas) : Prop := InRange canvas.width ∧ InRange canvas.height

theorem standard_isFinite : standard.IsFinite :=
  ⟨⟨_, rfl, by decide, by decide⟩, ⟨_, rfl, by decide, by decide⟩⟩

/-- A draw is a double from zero on and below one. -/
def IsDraw (r : Number) : Prop :=
  ∃ x, r = .float x ∧ x.negative = false ∧ x.ratio.1 < x.ratio.2

theorem unsignedZero_isFinite {x : Binary64} (h : x.IsFinite) : (unsignedZero x).IsFinite := by
  unfold unsignedZero
  split
  · refine ⟨?_, ?_⟩
    · show 0 < 2 ^ 53
      decide
    · show (-1074 : Int) ≤ 971
      decide
  · exact h

theorem share?_isSome {x y : Binary64} (hx : x.IsFinite) (hy : y.ratio.1 ≤ y.ratio.2) :
    ∃ z, share? x y = some z := by
  obtain ⟨p, hp, hf⟩ := Binary64.mul?_of_le_one hx hy
  obtain ⟨z, hz, -⟩ := (unsignedZero_isFinite hf).roundTenth?
  refine ⟨z, ?_⟩
  unfold share?
  rw [hp]
  exact hz

theorem coordinate_isOk {extent : Value} {r : Number} (he : InRange extent) (hr : IsDraw r) :
    ∃ z, coordinate extent r = .ok z := by
  obtain ⟨x, hx, hf⟩ := he
  obtain ⟨y, rfl, -, hy⟩ := hr
  obtain ⟨z, hz⟩ := share?_isSome hf (Nat.le_of_lt hy)
  obtain ⟨a, ha, hax⟩ := Option.bind_eq_some_iff.1 hx
  have hshare : (a.toFloat?.bind fun x => (Number.float y).toFloat?.bind (share? x)) = some z := by
    rw [hax]
    exact hz
  refine ⟨.float z, ?_⟩
  unfold coordinate
  rw [ha]
  cases a <;> simp only [hshare]

theorem position_isOk {canvas : Canvas} (hc : canvas.IsFinite) {r s : Number} (hr : IsDraw r)
    (hs : IsDraw s) : ∃ p, canvas.position r s = .ok p := by
  obtain ⟨x, hx⟩ := coordinate_isOk hc.1 hr
  obtain ⟨y, hy⟩ := coordinate_isOk hc.2 hs
  refine ⟨⟨x.toValue, y.toValue⟩, ?_⟩
  unfold position
  rw [hx, hy]
  rfl

end Canvas

theorem place_isOk {canvas : Canvas} (hc : canvas.IsFinite) {draws : Nat → Number}
    (hd : ∀ i, Canvas.IsDraw (draws i)) (stored : Option Position) :
    ∃ p, place canvas draws stored = .ok p := by
  cases stored with
  | some p => exact ⟨p, rfl⟩
  | none =>
    obtain ⟨p, hp⟩ := Canvas.position_isOk hc (hd 0) (hd 1)
    refine ⟨p, ?_⟩
    unfold place
    simp only [hp]
    rfl

/-! ## Steps -/

/-- The milliseconds of a delay are a natural number. -/
def IsTimed (n : Workflow.Node) : Prop :=
  n.kind = .delay → ∃ ms : Nat, Assoc.find? "duration_ms" n.config = some (.int ms)

/-- The milliseconds of a delay are a natural number whose label can be written. -/
def CanShow (n : Workflow.Node) : Prop :=
  n.kind = .delay → ∃ ms : Nat, Assoc.find? "duration_ms" n.config = some (.int ms) ∧
    Duration.isShort ms = true

/-- Why a delay is not shown. -/
inductive Unshown (n : Workflow.Node) : Error → Prop where
  | untimed (hms : ¬ IsTimed n) : Unshown n (.malformed (some (.text n.id)) .unreadableDelay)
  | overlong {ms : Nat} (hk : n.kind = .delay)
      (hms : Assoc.find? "duration_ms" n.config = some (.int ms))
      (hlong : Duration.isShort ms = false) : Unshown n (.faulty .unwritable)

theorem CanShow.isTimed {n : Workflow.Node} (h : CanShow n) : IsTimed n := by
  intro hk
  obtain ⟨ms, hms, -⟩ := h hk
  exact ⟨ms, hms⟩

theorem Unshown.not_canShow {n : Workflow.Node} {e : Error} (h : Unshown n e) : ¬ CanShow n := by
  intro hn
  cases h with
  | untimed hms => exact hms hn.isTimed
  | overlong hk hms hlong =>
    obtain ⟨ms', hms', hshort⟩ := hn hk
    rw [hms] at hms'
    obtain rfl := Int.ofNat.inj (Value.int.inj (Option.some.inj hms'))
    rw [hlong] at hshort
    cases hshort

section

variable {n : Workflow.Node} {ms : Nat}

theorem shownData_delay (hk : n.kind = .delay)
    (h : Assoc.find? "duration_ms" n.config = some (.int ms)) :
    shownData n = (Duration.labelBounded ms).map fun label =>
      Assoc.put "duration" (.text label) (Assoc.drop "duration_ms" n.config) := by
  unfold shownData
  rw [hk]
  simp only [h]
  cases Duration.labelBounded ms <;> rfl

theorem shownData_short (hk : n.kind = .delay)
    (h : Assoc.find? "duration_ms" n.config = some (.int ms)) (hs : Duration.isShort ms = true) :
    shownData n = .ok
      (Assoc.put "duration" (.text (Duration.label ms)) (Assoc.drop "duration_ms" n.config)) := by
  rw [shownData_delay hk h, Duration.labelBounded, if_pos hs]
  rfl

theorem shownData_of_ne_delay (hk : n.kind ≠ .delay) : shownData n = .ok n.config := by
  unfold shownData
  cases h : n.kind with
  | delay => exact absurd h hk
  | action => rfl
  | condition => rfl
  | split => rfl

/-- A step that is no delay is shown, and so is a delay whose label can be written. -/
theorem shownData_cases (n : Workflow.Node) : (CanShow n ∧ ∃ data, shownData n = .ok data) ∨
    ∃ e, Unshown n e ∧ shownData n = .error e := by
  by_cases hk : n.kind = .delay
  · by_cases ht : ∃ ms : Nat, Assoc.find? "duration_ms" n.config = some (.int ms)
    · obtain ⟨ms, hms⟩ := ht
      by_cases hs : Duration.isShort ms = true
      · exact .inl ⟨fun _ => ⟨ms, hms, hs⟩, _, shownData_short hk hms hs⟩
      · refine .inr ⟨_, .overlong hk hms (by simpa using hs), ?_⟩
        rw [shownData_delay hk hms, Duration.labelBounded, if_neg hs]
        rfl
    · refine .inr ⟨_, .untimed fun h => ht (h hk), ?_⟩
      unfold shownData
      rw [hk]
      dsimp only
      split
      next ms hms => exact absurd ⟨ms, hms⟩ ht
      · rfl
  · exact .inl ⟨fun h => absurd h hk, _, shownData_of_ne_delay hk⟩

theorem CanShow.shownData_isOk (h : CanShow n) : ∃ data, shownData n = .ok data := by
  rcases shownData_cases n with ⟨-, hdata⟩ | ⟨e, hu, -⟩
  · exact hdata
  · exact absurd h hu.not_canShow

theorem canShow_of_shownData {data : Config} (h : shownData n = .ok data) : CanShow n := by
  rcases shownData_cases n with ⟨hn, -⟩ | ⟨e, -, he⟩
  · exact hn
  · cases h.symm.trans he

theorem unshown_of_shownData {e : Error} (h : shownData n = .error e) : Unshown n e := by
  rcases shownData_cases n with ⟨-, data, hdata⟩ | ⟨e', hu, he⟩
  · cases h.symm.trans hdata
  · exact Except.error.inj (h.symm.trans he) ▸ hu

end

/-- The settings that are shown; none of a delay that is not. -/
def shownConfig (n : Workflow.Node) : Config := (shownData n).toOption.getD []

/-- The draft of a step that is shown, wherever it is placed. -/
def shown (n : Workflow.Node) : DraftNode :=
  ⟨.text n.id, .text (Named.name n.kind), .text n.name, .object (shownConfig n)⟩

section

variable {canvas : Canvas} {draws : Nat → Number} {layout : Layout} {n : Workflow.Node}

theorem shownConfig_eq {data : Config} (h : shownData n = .ok data) : shownConfig n = data := by
  unfold shownConfig
  rw [h]
  rfl

theorem Node.ofNode_eq_ok {m : Node} (h : Node.ofNode canvas draws layout n = .ok m) :
    CanShow n ∧ m.draft = shown n := by
  obtain ⟨data, hd, h⟩ := bind_eq_ok.1 h
  obtain ⟨p, -, h⟩ := bind_eq_ok.1 h
  obtain rfl := pure_eq_ok.1 h
  refine ⟨canShow_of_shownData hd, ?_⟩
  unfold shown
  rw [shownConfig_eq hd]
  rfl

variable (hc : canvas.IsFinite) (hd : ∀ i, Canvas.IsDraw (draws i))
include hc hd

theorem Node.ofNode_isOk (layout : Layout) (hn : CanShow n) :
    ∃ m, Node.ofNode canvas draws layout n = .ok m := by
  obtain ⟨data, hdata⟩ := hn.shownData_isOk
  obtain ⟨p, hp⟩ := place_isOk hc hd (Assoc.find? n.id layout)
  exact ⟨_, bind_eq_ok.2 ⟨data, hdata, bind_eq_ok.2 ⟨p, hp, rfl⟩⟩⟩

/-- On a canvas of finite extent only a delay can fail to be shown. -/
theorem Node.ofNode_error {e : Error} (h : Node.ofNode canvas draws layout n = .error e) :
    Unshown n e := by
  rcases bind_eq_error.1 h with h | ⟨data, -, h⟩
  · exact unshown_of_shownData h
  · obtain ⟨p, hp⟩ := place_isOk hc hd (Assoc.find? n.id layout)
    rw [hp] at h
    cases h

end

/-! ## Graphs -/

theorem Node.allOfNodes_eq_ok {canvas : Canvas} {layout : Layout} {draws : Nat → Number}
    {ns : List Workflow.Node} {ms : List Node}
    (h : Node.allOfNodes canvas layout draws ns = .ok ms) :
    (∀ n ∈ ns, CanShow n) ∧ ms.map Node.draft = ns.map shown := by
  induction ns generalizing draws ms with
  | nil =>
    cases h
    exact ⟨fun n hn => absurd hn List.not_mem_nil, rfl⟩
  | cons n rest ih =>
    obtain ⟨m, hm, h⟩ := bind_eq_ok.1 h
    obtain ⟨ms', hms, h⟩ := bind_eq_ok.1 h
    obtain rfl := pure_eq_ok.1 h
    obtain ⟨hn, hd⟩ := Node.ofNode_eq_ok hm
    obtain ⟨hr, hds⟩ := ih hms
    refine ⟨?_, ?_⟩
    · intro n' hn'
      rcases List.mem_cons.1 hn' with rfl | hn'
      · exact hn
      · exact hr n' hn'
    · rw [List.map_cons, List.map_cons, hd, hds]

theorem Node.allOfNodes_isOk {canvas : Canvas} (hc : canvas.IsFinite) (layout : Layout)
    {draws : Nat → Number} (hd : ∀ i, Canvas.IsDraw (draws i)) {ns : List Workflow.Node}
    (hn : ∀ n ∈ ns, CanShow n) : ∃ ms, Node.allOfNodes canvas layout draws ns = .ok ms := by
  induction ns generalizing draws with
  | nil => exact ⟨[], rfl⟩
  | cons n rest ih =>
    obtain ⟨m, hm⟩ := Node.ofNode_isOk hc hd layout (hn n List.mem_cons_self)
    have hlater : ∀ i, Canvas.IsDraw
        ((if Assoc.contains n.id layout then draws else fun i => draws (i + 2)) i) := by
      intro i
      split
      · exact hd i
      · exact hd (i + 2)
    obtain ⟨ms, hms⟩ := ih hlater (fun n' hn' => hn n' (List.mem_cons_of_mem n hn'))
    exact ⟨m :: ms, bind_eq_ok.2 ⟨m, hm, bind_eq_ok.2 ⟨ms, hms, rfl⟩⟩⟩

/-- The first step that fails is one that is not shown. -/
theorem Node.allOfNodes_error {canvas : Canvas} (hc : canvas.IsFinite) {layout : Layout}
    {draws : Nat → Number} (hd : ∀ i, Canvas.IsDraw (draws i)) {ns : List Workflow.Node}
    {e : Error} (h : Node.allOfNodes canvas layout draws ns = .error e) :
    ∃ n ∈ ns, Unshown n e := by
  induction ns generalizing draws with
  | nil => cases h
  | cons n rest ih =>
    rcases bind_eq_error.1 h with h | ⟨m, -, h⟩
    · exact ⟨n, List.mem_cons_self, Node.ofNode_error hc hd h⟩
    · rcases bind_eq_error.1 h with h | ⟨ms, -, h⟩
      · have hlater : ∀ i, Canvas.IsDraw
            ((if Assoc.contains n.id layout then draws else fun i => draws (i + 2)) i) := by
          intro i
          split
          · exact hd i
          · exact hd (i + 2)
        obtain ⟨n', hmem, hn'⟩ := ih hlater h
        exact ⟨n', List.mem_cons_of_mem n hmem, hn'⟩
      · cases h

/-- The draft of a graph that is shown. -/
def shownGraph (g : Workflow.Graph) : Draft :=
  ⟨g.nodes.map shown, g.edges.map fun e => (Edge.ofEdge e).draft⟩

theorem draft_ofGraph {canvas : Canvas} {draws : Nat → Number} {layout : Layout}
    {g : Workflow.Graph} {e : Graph} (h : Graph.ofGraph canvas draws layout g = .ok e) :
    (∀ n ∈ g.nodes, CanShow n) ∧ e.draft = shownGraph g := by
  obtain ⟨ms, hms, h⟩ := bind_eq_ok.1 h
  obtain rfl := pure_eq_ok.1 h
  obtain ⟨hn, hd⟩ := Node.allOfNodes_eq_ok hms
  refine ⟨hn, ?_⟩
  unfold Graph.draft shownGraph
  rw [hd, List.map_map]
  rfl

theorem ofGraph_isOk_iff {canvas : Canvas} (hc : canvas.IsFinite) {draws : Nat → Number}
    (hd : ∀ i, Canvas.IsDraw (draws i)) (layout : Layout) (g : Workflow.Graph) :
    (∃ e, Graph.ofGraph canvas draws layout g = .ok e) ↔ ∀ n ∈ g.nodes, CanShow n := by
  constructor
  · rintro ⟨e, h⟩
    exact (draft_ofGraph h).1
  · intro hn
    obtain ⟨ms, hms⟩ := Node.allOfNodes_isOk hc layout hd hn
    exact ⟨⟨ms, g.edges.map Edge.ofEdge⟩, bind_eq_ok.2 ⟨ms, hms, rfl⟩⟩

theorem ofGraph_error {canvas : Canvas} (hc : canvas.IsFinite) {draws : Nat → Number}
    (hd : ∀ i, Canvas.IsDraw (draws i)) {layout : Layout} {g : Workflow.Graph} {e : Error}
    (h : Graph.ofGraph canvas draws layout g = .error e) :
    ∃ n ∈ g.nodes, Unshown n e := by
  rcases bind_eq_error.1 h with h | ⟨ms, -, h⟩
  · exact Node.allOfNodes_error hc hd h
  · cases h

end Workflow.Editor
