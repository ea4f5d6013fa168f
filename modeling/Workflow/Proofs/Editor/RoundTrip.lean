import Workflow.Proofs.Duration.Label
import Workflow.Proofs.Editor.Compiling
import Workflow.Proofs.Editor.Showing
import Workflow.Proofs.Graph.Sameness

/-!
# From a graph to the editor and back

A graph that is shown and compiled again is the same graph unless one of three
things gets lost: a member `duration` of a delay, which the label displaces, an
empty guard, which is no guard, and the settings of a condition whose `expr` is
no text, which are not compiled at all.

    g can be shown ↔ the milliseconds of each delay are a natural number whose label
      can be written
    the shown graph compiles to g ↔ none of the three is in g
    g breaks no rule and its labels can be written → both hold     (compile_ofGraph_iff)
-/

namespace Workflow

namespace Editor

/-! ## Steps -/

/-- What is lost of no step: a delay has no member `duration`, and the `expr` of a condition
is a text. -/
def Keeps (n : Workflow.Node) : Prop :=
  (n.kind = .delay → Assoc.find? "duration" n.config = none) ∧
    (n.kind = .condition → ∀ v, Assoc.find? "expr" n.config = some v → ∃ s, v = .text s)

/-- A step after it was shown and compiled. -/
def recompiled (n : Workflow.Node) : Except Error Workflow.Node := do
  let config ← compileData n.kind n.id (shownConfig n)
  pure { n with config }

theorem compile_shown {n : Workflow.Node} {earlier : List Workflow.Node}
    (hid : n.id.isEmpty = false) (hn : n.id ∉ earlier.map Workflow.Node.id) :
    (shown n).compile earlier = recompiled n := by
  let m : Node := ⟨n.id, n.kind, n.name, default, shownConfig n, []⟩
  have hne : m.id ≠ "" := by simpa using hid
  have hm := Node.compile_new hne hn
  rw [show shown n = m.draft from rfl, hm]
  unfold recompiled
  show Except.map _ (compileData n.kind n.id (shownConfig n)) = _
  cases compileData n.kind n.id (shownConfig n) <;> rfl

theorem recompiled_id {n m : Workflow.Node} (h : recompiled n = .ok m) : m.id = n.id := by
  obtain ⟨config, -, h⟩ := bind_eq_ok.1 h
  obtain rfl := pure_eq_ok.1 h
  rfl

theorem recompiled_delay {n : Workflow.Node} {ms : Nat} (hk : n.kind = .delay)
    (h : Assoc.find? "duration_ms" n.config = some (.int ms)) (hs : Duration.isShort ms = true) :
    recompiled n = .ok { n with
      config := Assoc.put "duration_ms" (.int ms) (Assoc.drop "duration"
        (Assoc.put "duration" (.text (Duration.label ms))
          (Assoc.drop "duration_ms" n.config))) } := by
  have hc : compileDelay n.id (Assoc.put "duration" (.text (Duration.label ms))
      (Assoc.drop "duration_ms" n.config)) = .ok (Assoc.put "duration_ms" (.int ms)
        (Assoc.drop "duration" (Assoc.put "duration" (.text (Duration.label ms))
          (Assoc.drop "duration_ms" n.config)))) := by
    unfold compileDelay
    rw [Assoc.find?_put_self]
    simp only [Option.getD_some, Duration.ofValue_label]
    rfl
  unfold recompiled
  rw [shownConfig_eq (shownData_short hk h hs), hk]
  show (compileDelay n.id _ >>= _) = _
  rw [hc, ← hk]
  rfl

/-- Without a member `duration` the milliseconds are taken out and written again. -/
theorem recompiled_of_keeps {n : Workflow.Node} {ms : Nat} (hk : n.kind = .delay)
    (h : Assoc.find? "duration_ms" n.config = some (.int ms)) (hs : Duration.isShort ms = true)
    (hd : Assoc.find? "duration" n.config = none) :
    recompiled n = .ok { n with
      config := Assoc.drop "duration_ms" n.config ++ [("duration_ms", .int ms)] } := by
  have hr : Assoc.find? "duration" (Assoc.drop "duration_ms" n.config) = none := by
    rw [Assoc.find?_drop_of_ne (by decide), hd]
  rw [recompiled_delay hk h hs, Assoc.drop_put_self, Assoc.drop_of_find?_eq_none hr,
    Assoc.put_of_find?_eq_none (Assoc.find?_drop_self _ _)]

theorem recompiled_same_delay {n : Workflow.Node} (hk : n.kind = .delay) (hs : CanShow n)
    (hm : (Assoc.keys n.config).Nodup) :
    (∃ m, recompiled n = .ok m ∧ n.same m = true) ↔ Assoc.find? "duration" n.config = none := by
  obtain ⟨ms, hms, hshort⟩ := hs hk
  rw [recompiled_delay hk hms hshort]
  constructor
  · rintro ⟨m, h, hsame⟩
    obtain rfl := Except.ok.inj h
    cases hd : Assoc.find? "duration" n.config with
    | none => rfl
    | some v =>
      -- the label was put where the member was, and is dropped with it
      simp only [Node.same, Bool.and_eq_true] at hsame
      have hv := Config.find?_of_same hsame.2 hd
      rw [Assoc.find?_put_of_ne (by decide), Assoc.find?_drop_self] at hv
      cases hv
  · intro hd
    rw [← recompiled_delay hk hms hshort, recompiled_of_keeps hk hms hshort hd]
    refine ⟨_, rfl, ?_⟩
    simp only [Node.same, decide_true, Bool.true_and]
    exact Config.same_drop_append hm hms

theorem compileCondition_of_text {id : String} {config : Config}
    (h : ∀ v, Assoc.find? "expr" config = some v → ∃ s, v = .text s) :
    compileCondition id config = .ok config := by
  unfold compileCondition
  cases hx : Assoc.find? "expr" config with
  | none => rfl
  | some v =>
    obtain ⟨s, rfl⟩ := h v hx
    rfl

theorem recompiled_same_condition {n : Workflow.Node} (hk : n.kind = .condition)
    (hm : (Assoc.keys n.config).Nodup) :
    (∃ m, recompiled n = .ok m ∧ n.same m = true) ↔
      ∀ v, Assoc.find? "expr" n.config = some v → ∃ s, v = .text s := by
  have hd : shownConfig n = n.config :=
    shownConfig_eq (shownData_of_ne_delay (by rw [hk]; decide))
  have he : recompiled n = (compileCondition n.id n.config >>= fun config =>
      pure { n with config }) := by
    unfold recompiled
    rw [hd, hk]
    show (compileCondition n.id n.config >>= _) = _
    rw [← hk]
  rw [he]
  constructor
  · rintro ⟨m, h, -⟩ v hv
    obtain ⟨config, hc, -⟩ := bind_eq_ok.1 h
    unfold compileCondition at hc
    rw [hv] at hc
    cases v with
    | text s => exact ⟨s, rfl⟩
    | null | bool _ | int _ | float _ | list _ | object _ | numbered _ _ | foreign => cases hc
  · intro h
    refine ⟨n, ?_, ?_⟩
    · rw [compileCondition_of_text h]
      rfl
    · simp [Node.same, Config.same_self hm]

/-- A step is the same after it was shown and compiled just if nothing of it is lost. -/
theorem recompiled_same_iff {n : Workflow.Node} (hs : CanShow n)
    (hm : (Assoc.keys n.config).Nodup) :
    (∃ m, recompiled n = .ok m ∧ n.same m = true) ↔ Keeps n := by
  unfold Keeps
  cases hk : n.kind with
  | delay =>
    rw [recompiled_same_delay hk hs hm]
    simp
  | condition =>
    rw [recompiled_same_condition hk hm]
    simp
  | action | split =>
    simp only [reduceCtorEq, false_implies, and_self, iff_true]
    refine ⟨n, ?_, by simp [Node.same, Config.same_self hm]⟩
    unfold recompiled
    rw [shownConfig_eq (shownData_of_ne_delay (by rw [hk]; decide)), hk]
    show Except.ok _ = _
    rw [← hk]

theorem compileAll_shown {ns earlier : List Workflow.Node}
    (hid : ∀ n ∈ ns, n.id.isEmpty = false)
    (hnd : (earlier.map Workflow.Node.id ++ ns.map Workflow.Node.id).Nodup) :
    DraftNode.compileAll earlier (ns.map shown) = (ns.mapM recompiled).map (earlier ++ ·) := by
  induction ns generalizing earlier with
  | nil => simp [DraftNode.compileAll, Except.map, pure, Except.pure]
  | cons n rest ih =>
    have hn : n.id ∉ earlier.map Workflow.Node.id := by
      intro h
      exact (List.nodup_append.1 hnd).2.2 n.id h n.id (by simp) rfl
    rw [List.map_cons, DraftNode.compileAll, compile_shown (hid n List.mem_cons_self) hn,
      List.mapM_cons]
    cases hr : recompiled n with
    | error e => rfl
    | ok m =>
      have hnd' : ((earlier ++ [m]).map Workflow.Node.id ++ rest.map Workflow.Node.id).Nodup := by
        simpa [recompiled_id hr] using hnd
      show DraftNode.compileAll (earlier ++ [m]) (rest.map shown) = _
      rw [ih (fun n' hn' => hid n' (List.mem_cons_of_mem n hn')) hnd']
      show _ = ((rest.mapM recompiled >>= fun ms => pure (m :: ms)).map _ : Except Error _)
      cases rest.mapM recompiled with
      | error e => rfl
      | ok ms => simp [Except.map, Bind.bind, Except.bind, pure, Except.pure]

/-- Steps agree one by one. -/
def SameNodes (ns ms : List Workflow.Node) : Prop :=
  ns.length = ms.length ∧ (ns.zip ms).all (fun (n, m) => n.same m) = true

theorem sameNodes_cons {n m : Workflow.Node} {ns ms : List Workflow.Node} :
    SameNodes (n :: ns) (m :: ms) ↔ n.same m = true ∧ SameNodes ns ms := by
  unfold SameNodes
  simp only [List.length_cons, Nat.add_right_cancel_iff, List.zip_cons_cons, List.all_cons,
    Bool.and_eq_true]
  constructor
  · rintro ⟨hl, hs, ha⟩
    exact ⟨hs, hl, ha⟩
  · rintro ⟨hs, hl, ha⟩
    exact ⟨hl, hs, ha⟩

theorem mapM_recompiled_same_iff {ns : List Workflow.Node} (hs : ∀ n ∈ ns, CanShow n)
    (hm : ∀ n ∈ ns, (Assoc.keys n.config).Nodup) :
    (∃ ms, ns.mapM recompiled = .ok ms ∧ SameNodes ns ms) ↔ ∀ n ∈ ns, Keeps n := by
  induction ns with
  | nil => simp [SameNodes, pure, Except.pure]
  | cons n rest ih =>
    have ih := ih (fun n' hn' => hs n' (List.mem_cons_of_mem n hn'))
      (fun n' hn' => hm n' (List.mem_cons_of_mem n hn'))
    rw [List.forall_mem_cons, ← ih, ← recompiled_same_iff (hs n List.mem_cons_self)
      (hm n List.mem_cons_self), List.mapM_cons]
    constructor
    · rintro ⟨ms, h, hsame⟩
      obtain ⟨m, hr, h⟩ := bind_eq_ok.1 h
      obtain ⟨ms', hrs, h⟩ := bind_eq_ok.1 h
      obtain rfl := pure_eq_ok.1 h
      obtain ⟨hnm, hrest⟩ := sameNodes_cons.1 hsame
      exact ⟨⟨m, hr, hnm⟩, ms', hrs, hrest⟩
    · rintro ⟨⟨m, hr, hnm⟩, ms, hrs, hrest⟩
      exact ⟨m :: ms, bind_eq_ok.2 ⟨m, hr, bind_eq_ok.2 ⟨ms, hrs, rfl⟩⟩,
        sameNodes_cons.2 ⟨hnm, hrest⟩⟩

/-! ## Transitions -/

/-- A transition after it was shown and compiled. -/
def unlabelled (e : Workflow.Edge) : Workflow.Edge :=
  { e with condition := DraftEdge.guardOf e.condition }

theorem compileAll_ofEdge (index : Nat) (es : List Workflow.Edge) :
    DraftEdge.compileAll index (es.map fun e => (Edge.ofEdge e).draft)
      = .ok (es.map unlabelled) := by
  have h := Edge.compileAll_draft index (es.map Edge.ofEdge)
  rw [List.map_map, List.map_map] at h
  exact h

theorem unlabelled_eq_self_iff (e : Workflow.Edge) :
    unlabelled e = e ↔ e.condition ≠ some "" := by
  obtain ⟨source, target, condition⟩ := e
  unfold unlabelled DraftEdge.guardOf
  cases condition with
  | none => simp
  | some s =>
    by_cases hs : s = ""
    · simp [hs]
    · simp [hs]

theorem map_unlabelled_eq_self_iff (es : List Workflow.Edge) :
    es.map unlabelled = es ↔ ∀ e ∈ es, e.condition ≠ some "" := by
  induction es with
  | nil => simp
  | cons e rest ih =>
    rw [List.map_cons, List.cons.injEq, unlabelled_eq_self_iff, ih, List.forall_mem_cons]

/-! ## Graphs -/

theorem compile_shownGraph {g : Workflow.Graph} (hg : g.WellFormed) :
    (shownGraph g).compile
      = (g.nodes.mapM recompiled).map (⟨·, g.edges.map unlabelled⟩) := by
  have hnd : (([] : List Workflow.Node).map Workflow.Node.id
      ++ g.nodes.map Workflow.Node.id).Nodup := hg.ids_nodup
  have hn := compileAll_shown hg.ids_ne_empty hnd
  have he := compileAll_ofEdge 0 g.edges
  unfold Draft.compile shownGraph
  rw [hn, he]
  cases g.nodes.mapM recompiled <;> rfl

theorem shownGraph_same_iff {g : Workflow.Graph} (hg : g.WellFormed)
    (hs : ∀ n ∈ g.nodes, CanShow n) :
    (∃ g', (shownGraph g).compile = .ok g' ∧ g.same g' = true) ↔
      (∀ n ∈ g.nodes, Keeps n) ∧ ∀ e ∈ g.edges, e.condition ≠ some "" := by
  rw [compile_shownGraph hg, ← mapM_recompiled_same_iff hs hg.keys_nodup,
    ← map_unlabelled_eq_self_iff]
  constructor
  · rintro ⟨g', h, hsame⟩
    obtain ⟨ms, hms, rfl⟩ := map_eq_ok.1 h
    simp only [Graph.same, Bool.and_eq_true, decide_eq_true_eq] at hsame
    exact ⟨⟨ms, hms, hsame.1⟩, hsame.2.symm⟩
  · rintro ⟨⟨ms, hms, hsame⟩, he⟩
    refine ⟨_, map_eq_ok.2 ⟨ms, hms, rfl⟩, ?_⟩
    simp only [Graph.same, Bool.and_eq_true, decide_eq_true_eq]
    exact ⟨hsame, he.symm⟩

/-! ## The limit of digits -/

theorem overlong?_shown {n : Workflow.Node} (hs : CanShow n) : (shown n).overlong? = none := by
  refine (DraftNode.overlong?_of_kind n.kind _ _ _).trans ?_
  by_cases hk : n.kind = .delay
  · obtain ⟨ms, h, hshort⟩ := hs hk
    rw [if_pos hk, shownConfig_eq (shownData_short hk h hshort), Assoc.find?_put_self,
      Option.bind_some, Duration.overlong?_label hshort]
  · rw [if_neg hk]

/-- A label that was written is not refused for its digits. -/
theorem checkLabels_shownGraph {g : Workflow.Graph} (hs : ∀ n ∈ g.nodes, CanShow n) :
    (shownGraph g).checkLabels = .ok () := by
  refine Draft.checkLabels_eq_ok_iff.2 fun m hm => ?_
  obtain ⟨n, hn, rfl⟩ := List.mem_map.1 hm
  exact overlong?_shown (hs n hn)

theorem compileBounded_shownGraph {g g' : Workflow.Graph} (hs : ∀ n ∈ g.nodes, CanShow n) :
    (shownGraph g).compileBounded = .ok g' ↔ (shownGraph g).compile = .ok g' := by
  unfold Draft.compileBounded
  rw [mapError_eq_ok, checkLabels_shownGraph hs]
  rfl

/-- The labels of the delays that have milliseconds can be written. -/
def HasShortLabels (g : Workflow.Graph) : Prop :=
  ∀ n ∈ g.nodes, n.kind = .delay → ∀ ms : Nat,
    Assoc.find? "duration_ms" n.config = some (.int ms) → Duration.isShort ms = true

theorem HasShortLabels.canShow {g : Workflow.Graph} (hg : HasShortLabels g) {n : Workflow.Node}
    (hn : n ∈ g.nodes) (ht : IsTimed n) : CanShow n := by
  intro hk
  obtain ⟨ms, hms⟩ := ht hk
  exact ⟨ms, hms, hg n hn hk ms hms⟩

theorem HasShortLabels.of_canShow {g : Workflow.Graph} (h : ∀ n ∈ g.nodes, CanShow n) :
    HasShortLabels g := by
  intro n hn hk ms hms
  obtain ⟨ms', hms', hshort⟩ := h n hn hk
  rw [hms] at hms'
  exact Int.ofNat.inj (Value.int.inj (Option.some.inj hms')) ▸ hshort

/-- What the delays say can be written as labels. -/
def Graph.IsShort (e : Graph) : Prop :=
  ∀ n ∈ e.nodes, n.kind = .delay → ∀ ms : Nat, milliseconds? n.data = some (ms : Int) →
    Duration.isShort ms = true

/-- A label that was read is short, and milliseconds of few digits are. -/
theorem isShort_of_milliseconds? {data : Config} {ms : Nat}
    (h : milliseconds? data = some (ms : Int))
    (hlabel : (Assoc.find? "duration" data).bind Duration.overlong? = none)
    (hown : ∀ k, Assoc.find? "duration_ms" data = some (.int k) →
      k.natAbs < 10 ^ Numeral.maxDigits) : Duration.isShort ms = true := by
  rcases milliseconds?_eq_some h with hint | ⟨s, k, hs, hk, hmk⟩
  · exact Duration.isShort_of_lt (hown ms hint)
  · obtain rfl := Int.ofNat.inj hmk
    rw [hs] at hlabel
    exact Duration.isShort_of_ofLabel? hk hlabel

/-- Within the limit of digits all labels are short, so milliseconds of few digits suffice. -/
theorem Graph.isShort_of_compileBounded {e : Graph} {g : Workflow.Graph}
    (h : e.compileBounded = .ok g)
    (hown : ∀ n ∈ e.nodes, ∀ k, Assoc.find? "duration_ms" n.data = some (.int k) →
      k.natAbs < 10 ^ Numeral.maxDigits) : e.IsShort := by
  intro n hn hk ms hms
  have hlabel := (compileBounded_eq_ok h).1 n hn
  rw [show n.draft.overlong? = _ from DraftNode.overlong?_of_kind n.kind _ _ _, if_pos hk] at hlabel
  exact isShort_of_milliseconds? hms hlabel (hown n hn)

/-- The compiled graph has short labels just if the editor graph has. -/
theorem Graph.hasShortLabels_iff {e : Graph} {g : Workflow.Graph} (h : e.compile = .ok g) :
    HasShortLabels g ↔ e.IsShort := by
  obtain ⟨-, hn, -⟩ := compile_eq_ok h
  have htold {n : Node} {m : Workflow.Node} (hc : Compiles n m) (hk : n.kind = .delay) (ms : Nat) :
      Assoc.find? "duration_ms" m.config = some (.int ms) ↔
        milliseconds? n.data = some (ms : Int) := by
    have hd := hc.data
    rw [hk] at hd
    obtain ⟨k, hk', hfound, -⟩ := compileDelay_eq_ok hd
    rw [hk', hfound, Option.some.injEq, Option.some.injEq, Value.int.injEq]
  constructor
  · intro hl n hmem hk ms hms
    obtain ⟨i, hi, rfl⟩ := List.getElem_of_mem hmem
    have hi' : i < g.nodes.length := hn.length_eq ▸ hi
    have hc := hn.get hi hi'
    exact hl _ (List.getElem_mem hi') (hc.kind.trans hk) ms ((htold hc hk ms).2 hms)
  · intro hl m hmem hk ms hms
    obtain ⟨n, hmem', hc⟩ := exists_mem_of_forall₂ hn m hmem
    have hkind : n.kind = .delay := hc.kind.symm.trans hk
    exact hl n hmem' hkind ms ((htold hc hkind ms).1 hms)

/-! ## Top theorems -/

theorem isTimed_and_keeps_of_violations {g : Workflow.Graph} (hv : g.violations = []) :
    (∀ n ∈ g.nodes, IsTimed n ∧ Keeps n) ∧ ∀ e ∈ g.edges, e.condition ≠ some "" := by
  refine ⟨?_, ?_⟩
  · intro n hn
    have hc := Graph.configViolations_eq_nil hv hn
    refine ⟨?_, ?_, ?_⟩
    · intro hk
      rw [hk] at hc
      exact (Sketch.delayViolations_eq_nil hc).1
    · intro hk
      rw [hk] at hc
      exact (Sketch.delayViolations_eq_nil hc).2
    · intro hk v hx
      rw [hk] at hc
      have hf := Sketch.conditionViolations_eq_nil hc
      rw [hx] at hf
      cases v with
      | text s => exact ⟨s, rfl⟩
      | null | bool _ | int _ | float _ | list _ | object _ | numbered _ _ | foreign => cases hf
  · intro e he hs
    have hb := Graph.isFilled_condition hv he hs
    revert hb
    decide

theorem canShow_of_violations {g : Workflow.Graph} (hv : g.violations = [])
    (hl : HasShortLabels g) : ∀ n ∈ g.nodes, CanShow n :=
  fun n hn => hl.canShow hn ((isTimed_and_keeps_of_violations hv).1 n hn).1

/-- Of a graph that is read: when it can be shown, and what it fails for otherwise; when showing and
compiling give it back; and that both are so if it breaks no rule and its labels can be written,
whatever the canvas, the draws and the layout. -/
theorem compile_ofGraph_iff (raw : Value) (g : Workflow.Graph) (canvas : Canvas)
    (draws : Nat → Number) (layout : Layout) (hraw : raw.hasDistinctKeys = true)
    (hg : Workflow.Graph.ofValue raw = .ok g) (hc : canvas.IsFinite)
    (hd : ∀ i, Canvas.IsDraw (draws i)) :
    ((∃ e, Graph.ofGraph canvas draws layout g = .ok e) ↔
      HasShortLabels g ∧ ∀ n ∈ g.nodes, n.kind = .delay →
        ∃ ms : Int, Assoc.find? "duration_ms" n.config = some (.int ms) ∧ 0 ≤ ms) ∧
    (∀ err, Graph.ofGraph canvas draws layout g = .error err → ∃ n ∈ g.nodes, Unshown n err) ∧
    (∀ e, Graph.ofGraph canvas draws layout g = .ok e →
      ((∃ g', e.compileBounded = .ok g' ∧ g.same g' = true) ↔
        (∀ n ∈ g.nodes, n.kind = .delay → Assoc.find? "duration" n.config = none) ∧
        (∀ t ∈ g.edges, t.condition ≠ some "") ∧
        ∀ n ∈ g.nodes, n.kind = .condition → ∀ v, Assoc.find? "expr" n.config = some v →
          ∃ s, v = .text s)) ∧
    (g.violations = [] → HasShortLabels g → ∃ e g', Graph.ofGraph canvas draws layout g = .ok e ∧
      e.compileBounded = .ok g' ∧ g.same g' = true) := by
  have hw := Workflow.Graph.wellFormed_of_ofValue hraw hg
  have hshow := ofGraph_isOk_iff hc hd layout g
  refine ⟨?_, fun err => ofGraph_error hc hd, ?_, ?_⟩
  · rw [hshow]
    constructor
    · intro h
      refine ⟨.of_canShow h, fun n hn hk => ?_⟩
      obtain ⟨ms, hms, -⟩ := h n hn hk
      exact ⟨ms, hms, Int.natCast_nonneg ms⟩
    · rintro ⟨hl, h⟩ n hn
      refine hl.canShow hn fun hk => ?_
      obtain ⟨ms, hms, hpos⟩ := h n hn hk
      obtain ⟨ms, rfl⟩ := Int.eq_ofNat_of_zero_le hpos
      exact ⟨ms, hms⟩
  · intro e he
    obtain ⟨hs, hdraft⟩ := draft_ofGraph he
    unfold Graph.compileBounded
    simp only [hdraft, compileBounded_shownGraph hs]
    rw [shownGraph_same_iff hw hs]
    constructor
    · rintro ⟨hk, ht⟩
      exact ⟨fun n hn => (hk n hn).1, ht, fun n hn => (hk n hn).2⟩
    · rintro ⟨hdel, ht, hx⟩
      exact ⟨fun n hn => ⟨hdel n hn, hx n hn⟩, ht⟩
  · intro hv hl
    obtain ⟨hn, ht⟩ := isTimed_and_keeps_of_violations hv
    obtain ⟨e, he⟩ := hshow.2 (canShow_of_violations hv hl)
    obtain ⟨hs, hdraft⟩ := draft_ofGraph he
    obtain ⟨g', hg', hsame⟩ := (shownGraph_same_iff hw hs).2 ⟨fun n h => (hn n h).2, ht⟩
    refine ⟨e, g', he, ?_, hsame⟩
    unfold Graph.compileBounded
    rw [hdraft, compileBounded_shownGraph hs, hg']

/-- A reminder a day and a half later, as a document. -/
def reminderValue : Value :=
  .object [
    ("nodes", .list [
      .object [("id", .text "wait"), ("type", .text "delay"), ("name", .text "Wait"),
        ("config", .object [("duration_ms", .int 129600000), ("note", .null)])],
      .object [("id", .text "open"), ("type", .text "condition"),
        ("config", .object [("expr", .text "cart.open")])]]),
    ("edges", .list [
      .object [("from", .text "wait"), ("to", .text "open"), ("condition", .text "true")]])]

def reminder : Workflow.Graph where
  nodes := [
    ⟨"wait", .delay, "Wait", [("duration_ms", .int 129600000), ("note", .null)]⟩,
    ⟨"open", .condition, "", [("expr", .text "cart.open")]⟩]
  edges := [⟨"wait", "open", some "true"⟩]

/-- A draw of one half. -/
def half : Number := .float ⟨false, 2 ^ 52, -53⟩

theorem half_isDraw : Canvas.IsDraw half := ⟨_, rfl, rfl, by decide⟩

theorem compile_reminder :
    reminderValue.hasDistinctKeys = true ∧
    Workflow.Graph.ofValue reminderValue = .ok reminder ∧ Canvas.standard.IsFinite ∧
    Canvas.IsDraw half ∧ reminder.violations = [] ∧ HasShortLabels reminder ∧
    ∃ e g', Graph.ofGraph .standard (fun _ => half) [("open", ⟨.int 3, .int 4⟩)] reminder = .ok e ∧
      e.compileBounded = .ok g' ∧ reminder.same g' = true := by
  have hraw : reminderValue.hasDistinctKeys = true := by decide
  have hg : Workflow.Graph.ofValue reminderValue = .ok reminder := rfl
  have hv : reminder.violations = [] := by decide
  have hl : HasShortLabels reminder := by
    intro n hn hk ms hms
    simp only [reminder, List.mem_cons, List.not_mem_nil, or_false] at hn
    rcases hn with rfl | rfl
    · cases hms
      decide +kernel
    · cases hk
  obtain ⟨-, -, -, hkept⟩ := compile_ofGraph_iff reminderValue reminder .standard (fun _ => half)
    [("open", ⟨.int 3, .int 4⟩)] hraw hg Canvas.standard_isFinite (fun _ => half_isDraw)
  exact ⟨hraw, hg, Canvas.standard_isFinite, half_isDraw, hv, hl, hkept hv hl⟩

/-- A delay of as many milliseconds. -/
def waitValue (ms : Nat) : Value :=
  .object [("nodes", .list [
    .object [("id", .text "wait"), ("type", .text "delay"),
      ("config", .object [("duration_ms", .int ms)])]])]

def wait (ms : Nat) : Workflow.Graph where
  nodes := [⟨"wait", .delay, "", [("duration_ms", .int ms)]⟩]
  edges := []

/-- A delay that breaks no rule is not shown if it is too long for its label to be written; and
no step is placed on a canvas whose width is beyond the doubles. -/
theorem not_shown :
    (Workflow.Graph.ofValue (waitValue (10 ^ 5000)) = .ok (wait (10 ^ 5000)) ∧
      (wait (10 ^ 5000)).validate = .ok [] ∧
      Graph.ofGraph .standard (fun _ => half) [] (wait (10 ^ 5000)) = .error (.faulty .unwritable)) ∧
    (Workflow.Graph.ofValue (waitValue 0) = .ok (wait 0) ∧ (wait 0).validate = .ok [] ∧
      Graph.ofGraph ⟨.int (10 ^ 400), .int 300⟩ (fun _ => half) [] (wait 0) =
        .error (.faulty .integerTooLarge)) := by
  refine ⟨⟨rfl, ?_, ?_⟩, rfl, ?_, ?_⟩ <;> decide +kernel

end Editor

end Workflow
