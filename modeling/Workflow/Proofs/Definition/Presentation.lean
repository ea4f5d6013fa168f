import Workflow.Proofs.Definition.Progress
import Workflow.Proofs.Editor.Saving
import Workflow.Proofs.Editor.Wire

/-!
# Definitions that the editor can open and save

The editor can open a definition if its graph breaks no rule, its settings are maps and
its labels can be written.  That is so from its creation on, whatever is done to it with
documents that were read, and what was opened can be saved as it is.

    d presentable, op reads documents → d' presentable        (Presentable.apply)
    d presentable → it is opened, saved and opened as before   (Presentable.reopen)
-/

namespace Workflow

open Editor (Canvas shownGraph shownAt)

/-! ## Graphs -/

/-- A graph that is shown. -/
structure Graph.Presentable (g : Graph) : Prop where
  valid : g.violations = []
  wellFormed : g.WellFormed
  labels : Editor.HasShortLabels g

namespace Graph.Presentable

variable {g : Graph}

theorem canShow (hg : g.Presentable) : ∀ n ∈ g.nodes, Editor.CanShow n :=
  Editor.canShow_of_violations hg.valid hg.labels

theorem of_read (hv : g.violations = []) (hr : g.IsRead) : g.Presentable where
  valid := hv
  wellFormed := by
    obtain ⟨raw, hraw, h⟩ := hr
    exact wellFormed_of_ofValue hraw.distinct h
  labels n hn _ ms hms := Duration.isShort_of_lt ((hr.settings n hn).member hms).natAbs_lt

theorem of_compiled {e : Editor.Graph} (hc : e.compileBounded = .ok g) (hv : g.violations = [])
    (he : e.IsRead) : g.Presentable where
  valid := hv
  wellFormed := Editor.Graph.compile_wellFormed (fun n hn => (he.nodes n hn).1.keys_nodup)
    (Editor.Graph.compileBounded_eq_ok hc).2
  labels := by
    refine (Editor.Graph.hasShortLabels_iff (Editor.Graph.compileBounded_eq_ok hc).2).2 ?_
    refine Editor.Graph.isShort_of_compileBounded hc fun n hn k hk => ?_
    exact ((he.nodes n hn).1.member hk).natAbs_lt

end Graph.Presentable

/-- The same graph can be written as well. -/
theorem Graph.isWritable_of_same {g g' : Graph} (hg : g.WellFormed) (hs : g.same g' = true)
    (h : (g.toValue []).isWritable = true) : (g'.toValue []).isWritable = true := by
  obtain ⟨hn, -⟩ := same_iff.1 hs
  rw [isWritable_iff] at h ⊢
  intro m hm e he
  obtain ⟨i, hi, rfl⟩ := List.getElem_of_mem hm
  have hl : i < g.nodes.length := hn.length_eq ▸ hi
  have hmem : g.nodes[i] ∈ g.nodes := List.getElem_mem hl
  obtain ⟨-, -, -, hconfig⟩ := Node.same_iff.1 (hn.get hl hi)
  exact h _ hmem e ((Config.perm_of_same (hg.keys_nodup _ hmem) hconfig).mem_iff.2 he)

/-! ## Views -/

namespace Editor

/-- An editor graph that shows a graph, wherever it places the steps. -/
structure Graph.IsViewOf (e : Graph) (g : Workflow.Graph) : Prop where
  draft : e.draft = shownGraph g
  ui : ∀ n ∈ e.nodes, n.ui = []
  placed : e.IsPlaced
  edges : e.edges = g.edges.map Edge.ofEdge

namespace Canvas

/-- A coordinate is a double, for a draw is. -/
theorem coordinate_isReal {extent : Value} {r z : Number} (hr : IsDraw r)
    (h : coordinate extent r = .ok z) : ∃ x, z = .float x := by
  obtain ⟨y, rfl, -, -⟩ := hr
  unfold coordinate at h
  split at h
  · cases h
  next hdraw => cases hdraw
  · split at h
    · exact ⟨_, (Except.ok.inj h).symm⟩
    · cases h

theorem position_isReal {canvas : Canvas} {r s : Number} (hr : IsDraw r) (hs : IsDraw s)
    {p : Position} (h : canvas.position r s = .ok p) : p.IsReal := by
  obtain ⟨x, hx, h⟩ := bind_eq_ok.1 h
  obtain ⟨y, hy, h⟩ := bind_eq_ok.1 h
  obtain rfl := pure_eq_ok.1 h
  obtain ⟨x, rfl⟩ := coordinate_isReal hr hx
  obtain ⟨y, rfl⟩ := coordinate_isReal hs hy
  exact ⟨x, y, rfl⟩

end Canvas

theorem Node.ofNode_places {canvas : Canvas} {draws : Nat → Number} {layout : Layout}
    (hd : ∀ i, Canvas.IsDraw (draws i)) (hl : layout.IsReal) {n : Workflow.Node} {m : Node}
    (h : Node.ofNode canvas draws layout n = .ok m) : m.ui = [] ∧ m.position.IsReal := by
  obtain ⟨data, -, h⟩ := bind_eq_ok.1 h
  obtain ⟨p, hp, h⟩ := bind_eq_ok.1 h
  obtain rfl := pure_eq_ok.1 h
  refine ⟨rfl, ?_⟩
  unfold place at hp
  split at hp
  next p' hstored =>
    obtain rfl := Except.ok.inj hp
    exact hl _ (Assoc.mem_of_find? hstored)
  · exact Canvas.position_isReal (hd 0) (hd 1) (mapError_eq_ok.1 hp)

theorem Node.allOfNodes_places {canvas : Canvas} {draws : Nat → Number} {layout : Layout}
    (hd : ∀ i, Canvas.IsDraw (draws i)) (hl : layout.IsReal) {ns : List Workflow.Node}
    {ms : List Node} (h : Node.allOfNodes canvas layout draws ns = .ok ms) :
    ∀ m ∈ ms, m.ui = [] ∧ m.position.IsReal := by
  induction ns generalizing draws ms with
  | nil =>
    obtain rfl := Except.ok.inj h
    exact fun m hm => absurd hm List.not_mem_nil
  | cons n rest ih =>
    obtain ⟨m, hm, h⟩ := bind_eq_ok.1 h
    obtain ⟨later, hlater, h⟩ := bind_eq_ok.1 h
    obtain rfl := pure_eq_ok.1 h
    refine List.forall_mem_cons.2 ⟨Node.ofNode_places hd hl hm, ih ?_ hlater⟩
    intro i
    split
    · exact hd i
    · exact hd (i + 2)

/-- What is shown of a graph is a view of it. -/
theorem isViewOf_ofGraph {canvas : Canvas} {draws : Nat → Number} {layout : Layout}
    (hd : ∀ i, Canvas.IsDraw (draws i)) (hl : layout.IsReal) {g : Workflow.Graph} {e : Graph}
    (h : Graph.ofGraph canvas draws layout g = .ok e) : e.IsViewOf g := by
  have hdraft := (draft_ofGraph h).2
  obtain ⟨ms, hms, h⟩ := bind_eq_ok.1 h
  obtain rfl := pure_eq_ok.1 h
  have hplaces := Node.allOfNodes_places hd hl hms
  exact ⟨hdraft, fun n hn => (hplaces n hn).1, fun n hn => (hplaces n hn).2, rfl⟩

/-- A step is its draft at its place. -/
theorem Node.eq_shownAt {m : Node} {n : Workflow.Node} {layout : Layout} (hd : m.draft = shown n)
    (hui : m.ui = []) (hp : Assoc.find? m.id layout = some m.position) : m = shownAt layout n := by
  obtain ⟨id, kind, name, position, data, ui⟩ := m
  obtain ⟨hid, hkind, hname, hdata⟩ := DraftNode.mk.inj hd
  obtain rfl := Value.text.inj hid
  obtain rfl := Value.text.inj hname
  obtain rfl := Value.object.inj hdata
  obtain rfl : ui = [] := hui
  have hkind := congrArg (Named.ofValue? (α := NodeKind)) hkind
  rw [Named.ofValue?_name_nodeKind, Named.ofValue?_name_nodeKind] at hkind
  obtain rfl := Option.some.inj hkind
  unfold shownAt
  rw [hp]
  rfl

namespace Graph.IsViewOf

variable {e : Graph} {g : Workflow.Graph}

/-- A view is read back from its wire form. -/
theorem ofValue_toValue (h : e.IsViewOf g) : Graph.ofValue e.toValue = .ok e := by
  refine Graph.ofValue_toValue h.placed ?_
  intro t ht
  rw [h.edges] at ht
  obtain ⟨t, -, rfl⟩ := List.mem_map.1 ht
  show (!(t.source ++ "-" ++ t.target).isEmpty) = true
  simp

/-- The steps of a view are those of its graph, at the places of the view. -/
theorem nodes_eq (h : e.IsViewOf g) (hnd : (e.nodes.map Node.id).Nodup) :
    e.nodes = g.nodes.map (shownAt e.places) := by
  have hdraft : e.nodes.map Node.draft = g.nodes.map shown := congrArg Draft.nodes h.draft
  refine List.ext_getElem ?_ fun i hi hi' => ?_
  · simpa using congrArg List.length hdraft
  · rw [List.getElem_map]
    have hi'' : i < (e.nodes.map Node.draft).length := by simpa using hi
    have hat := List.getElem_of_eq hdraft hi''
    rw [List.getElem_map, List.getElem_map] at hat
    have hmem : e.nodes[i] ∈ e.nodes := List.getElem_mem hi
    exact Node.eq_shownAt hat (h.ui _ hmem) (find?_places hnd hmem)

/-- A view that compiles to a graph with the same steps on display is all that is shown of it. -/
theorem ofGraph_eq (h : e.IsViewOf g) {g' : Workflow.Graph} (hc : e.compile = .ok g')
    (hs : ∀ n ∈ g'.nodes, CanShow n) (hsame : g.same g' = true)
    (hshown : g'.nodes.map (shownAt e.places) = g.nodes.map (shownAt e.places))
    (canvas : Canvas) (draws : Nat → Number) :
    Graph.ofGraph canvas draws e.places g' = .ok e := by
  have hnd : (e.nodes.map Node.id).Nodup := by
    rw [← compile_ids hc]
    exact (compile_eq_ok hc).1.ids_nodup
  rw [ofGraph_of_placed hs (fun m hm => contains_places hc hm), hshown, ← h.nodes_eq hnd,
    ← (Workflow.Graph.same_iff.1 hsame).2, ← h.edges]

end Graph.IsViewOf

end Editor

/-! ## Definitions -/

namespace Definition

/-- A definition that the editor can open and save. -/
structure Presentable (d : Definition) : Prop where
  graph : d.graph.Presentable
  filled_of_active : d.lifecycle = .active → d.graph.isEmpty = false
  layout : d.layout.IsReal

/-- The documents that an operation is given were read. -/
def Operation.IsRead : Operation → Prop
  | .updateGraph graph places => graph.IsRead ∧ ∀ p ∈ places, p.IsReal
  | .applyEdited edited => edited.IsRead
  | .rename .. | .updateTrigger _ | .govern .. | .activate | .pause => True

variable {d d' : Definition} {now : Timestamp}

theorem Presentable.apply (hd : d.Presentable) {op : Operation} (hop : op.IsRead)
    (h : op.apply d now = .ok d') : d'.Presentable := by
  cases op with
  | rename name description =>
    obtain ⟨t, -, -, rfl⟩ := rename_eq_ok h
    exact { hd with }
  | updateTrigger trigger =>
    obtain ⟨-, rfl⟩ := updateTrigger_eq_ok h
    exact { hd with }
  | updateGraph graph places =>
    obtain ⟨hread, hreal⟩ := hop
    obtain ⟨hv, hf, layout, hl, rfl⟩ := updateGraph_eq_ok h
    exact ⟨.of_read hv hread, hf, (Places.isReal_getD hreal hd.layout).prune hl⟩
  | applyEdited edited =>
    obtain ⟨graph, hc, h⟩ := applyEdited_eq_ok h
    obtain ⟨hv, hf, layout, hprune, rfl⟩ := updateGraph_eq_ok h
    have hplaced : edited.IsPlaced := fun n hn => (hop.nodes n hn).2
    exact ⟨.of_compiled hc hv hop, hf, hplaced.layout.places.prune hprune⟩
  | govern action actor notes =>
    obtain ⟨⟨_, e⟩, hg, rfl⟩ := map_eq_ok.1 h
    obtain ⟨target, -, -, -, rfl⟩ := govern_eq_ok hg
    unfold suspend
    split
    · exact ⟨hd.graph, nofun, hd.layout⟩
    · exact { hd with }
  | activate =>
    obtain ⟨-, ⟨-, rfl⟩ | ⟨-, -, hf, rfl⟩⟩ := activate_eq_ok h
    · exact hd
    · exact ⟨hd.graph, fun _ => hf, hd.layout⟩
  | pause =>
    obtain ⟨-, rfl⟩ := pause_eq_ok h
    exact ⟨hd.graph, nofun, hd.layout⟩

/-- What is created of documents that were read is presentable. -/
theorem Presentable.define {p : Proposal} {name : String} (ha : p.accept = .ok name)
    (hr : p.graph.IsRead) (hl : p.layout.IsReal) (id : Uuid) : (p.define name id now).Presentable := by
  have hc : create p id now = .ok (p.define name id now) := bind_eq_ok.2 ⟨name, ha, rfl⟩
  obtain ⟨_, -, -, -, hv, -⟩ := create_eq_ok hc
  exact ⟨.of_read hv hr, nofun, hl.prune p.graph⟩

/-- A presentable definition is opened by the editor, wherever steps without a place are put. -/
theorem Presentable.opened (hd : d.Presentable) {canvas : Canvas} (hc : canvas.IsFinite)
    {draws : Nat → Number} (hdraws : ∀ i, Canvas.IsDraw (draws i)) :
    ∃ e, d.edited canvas draws = .ok e ∧ e.IsViewOf d.graph := by
  obtain ⟨e, he⟩ := (Editor.ofGraph_isOk_iff hc hdraws d.layout d.graph).2 hd.graph.canShow
  exact ⟨e, he, Editor.isViewOf_ofGraph hdraws hd.layout he⟩

/-- What was opened is saved as it is, and is then opened as it was, without draws. -/
theorem Presentable.reopen (hd : d.Presentable) {e : Editor.Graph} (he : e.IsViewOf d.graph)
    (now : Timestamp) : ∃ g', d.graph.same g' = true ∧
      d.applyEdited e now = .ok ({ d with graph := g', layout := e.places }.touch now) ∧
      Editor.drawsTaken e.places g'.nodes = 0 ∧
      ∀ canvas draws, Editor.Graph.ofGraph canvas draws e.places g' = .ok e := by
  obtain ⟨g', hg', hsame, hv', hs, hshown⟩ :=
    Editor.compile_shownGraph_of_valid hd.graph.wellFormed hd.graph.valid hd.graph.canShow
  rw [← he.draft] at hg'
  have hf' : d.lifecycle = .active → g'.isEmpty = false := by
    rw [Graph.isEmpty_of_same hsame]
    exact hd.filled_of_active
  have hc := (Editor.Graph.compileBounded_eq_ok hg').2
  have hp : ∀ m ∈ g'.nodes, Assoc.contains m.id e.places = true := fun m hm =>
    Editor.Graph.contains_places hc hm
  exact ⟨g', hsame, applyEdited_of_valid hg' hv' hf',
    (Editor.Node.allOfNodes_of_placed hs hp default fun _ => default).2,
    he.ofGraph_eq hc hs hsame (hshown e.places)⟩

end Definition

end Workflow
