import Workflow.Proofs.Definition.Governance
import Workflow.Proofs.Editor.RoundTrip

/-!
# What the editor saves is what it shows next

Saving drops what the editor keeps for itself and turns labels into milliseconds;
showing turns them into labels again.  What is shown after an editor graph was saved
is that graph with its delays rewritten, whatever the canvas and the draws, and
saving it once more changes nothing.

    every step has a place → showing takes no draws             (ofGraph_of_placed)
    edited is saved → it is shown as it was, delays rewritten, if their labels can be
      written                                                    (shown_as_saved)
-/

namespace Workflow

namespace Editor

/-! ## Steps at their places -/

/-- A step as it is shown at its stored place. -/
def shownAt (layout : Layout) (n : Workflow.Node) : Node :=
  ⟨n.id, n.kind, n.name, (Assoc.find? n.id layout).getD default, shownConfig n, []⟩

section

variable {layout : Layout} {ns : List Workflow.Node}

theorem Node.ofNode_of_placed {n : Workflow.Node} (hs : CanShow n)
    (hp : Assoc.contains n.id layout = true) (canvas : Canvas) (draws : Nat → Number) :
    Node.ofNode canvas draws layout n = .ok (shownAt layout n) := by
  obtain ⟨data, hd⟩ := hs.shownData_isOk
  obtain ⟨p, hp⟩ := Option.isSome_iff_exists.1 hp
  unfold Node.ofNode shownAt
  rw [shownConfig_eq hd, hd, hp]
  rfl

/-- Steps that have places are shown there, and no draw is taken. -/
theorem Node.allOfNodes_of_placed (hs : ∀ n ∈ ns, CanShow n)
    (hp : ∀ n ∈ ns, Assoc.contains n.id layout = true) (canvas : Canvas) (draws : Nat → Number) :
    Node.allOfNodes canvas layout draws ns = .ok (ns.map (shownAt layout)) ∧
      drawsTaken layout ns = 0 := by
  induction ns generalizing draws with
  | nil => exact ⟨rfl, rfl⟩
  | cons n rest ih =>
    have hn := Node.ofNode_of_placed (hs n List.mem_cons_self) (hp n List.mem_cons_self) canvas draws
    have hrest := ih (fun m hm => hs m (List.mem_cons_of_mem n hm))
      (fun m hm => hp m (List.mem_cons_of_mem n hm))
    refine ⟨bind_eq_ok.2 ⟨_, hn, bind_eq_ok.2 ⟨_, (hrest _).1, rfl⟩⟩, ?_⟩
    obtain ⟨data, hd⟩ := (hs n List.mem_cons_self).shownData_isOk
    unfold drawsTaken
    simp only [hd, hp n List.mem_cons_self, if_true, (hrest draws).2]

/-- Steps that have places are shown on any canvas, but for a delay that is not shown anywhere. -/
theorem Node.allOfNodes_error_of_placed (hp : ∀ n ∈ ns, Assoc.contains n.id layout = true)
    {canvas : Canvas} {draws : Nat → Number} {err : Error}
    (h : Node.allOfNodes canvas layout draws ns = .error err) : ∃ n ∈ ns, Unshown n err := by
  induction ns generalizing draws with
  | nil => cases h
  | cons n rest ih =>
    rcases bind_eq_error.1 h with h | ⟨m, -, h⟩
    · refine ⟨n, List.mem_cons_self, ?_⟩
      rcases bind_eq_error.1 h with h | ⟨data, hdata, h⟩
      · exact unshown_of_shownData h
      · have hn := Node.ofNode_of_placed (canShow_of_shownData hdata) (hp n List.mem_cons_self)
          canvas draws
        cases hn.symm.trans (bind_eq_error.2 (.inr ⟨data, hdata, h⟩))
    · rcases bind_eq_error.1 h with h | ⟨ms, -, h⟩
      · obtain ⟨n', hmem, hn'⟩ := ih (fun m hm => hp m (List.mem_cons_of_mem n hm)) h
        exact ⟨n', List.mem_cons_of_mem n hmem, hn'⟩
      · cases h

theorem ofGraph_of_placed {g : Workflow.Graph} (hs : ∀ n ∈ g.nodes, CanShow n)
    (hp : ∀ n ∈ g.nodes, Assoc.contains n.id layout = true) (canvas : Canvas)
    (draws : Nat → Number) :
    Graph.ofGraph canvas draws layout g
      = .ok ⟨g.nodes.map (shownAt layout), g.edges.map Edge.ofEdge⟩ :=
  bind_eq_ok.2 ⟨_, (Node.allOfNodes_of_placed hs hp canvas draws).1, rfl⟩

end

/-! ## Saved graphs -/

/-- A step that was saved, and how it is shown. -/
structure Node.ShownAs (n m : Node) : Prop where
  id : m.id = n.id
  kind : m.kind = n.kind
  name : m.name = n.name
  position : m.position = n.position
  ui : m.ui = []
  /-- the settings of a step that is no delay are shown as they are -/
  data : n.kind ≠ .delay → m.data = n.data
  /-- a delay is shown with one label in place of its label and its milliseconds -/
  delay : n.kind = .delay → ∃ ms : Nat, milliseconds? n.data = some (ms : Int) ∧
    Config.same (Assoc.put "duration" (.text (Duration.label ms))
      (Assoc.drop "duration_ms" n.data)) m.data = true

/-- A transition that was saved, as it is shown. -/
def Edge.shown (e : Edge) : Edge :=
  ⟨joined e.source e.target, e.source, e.target, if e.label = some "" then none else e.label⟩

/-- An editor graph that was saved, and how it is shown. -/
structure Graph.ShownAs (e e' : Graph) : Prop where
  nodes : List.Forall₂ Node.ShownAs e.nodes e'.nodes
  edges : e'.edges = e.edges.map Edge.shown

theorem Edge.ofEdge_compiled (e : Edge) : Edge.ofEdge e.compiled = e.shown := by
  rw [e.compiled_eq]
  rfl

/-- What is shown of the compiled step, at the place where the step was saved. -/
theorem Compiles.shownAs {n : Node} {m : Workflow.Node} {layout : Layout} (hc : Compiles n m)
    (hk : (Assoc.keys n.data).Nodup) (hs : CanShow m)
    (hp : Assoc.find? n.id layout = some n.position) : n.ShownAs (shownAt layout m) where
  id := hc.id
  kind := hc.kind
  name := hc.name
  position := by
    show (Assoc.find? m.id layout).getD default = n.position
    rw [hc.id, hp]
    rfl
  ui := rfl
  data := by
    intro hne
    show shownConfig m = n.data
    rw [shownConfig_eq (shownData_of_ne_delay (hc.kind.trans_ne hne)),
      compileData_of_ne_delay hne hc.data]
  delay := by
    intro hdelay
    obtain ⟨ms, hms, hshort⟩ := hs (hc.kind.trans hdelay)
    have hd := hc.data
    rw [hdelay] at hd
    obtain ⟨k, hk', hfound, hdrop⟩ := compileDelay_eq_ok hd
    obtain rfl : k = ms := by
      rw [hms] at hfound
      exact (Value.int.inj (Option.some.inj hfound)).symm
    refine ⟨ms, hk', ?_⟩
    show Config.same _ (shownConfig m) = true
    rw [shownConfig_eq (shownData_short (hc.kind.trans hdelay) hms hshort), hdrop]
    exact Config.same_put_drop (Assoc.nodup_keys_drop _ hk) _ _

/-! ## Places -/

namespace Graph

/-- Where each step is. -/
def places (e : Graph) : Layout := e.nodes.map fun n => (n.id, n.position)

variable {e : Graph} {g : Workflow.Graph}

theorem keys_places (e : Graph) : Assoc.keys e.places = e.nodes.map Node.id := by
  unfold Assoc.keys places
  rw [List.map_map]
  rfl

theorem find?_places (h : (e.nodes.map Node.id).Nodup) {n : Node} (hn : n ∈ e.nodes) :
    Assoc.find? n.id e.places = some n.position := by
  rw [← keys_places] at h
  exact Assoc.find?_of_mem h (List.mem_map.2 ⟨n, hn, rfl⟩)

/-- Of a graph that compiles each step has a place, and no other has one. -/
theorem layout_prune (h : e.compile = .ok g) : e.layout.prune g = e.places := by
  have hids := compile_ids h
  have hnd : (Assoc.keys e.places).Nodup := by
    rw [keys_places, ← hids]
    exact (compile_eq_ok h).1.ids_nodup
  have hl : e.layout = e.places := Assoc.ofList_of_nodup hnd
  unfold Layout.prune
  rw [hl, hids, List.filter_eq_self]
  rintro ⟨id, p⟩ hp
  obtain ⟨n, hn, hnp⟩ := List.mem_map.1 hp
  obtain ⟨rfl, rfl⟩ := Prod.mk.inj hnp
  exact List.contains_iff_mem.2 (List.mem_map.2 ⟨n, hn, rfl⟩)

theorem contains_places (h : e.compile = .ok g) {m : Workflow.Node} (hm : m ∈ g.nodes) :
    Assoc.contains m.id e.places = true := by
  have hid : m.id ∈ e.nodes.map Node.id := by
    rw [← compile_ids h]
    exact List.mem_map.2 ⟨m, hm, rfl⟩
  obtain ⟨n, hn, hnm⟩ := List.mem_map.1 hid
  have hnd : (e.nodes.map Node.id).Nodup := by
    rw [← compile_ids h]
    exact (compile_eq_ok h).1.ids_nodup
  unfold Assoc.contains
  rw [← hnm, find?_places hnd hn]
  rfl

theorem ShownAs.places {e' : Graph} (h : e.ShownAs e') : e'.places = e.places :=
  map_eq_of_forall₂ (fun _ _ hnm => Prod.ext hnm.id hnm.position) h.nodes

end Graph

/-- What is shown of a saved graph at the places where its steps were saved. -/
theorem Graph.shownAs_places {e : Graph} {g : Workflow.Graph}
    (hk : ∀ n ∈ e.nodes, (Assoc.keys n.data).Nodup) (hc : e.compile = .ok g)
    (hs : ∀ m ∈ g.nodes, CanShow m) :
    e.ShownAs ⟨g.nodes.map (shownAt e.places), g.edges.map Edge.ofEdge⟩ := by
  obtain ⟨hr, hn, he⟩ := Graph.compile_eq_ok hc
  have hnd : (e.nodes.map Node.id).Nodup := by
    rw [← Graph.compile_ids hc]
    exact hr.ids_nodup
  constructor
  · refine List.forall₂_map_right_iff.2 (List.forall₂_iff_get.2 ⟨hn.length_eq, ?_⟩)
    intro i h₁ h₂
    have hmem : e.nodes.get ⟨i, h₁⟩ ∈ e.nodes := List.get_mem _ _
    exact (hn.get h₁ h₂).shownAs (hk _ hmem) (hs _ (List.get_mem _ _)) (find?_places hnd hmem)
  · show g.edges.map Edge.ofEdge = e.edges.map Edge.shown
    rw [he, List.map_map]
    exact List.map_congr_left fun t _ => Edge.ofEdge_compiled t

/-! ## Saving what is shown -/

/-- Showing does not tell a step from the one that it was compiled to again. -/
theorem shownData_recompiled {n m : Workflow.Node} (hs : CanShow n) (hk : Keeps n)
    (h : recompiled n = .ok m) : shownData m = shownData n := by
  by_cases hdelay : n.kind = .delay
  · obtain ⟨ms, hms, hshort⟩ := hs hdelay
    rw [recompiled_of_keeps hdelay hms hshort (hk.1 hdelay)] at h
    have hkind : m.kind = .delay := by rw [← Except.ok.inj h, hdelay]
    have hconfig : m.config = Assoc.drop "duration_ms" n.config ++ [("duration_ms", .int ms)] := by
      rw [← Except.ok.inj h]
    have hlast : Assoc.find? "duration_ms" m.config = some (.int ms) := by
      rw [hconfig, Assoc.find?_append, Assoc.find?_drop_self, Option.none_or, Assoc.find?_cons,
        if_pos rfl]
    have hdrop : Assoc.drop "duration_ms" m.config = Assoc.drop "duration_ms" n.config := by
      rw [hconfig, Assoc.drop_append, Assoc.drop_of_find?_eq_none (Assoc.find?_drop_self _ _)]
      exact List.append_nil _
    rw [shownData_short hkind hlast hshort, shownData_short hdelay hms hshort, hdrop]
  · obtain ⟨config, hc, h⟩ := bind_eq_ok.1 h
    rw [shownConfig_eq (shownData_of_ne_delay hdelay)] at hc
    have hm : m = n := by
      rw [← pure_eq_ok.1 h, compileData_of_ne_delay hdelay hc]
    rw [hm]

theorem canShow_recompiled {n m : Workflow.Node} (hs : CanShow n) (hk : Keeps n)
    (h : recompiled n = .ok m) : CanShow m := by
  obtain ⟨data, hdata⟩ := hs.shownData_isOk
  exact canShow_of_shownData ((shownData_recompiled hs hk h).trans hdata)

theorem shownAt_recompiled {n m : Workflow.Node} (hs : CanShow n) (hk : Keeps n)
    (h : recompiled n = .ok m) (layout : Layout) : shownAt layout m = shownAt layout n := by
  have hd := shownData_recompiled hs hk h
  obtain ⟨config, -, h⟩ := bind_eq_ok.1 h
  obtain rfl := pure_eq_ok.1 h
  unfold shownAt shownConfig
  rw [hd]

theorem map_shownAt_recompiled {ns ms : List Workflow.Node} (hs : ∀ n ∈ ns, CanShow n)
    (hk : ∀ n ∈ ns, Keeps n) (h : ns.mapM recompiled = .ok ms) (layout : Layout) :
    ms.map (shownAt layout) = ns.map (shownAt layout) := by
  induction ns generalizing ms with
  | nil =>
    obtain rfl := pure_eq_ok.1 h
    rfl
  | cons n rest ih =>
    rw [List.mapM_cons] at h
    obtain ⟨m, hm, h⟩ := bind_eq_ok.1 h
    obtain ⟨later, hlater, h⟩ := bind_eq_ok.1 h
    obtain rfl := pure_eq_ok.1 h
    rw [List.map_cons, List.map_cons,
      shownAt_recompiled (hs n List.mem_cons_self) (hk n List.mem_cons_self) hm,
      ih (fun m hm => hs m (List.mem_cons_of_mem n hm))
        (fun m hm => hk m (List.mem_cons_of_mem n hm)) hlater]

/-- A graph that breaks no rule and can be shown is compiled again, breaks none then, and is shown
as before. -/
theorem compile_shownGraph_of_valid {g : Workflow.Graph} (hg : g.WellFormed)
    (hv : g.violations = []) (hs : ∀ n ∈ g.nodes, CanShow n) :
    ∃ g', (shownGraph g).compileBounded = .ok g' ∧ g.same g' = true ∧ g'.violations = [] ∧
      (∀ n ∈ g'.nodes, CanShow n) ∧
      ∀ layout, g'.nodes.map (shownAt layout) = g.nodes.map (shownAt layout) := by
  obtain ⟨hn, he⟩ := isTimed_and_keeps_of_violations hv
  have hk : ∀ n ∈ g.nodes, Keeps n := fun n h => (hn n h).2
  obtain ⟨g', hg', hsame⟩ := (shownGraph_same_iff hg hs).2 ⟨hk, he⟩
  refine ⟨g', (compileBounded_shownGraph hs).2 hg', hsame,
    Workflow.Graph.violations_of_same hg.keys_nodup hsame hv, ?_⟩
  rw [compile_shownGraph hg] at hg'
  obtain ⟨ms, hms, rfl⟩ := map_eq_ok.1 hg'
  refine ⟨fun m hm => ?_, map_shownAt_recompiled hs hk hms⟩
  obtain ⟨n, hmem, h⟩ := exists_mem_of_mapM hms m hm
  exact canShow_recompiled (hs n hmem) (hk n hmem) h

end Editor

/-! ## Definitions -/

namespace Definition

open Editor (Canvas)

variable {d d' : Definition} {e : Editor.Graph} {g : Graph} {now : Timestamp}

theorem applyEdited_of_valid (hc : e.compileBounded = .ok g) (hv : g.violations = [])
    (hf : d.lifecycle = .active → g.isEmpty = false) :
    d.applyEdited e now = .ok ({ d with graph := g, layout := e.places }.touch now) := by
  refine bind_eq_ok.2 ⟨g, hc, ?_⟩
  rw [updateGraph_of_valid _ _ hv hf, Option.getD_some, Places.prune_ofLayout,
    Editor.Graph.layout_prune (Editor.Graph.compileBounded_eq_ok hc).2]
  rfl

theorem places_of_applyEdited (h : d.applyEdited e now = .ok d') :
    ∃ g, e.compileBounded = .ok g ∧ g.violations = [] ∧
      (d.lifecycle = .active → g.isEmpty = false) ∧
      d' = { d with graph := g, layout := e.places }.touch now := by
  obtain ⟨g, hc, h⟩ := applyEdited_eq_ok h
  obtain ⟨hv, hf, layout, hl, rfl⟩ := updateGraph_eq_ok h
  obtain rfl := Except.ok.inj ((Places.prune_ofLayout e.layout g).symm.trans hl)
  exact ⟨g, hc, hv, hf, by
    rw [Editor.Graph.layout_prune (Editor.Graph.compileBounded_eq_ok hc).2]⟩

/-- What the editor saves is what it shows next, without draws and on any canvas: the same
steps and transitions, delays with one label each; and saving that once more changes neither graph
nor layout.  That is so if what the delays say can be written; if not, nothing is shown. -/
theorem shown_as_saved (hk : ∀ n ∈ e.nodes, (Assoc.keys n.data).Nodup)
    (h : d.applyEdited e now = .ok d') :
    (e.IsShort → ∃ e', e.ShownAs e' ∧ d'.drawsTaken = 0 ∧
      (∀ canvas draws, d'.edited canvas draws = .ok e') ∧
      ∀ later, ∃ d'', d'.applyEdited e' later = .ok d'' ∧ d'.graph.same d''.graph = true ∧
        d''.layout = d'.layout) ∧
    (¬ e.IsShort → ∀ canvas draws, d'.edited canvas draws = .error (.faulty .unwritable)) := by
  obtain ⟨g, hb, hv, hf, rfl⟩ := places_of_applyEdited h
  have hc := (Editor.Graph.compileBounded_eq_ok hb).2
  have hp : ∀ m ∈ g.nodes, Assoc.contains m.id e.places = true := fun m hm =>
    Editor.Graph.contains_places hc hm
  have hlabels := Editor.Graph.hasShortLabels_iff hc
  refine ⟨fun hshort => ?_, fun hlong canvas draws => ?_⟩
  · have hs := Editor.canShow_of_violations hv (hlabels.2 hshort)
    have hshown := Editor.ofGraph_of_placed hs hp
    have hrel := Editor.Graph.shownAs_places hk hc hs
    refine ⟨_, hrel, (Editor.Node.allOfNodes_of_placed hs hp default fun _ => default).2, hshown,
      fun later => ?_⟩
    obtain ⟨g', hg', hsame, hv', -⟩ :=
      Editor.compile_shownGraph_of_valid (Editor.Graph.compile_wellFormed hk hc) hv hs
    rw [← (Editor.draft_ofGraph (hshown default fun _ => default)).2] at hg'
    have hf' : d.lifecycle = .active → g'.isEmpty = false := by
      rw [Graph.isEmpty_of_same hsame]
      exact hf
    exact ⟨_, applyEdited_of_valid hg' hv' hf', hsame, hrel.places⟩
  · cases hshown : Editor.Graph.ofGraph canvas draws e.places g with
    | ok e' =>
      exact absurd (hlabels.1 (.of_canShow (Editor.draft_ofGraph hshown).1)) hlong
    | error err =>
      rcases bind_eq_error.1 hshown with herr | ⟨ms, -, herr⟩
      · obtain ⟨m, hm, hu⟩ := Editor.Node.allOfNodes_error_of_placed hp herr
        cases hu with
        | untimed hms =>
          exact absurd ((Editor.isTimed_and_keeps_of_violations hv).1 m hm).1 hms
        | overlong => exact hshown
      · cases herr

/-- An editor's work: a label beside stale milliseconds, milliseconds under a null label, and an
empty guard. -/
def revised : Editor.Graph where
  nodes := [
    ⟨"wait", .delay, "Wait", ⟨.int 3, .int 4⟩,
      [("duration_ms", .int 7), ("duration", .text "36 HOUR"), ("note", .null)],
      [("selected", .bool true)]⟩,
    ⟨"rest", .delay, "", ⟨.int 5, .int 6⟩,
      [("duration", .null), ("duration_ms", .int 90000)], []⟩,
    ⟨"open", .condition, "Open?", ⟨.int 0, .int 0⟩, [("expr", .text "cart.open")], []⟩]
  edges := [⟨.text "first", "wait", "rest", some ""⟩, ⟨.null, "rest", "open", some "true"⟩]

/-- The same work as it is shown after it was saved. -/
def revisedAgain : Editor.Graph where
  nodes := [
    ⟨"wait", .delay, "Wait", ⟨.int 3, .int 4⟩,
      [("note", .null), ("duration", .text "36 hours")], []⟩,
    ⟨"rest", .delay, "", ⟨.int 5, .int 6⟩, [("duration", .text "90 seconds")], []⟩,
    ⟨"open", .condition, "Open?", ⟨.int 0, .int 0⟩, [("expr", .text "cart.open")], []⟩]
  edges := [⟨.text "wait-rest", "wait", "rest", none⟩,
    ⟨.text "rest-open", "rest", "open", some "true"⟩]

theorem shown_as_saved_revised :
    (∀ n ∈ revised.nodes, (Assoc.keys n.data).Nodup) ∧ revised.IsShort ∧
    ∃ d', welcome.applyEdited revised ⟨9, some 0⟩ = .ok d' ∧
      (∃ e', revised.ShownAs e' ∧ d'.drawsTaken = 0 ∧
        (∀ canvas draws, d'.edited canvas draws = .ok e') ∧
        ∀ later, ∃ d'', d'.applyEdited e' later = .ok d'' ∧ d'.graph.same d''.graph = true ∧
          d''.layout = d'.layout) ∧
      d'.edited default (fun _ => default) = .ok revisedAgain := by
  have hk : ∀ n ∈ revised.nodes, (Assoc.keys n.data).Nodup := by decide
  have hshort : revised.IsShort := by
    intro n hn hdelay ms hms
    simp only [revised, List.mem_cons, List.not_mem_nil, or_false] at hn
    rcases hn with rfl | rfl | rfl
    · obtain rfl : 129600000 = ms := Int.ofNat.inj (Option.some.inj hms)
      decide +kernel
    · obtain rfl : 90000 = ms := Int.ofNat.inj (Option.some.inj hms)
      decide +kernel
    · cases hdelay
  obtain ⟨d', h⟩ : ∃ d', welcome.applyEdited revised ⟨9, some 0⟩ = .ok d' := ⟨_, rfl⟩
  refine ⟨hk, hshort, d', h, (shown_as_saved hk h).1 hshort, ?_⟩
  cases h
  decide +kernel

/-- A delay with as many milliseconds of its own. -/
def lasting (ms : Nat) : Editor.Graph where
  nodes := [⟨"wait", .delay, "", ⟨.int 0, .int 0⟩, [("duration_ms", .int ms)], []⟩]
  edges := []

/-- It is saved however long it is, but not shown if it is too long for its label to be written. -/
theorem saved_unshown : ∃ d', welcome.applyEdited (lasting (10 ^ 5000)) ⟨9, some 0⟩ = .ok d' ∧
    ∀ canvas draws, d'.edited canvas draws = .error (.faulty .unwritable) := by
  have hc : (lasting (10 ^ 5000)).compileBounded = .ok (Editor.wait (10 ^ 5000)) := rfl
  have hv : (Editor.wait (10 ^ 5000)).violations = [] := by decide +kernel
  have h : welcome.applyEdited (lasting (10 ^ 5000)) ⟨9, some 0⟩ = .ok _ :=
    applyEdited_of_valid hc hv fun h => absurd h (by decide)
  have hlong : ¬ (lasting (10 ^ 5000)).IsShort := by
    intro hs
    have hshort := hs _ List.mem_cons_self rfl (10 ^ 5000) rfl
    revert hshort
    decide +kernel
  exact ⟨_, h, (shown_as_saved (by decide) h).2 hlong⟩

end Definition

end Workflow
