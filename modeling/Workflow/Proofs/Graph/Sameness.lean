import Mathlib.Data.List.Forall2
import Mathlib.Data.List.Nodup
import Mathlib.Data.List.Perm.Subperm
import Workflow.Proofs.Graph.Rules

/-!
# The same graph breaks the same rules

Two graphs are the same if their steps and transitions agree one by one, whatever
the order in which a step holds its settings.  No rule sees that order.

    a same as b → b holds the entries of a in some order    (Config.perm_of_same)
    g same as g', g breaks no rule → g' breaks none         (Graph.violations_of_same)
-/

namespace Workflow

/-! ## Settings -/

namespace Config

variable {a b : Config}

theorem same_self {m : Config} (hm : (Assoc.keys m).Nodup) : same m m = true := by
  unfold same
  simp only [decide_true, Bool.true_and, List.all_eq_true]
  rintro ⟨k, v⟩ he
  exact decide_eq_true (Assoc.find?_of_mem hm he)

theorem find?_of_same (h : same a b = true) {k : String} {v : Value}
    (hk : Assoc.find? k a = some v) : Assoc.find? k b = some v := by
  unfold same at h
  rw [Bool.and_eq_true, List.all_eq_true] at h
  exact of_decide_eq_true (h.2 (k, v) (Assoc.mem_of_find? hk))

/-- A member may be taken out and written again at the end. -/
theorem same_drop_append {m : Config} {k : String} {v : Value}
    (hm : (Assoc.keys m).Nodup) (hk : Assoc.find? k m = some v) :
    same m (Assoc.drop k m ++ [(k, v)]) = true := by
  have hl := Assoc.length_drop hm hk
  unfold same
  rw [Bool.and_eq_true, List.all_eq_true]
  refine ⟨by simpa using hl.symm, ?_⟩
  rintro ⟨k', w⟩ he
  have hw := Assoc.find?_of_mem hm he
  apply decide_eq_true
  rw [Assoc.find?_append]
  by_cases hkk : k' = k
  · subst hkk
    obtain rfl : v = w := by simpa [hk] using hw
    simp [Assoc.find?_cons]
  · rw [Assoc.find?_drop_of_ne hkk, hw, Option.some_or]

/-- A member may be taken out before it is written. -/
theorem same_put_drop {m : Config} (hm : (Assoc.keys m).Nodup) (k : String) (v : Value) :
    same (Assoc.put k v m) (Assoc.put k v (Assoc.drop k m)) = true := by
  have h := same_drop_append (Assoc.nodup_keys_put hm) (Assoc.find?_put_self k v m)
  rwa [Assoc.drop_put_self, ← Assoc.put_of_find?_eq_none (Assoc.find?_drop_self k m)] at h

theorem perm_of_same (ha : (Assoc.keys a).Nodup) (h : same a b = true) : a.Perm b := by
  unfold same at h
  rw [Bool.and_eq_true, decide_eq_true_eq, List.all_eq_true] at h
  obtain ⟨hl, hall⟩ := h
  have hsub : a ⊆ b := fun e he => Assoc.mem_of_find? (of_decide_eq_true (hall e he))
  exact ((List.Nodup.of_map Prod.fst ha).subperm hsub).perm_of_length_le (Nat.le_of_eq hl.symm)

theorem find?_eq_of_same (ha : (Assoc.keys a).Nodup) (h : same a b = true) (k : String) :
    Assoc.find? k b = Assoc.find? k a := by
  cases hk : Assoc.find? k a with
  | some v => exact find?_of_same h hk
  | none =>
    have hp : (Assoc.keys a).Perm (Assoc.keys b) := (perm_of_same ha h).map Prod.fst
    rw [Assoc.find?_eq_none_iff] at hk ⊢
    exact fun hb => hk (hp.mem_iff.2 hb)

end Config

namespace Sketch

theorem configViolations_of_same {kind : NodeKind} {id : Message}
    {shownKey shownKey' : String → Message} {a b : Config}
    (ha : (Assoc.keys a).Nodup) (hs : Config.same a b = true)
    (h : configViolations kind id shownKey a = []) : configViolations kind id shownKey' b = [] := by
  have hf := Config.find?_eq_of_same ha hs
  cases kind with
  | action =>
    obtain ⟨hkind, hdoc⟩ := List.append_eq_nil_iff.1 h
    show _ ++ _ = []
    rw [hf, hkind, List.nil_append, List.map_eq_nil_iff, List.filter_eq_nil_iff]
    rw [List.map_eq_nil_iff, List.filter_eq_nil_iff] at hdoc
    exact fun e he => hdoc e ((Config.perm_of_same ha hs).mem_iff.2 he)
  | condition =>
    show conditionViolations id b = []
    unfold conditionViolations
    rw [hf]
    exact h
  | delay =>
    show delayViolations id b = []
    unfold delayViolations Assoc.contains
    rw [hf, hf]
    exact h
  | split =>
    show splitViolations id b = []
    unfold splitViolations
    rw [hf, hf]
    exact h

end Sketch

/-! ## Graphs -/

theorem Node.same_iff {n m : Node} : n.same m = true ↔
    n.id = m.id ∧ n.kind = m.kind ∧ n.name = m.name ∧ Config.same n.config m.config = true := by
  unfold Node.same
  simp only [Bool.and_eq_true, decide_eq_true_eq, and_assoc]

namespace Graph

variable {g g' : Graph}

theorem same_iff : g.same g' = true ↔
    List.Forall₂ (fun n m => n.same m = true) g.nodes g'.nodes ∧ g.edges = g'.edges := by
  unfold same
  rw [Bool.and_eq_true, Bool.and_eq_true, decide_eq_true_eq, decide_eq_true_eq, List.all_eq_true,
    List.forall₂_iff_zip]
  constructor
  · rintro ⟨⟨hl, hn⟩, he⟩
    exact ⟨⟨hl, fun h => hn _ h⟩, he⟩
  · rintro ⟨⟨hl, hn⟩, he⟩
    exact ⟨⟨hl, fun e h => hn h⟩, he⟩

theorem ids_of_same (h : g.same g' = true) : g'.ids = g.ids := by
  have hids : List.Forall₂ (fun n m : Node => m.id = n.id) g.nodes g'.nodes :=
    (same_iff.1 h).1.imp fun _ _ hnm => (Node.same_iff.1 hnm).1.symm
  have hmap : List.Forall₂ (· = ·) (g'.nodes.map Node.id) (g.nodes.map Node.id) :=
    List.forall₂_map_left_iff.2 (List.forall₂_map_right_iff.2 hids.flip)
  exact List.forall₂_eq_eq_eq ▸ hmap

theorem isEmpty_of_same (h : g.same g' = true) : g'.isEmpty = g.isEmpty := by
  have hempty (g : Graph) : g.isEmpty = g.ids.isEmpty := by
    unfold ids isEmpty
    rw [List.isEmpty_map]
  rw [hempty, hempty, ids_of_same h]

/-- The keys under which a graph files its steps, whatever else the steps hold. -/
theorem keys_sketch (g : Graph) : g.sketch.keys = g.ids.map Value.text := by
  unfold Sketch.keys Assoc.keys sketch ids
  rw [List.map_map, List.map_map]
  rfl

theorem entryViolations_of_same (h : g.same g' = true) :
    g'.sketch.entryViolations = g.sketch.entryViolations := by
  have hk : g'.sketch.keys = g.sketch.keys := by rw [keys_sketch, keys_sketch, ids_of_same h]
  have he : g'.sketch.edges = g.sketch.edges := by
    show g'.edges.map _ = g.edges.map _
    rw [(same_iff.1 h).2]
  have hempty (s : Sketch) : s.nodes.isEmpty = s.keys.isEmpty := by
    unfold Sketch.keys Assoc.keys
    rw [List.isEmpty_map]
  unfold Sketch.entryViolations Sketch.entryPoints
  rw [hempty, hempty, hk, he]

theorem violations_eq_nil_iff : g.violations = [] ↔
    (∀ n ∈ g.nodes, Sketch.nodeViolations (.text n.id) n.sketch = []) ∧
    (∀ e ∈ g.sketch.edges.zipIdx, Sketch.edgeViolations g.sketch.keys e.2 e.1 = []) ∧
    g.sketch.entryViolations = [] := by
  unfold violations
  rw [Sketch.violations_eq_nil_iff_parts]
  constructor
  · rintro ⟨hn, hrest⟩
    exact ⟨fun n h => hn _ (List.mem_map.2 ⟨n, h, rfl⟩), hrest⟩
  · rintro ⟨hn, hrest⟩
    refine ⟨fun e he => ?_, hrest⟩
    obtain ⟨n, h, rfl⟩ := List.mem_map.1 he
    exact hn n h

theorem nodeViolations_of_same {n m : Node} (hn : (Assoc.keys n.config).Nodup)
    (hs : n.same m = true) (h : Sketch.nodeViolations (.text n.id) n.sketch = []) :
    Sketch.nodeViolations (.text m.id) m.sketch = [] := by
  obtain ⟨hid, hkind, -, hc⟩ := Node.same_iff.1 hs
  unfold Sketch.nodeViolations at h ⊢
  obtain ⟨hkey, hconfig⟩ := List.append_eq_nil_iff.1 h
  simp only [Node.sketch, Named.ofValue?_name_nodeKind, Value.entries?] at hkey hconfig ⊢
  rw [← hid, ← hkind, hkey, List.nil_append]
  exact Sketch.configViolations_of_same hn hc hconfig

/-- No rule sees the order of settings. -/
theorem violations_of_same (hg : ∀ n ∈ g.nodes, (Assoc.keys n.config).Nodup)
    (hs : g.same g' = true) (h : g.violations = []) : g'.violations = [] := by
  obtain ⟨hnodes, hedges, hentry⟩ := violations_eq_nil_iff.1 h
  obtain ⟨hn, he⟩ := same_iff.1 hs
  refine violations_eq_nil_iff.2 ⟨fun m hm => ?_, ?_, ?_⟩
  · obtain ⟨i, hi, rfl⟩ := List.getElem_of_mem hm
    have hl : i < g.nodes.length := hn.length_eq ▸ hi
    exact nodeViolations_of_same (hg _ (List.getElem_mem hl)) (hn.get hl hi)
      (hnodes _ (List.getElem_mem hl))
  · have hk : g'.sketch.keys = g.sketch.keys := by rw [keys_sketch, keys_sketch, ids_of_same hs]
    have hse : g'.sketch.edges = g.sketch.edges := by
      show g'.edges.map _ = g.edges.map _
      rw [he]
    rw [hk, hse]
    exact hedges
  · rw [entryViolations_of_same hs]
    exact hentry

end Graph

end Workflow
