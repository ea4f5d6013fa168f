import Workflow.Proofs.Blame
import Workflow.Proofs.Definition.Presentation

/-!
# The wire form of editor graphs is lossless

Reading an editor graph turns coordinates into doubles and gives a transition that has
no identifier, or one that counts as absent, the identifier of its ends.  A graph that is
shown has such places and such identifiers from the start.  The wire form keeps all else,
so these are the editor graphs that are read back as they were.

    e is read from a document → its places are doubles, its transitions have identifiers
                                                                 (Graph.isComplete_of_ofValue)
    e is read or shown ↔ e is read back ↔ e is complete           (Graph.produced_iff)
-/

namespace Workflow.Editor

/-! ## Complete editor graphs -/

/-- Each step has a place of doubles, and each transition an identifier that does not count as
absent. -/
structure Graph.IsComplete (e : Graph) : Prop where
  placed : e.IsPlaced
  identified : ∀ t ∈ e.edges, t.id.isTruthy = true

theorem isTruthy_joined (source target : String) : (joined source target).isTruthy = true := by
  show (!(source ++ "-" ++ target).isEmpty) = true
  simp

theorem Edge.isTruthy_of_ofValue {index : Nat} {raw : Value} {t : Edge}
    (h : Edge.ofValue index raw = .ok t) : t.id.isTruthy = true := by
  unfold Edge.ofValue at h
  split at h
  · obtain ⟨source, -, h⟩ := bind_eq_ok.1 h
    obtain ⟨target, -, h⟩ := bind_eq_ok.1 h
    obtain ⟨label, -, h⟩ := bind_eq_ok.1 h
    obtain rfl := pure_eq_ok.1 h
    show (if _ then _ else joined source target : Value).isTruthy = true
    split
    next hown => exact hown
    · exact isTruthy_joined source target
  · cases h

namespace Graph

variable {e : Graph}

theorem isComplete_of_ofValue {raw : Value} (h : Graph.ofValue raw = .ok e) : e.IsComplete := by
  obtain ⟨nodes, edges, -, hn, ht⟩ := Graph.ofValue_eq_ok h
  constructor
  · intro n hmem
    obtain ⟨_, _, -, hv⟩ := hn n hmem
    exact (Node.ofValue_eq_ok hv).2
  · intro t hmem
    obtain ⟨_, _, -, hv⟩ := ht t hmem
    exact Edge.isTruthy_of_ofValue hv

theorem IsViewOf.isComplete {g : Workflow.Graph} (h : e.IsViewOf g) : e.IsComplete where
  placed := h.placed
  identified := by
    intro t ht
    rw [h.edges] at ht
    obtain ⟨t, -, rfl⟩ := List.mem_map.1 ht
    exact isTruthy_joined t.source t.target

/-! ## Theorem -/

/-- An editor graph that was read from a document, or that is shown of a graph, at places that
are stored as doubles or drawn. -/
inductive Produced : Graph → Prop where
  | read {raw : Value} {e : Graph} (h : Graph.ofValue raw = .ok e) : Produced e
  | shown {canvas : Canvas} {draws : Nat → Number} {layout : Layout} {g : Workflow.Graph}
    {e : Graph} (hd : ∀ i, Canvas.IsDraw (draws i)) (hl : layout.IsReal)
    (h : Graph.ofGraph canvas draws layout g = .ok e) : Produced e

/-- Just the editor graphs that can be read or shown are read back from what is written of them,
with all that they hold; and they are those that are complete. -/
theorem produced_iff (e : Graph) :
    (e.Produced ↔ Graph.ofValue e.toValue = .ok e) ∧ (e.Produced ↔ e.IsComplete) := by
  have hcomplete : e.Produced → e.IsComplete := by
    rintro (h | ⟨hd, hl, h⟩)
    · exact isComplete_of_ofValue h
    · exact (isViewOf_ofGraph hd hl h).isComplete
  have hback : e.IsComplete → Graph.ofValue e.toValue = .ok e :=
    fun h => Graph.ofValue_toValue h.placed h.identified
  exact ⟨⟨fun h => hback (hcomplete h), .read⟩, hcomplete, fun h => .read (hback h)⟩

end Graph

end Workflow.Editor
