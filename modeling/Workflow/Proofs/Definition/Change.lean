import Workflow.Definition.Operation
import Workflow.Proofs.Graph.Writing

/-!
# What an operation changes

For each operation on a definition, everything that its success implies: what it
was given, the state the definition was in, and the definition that it led to.
-/

namespace Workflow

theorem refuse_eq_ok {violations : List String} : refuse violations = .ok () ↔ violations = [] := by
  unfold refuse
  cases violations <;> simp

theorem refuse_validate_eq_ok {g : Graph} :
    (do refuse (← g.validate)) = Except.ok () ↔ g.violations = [] := by
  rw [← Graph.validate_eq_nil_iff]
  constructor
  · intro h
    obtain ⟨violations, hv, hr⟩ := bind_eq_ok.1 h
    rw [hv, refuse_eq_ok.1 hr]
  · intro h
    exact bind_eq_ok.2 ⟨[], h, rfl⟩

/-! ## Places -/

namespace Places

variable {g : Graph} {places : Places} {layout : Layout}

theorem prune_ofLayout (layout : Layout) (g : Graph) :
    (ofLayout layout).prune g = .ok (layout.prune g) := by
  unfold ofLayout prune Layout.prune
  dsimp only
  rw [List.filter_map]
  exact mapM_map_eq_ok fun e _ => rfl

/-- What is taken over of given places stands among them. -/
theorem of_prune (h : places.prune g = .ok layout) : ∃ es, places = .entries es ∧
    ∀ e ∈ layout, e.1 ∈ g.ids ∧ (e.1, some e.2) ∈ es := by
  unfold prune at h
  split at h
  next es =>
    refine ⟨es, rfl, fun e he => ?_⟩
    obtain ⟨⟨id, p⟩, hmem, hp⟩ := exists_mem_of_mapM h e he
    obtain ⟨hmem, hid⟩ := List.mem_filter.1 hmem
    cases p with
    | none => cases hp
    | some p =>
      obtain rfl := Except.ok.inj hp
      exact ⟨List.contains_iff_mem.1 hid, hmem⟩
  next => cases h

/-- Whatever is none of the places that are looked at is asked for its coordinates. -/
theorem error_of_prune {e : Error} (h : places.prune g = .error e) : e = .faulty .notRecord := by
  unfold prune at h
  split at h
  · obtain ⟨⟨id, p⟩, -, hp⟩ := exists_error_of_mapM h
    cases p with
    | none => exact (Except.error.inj hp).symm
    | some p => cases hp
  · exact (Except.error.inj h).symm

end Places

namespace ApprovalTable

theorem isSignature_eq_true {v : Value} (h : isSignature v = .ok true) :
    Value.isFilled (some v) = true := by
  unfold isSignature at h
  cases hv : v.isTruthy with
  | false => simp [hv] at h
  | true => cases v <;> simp_all [Value.isFilled]

/-- A transition follows a row of its table, and whoever approves is named. -/
theorem transition_eq_ok {table : ApprovalTable} {id : Uuid} {status : ApprovalStatus}
    {action : ApprovalAction} {actor notes : Value} {now : Timestamp} {e : ApprovalEvent}
    (h : table.transition id status action actor notes now = .ok e) :
    ∃ target, Assoc.find? (status, action) table = some target ∧
      (action = .approve → Value.isFilled (some actor) = true) ∧
      e = ⟨id, action, status, target, actor, notes, now⟩ := by
  unfold transition at h
  cases ht : Assoc.find? (status, action) table with
  | none => simp [ht] at h
  | some target =>
    simp only [ht] at h
    obtain ⟨_, hf, he⟩ := bind_eq_ok.1 h
    refine ⟨target, rfl, ?_, (pure_eq_ok.1 he).symm⟩
    rintro rfl
    obtain ⟨signed, hs, hif⟩ := bind_eq_ok.1 hf
    cases signed with
    | false => simp at hif
    | true => exact isSignature_eq_true hs

end ApprovalTable

namespace Definition

variable {d d' : Definition} {now : Timestamp}

theorem filledName?_eq_some {name : Value} {s : String} (h : filledName? name = .ok (some s)) :
    ∃ t, name = .text t ∧ Text.isBlank t = false ∧ s = Text.strip t := by
  obtain ⟨signed, hs, h⟩ := bind_eq_ok.1 h
  cases signed with
  | false => simp at h
  | true =>
    have hf := ApprovalTable.isSignature_eq_true hs
    cases name with
    | text t =>
      simp [Value.isFilled] at hf
      simp at h
      exact ⟨t, rfl, hf, h.symm⟩
    | _ => simp [Value.isFilled] at hf

theorem rename_eq_ok {name description : Value} (h : d.rename name description now = .ok d') :
    ∃ t, name = .text t ∧ Text.isBlank t = false ∧
      d' = { d with
        name := .text (Text.strip t)
        description := if description = Value.null then d.description else description }.touch now := by
  obtain ⟨filled, hn, h⟩ := bind_eq_ok.1 h
  cases filled with
  | none => simp at h
  | some s =>
    obtain ⟨t, ht, hb, rfl⟩ := filledName?_eq_some hn
    exact ⟨t, ht, hb, (pure_eq_ok.1 h).symm⟩

theorem updateTrigger_eq_ok {trigger : Trigger} (h : d.updateTrigger trigger now = .ok d') :
    trigger.violations = [] ∧ d' = { d with trigger := trigger }.touch now := by
  obtain ⟨_, hr, h⟩ := bind_eq_ok.1 h
  exact ⟨refuse_eq_ok.1 hr, (pure_eq_ok.1 h).symm⟩

theorem updateGraph_eq_ok {graph : Graph} {places : Option Places}
    (h : d.updateGraph graph places now = .ok d') :
    graph.violations = [] ∧ (d.lifecycle = .active → graph.isEmpty = false) ∧
      ∃ layout, (places.getD (.ofLayout d.layout)).prune graph = .ok layout ∧
        d' = { d with graph := graph, layout := layout }.touch now := by
  obtain ⟨violations, hv, h⟩ := bind_eq_ok.1 h
  obtain ⟨_, hr, h⟩ := bind_eq_ok.1 h
  refine ⟨refuse_validate_eq_ok.1 (bind_eq_ok.2 ⟨violations, hv, hr⟩), ?_⟩
  split at h
  · cases h
  next hempty =>
    obtain ⟨layout, hl, h⟩ := bind_eq_ok.1 h
    refine ⟨fun ha => ?_, layout, hl, (pure_eq_ok.1 h).symm⟩
    simpa [isActive, ha] using hempty

/-- Of a graph that can be taken over, only the places can fail. -/
theorem updateGraph_of_valid {graph : Graph} (places : Option Places) (now : Timestamp)
    (hv : graph.violations = []) (hf : d.lifecycle = .active → graph.isEmpty = false) :
    d.updateGraph graph places now =
      ((places.getD (.ofLayout d.layout)).prune graph).map fun layout =>
        { d with graph := graph, layout := layout }.touch now := by
  have hempty : (d.isActive && graph.isEmpty) = false := by
    cases ha : d.isActive with
    | false => rfl
    | true => exact hf (by simpa [isActive] using ha)
  unfold updateGraph
  rw [Graph.validate_eq_nil_iff.2 hv, hempty]
  cases (places.getD (.ofLayout d.layout)).prune graph <;> rfl

theorem applyEdited_eq_ok {edited : Editor.Graph} (h : d.applyEdited edited now = .ok d') :
    ∃ graph, edited.compileBounded = .ok graph ∧
      d.updateGraph graph (some (.ofLayout edited.layout)) now = .ok d' :=
  bind_eq_ok.1 h

theorem govern_eq_ok {action : ApprovalAction} {actor notes : Value} {e : ApprovalEvent}
    (h : d.govern action actor notes now = .ok (d', e)) :
    ∃ target, Assoc.find? (d.approval, action) ApprovalTable.standard = some target ∧
      (action = .approve → Value.isFilled (some actor) = true) ∧
      e = ⟨d.id, action, d.approval, target, actor, notes, now⟩ ∧
      d' = (d.suspend action).record e now := by
  obtain ⟨e', ht, h⟩ := bind_eq_ok.1 h
  obtain ⟨target, hf, hs, he⟩ := ApprovalTable.transition_eq_ok ht
  obtain ⟨hd, rfl⟩ := Prod.mk.inj (pure_eq_ok.1 h)
  exact ⟨target, hf, hs, he, hd.symm⟩

/-- An action on the approval appends its event to the history of the same definition. -/
theorem govern_keeps {action : ApprovalAction} {actor notes : Value} {e : ApprovalEvent}
    (h : d.govern action actor notes now = .ok (d', e)) :
    d'.id = d.id ∧ d'.org = d.org ∧ d'.history = d.history ++ [e] ∧ e.definition = d.id := by
  obtain ⟨target, -, -, rfl, rfl⟩ := govern_eq_ok h
  unfold suspend
  split
  · exact ⟨rfl, rfl, rfl, rfl⟩
  · exact ⟨rfl, rfl, rfl, rfl⟩

theorem activate_eq_ok (h : d.activate now = .ok d') :
    d.approval = .approved ∧
      (d.lifecycle = .active ∧ d' = d ∨
       d.lifecycle ≠ .active ∧ d.validate = .ok [] ∧ d.graph.isEmpty = false ∧
         d' = { d with lifecycle := .active }.touch now) := by
  unfold activate at h
  split at h
  · cases h
  · next hp =>
    refine ⟨by simpa [ApprovalStatus.permitsActivation] using hp, ?_⟩
    split at h
    · next ha =>
      left
      exact ⟨by simpa [isActive] using ha, (Except.ok.inj h).symm⟩
    · next ha =>
      right
      obtain ⟨violations, hv, h⟩ := bind_eq_ok.1 h
      obtain ⟨_, hr, hd⟩ := bind_eq_ok.1 h
      obtain ⟨rfl, hvacant⟩ := List.append_eq_nil_iff.1 (refuse_eq_ok.1 hr)
      refine ⟨by simpa [isActive] using ha, hv, ?_, (pure_eq_ok.1 hd).symm⟩
      cases he : d.graph.isEmpty with
      | false => rfl
      | true => simp [he] at hvacant

theorem pause_eq_ok (h : d.pause now = .ok d') :
    d.lifecycle = .active ∧ d' = { d with lifecycle := .paused }.touch now := by
  unfold pause at h
  split at h
  · next ha => exact ⟨by simpa [isActive] using ha, (Except.ok.inj h).symm⟩
  · cases h

theorem create_eq_ok {p : Proposal} {id : Uuid} (h : create p id now = .ok d) :
    ∃ t, p.name = .text t ∧ Text.isBlank t = false ∧ p.trigger.violations = [] ∧
      p.graph.violations = [] ∧ d = p.define (Text.strip t) id now := by
  obtain ⟨name, ha, h⟩ := bind_eq_ok.1 h
  obtain ⟨violations, hvalidate, ha⟩ := bind_eq_ok.1 ha
  obtain ⟨filled, hn, ha⟩ := bind_eq_ok.1 ha
  cases filled with
  | none => simp at ha
  | some s =>
    obtain ⟨t, ht, hb, rfl⟩ := filledName?_eq_some hn
    obtain ⟨_, hr, hs⟩ := bind_eq_ok.1 ha
    obtain ⟨htrigger, rfl⟩ := List.append_eq_nil_iff.1 (refuse_eq_ok.1 hr)
    cases pure_eq_ok.1 hs
    exact ⟨t, ht, hb, htrigger, Graph.validate_eq_nil_iff.1 hvalidate, (pure_eq_ok.1 h).symm⟩

end Definition

end Workflow
