import Workflow.Definition.Mutation
import Workflow.Proofs.Definition.Change

/-!
# Performing an operation

An operation whose checks all come before its writes has written nothing if it fails.  Of one
this is not so: the update of a graph writes the graph and then looks at the places that were
given with it.  If one of these turns out to be none, the graph stays beside the old layout.

    (op.perform now).runOn d, in terms of op.apply d now              (Mutation.runOn_perform)
    the places are places → an operation that fails leaves nothing    (Operation.left_eq_self)
-/

namespace Workflow.Definition

variable {d d' : Definition} {now : Timestamp} {op : Operation} {e : Error}

/-! ## What is left behind -/

/-- A graph that breaks no rule, and has a step if the definition is active. -/
def Takes (d : Definition) (graph : Graph) : Prop :=
  graph.violations = [] ∧ (d.lifecycle = .active → graph.isEmpty = false)

instance (d : Definition) (graph : Graph) : Decidable (d.Takes graph) :=
  inferInstanceAs (Decidable (_ ∧ _))

namespace Operation

/-- The definition as it is after an operation that has failed on it. -/
def left (op : Operation) (d : Definition) : Definition :=
  match op with
  | updateGraph graph _ => if d.Takes graph then { d with graph := graph } else d
  | rename .. | updateTrigger _ | applyEdited _ | govern .. | activate | pause => d

/-- What is given as places of the steps of a graph are places. -/
def GivesPlaces : Operation → Prop
  | updateGraph graph places => ∀ p ∈ places, ∃ layout, p.prune graph = .ok layout
  | rename .. | updateTrigger _ | applyEdited _ | govern .. | activate | pause => True

theorem left_cases (op : Operation) (d : Definition) : op.left d = d ∨
    ∃ graph places, op = .updateGraph graph places ∧ d.Takes graph ∧
      op.left d = { d with graph := graph } := by
  cases op with
  | updateGraph graph places =>
    unfold left
    by_cases h : d.Takes graph
    · exact .inr ⟨graph, places, rfl, h, if_pos h⟩
    · exact .inl (if_neg h)
  | rename | updateTrigger | applyEdited | govern | activate | pause => exact .inl rfl

/-- The places of a definition are always places. -/
theorem exists_prune {graph : Graph} {places : Option Places}
    (h : ∀ p ∈ places, ∃ layout, p.prune graph = .ok layout) (kept : Layout) :
    ∃ layout, (places.getD (.ofLayout kept)).prune graph = .ok layout := by
  cases places with
  | none => exact ⟨_, Places.prune_ofLayout kept graph⟩
  | some p => exact h p rfl

theorem left_eq_self (h : op.GivesPlaces) (he : op.apply d now = .error e) : op.left d = d := by
  cases op with
  | updateGraph graph places =>
    obtain ⟨layout, hl⟩ := exists_prune h d.layout
    refine if_neg ?_
    rintro ⟨hv, hf⟩
    have hok := updateGraph_of_valid places now hv hf
    rw [hl] at hok
    cases he.symm.trans hok
  | rename | updateTrigger | applyEdited | govern | activate | pause => rfl

/-- Only places that are none leave something behind, and then it is the graph alone. -/
theorem error_of_left_ne (he : op.apply d now = .error e) (hne : op.left d ≠ d) :
    e = .faulty .notRecord ∧ ∃ graph places, op = .updateGraph graph (some places) ∧
      (∀ layout, places.prune graph ≠ .ok layout) ∧ op.left d = { d with graph := graph } := by
  rcases op.left_cases d with hl | ⟨graph, places, rfl, ⟨hv, hf⟩, hl⟩
  · exact absurd hl hne
  · have hprune := updateGraph_of_valid places now hv hf
    rw [show d.updateGraph graph places now = .error e from he] at hprune
    cases hp : (places.getD (.ofLayout d.layout)).prune graph with
    | ok layout =>
      rw [hp] at hprune
      cases hprune
    | error e' =>
      rw [hp] at hprune
      obtain rfl := Except.error.inj hprune
      cases places with
      | none => cases hp.symm.trans (Places.prune_ofLayout d.layout graph)
      | some places =>
        refine ⟨Places.error_of_prune hp, graph, places, rfl, fun layout hok => ?_, hl⟩
        cases hp.symm.trans hok

end Operation

/-! ## Checks and writes -/

namespace Mutation

/-- The result and the changed definition, or the error and the definition as it is then. -/
def ended {α : Type} (left : Definition) :
    Except Error (α × Definition) → Except Error α × Definition
  | .ok (a, d') => (.ok a, d')
  | .error e => (.error e, left)

theorem runOn_rename (name description : Value) :
    (rename name description now).runOn d =
      ended d ((d.rename name description now).map ((), ·)) := by
  unfold rename Definition.rename
  cases filledName? name with
  | error e => rfl
  | ok filled =>
    cases filled with
    | none => rfl
    | some s =>
      by_cases hd : description = .null
      · simp only [hd]
        rfl
      · simp only [ne_eq, hd, not_false_eq_true, if_true, if_false]
        rfl

theorem runOn_updateTrigger (trigger : Trigger) :
    (updateTrigger trigger now).runOn d = ended d ((d.updateTrigger trigger now).map ((), ·)) := by
  unfold updateTrigger Definition.updateTrigger
  cases refuse trigger.violations with
  | error e => rfl
  | ok _ => rfl

theorem runOn_updateGraph (graph : Graph) (places : Option Places) :
    (updateGraph graph places now).runOn d = ended (Operation.left (.updateGraph graph places) d)
      ((d.updateGraph graph places now).map ((), ·)) := by
  have hrefused (hv : ¬ graph.violations = []) :
      Operation.left (.updateGraph graph places) d = d := if_neg fun h => hv h.1
  unfold updateGraph Definition.updateGraph
  cases hreport : graph.validate with
  | error e =>
    rw [hrefused fun hv => by cases hreport.symm.trans (Graph.validate_eq_nil_iff.2 hv)]
    rfl
  | ok violations =>
    cases violations with
    | cons m rest =>
      rw [hrefused fun hv => by cases hreport.symm.trans (Graph.validate_eq_nil_iff.2 hv)]
      rfl
    | nil =>
      show runOn (if (d.isActive && graph.isEmpty) = true then _ else _) d =
        ended _ (Except.map _ (if (d.isActive && graph.isEmpty) = true then _ else _))
      by_cases hempty : (d.isActive && graph.isEmpty) = true
      · have hnot : ¬ d.Takes graph := by
          rintro ⟨-, hf⟩
          simp [isActive] at hempty
          simp [hf hempty.1] at hempty
        rw [if_pos hempty, if_pos hempty, Operation.left, if_neg hnot]
        rfl
      · have htakes : d.Takes graph := by
          refine ⟨Graph.validate_eq_nil_iff.1 hreport, fun ha => ?_⟩
          simpa [isActive, ha] using hempty
        rw [if_neg hempty, if_neg hempty, Operation.left, if_pos htakes]
        show runOn (do
          modify ({ · with graph := graph })
          let layout ← check ((places.getD (.ofLayout d.layout)).prune graph)
          modify ({ · with layout := layout })
          touch now) d = _
        cases (places.getD (.ofLayout d.layout)).prune graph <;> rfl

theorem runOn_applyEdited (edited : Editor.Graph) :
    (applyEdited edited now).runOn d = ended d ((d.applyEdited edited now).map ((), ·)) := by
  unfold applyEdited Definition.applyEdited
  show runOn (check edited.compileBounded >>= _) d = ended d (Except.map _ (edited.compileBounded >>= _))
  cases edited.compileBounded with
  | error e => rfl
  | ok graph =>
    have hplaces : (Operation.updateGraph graph (some (.ofLayout edited.layout))).GivesPlaces := by
      rintro _ ⟨⟩
      exact ⟨_, Places.prune_ofLayout edited.layout graph⟩
    refine (runOn_updateGraph graph (some (.ofLayout edited.layout))).trans ?_
    show _ = ended d (Except.map _ (d.updateGraph graph (some (.ofLayout edited.layout)) now))
    cases hd : d.updateGraph graph (some (.ofLayout edited.layout)) now with
    | error e => rw [Operation.left_eq_self hplaces hd]
    | ok d' => rfl

theorem runOn_govern (action : ApprovalAction) (actor notes : Value) :
    (govern action actor notes now).runOn d =
      ended d ((d.govern action actor notes now).map Prod.swap) := by
  unfold govern Definition.govern
  show runOn (check (ApprovalTable.standard.transition d.id d.approval action actor notes now) >>= _)
    d = _
  cases ApprovalTable.standard.transition d.id d.approval action actor notes now with
  | error e => rfl
  | ok e =>
    show runOn (if action = .request ∧ d.isActive then _ else _) d =
      (.ok e, (d.suspend action).record e now)
    unfold suspend
    by_cases h : action = .request ∧ d.isActive
    · rw [if_pos h, if_pos h]
      rfl
    · rw [if_neg h, if_neg h]
      rfl

theorem runOn_activate :
    (activate now).runOn d = ended d ((d.activate now).map ((), ·)) := by
  show runOn (if (!d.approval.permitsActivation) = true then _ else _) d = _
  unfold Definition.activate
  by_cases hp : (!d.approval.permitsActivation) = true
  · rw [if_pos hp, if_pos hp]
    rfl
  · rw [if_neg hp, if_neg hp]
    by_cases ha : d.isActive = true
    · rw [if_pos ha, if_pos ha]
      rfl
    · rw [if_neg ha, if_neg ha]
      show runOn (check d.validate >>= _) d = ended d (Except.map _ (d.validate >>= _))
      cases d.validate with
      | error e => rfl
      | ok violations =>
        show runOn (check (refuse _) >>= _) d = ended d (Except.map _ (refuse _ >>= _))
        cases refuse (violations ++ _) with
        | error e => rfl
        | ok _ => rfl

theorem runOn_pause : (pause now).runOn d = ended d ((d.pause now).map ((), ·)) := by
  show runOn (if d.isActive = true then _ else _) d = _
  unfold Definition.pause
  by_cases ha : d.isActive = true
  · rw [if_pos ha, if_pos ha]
    rfl
  · rw [if_neg ha, if_neg ha]
    rfl

/-- A result that is not used makes no difference to what is written. -/
theorem runOn_bind_pure {α : Type} (m : Mutation α) (d : Definition) :
    (m >>= fun _ => pure ()).runOn d = ((m.runOn d).1.map fun _ => (), (m.runOn d).2) := by
  unfold runOn
  rw [ExceptT.run_bind, StateT.run_bind]
  cases m.run.run d with
  | mk result d' =>
    cases result with
    | error e => rfl
    | ok a => rfl

/-- How every operation ends, and what it leaves. -/
theorem runOn_perform (op : Operation) (d : Definition) (now : Timestamp) :
    (op.perform now).runOn d = ended (op.left d) ((op.apply d now).map ((), ·)) := by
  cases op with
  | rename name description => exact runOn_rename name description
  | updateTrigger trigger => exact runOn_updateTrigger trigger
  | updateGraph graph places => exact runOn_updateGraph graph places
  | applyEdited edited => exact runOn_applyEdited edited
  | govern action actor notes =>
    show (govern action actor notes now >>= fun _ => pure ()).runOn d =
      ended d (((d.govern action actor notes now).map Prod.fst).map ((), ·))
    rw [runOn_bind_pure, runOn_govern]
    cases d.govern action actor notes now with
    | error e => rfl
    | ok r => rfl
  | activate => exact runOn_activate
  | pause => exact runOn_pause

theorem runOn_perform_of_ok (h : op.apply d now = .ok d') :
    (op.perform now).runOn d = (.ok (), d') := by
  rw [runOn_perform, h]
  rfl

theorem runOn_perform_of_error (h : op.apply d now = .error e) :
    (op.perform now).runOn d = (.error e, op.left d) := by
  rw [runOn_perform, h]
  rfl

end Mutation

/-! ## Trying -/

theorem attempt_of_ok (h : op.apply d now = .ok d') : d.attempt op now = d' := by
  unfold attempt
  rw [Mutation.runOn_perform_of_ok h]

theorem attempt_of_error (h : op.apply d now = .error e) : d.attempt op now = op.left d := by
  unfold attempt
  rw [Mutation.runOn_perform_of_error h]

end Workflow.Definition
