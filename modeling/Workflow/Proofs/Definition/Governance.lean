import Workflow.Proofs.Definition.Performing

/-!
# Governance

What holds of every definition at all times, whatever has been asked of it and
however often an operation has failed:

    active → approved, signed by the last event, with at least one step
    approval = the status that the history leads to
    the history is a path of the standard table from `draft`

and a definition is a draft until an activation succeeds (`lifecycle_after`).  A graph that
was written before its places turned out to be none had been checked, so all of this holds
of what such a failure leaves too; only the layout may then hold other steps than the graph.
-/

namespace Workflow

/-! ## Paths of the table -/

namespace ApprovalEvent

/-- Events of one definition that follow the standard table from a status on, each from
where the one before led to; whoever approves is named. -/
def IsPath (id : Uuid) : ApprovalStatus → List ApprovalEvent → Prop
  | _, [] => True
  | s, e :: rest =>
    e.definition = id ∧ e.source = s ∧
      ((e.source, e.action), e.target) ∈ ApprovalTable.standard ∧
      (e.action = .approve → Value.isFilled (some e.actor) = true) ∧ IsPath id e.target rest

variable {id : Uuid} {s : ApprovalStatus} {history : List ApprovalEvent} {e : ApprovalEvent}

theorem isPath_append (h : IsPath id s history)
    (he : IsPath id (history.foldl (fun _ f => f.target) s) [e]) :
    IsPath id s (history ++ [e]) := by
  induction history generalizing s with
  | nil => exact he
  | cons f rest ih =>
    obtain ⟨hd, hs, hr, ha, hrest⟩ := h
    exact ⟨hd, hs, hr, ha, ih hrest he⟩

theorem IsPath.row (h : IsPath id s history) (he : e ∈ history) :
    ((e.source, e.action), e.target) ∈ ApprovalTable.standard := by
  induction history generalizing s with
  | nil => cases he
  | cons f rest ih =>
    obtain ⟨-, -, hr, -, hrest⟩ := h
    rcases List.mem_cons.1 he with rfl | he
    · exact hr
    · exact ih hrest he

theorem IsPath.signed (h : IsPath id s history) (he : e ∈ history) (ha : e.action = .approve) :
    Value.isFilled (some e.actor) = true := by
  induction history generalizing s with
  | nil => cases he
  | cons f rest ih =>
    obtain ⟨-, -, -, hf, hrest⟩ := h
    rcases List.mem_cons.1 he with rfl | he
    · exact hf ha
    · exact ih hrest he

end ApprovalEvent

/-! ## The invariant -/

namespace Definition

/-- What holds of a definition at all times. -/
structure Governed (d : Definition) : Prop where
  approved_of_active : d.lifecycle = .active → d.approval = .approved
  filled_of_active : d.lifecycle = .active → d.graph.isEmpty = false
  trigger_valid : d.trigger.violations = []
  graph_valid : d.graph.violations = []
  approval_eq : d.approval = ApprovalEvent.status d.history
  path : ApprovalEvent.IsPath d.id .draft d.history

variable {d d' : Definition} {now : Timestamp}

/-- Whatever a definition begins with has been created. -/
theorem Begun.exists_create (h : Begun d) : ∃ p id now, create p id now = .ok d := by
  cases h with
  | created p id now h => exact ⟨p, id, now, h⟩
  | installed t context name id now h => exact ⟨_, id, now, h⟩

theorem governed_of_begun (h : Begun d) : Governed d := by
  obtain ⟨p, id, now, h⟩ := h.exists_create
  obtain ⟨t, -, -, ht, hg, rfl⟩ := create_eq_ok h
  exact {
    approved_of_active := nofun
    filled_of_active := nofun
    trigger_valid := ht
    graph_valid := hg
    approval_eq := rfl
    path := trivial }

theorem Governed.rename (g : Governed d) {name description : Value}
    (h : d.rename name description now = .ok d') : Governed d' := by
  obtain ⟨t, -, -, rfl⟩ := rename_eq_ok h
  exact { g with }

theorem Governed.updateTrigger (g : Governed d) {trigger : Trigger}
    (h : d.updateTrigger trigger now = .ok d') : Governed d' := by
  obtain ⟨ht, rfl⟩ := updateTrigger_eq_ok h
  exact { g with trigger_valid := ht }

theorem Governed.updateGraph (g : Governed d) {graph : Graph} {places : Option Places}
    (h : d.updateGraph graph places now = .ok d') : Governed d' := by
  obtain ⟨hg, ha, _, -, rfl⟩ := updateGraph_eq_ok h
  exact { g with
    filled_of_active := ha
    graph_valid := hg }

/-- An action on the approval leads on from where the approval stands. -/
theorem govern_isPath {action : ApprovalAction} {actor notes : Value} {e : ApprovalEvent}
    (h : d.govern action actor notes now = .ok (d', e)) :
    ApprovalEvent.IsPath d.id d.approval [e] ∧ d'.approval = e.target := by
  obtain ⟨target, hf, hs, rfl, rfl⟩ := govern_eq_ok h
  have hrow : ((d.approval, action), target) ∈ ApprovalTable.standard := by
    cases ha : d.approval <;> cases action <;>
      simp [ha, ApprovalTable.standard, Assoc.find?] at hf ⊢ <;> exact hf.symm
  exact ⟨⟨rfl, rfl, hrow, hs, trivial⟩, rfl⟩

/-- A request pauses an active definition, and the other actions are taken on a pending
one, which is not active: whichever it is, the changed definition is not active. -/
theorem Governed.govern (g : Governed d) {action : ApprovalAction} {actor notes : Value}
    {e : ApprovalEvent} (h : d.govern action actor notes now = .ok (d', e)) : Governed d' := by
  obtain ⟨hstep, -⟩ := govern_isPath h
  obtain ⟨target, -, -, he, rfl⟩ := govern_eq_ok h
  have hrow : ((d.approval, action), target) ∈ ApprovalTable.standard := by
    rw [he] at hstep
    exact hstep.2.2.1
  have hpath : ApprovalEvent.IsPath d.id .draft (d.history ++ [e]) := by
    apply ApprovalEvent.isPath_append g.path
    show ApprovalEvent.IsPath d.id (ApprovalEvent.status d.history) [e]
    rw [← g.approval_eq]
    exact hstep
  have hidle : (d.suspend action).lifecycle ≠ .active := by
    intro ha
    unfold suspend at ha
    split at ha
    · cases ha
    · next hn =>
      have happ := g.approved_of_active ha
      rw [happ] at hrow
      simp [ApprovalTable.standard] at hrow
      exact hn ⟨hrow.1, by simp [isActive, ha]⟩
  have hsame : (d.suspend action).history = d.history ∧ (d.suspend action).id = d.id ∧
      (d.suspend action).trigger = d.trigger ∧ (d.suspend action).graph = d.graph := by
    unfold suspend
    split <;> exact ⟨rfl, rfl, rfl, rfl⟩
  obtain ⟨hh, hid, ht, hg⟩ := hsame
  exact {
    approved_of_active := fun ha => absurd ha hidle
    filled_of_active := fun ha => absurd ha hidle
    trigger_valid := by show (d.suspend action).trigger.violations = []; rw [ht]; exact g.trigger_valid
    graph_valid := by show (d.suspend action).graph.violations = []; rw [hg]; exact g.graph_valid
    approval_eq := by
      show e.target = ApprovalEvent.status ((d.suspend action).history ++ [e])
      rw [ApprovalEvent.status_append]
    path := by
      show ApprovalEvent.IsPath (d.suspend action).id .draft ((d.suspend action).history ++ [e])
      rw [hid, hh]
      exact hpath }

theorem Governed.activate (g : Governed d) (h : d.activate now = .ok d') : Governed d' := by
  obtain ⟨ha, ⟨-, rfl⟩ | ⟨-, -, hg, rfl⟩⟩ := activate_eq_ok h
  · exact g
  · exact { g with
      approved_of_active := fun _ => ha
      filled_of_active := fun _ => hg }

theorem Governed.pause (g : Governed d) (h : d.pause now = .ok d') : Governed d' := by
  obtain ⟨-, rfl⟩ := pause_eq_ok h
  exact { g with
    approved_of_active := nofun
    filled_of_active := nofun }

/-- Every operation that succeeds keeps the invariant. -/
theorem Governed.apply (g : Governed d) {op : Operation} (h : op.apply d now = .ok d') :
    Governed d' := by
  cases op with
  | rename name description => exact g.rename h
  | updateTrigger trigger => exact g.updateTrigger h
  | updateGraph graph places => exact g.updateGraph h
  | applyEdited edited =>
    obtain ⟨graph, -, h⟩ := applyEdited_eq_ok h
    exact g.updateGraph h
  | govern action actor notes =>
    obtain ⟨⟨_, e⟩, hg, rfl⟩ := map_eq_ok.1 h
    exact g.govern hg
  | activate => exact g.activate h
  | pause => exact g.pause h

/-- What an operation that fails leaves keeps it too. -/
theorem Governed.left (g : Governed d) (op : Operation) : Governed (op.left d) := by
  rcases op.left_cases d with hl | ⟨graph, _, -, ⟨hv, hf⟩, hl⟩
  · rw [hl]
    exact g
  · rw [hl]
    exact { g with
      filled_of_active := hf
      graph_valid := hv }

theorem Governed.after (g : Governed d) (ops : List (Timestamp × Operation)) :
    Governed (d.after ops) := by
  induction ops generalizing d with
  | nil => exact g
  | cons c rest ih =>
    obtain ⟨now, op⟩ := c
    apply ih
    cases h : op.apply d now with
    | ok d' =>
      rw [attempt_of_ok h]
      exact g.apply h
    | error e =>
      rw [attempt_of_error h]
      exact g.left op

/-! ## Layouts -/

/-- Only steps of the graph have places. -/
def Fits (d : Definition) : Prop := ∀ e ∈ d.layout, e.1 ∈ d.graph.ids

theorem Fits.apply (hd : d.Fits) {op : Operation} (h : op.apply d now = .ok d') : d'.Fits := by
  have updated {d' : Definition} {graph : Graph} {places : Option Places}
      (h : d.updateGraph graph places now = .ok d') : d'.Fits := by
    obtain ⟨-, -, layout, hl, rfl⟩ := updateGraph_eq_ok h
    obtain ⟨_, -, hmem⟩ := Places.of_prune hl
    exact fun e he => (hmem e he).1
  cases op with
  | rename name description =>
    obtain ⟨t, -, -, rfl⟩ := rename_eq_ok h
    exact hd
  | updateTrigger trigger =>
    obtain ⟨-, rfl⟩ := updateTrigger_eq_ok h
    exact hd
  | updateGraph graph places => exact updated h
  | applyEdited edited =>
    obtain ⟨graph, -, h⟩ := applyEdited_eq_ok h
    exact updated h
  | govern action actor notes =>
    obtain ⟨⟨_, e⟩, hg, rfl⟩ := map_eq_ok.1 h
    obtain ⟨target, -, -, -, rfl⟩ := govern_eq_ok hg
    unfold suspend
    split
    · exact hd
    · exact hd
  | activate =>
    obtain ⟨-, ⟨-, rfl⟩ | ⟨-, -, -, rfl⟩⟩ := activate_eq_ok h
    · exact hd
    · exact hd
  | pause =>
    obtain ⟨-, rfl⟩ := pause_eq_ok h
    exact hd

theorem Fits.after (hd : d.Fits) {ops : List (Timestamp × Operation)}
    (hops : ∀ c ∈ ops, c.2.GivesPlaces) : (d.after ops).Fits := by
  induction ops generalizing d with
  | nil => exact hd
  | cons c rest ih =>
    obtain ⟨now, op⟩ := c
    obtain ⟨hop, hrest⟩ := List.forall_mem_cons.1 hops
    refine ih ?_ hrest
    cases h : op.apply d now with
    | ok d' =>
      rw [attempt_of_ok h]
      exact hd.apply h
    | error e =>
      rw [attempt_of_error h, Operation.left_eq_self hop h]
      exact hd

/-! ## Drafts -/

/-- An automation with one step. -/
def welcomeProposal : Proposal :=
  ⟨.text "Welcome", .event "lead.created", ⟨.text "acme", .null⟩,
    ⟨[⟨"n1", .action, "", [("action_kind", .text "email.send")]⟩], []⟩, .text "", [], none⟩

def welcome : Definition := welcomeProposal.define "Welcome" (Uuid.ofNat 1) ⟨0, some 0⟩

/-- Activated, not emptied, paused by a new request, not activated, and at last activated again. -/
def reactivation : List (Timestamp × Operation) :=
  [(⟨1, some 0⟩, .govern .request .null .null), (⟨2, some 0⟩, .govern .approve (.text "bob") .null),
   (⟨3, some 0⟩, .activate), (⟨4, some 0⟩, .updateGraph ⟨[], []⟩ none),
   (⟨5, some 0⟩, .govern .request .null .null), (⟨6, some 0⟩, .activate),
   (⟨7, some 0⟩, .govern .approve (.text "eve") .null), (⟨8, some 0⟩, .activate)]

end Definition

end Workflow
