import Workflow.Proofs.Definition.Governance

/-!
# What an operation leaves alone

An operation that fails has written nothing, unless it is the update of a graph whose
places turn out to be none.  One that succeeds has written its own fields, the time of
the change and the next version, and has left all other fields alone; only the activation
of an active definition writes nothing at all.

    op.apply d now = .ok d' → only what op may write has changed     (Operation.writes_of_apply)
    nothing else is ever written, whatever is asked                  (written_only)
    a graph that is written although the update fails                (written_in_part)
-/

namespace Workflow.Definition

variable {d d' : Definition} {now : Timestamp} {op : Operation}

/-! ## What is written -/

/-- What an operation that succeeds may have written: its own fields, the next version and the time.
All other fields are those of the definition that it was performed on. -/
def Operation.Writes (op : Operation) (now : Timestamp) (d d' : Definition) : Prop :=
  match op with
  | rename .. => ∃ name description, d' = { d with
      name := name, description := description, version := d.version + 1, updatedAt := now }
  | updateTrigger .. => ∃ trigger, d' = { d with
      trigger := trigger, version := d.version + 1, updatedAt := now }
  | updateGraph .. | applyEdited .. => ∃ graph layout, d' = { d with
      graph := graph, layout := layout, version := d.version + 1, updatedAt := now }
  | govern action .. => ∃ e : ApprovalEvent, e.definition = d.id ∧ e.action = action ∧ d' = { d with
      history := d.history ++ [e]
      approval := e.target
      lifecycle := if action = .request ∧ d.lifecycle = .active then .paused else d.lifecycle
      version := d.version + 1
      updatedAt := now }
  | activate => d.lifecycle = .active ∧ d.approval = .approved ∧ d' = d ∨
      d.lifecycle ≠ .active ∧ d' = { d with
        lifecycle := .active, version := d.version + 1, updatedAt := now }
  | pause => d' = { d with lifecycle := .paused, version := d.version + 1, updatedAt := now }

theorem suspend_eq (d : Definition) (action : ApprovalAction) : d.suspend action = { d with
    lifecycle := if action = .request ∧ d.lifecycle = .active then .paused else d.lifecycle } := by
  have hactive : d.isActive = true ↔ d.lifecycle = .active := by simp [isActive]
  unfold suspend
  by_cases h : action = .request ∧ d.lifecycle = .active
  · rw [if_pos h, if_pos (by rwa [hactive])]
  · rw [if_neg h, if_neg (by rwa [hactive])]

theorem Operation.writes_of_apply (h : op.apply d now = .ok d') : op.Writes now d d' := by
  cases op with
  | rename name description =>
    obtain ⟨t, -, -, rfl⟩ := rename_eq_ok h
    exact ⟨_, _, rfl⟩
  | updateTrigger trigger =>
    obtain ⟨-, rfl⟩ := updateTrigger_eq_ok h
    exact ⟨_, rfl⟩
  | updateGraph graph places =>
    obtain ⟨-, -, _, -, rfl⟩ := updateGraph_eq_ok h
    exact ⟨_, _, rfl⟩
  | applyEdited edited =>
    obtain ⟨graph, -, h⟩ := applyEdited_eq_ok h
    obtain ⟨-, -, _, -, rfl⟩ := updateGraph_eq_ok h
    exact ⟨_, _, rfl⟩
  | govern action actor notes =>
    obtain ⟨⟨_, e⟩, hg, rfl⟩ := map_eq_ok.1 h
    obtain ⟨target, -, -, rfl, rfl⟩ := govern_eq_ok hg
    refine ⟨⟨d.id, action, d.approval, target, actor, notes, now⟩, rfl, rfl, ?_⟩
    rw [suspend_eq]
    rfl
  | activate =>
    obtain ⟨ha, ⟨hl, rfl⟩ | ⟨hl, -, -, rfl⟩⟩ := activate_eq_ok h
    · exact .inl ⟨hl, ha, rfl⟩
    · exact .inr ⟨hl, rfl⟩
  | pause =>
    obtain ⟨-, rfl⟩ := pause_eq_ok h
    exact rfl

/-! ## What is never written -/

/-- A definition is what it was made as, by whom and when, and from what. -/
structure SameOrigin (d d' : Definition) : Prop where
  id : d'.id = d.id
  org : d'.org = d.org
  createdBy : d'.createdBy = d.createdBy
  createdAt : d'.createdAt = d.createdAt
  template : d'.template = d.template

theorem SameOrigin.refl (d : Definition) : d.SameOrigin d := ⟨rfl, rfl, rfl, rfl, rfl⟩

theorem SameOrigin.trans {d'' : Definition} (h : d.SameOrigin d') (h' : d'.SameOrigin d'') :
    d.SameOrigin d'' :=
  ⟨h'.id.trans h.id, h'.org.trans h.org, h'.createdBy.trans h.createdBy,
    h'.createdAt.trans h.createdAt, h'.template.trans h.template⟩

/-- Whether an operation is about the approval. -/
def Operation.IsGovernance : Operation → Prop
  | .govern .. => True
  | .rename .. | .updateTrigger _ | .updateGraph .. | .applyEdited _ | .activate | .pause => False

/-- No operation writes where a definition comes from, and only those about the approval write
the approval. -/
theorem Operation.Writes.keeps (h : op.Writes now d d') : d.SameOrigin d' ∧
    (¬ op.IsGovernance → d'.approval = d.approval ∧ d'.history = d.history) := by
  cases op with
  | rename name description =>
    obtain ⟨_, _, rfl⟩ := h
    exact ⟨⟨rfl, rfl, rfl, rfl, rfl⟩, fun _ => ⟨rfl, rfl⟩⟩
  | updateTrigger trigger =>
    obtain ⟨_, rfl⟩ := h
    exact ⟨⟨rfl, rfl, rfl, rfl, rfl⟩, fun _ => ⟨rfl, rfl⟩⟩
  | updateGraph graph places =>
    obtain ⟨_, _, rfl⟩ := h
    exact ⟨⟨rfl, rfl, rfl, rfl, rfl⟩, fun _ => ⟨rfl, rfl⟩⟩
  | applyEdited edited =>
    obtain ⟨_, _, rfl⟩ := h
    exact ⟨⟨rfl, rfl, rfl, rfl, rfl⟩, fun _ => ⟨rfl, rfl⟩⟩
  | govern action actor notes =>
    obtain ⟨_, -, -, rfl⟩ := h
    exact ⟨⟨rfl, rfl, rfl, rfl, rfl⟩, fun hop => absurd trivial hop⟩
  | activate =>
    obtain ⟨-, -, rfl⟩ | ⟨-, rfl⟩ := h
    · exact ⟨SameOrigin.refl _, fun _ => ⟨rfl, rfl⟩⟩
    · exact ⟨⟨rfl, rfl, rfl, rfl, rfl⟩, fun _ => ⟨rfl, rfl⟩⟩
  | pause =>
    obtain rfl := h
    exact ⟨⟨rfl, rfl, rfl, rfl, rfl⟩, fun _ => ⟨rfl, rfl⟩⟩

/-- So it is whether the operation fails or not. -/
theorem Operation.keeps_attempt (op : Operation) (d : Definition) (now : Timestamp) :
    d.SameOrigin (d.attempt op now) ∧ (¬ op.IsGovernance →
      (d.attempt op now).approval = d.approval ∧ (d.attempt op now).history = d.history) := by
  cases h : op.apply d now with
  | ok d' =>
    rw [attempt_of_ok h]
    exact (writes_of_apply h).keeps
  | error e =>
    rw [attempt_of_error h]
    rcases op.left_cases d with hl | ⟨graph, _, -, -, hl⟩
    · rw [hl]
      exact ⟨SameOrigin.refl d, fun _ => ⟨rfl, rfl⟩⟩
    · rw [hl]
      exact ⟨⟨rfl, rfl, rfl, rfl, rfl⟩, fun _ => ⟨rfl, rfl⟩⟩

/-! ## Many operations -/

theorem sameOrigin_after (d : Definition) (ops : List (Timestamp × Operation)) :
    d.SameOrigin (d.after ops) := by
  induction ops generalizing d with
  | nil => exact SameOrigin.refl d
  | cons c rest ih => exact (c.2.keeps_attempt d c.1).1.trans (ih _)

theorem approval_after (d : Definition) {ops : List (Timestamp × Operation)}
    (h : ∀ c ∈ ops, ¬ c.2.IsGovernance) :
    (d.after ops).approval = d.approval ∧ (d.after ops).history = d.history := by
  induction ops generalizing d with
  | nil => exact ⟨rfl, rfl⟩
  | cons c rest ih =>
    obtain ⟨ha, hh⟩ := (c.2.keeps_attempt d c.1).2 (h c List.mem_cons_self)
    obtain ⟨ha', hh'⟩ := ih (d.attempt c.2 c.1) fun b hb => h b (List.mem_cons_of_mem c hb)
    exact ⟨ha'.trans ha, hh'.trans hh⟩

/-! ## Theorem -/

/-- What is performed on a definition, whatever its state.  An operation that fails leaves all of it
as it was, if what it gives as places are places; if they are none, it may leave the graph that it
was given, and nothing else.  One that succeeds writes what is its own, the next version and the
time, and nothing else, or nothing if it activates an active definition.  Whatever is performed and
whatever comes of it, the definition is of the same origin, and its approval and history are the
same unless the approval was asked for, given or refused. -/
theorem written_only (d : Definition) :
    (∀ (op : Operation) (now : Timestamp) e d', (op.perform now).runOn d = (.error e, d') →
      (op.GivesPlaces → d' = d) ∧
      (d' = d ∨ e = .faulty .notRecord ∧ ∃ graph places, op = .updateGraph graph (some places) ∧
        (∀ layout, places.prune graph ≠ .ok layout) ∧ d' = { d with graph := graph })) ∧
    (∀ (op : Operation) (now : Timestamp) d',
      (op.perform now).runOn d = (.ok (), d') → op.Writes now d d') ∧
    (∀ ops, d.SameOrigin (d.after ops)) ∧
    ∀ ops, (∀ c ∈ ops, ¬ c.2.IsGovernance) →
      (d.after ops).approval = d.approval ∧ (d.after ops).history = d.history := by
  refine ⟨fun op now e d' hrun => ?_, fun op now d' hrun => ?_, sameOrigin_after d,
    fun ops => approval_after d⟩
  · cases h : op.apply d now with
    | error e' =>
      rw [Mutation.runOn_perform_of_error h] at hrun
      obtain ⟨he, rfl⟩ := Prod.mk.inj hrun
      obtain rfl := Except.error.inj he
      refine ⟨fun hop => Operation.left_eq_self hop h, ?_⟩
      by_cases hl : op.left d = d
      · exact .inl hl
      · exact .inr (Operation.error_of_left_ne h hl)
    | ok d'' =>
      rw [Mutation.runOn_perform_of_ok h] at hrun
      cases congrArg Prod.fst hrun
  · cases h : op.apply d now with
    | error e' =>
      rw [Mutation.runOn_perform_of_error h] at hrun
      cases congrArg Prod.fst hrun
    | ok d'' =>
      rw [Mutation.runOn_perform_of_ok h] at hrun
      obtain rfl : d'' = d' := congrArg Prod.snd hrun
      exact Operation.writes_of_apply h

/-- Renamed, retriggered in vain, and paused. -/
def edits : List (Timestamp × Operation) :=
  [(⟨10, some 0⟩, .rename (.text " Hello ") .null), (⟨11, some 0⟩, .updateTrigger (.event "hello")),
   (⟨12, some 0⟩, .pause)]

/-- An active definition refuses an empty graph, is paused by a request, is not changed by an
activation, and stays approved when it is edited. -/
theorem written_only_active :
    let d := welcome.after (reactivation.take 3)
    let now : Timestamp := ⟨9, some 0⟩
    let emptied := ((Operation.updateGraph ⟨[], []⟩ none).perform now).runOn d
    let requested := ((Operation.govern .request .null .null).perform now).runOn d
    let activated := (Operation.activate.perform now).runOn d
    (d.lifecycle = .active ∧ d.version = 4) ∧
    (emptied = (.error (.invalid
      ["An active automation cannot have an empty graph; pause it first"]), emptied.2) ∧
      (Operation.updateGraph ⟨[], []⟩ none).GivesPlaces ∧ emptied.2 = d) ∧
    (requested = (.ok (), requested.2) ∧ requested.2.lifecycle = .paused ∧
      (Operation.govern .request .null .null).Writes now d requested.2) ∧
    (activated = (.ok (), activated.2) ∧ Operation.activate.Writes now d activated.2) ∧
    (d.after edits).version = 6 ∧ d.SameOrigin (d.after edits) ∧
    (∀ c ∈ edits, ¬ c.2.IsGovernance) ∧ (d.after edits).approval = .approved := by
  intro d now emptied requested activated
  obtain ⟨hfails, hwrites, horigin, happroval⟩ := written_only d
  have hedits : ∀ c ∈ edits, ¬ c.2.IsGovernance := by
    simp [edits, Operation.IsGovernance]
  have hemptied : emptied = (.error (.invalid
      ["An active automation cannot have an empty graph; pause it first"]), emptied.2) := rfl
  have hrequested : requested = (.ok (), requested.2) := rfl
  have hactivated : activated = (.ok (), activated.2) := rfl
  have hplaces : (Operation.updateGraph ⟨[], []⟩ none).GivesPlaces := nofun
  exact ⟨⟨rfl, rfl⟩,
    ⟨hemptied, hplaces, (hfails (.updateGraph ⟨[], []⟩ none) now _ _ hemptied).1 hplaces⟩,
    ⟨hrequested, rfl, hwrites (.govern .request .null .null) now _ hrequested⟩,
    ⟨hactivated, hwrites .activate now _ hactivated⟩, rfl, horigin edits, hedits,
    (happroval edits hedits).1⟩

/-- A definition with a placed step, and a graph with another step whose place is none. -/
def placed : Definition := { welcome with layout := [("n1", ⟨.int 0, .int 0⟩)] }

def misplaced : Operation :=
  .updateGraph ⟨[⟨"n2", .action, "", [("action_kind", .text "email.send")]⟩], []⟩
    (some (.entries [("n2", none)]))

/-- The update fails, and has written the graph; the layout still holds the step that is gone. -/
theorem written_in_part : ∃ d',
    (misplaced.perform ⟨1, some 0⟩).runOn placed = (.error (.faulty .notRecord), d') ∧
    d' ≠ placed ∧ d'.graph.ids = ["n2"] ∧ d'.layout = placed.layout ∧ d'.version = placed.version ∧
    ¬ ∀ place ∈ d'.layout, place.1 ∈ d'.graph.ids := by
  refine ⟨_, rfl, fun h => ?_, rfl, rfl, rfl, by decide⟩
  exact absurd (congrArg (fun d => d.graph.ids) h) (by decide)

end Workflow.Definition
