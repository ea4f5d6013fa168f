import Workflow.Proofs.Definition.Progress
import Workflow.Service.Call

/-!
# What a call makes of a definition

A call that changes a definition performs operations on it, so it keeps what they
keep: identifier and time of creation, declared types, and a version that is
raised unless nothing is changed.  What it makes of a definition, the history
apart, does not depend on the history.

    the change succeeds → d' = d or d.version < d'.version    (Call.change_keeps)
    d typed, call typed → d' typed                            (Call.Typed.change)
-/

namespace Workflow.Service

/-! ## The parts of a revision -/

namespace Revision

def retrigger (r : Revision) (d : Definition) (now : Timestamp) : Except Error Definition :=
  match r.trigger with
  | none => .ok d
  | some t => d.updateTrigger t now

def regraph (r : Revision) (d : Definition) (now : Timestamp) : Except Error Definition :=
  match r.graph with
  | none => .ok d
  | some g => d.updateGraph g none now

/-- A revision renames, then replaces the trigger, then the graph. -/
theorem apply_eq (r : Revision) (d : Definition) (now : Timestamp) :
    r.apply d now
      = r.rename d now >>= fun d => r.retrigger d now >>= fun d => r.regraph d now := by
  obtain ⟨name, description, trigger, graph⟩ := r
  unfold apply
  cases trigger <;> cases graph <;> rfl

end Revision

/-! ## Operations of a call -/

namespace Call

/-- The operations that a call may perform. -/
def Performs : Call → Definition.Operation → Prop
  | update _ r _, .rename _ description => description = r.description
  | update _ r _, .updateTrigger trigger => r.trigger = some trigger
  | update _ r _, .updateGraph graph places => r.graph = some graph ∧ places = none
  | saveEdited _ edited _, .applyEdited edited' => edited' = edited
  | govern action _ actor notes, .govern action' actor' notes' =>
    action' = action ∧ actor' = actor ∧ notes' = notes
  | activate _, .activate => True
  | pause _, .pause => True
  | _, _ => False

/-- One definition is led to another by operations of a call, by so many at most. -/
inductive Reaches (call : Call) (now : Timestamp) : Nat → Definition → Definition → Prop where
  | refl (count : Nat) (d : Definition) : Reaches call now count d d
  | step {count : Nat} {d d₁ d' : Definition} (op : Definition.Operation) (hp : call.Performs op)
    (h : op.apply d now = .ok d₁) (rest : Reaches call now count d₁ d') :
    Reaches call now (count + 1) d d'

theorem Reaches.single {call : Call} {now : Timestamp} {count : Nat} {d d' : Definition}
    (op : Definition.Operation) (hp : call.Performs op) (h : op.apply d now = .ok d') :
    Reaches call now (count + 1) d d' :=
  .step op hp h (.refl count d')

theorem Reaches.trans {call : Call} {now : Timestamp} {m n : Nat} {d₁ d₂ d₃ : Definition}
    (h : Reaches call now m d₁ d₂) (h' : Reaches call now n d₂ d₃) :
    Reaches call now (n + m) d₁ d₃ := by
  induction h with
  | refl count d =>
    induction h' with
    | refl count' d => exact .refl _ d
    | step op hp h rest ih =>
      rw [Nat.add_right_comm]
      exact .step op hp h ih
  | step op hp h rest ih => exact .step op hp h (ih h')

/-- A call performs at most three operations. -/
theorem change_reaches {call : Call} {now : Timestamp} {d d' : Definition}
    (h : call.change now d = .ok d') : Reaches call now 3 d d' := by
  cases call with
  | update id r expected =>
    obtain ⟨d₁, h₁, h⟩ := bind_eq_ok.1 ((r.apply_eq d now).symm.trans h)
    obtain ⟨d₂, h₂, h₃⟩ := bind_eq_ok.1 h
    have r₁ : Reaches (update id r expected) now 1 d d₁ := by
      unfold Revision.rename at h₁
      split at h₁
      · cases h₁
        exact .refl 1 d
      · exact .single (.rename _ r.description) rfl h₁
    have r₂ : Reaches (update id r expected) now 1 d₁ d₂ := by
      unfold Revision.retrigger at h₂
      cases ht : r.trigger with
      | none =>
        rw [ht] at h₂
        cases h₂
        exact .refl 1 d₁
      | some t =>
        rw [ht] at h₂
        exact .single (.updateTrigger t) ht h₂
    have r₃ : Reaches (update id r expected) now 1 d₂ d' := by
      unfold Revision.regraph at h₃
      cases hg : r.graph with
      | none =>
        rw [hg] at h₃
        cases h₃
        exact .refl 1 d'
      | some g =>
        rw [hg] at h₃
        exact .single (.updateGraph g none) ⟨hg, rfl⟩ h₃
    exact r₁.trans (r₂.trans r₃)
  | saveEdited id edited expected => exact .single (.applyEdited edited) rfl h
  | govern action id actor notes => exact .single (.govern action actor notes) ⟨rfl, rfl, rfl⟩ h
  | activate id => exact .single .activate trivial h
  | pause id => exact .single .pause trivial h
  | create _ | get _ | list _ | editorView _ | delete _ | approvals _ | templates
  | install _ _ _ | startRun _ _ | completeRun _ _ _ | cancelRun _ | getRun _ | listRuns _ _
  | listOrgRuns _ _ | summary _ =>
    obtain rfl : d = d' := Except.ok.inj h
    exact .refl 3 d

/-- What each operation of a call does to a definition, the call does. -/
theorem change_induction {call : Call} {now : Timestamp} {R : Definition → Definition → Prop}
    (refl : ∀ d, R d d) (trans : ∀ d₁ d₂ d₃, R d₁ d₂ → R d₂ d₃ → R d₁ d₃)
    (step : ∀ op d d', call.Performs op → op.apply d now = .ok d' → R d d')
    {d d' : Definition} (h : call.change now d = .ok d') : R d d' := by
  have hr := change_reaches h
  clear h
  generalize 3 = count at hr
  induction hr with
  | refl count d => exact refl d
  | step op hp h rest ih => exact trans _ _ _ (step op _ _ hp h) ih

/-- A change keeps the identifier and the time of creation, and raises the version unless it
changes nothing. -/
theorem change_keeps {call : Call} {now : Timestamp} {d d' : Definition}
    (h : call.change now d = .ok d') :
    d'.id = d.id ∧ d'.createdAt = d.createdAt ∧ (d' = d ∨ d.version < d'.version) := by
  let R (d d' : Definition) : Prop :=
    d'.id = d.id ∧ d'.createdAt = d.createdAt ∧ (d' = d ∨ d.version < d'.version)
  refine change_induction (R := R) ?_ ?_ ?_ h
  · intro d
    exact ⟨rfl, rfl, Or.inl rfl⟩
  · rintro d₁ d₂ d₃ ⟨hi, hc, hv⟩ ⟨hi', hc', hv'⟩
    refine ⟨hi'.trans hi, hc'.trans hc, ?_⟩
    rcases hv with rfl | hv
    · exact hv'
    · rcases hv' with rfl | hv'
      · exact Or.inr hv
      · exact Or.inr (Int.lt_trans hv hv')
  · intro op d d' _ h
    have hk := Definition.Operation.apply_keeps h
    refine ⟨hk.id, hk.createdAt, hk.version.imp_right ?_⟩
    intro hv
    omega

theorem change_version {call : Call} {now : Timestamp} {d d' : Definition}
    (h : call.change now d = .ok d') : d.version ≤ d'.version := by
  obtain ⟨-, -, rfl | hv⟩ := change_keeps h
  · exact Int.le_refl _
  · exact Int.le_of_lt hv

/-- The version rises by three at most. -/
theorem change_version_le {call : Call} {now : Timestamp} {d d' : Definition}
    (h : call.change now d = .ok d') : d'.version ≤ d.version + 3 := by
  have hle : ∀ {count : Nat} {d d' : Definition}, Reaches call now count d d' →
      d'.version ≤ d.version + count := by
    intro count d d' h
    induction h with
    | refl count d => omega
    | step op hp h rest ih =>
      obtain rfl | hv := (Definition.Operation.apply_keeps h).version
      · omega
      · omega
  exact hle (change_reaches h)

/-! ## Declared types -/

/-- The arguments of a call are of their declared types. -/
def Typed : Call → Prop
  | create p => p.Typed
  | list org => org.IsTextOrNull
  | update _ r _ => r.description.IsTextOrNull ∧ ∀ g ∈ r.graph, g.ids.Nodup
  | saveEdited _ edited _ => edited.IsPlaced
  | govern _ _ actor notes => actor.IsTextOrNull ∧ notes.IsTextOrNull
  | install _ context _ => context.org.IsText ∧ context.user.IsTextOrNull
  | startRun _ context => context = .null ∨ ∃ ms, context = .object ms
  | completeRun _ _ error => error.IsTextOrNull
  | listRuns _ limit => ∃ n : Int, limit = .int n
  | listOrgRuns org limit => org.IsText ∧ ∃ n : Int, limit = .int n
  | get _ | editorView _ | delete _ | approvals _ | activate _ | pause _ | templates
  | cancelRun _ | getRun _ | summary _ => True

theorem Typed.performs {call : Call} (hc : call.Typed) {op : Definition.Operation}
    (h : call.Performs op) : op.Typed := by
  cases op with
  | rename name description =>
    cases call with
    | update id r expected =>
      obtain rfl : description = r.description := h
      exact hc.1
    | _ => exact h.elim
  | updateGraph graph places =>
    cases call with
    | update id r expected =>
      obtain ⟨hg, rfl⟩ := h
      exact ⟨hc.2 graph hg, nofun⟩
    | _ => exact h.elim
  | applyEdited edited =>
    cases call with
    | saveEdited id edited' expected =>
      obtain rfl : edited = edited' := h
      exact hc
    | _ => exact h.elim
  | updateTrigger trigger | govern action actor notes | activate | pause => trivial

theorem Typed.change {call : Call} (hc : call.Typed) {now : Timestamp} (hn : now.IsUniversal)
    {d d' : Definition} (hd : d.Typed) (h : call.change now d = .ok d') : d'.Typed := by
  refine change_induction (R := fun d d' => d.Typed → d'.Typed) ?_ ?_ ?_ h hd
  · exact fun d hd => hd
  · exact fun d₁ d₂ d₃ h₁ h₂ hd => h₂ (h₁ hd)
  · exact fun op d d' hp h hd => hd.apply (hc.performs hp) hn h

end Call

/-! ## Histories -/

/-- Up to the history of its result, a change does not depend on the history. -/
def IgnoresHistory (f : Definition → Except Error Definition) : Prop :=
  ∀ d, (f d).map Definition.withoutHistory
    = (f d.withoutHistory).map Definition.withoutHistory

theorem IgnoresHistory.bind {f g : Definition → Except Error Definition}
    (hf : IgnoresHistory f) (hg : IgnoresHistory g) : IgnoresHistory fun d => f d >>= g := by
  intro d
  have h := hf d
  cases h₁ : f d with
  | error e =>
    cases h₂ : f d.withoutHistory with
    | error e' =>
      rw [h₁, h₂] at h
      obtain rfl : e = e' := Except.error.inj h
      show (f d >>= g).map _ = (f d.withoutHistory >>= g).map _
      rw [h₁, h₂]
    | ok a =>
      rw [h₁, h₂] at h
      cases h
  | ok a =>
    cases h₂ : f d.withoutHistory with
    | error e =>
      rw [h₁, h₂] at h
      cases h
    | ok b =>
      rw [h₁, h₂] at h
      have hab : a.withoutHistory = b.withoutHistory := Except.ok.inj h
      show (f d >>= g).map _ = (f d.withoutHistory >>= g).map _
      rw [h₁, h₂]
      show (g a).map _ = (g b).map _
      rw [hg a, hg b, hab]

theorem ignoresHistory_ok : IgnoresHistory .ok := fun _ => rfl

theorem ignoresHistory_rename (name description : Value) (now : Timestamp) :
    IgnoresHistory fun d => d.rename name description now := by
  intro d
  unfold Definition.rename
  cases Definition.filledName? name with
  | error e => rfl
  | ok filled => cases filled <;> rfl

theorem ignoresHistory_updateTrigger (trigger : Trigger) (now : Timestamp) :
    IgnoresHistory fun d => d.updateTrigger trigger now := by
  intro d
  unfold Definition.updateTrigger
  cases refuse trigger.violations <;> rfl

theorem ignoresHistory_updateGraph (graph : Graph) (places : Option Places) (now : Timestamp) :
    IgnoresHistory fun d => d.updateGraph graph places now := by
  intro d
  unfold Definition.updateGraph
  cases graph.validate with
  | error e => rfl
  | ok violations =>
    show (refuse violations >>= _ : Except Error Definition).map _
      = (refuse violations >>= _ : Except Error Definition).map _
    cases refuse violations with
    | error e => rfl
    | ok _ =>
      show (if d.isActive && graph.isEmpty then _ else _ : Except Error Definition).map _
        = (if d.isActive && graph.isEmpty then _ else _ : Except Error Definition).map _
      cases d.isActive && graph.isEmpty with
      | true => rfl
      | false =>
        show ((places.getD (.ofLayout d.layout)).prune graph >>= _ : Except Error _).map _
          = ((places.getD (.ofLayout d.layout)).prune graph >>= _ : Except Error _).map _
        cases (places.getD (.ofLayout d.layout)).prune graph <;> rfl

theorem ignoresHistory_govern (action : ApprovalAction) (actor notes : Value)
    (now : Timestamp) : IgnoresHistory fun d => (d.govern action actor notes now).map Prod.fst := by
  intro d
  unfold Definition.govern
  show ((_ >>= _ : Except Error (Definition × ApprovalEvent)).map _).map _
    = ((ApprovalTable.standard.transition d.id d.approval action actor notes now >>= _
        : Except Error (Definition × ApprovalEvent)).map _).map _
  cases ApprovalTable.standard.transition d.id d.approval action actor notes now with
  | error e => rfl
  | ok e =>
    show Except.ok ((d.suspend action).record e now).withoutHistory
      = Except.ok ((d.withoutHistory.suspend action).record e now).withoutHistory
    unfold Definition.suspend
    show Except.ok ((if action = .request ∧ d.isActive then _ else _ : Definition).record e
        now).withoutHistory
      = Except.ok ((if action = .request ∧ d.isActive then _ else _ : Definition).record e
        now).withoutHistory
    split <;> rfl

theorem ignoresHistory_activate (now : Timestamp) : IgnoresHistory (·.activate now) := by
  intro d
  unfold Definition.activate
  show (if !d.approval.permitsActivation then _ else if d.isActive then _ else _
      : Except Error Definition).map _
    = (if !d.approval.permitsActivation then _ else if d.isActive then _ else _
      : Except Error Definition).map _
  cases !d.approval.permitsActivation with
  | true => rfl
  | false =>
    cases d.isActive with
    | true => rfl
    | false =>
      have hv : d.withoutHistory.validate = d.validate := rfl
      have hg : d.withoutHistory.graph = d.graph := rfl
      simp only [hv, hg]
      cases d.validate with
      | error e => rfl
      | ok violations =>
        show (refuse (violations ++ _) >>= _ : Except Error Definition).map _
          = (refuse (violations ++ _) >>= _ : Except Error Definition).map _
        cases refuse (violations ++ if d.graph.isEmpty = true then
          ["Graph has no nodes; add at least one step before activating"] else []) <;> rfl

theorem ignoresHistory_pause (now : Timestamp) : IgnoresHistory (·.pause now) := by
  intro d
  unfold Definition.pause
  show (if d.isActive then _ else _ : Except Error Definition).map _
    = (if d.isActive then _ else _ : Except Error Definition).map _
  cases d.isActive <;> rfl

/-- A change may write the history but does not read it. -/
theorem Call.ignoresHistory (call : Call) (now : Timestamp) :
    IgnoresHistory fun d => call.change now d := by
  cases call with
  | update id r expected =>
    have h₁ : IgnoresHistory fun d => r.rename d now := by
      intro d
      show (if r.name = .null ∧ r.description = .null then _ else _
          : Except Error Definition).map _
        = (if r.name = .null ∧ r.description = .null then _ else _
          : Except Error Definition).map _
      by_cases hr : r.name = .null ∧ r.description = .null
      · rw [if_pos hr, if_pos hr]
        rfl
      · rw [if_neg hr, if_neg hr]
        exact ignoresHistory_rename _ _ now d
    have h₂ : IgnoresHistory fun d => r.retrigger d now := by
      unfold Revision.retrigger
      cases r.trigger with
      | none => exact ignoresHistory_ok
      | some t => exact ignoresHistory_updateTrigger t now
    have h₃ : IgnoresHistory fun d => r.regraph d now := by
      unfold Revision.regraph
      cases r.graph with
      | none => exact ignoresHistory_ok
      | some g => exact ignoresHistory_updateGraph g none now
    intro d
    show (r.apply d now).map _ = (r.apply d.withoutHistory now).map _
    rw [r.apply_eq, r.apply_eq]
    exact h₁.bind (h₂.bind h₃) d
  | saveEdited id edited expected =>
    intro d
    show (edited.compileBounded >>= fun g => d.updateGraph g _ now).map _
      = (edited.compileBounded >>= fun g => d.withoutHistory.updateGraph g _ now).map _
    cases edited.compileBounded with
    | error e => rfl
    | ok g => exact ignoresHistory_updateGraph g (some (.ofLayout edited.layout)) now d
  | govern action id actor notes => exact ignoresHistory_govern action actor notes now
  | activate id => exact ignoresHistory_activate now
  | pause id => exact ignoresHistory_pause now
  | create _ | get _ | list _ | editorView _ | delete _ | approvals _ | templates
  | install _ _ _ | startRun _ _ | completeRun _ _ _ | cancelRun _ | getRun _ | listRuns _ _
  | listOrgRuns _ _ | summary _ => exact ignoresHistory_ok

end Workflow.Service
