import Workflow.Proofs.Service.Fitting
import Workflow.Proofs.Service.Orderly
import Workflow.Service.Picture

/-!
# The announcements tell what is stored

Whatever is asked of the service, one call after another, and whenever: the picture
of one who has heard all announcements shows which definitions are active, how their
approval stands and what has become of the runs, and no event comes where it is not
expected.

    the picture shows what is stored → it foresees what a call announces,
      and shows what is stored after it                        (shows_effect)
    calls from an empty store → it shows what is stored        (announcements_show)
-/

namespace Workflow

/-! ## What a change does to the status -/

namespace Definition

variable {d d' : Definition} {now : Timestamp}

/-- An action on the approval leads to the status that it is announced as. -/
theorem govern_status {action : ApprovalAction} {actor notes : Value} {e : ApprovalEvent}
    (h : d.govern action actor notes now = .ok (d', e)) :
    d'.lifecycle = (if action = .request ∧ d.isActive then .paused else d.lifecycle) ∧
      ((action = .request ∧ d.approval ≠ .pending ∧ d'.approval = .pending) ∨
       (action = .approve ∧ d.approval = .pending ∧ d'.approval = .approved) ∨
       (action = .reject ∧ d.approval = .pending ∧ d'.approval = .draft)) := by
  obtain ⟨target, hrow, -, rfl, rfl⟩ := govern_eq_ok h
  refine ⟨?_, ?_⟩
  · show (d.suspend action).lifecycle = _
    unfold suspend
    split
    · rfl
    · rfl
  · show _ ∨ _ ∧ _ ∧ target = _ ∨ _ ∧ _ ∧ target = _
    cases ha : d.approval <;> cases action <;>
      simp [ha, ApprovalTable.standard, Assoc.find?] at hrow ⊢ <;> exact hrow.symm

end Definition

namespace Service

open Store (Backend Step Memory Tables Registry Ledger)
open Program (Session Outcome)

/-- What a call that takes no action on the approval does to the status, and what it announces. -/
theorem Call.edit_status {call : Call} {id : Uuid} {now : Timestamp} {d d' : Definition}
    (own : call.editing? = some id) (h : call.change now d = .ok d') :
    (call.announces now d = [] ∧ d'.status = d.status) ∨
      (call.announces now d = [⟨id, now, .activated⟩] ∧ d.lifecycle ≠ .active ∧
        d.approval = .approved ∧ d'.status = (.active, d.approval)) ∨
      (call.announces now d = [⟨id, now, .paused none⟩] ∧ d.lifecycle = .active ∧
        d'.status = (.paused, d.approval)) := by
  -- the operations of a call that only edits keep the status
  have hedit : (∀ op, call.Performs op → op.isRecorded = false ∧ op ≠ .activate ∧ op ≠ .pause) →
      d'.status = d.status := by
    intro hops
    refine change_induction (R := fun d d' => d'.status = d.status) ?_ ?_ ?_ h
    · exact fun d => rfl
    · exact fun d₁ d₂ d₃ h₁ h₂ => h₂.trans h₁
    · intro op d d' hop h
      obtain ⟨hrecorded, ha, hp⟩ := hops op hop
      have hk := Definition.Operation.apply_keeps h
      exact Prod.ext (hk.lifecycle hrecorded ha hp) (hk.approval hrecorded)
  cases call with
  | update id' r expected =>
    left
    refine ⟨rfl, hedit fun op hop => ?_⟩
    cases op with
    | rename _ _ | updateTrigger _ | updateGraph _ _ => exact ⟨rfl, nofun, nofun⟩
    | applyEdited _ | govern _ _ _ | activate | pause => exact hop.elim
  | saveEdited id' edited expected =>
    left
    refine ⟨rfl, hedit fun op hop => ?_⟩
    cases op with
    | applyEdited _ => exact ⟨rfl, nofun, nofun⟩
    | rename _ _ | updateTrigger _ | updateGraph _ _ | govern _ _ _ | activate | pause =>
      exact hop.elim
  | activate id' =>
    obtain rfl : id' = id := Option.some.inj own
    obtain ⟨happroved, ⟨hactive, rfl⟩ | ⟨hidle, -, -, rfl⟩⟩ := Definition.activate_eq_ok h
    · left
      refine ⟨if_pos ?_, rfl⟩
      simp [Definition.isActive, hactive]
    · right
      left
      refine ⟨if_neg ?_, hidle, happroved, rfl⟩
      simp [Definition.isActive, hidle]
  | pause id' =>
    obtain rfl : id' = id := Option.some.inj own
    obtain ⟨hactive, rfl⟩ := Definition.pause_eq_ok h
    right
    right
    exact ⟨rfl, hactive, rfl⟩
  | _ => cases own

theorem Call.edit_approval {call : Call} {id : Uuid} {now : Timestamp} {d d' : Definition}
    (own : call.editing? = some id) (h : call.change now d = .ok d') :
    d'.approval = d.approval := by
  obtain ⟨-, hs⟩ | ⟨-, -, -, hs⟩ | ⟨-, -, hs⟩ := Call.edit_status own h
  · exact congrArg Prod.snd hs
  · exact congrArg Prod.snd hs
  · exact congrArg Prod.snd hs

end Service

/-! ## Pictures -/

namespace Picture

variable {p : Picture} {status status' : Uuid → Option (Lifecycle × ApprovalStatus)}
  {runs runs' : Uuid → Option Run} {id : Uuid} {now : Timestamp}

@[simp] theorem assign_self {α : Type} (f : Uuid → α) (id : Uuid) (a : α) : assign f id a id = a :=
  if_pos rfl

/-- What is so already need not be assigned. -/
theorem assign_eq {α : Type} {f : Uuid → α} {a : α} (h : f id = a) : assign f id a = f := by
  funext id'
  unfold assign
  split
  next hid => rw [hid, h]
  · rfl

theorem assign_assign {α : Type} (f : Uuid → α) (id : Uuid) (a b : α) :
    assign (assign f id a) id b = assign f id b := by
  funext id'
  unfold assign
  split
  · rfl
  · rfl

/-- The picture with the status of a definition. -/
def mark (p : Picture) (id : Uuid) (s : Lifecycle × ApprovalStatus) : Picture :=
  { p with
    active := assign p.active id (decide (s.1 = .active))
    approval := assign p.approval id s.2 }

/-- The picture with a run of a definition. -/
def markRun (p : Picture) (run definition : Uuid) (status : RunStatus) : Picture :=
  { p with runs := assign p.runs run (some (definition, status)) }

/-- What the picture has of a status. -/
def Has (p : Picture) (id : Uuid) (s : Lifecycle × ApprovalStatus) : Prop :=
  p.active id = decide (s.1 = .active) ∧ p.approval id = s.2

theorem Has.mark_eq {s : Lifecycle × ApprovalStatus} (h : p.Has id s) : p.mark id s = p := by
  unfold mark
  rw [assign_eq h.1, assign_eq h.2]

/-- While its approval stays, only whether a definition is active has to be marked. -/
theorem mark_lifecycle {a : ApprovalStatus} (h : p.approval id = a) (l : Lifecycle) :
    p.mark id (l, a) = { p with active := assign p.active id (decide (l = .active)) } := by
  unfold mark
  rw [assign_eq h]

/-- Once more only the approval has to be marked. -/
theorem see_mark (p : Picture) (id : Uuid) (l : Lifecycle) (a b : ApprovalStatus) :
    { p.mark id (l, a) with approval := assign (p.mark id (l, a)).approval id b }
      = p.mark id (l, b) := by
  show Picture.mk _ (assign (assign p.approval id a) id b) _ = _
  rw [assign_assign]
  rfl

theorem shows_blank : blank.Shows (fun _ => none) (fun _ => none) where
  active _ := rfl
  approval _ := rfl
  runs _ := rfl

/-- Of a stored definition the picture has its status. -/
theorem Shows.has (h : p.Shows status runs) {s : Lifecycle × ApprovalStatus}
    (hs : status id = some s) : p.Has id s := by
  unfold Has
  rw [h.active id, h.approval id, hs]
  exact ⟨rfl, rfl⟩

/-- What is not stored is inactive, and its approval is a draft. -/
theorem Shows.has_draft (h : p.Shows status runs) (hs : status id = none) :
    p.Has id (.draft, .draft) := by
  unfold Has
  rw [h.active id, h.approval id, hs]
  exact ⟨rfl, rfl⟩

theorem Shows.mark (h : p.Shows status runs) {s : Lifecycle × ApprovalStatus}
    (hs : ∀ id', status' id' = if id' = id then some s else status id') :
    (p.mark id s).Shows status' runs where
  active id' := by
    show assign p.active id _ id' = _
    rw [hs]
    unfold assign
    split
    · rfl
    · exact h.active id'
  approval id' := by
    show assign p.approval id _ id' = _
    rw [hs]
    unfold assign
    split
    · rfl
    · exact h.approval id'
  runs := h.runs

theorem Shows.markRun (h : p.Shows status runs) {q : Run}
    (hr : ∀ id', runs' id' = if id' = id then some q else runs id') :
    (p.markRun id q.definition q.status).Shows status runs' where
  active := h.active
  approval := h.approval
  runs id' := by
    show assign p.runs id _ id' = _
    rw [hr]
    unfold assign
    split
    · rfl
    · exact h.runs id'

/-- A definition that is deleted is forgotten, with its runs. -/
theorem Shows.delete (h : p.Shows status runs) (now : Timestamp) (org : Value)
    (hs : ∀ id', status' id' = if id' = id then none else status id')
    (hr : ∀ id', runs' id' = (runs id').filter (·.definition ≠ id)) :
    (p.see ⟨id, now, .deleted org⟩).Shows status' runs' where
  active id' := by
    show assign p.active id false id' = _
    rw [hs]
    unfold assign
    split
    · rfl
    · exact h.active id'
  approval id' := by
    show assign p.approval id .draft id' = _
    rw [hs]
    unfold assign
    split
    · rfl
    · exact h.approval id'
  runs id' := by
    show (p.runs id').filter (fun r => decide (r.1 ≠ id)) = _
    rw [h.runs, hr, Option.filter_map]
    rfl

end Picture

/-! ## What is announced of a change -/

namespace Service

variable {p : Picture} {call : Call} {id : Uuid} {now : Timestamp} {d d' : Definition}

/-- An edit is foreseen, and marks the picture with the new status. -/
theorem foresees_edit (own : call.editing? = some id) (h : call.change now d = .ok d')
    (hp : p.Has id d.status) : p.Foresees (call.announces now d) ∧
      p.watch (call.announces now d) = p.mark id d'.status := by
  obtain ⟨hactive, happroval⟩ : p.active id = decide (d.lifecycle = .active) ∧
    p.approval id = d.approval := hp
  rcases Call.edit_status own h with ⟨htold, hsame⟩ | ⟨htold, hidle, happroved, hnew⟩ |
    ⟨htold, hrunning, hnew⟩
  · rw [htold, hsame]
    exact ⟨trivial, (Picture.Has.mark_eq ⟨hactive, happroval⟩).symm⟩
  · rw [htold, hnew]
    refine ⟨⟨⟨?_, ?_⟩, trivial⟩, ?_⟩
    · rw [hactive]
      exact decide_eq_false hidle
    · rw [happroval]
      exact happroved
    · rw [Picture.mark_lifecycle happroval]
      rfl
  · rw [htold, hnew]
    refine ⟨⟨?_, trivial⟩, ?_⟩
    · show p.active id = true
      rw [hactive]
      exact decide_eq_true hrunning
    · rw [Picture.mark_lifecycle happroval]
      rfl

/-- That a request pauses an active definition is foreseen. -/
theorem foresees_suspension (now : Timestamp) {lifecycle : Lifecycle} {c : Prop} [Decidable c]
    (hc : c → d.isActive = true) (hl : lifecycle = if c then .paused else d.lifecycle)
    (hp : p.Has id d.status) (reason : Option String) :
    p.Foresees (if c then [⟨id, now, .paused reason⟩] else []) ∧
      p.watch (if c then [⟨id, now, .paused reason⟩] else []) = p.mark id (lifecycle, d.approval) := by
  obtain ⟨hactive, happroval⟩ : p.active id = decide (d.lifecycle = .active) ∧
    p.approval id = d.approval := hp
  by_cases h : c
  · rw [if_pos h] at hl
    rw [if_pos h, hl]
    refine ⟨⟨?_, trivial⟩, ?_⟩
    · show p.active id = true
      rw [hactive]
      exact hc h
    · rw [Picture.mark_lifecycle happroval]
      rfl
  · rw [if_neg h] at hl
    rw [if_neg h, hl]
    exact ⟨trivial, (Picture.Has.mark_eq ⟨hactive, happroval⟩).symm⟩

/-- An action on the approval is foreseen, and marks the picture with the new status. -/
theorem foresees_govern {action : ApprovalAction} {actor notes : Value} {e : ApprovalEvent}
    (h : d.govern action actor notes now = .ok (d', e)) (hp : p.Has id d.status) :
    p.Foresees ((Call.govern action id actor notes).announces now d) ∧
      p.watch ((Call.govern action id actor notes).announces now d) = p.mark id d'.status := by
  obtain ⟨hl, ha⟩ := Definition.govern_status h
  obtain ⟨hforesees, hwatch⟩ := foresees_suspension now And.right hl hp
    (some "re-approval requested")
  obtain ⟨-, happroval⟩ := hp
  have happroval : (p.mark id (d'.lifecycle, d.approval)).approval id = d.approval :=
    Picture.assign_self _ _ _
  have hexpects : (p.mark id (d'.lifecycle, d.approval)).Expects
      ⟨id, now, .ofAction action actor notes⟩ := by
    rcases ha with ⟨rfl, hbefore, -⟩ | ⟨rfl, hbefore, -⟩ | ⟨rfl, hbefore, -⟩
    · refine ⟨?_, fun hpending => hbefore (happroval.symm.trans hpending)⟩
      show Picture.assign p.active id (decide (d'.lifecycle = .active)) id = false
      rw [Picture.assign_self, hl]
      by_cases hd : d.lifecycle = .active
      · simp [Definition.isActive, hd]
      · simp [Definition.isActive, hd]
    · exact happroval.trans hbefore
    · exact happroval.trans hbefore
  have hsee : (p.mark id (d'.lifecycle, d.approval)).see ⟨id, now, .ofAction action actor notes⟩
      = p.mark id d'.status := by
    rcases ha with ⟨rfl, -, hafter⟩ | ⟨rfl, -, hafter⟩ | ⟨rfl, -, hafter⟩
    · show _ = p.mark id (d'.lifecycle, d'.approval)
      rw [hafter]
      exact p.see_mark id d'.lifecycle d.approval .pending
    · show _ = p.mark id (d'.lifecycle, d'.approval)
      rw [hafter]
      exact p.see_mark id d'.lifecycle d.approval .approved
    · show _ = p.mark id (d'.lifecycle, d'.approval)
      rw [hafter]
      exact p.see_mark id d'.lifecycle d.approval .draft
  refine ⟨?_, ?_⟩
  · show p.Foresees (_ ++ [_])
    rw [Picture.foresees_append, hwatch]
    exact ⟨hforesees, hexpects, trivial⟩
  · show p.watch (_ ++ [_]) = _
    rw [Picture.watch_append, hwatch]
    exact hsee

/-- The end of a running run is foreseen, and marks the picture with how it ended. -/
theorem foresees_finished (now : Timestamp) {r : Run}
    (hr : p.runs id = some (r.definition, .running)) (ht : r.status.isTerminal = true) :
    p.Foresees [⟨r.definition, now, finishedAs id r⟩] ∧
      p.watch [⟨r.definition, now, finishedAs id r⟩] = p.markRun id r.definition r.status := by
  unfold finishedAs Picture.markRun
  cases hs : r.status with
  | running =>
    rw [hs] at ht
    cases ht
  | success => exact ⟨⟨⟨hr, Or.inl rfl⟩, trivial⟩, rfl⟩
  | failed => exact ⟨⟨⟨hr, Or.inr rfl⟩, trivial⟩, rfl⟩
  | cancelled => exact ⟨⟨hr, trivial⟩, rfl⟩

end Service

/-! ## Sessions -/

namespace Service

open Store (Backend Step Memory Tables Registry Ledger)
open Program (Session Outcome)

section

variable {σ : Type} [Backend σ] {R : Registry σ} {L : Ledger σ} {sources : Program.Sources}
  {bound : Nat} {s : Session σ} {p : Picture} {now : Timestamp} {store : σ}

/-- The events of the actions that a call takes on an approval can be recorded. -/
def Call.Recordable (R : Registry σ) (call : Call) : Prop :=
  ∀ action id actor notes, call = .govern action id actor notes →
    ∀ e : ApprovalEvent, e.actor = actor → e.notes = notes → R.Records e

/-- What was saved is shown by the picture that is marked with its status. -/
theorem shows_save (h : Orderly R L sources bound s)
    (hp : p.Shows (R.status s.store) (L.runs s.store)) {d : Definition} {v : Value}
    (hsave : Backend.take (.save d v) s.store = (.ok (), store)) :
    (p.mark d.id d.status).Shows (R.status store) (L.runs store) := by
  obtain ⟨-, hstatus⟩ := R.save_ok h.registry hsave
  obtain ⟨-, hruns⟩ := L.take_other h.ledger rfl hsave
  rw [hruns]
  exact hp.mark hstatus

/-- What a call announces is foreseen, and the picture after it shows what is stored. -/
theorem shows_effect (h : Orderly R L sources bound s) (hs : s.idsTaken < bound)
    (hp : p.Shows (R.status s.store) (L.runs s.store)) {call : Call}
    (hcall : call.Recordable R) {o : Outcome σ Reply} (ho : Effect sources now s call o) :
    p.Foresees o.events ∧
      (p.watch o.events).Shows (R.status o.session.store) (L.runs o.session.store) := by
  cases ho with
  | quiet result drawsTaken first last => exact ⟨trivial, hp⟩
  | @founded _ proposal name d events store proposed accepted named saved told =>
    have hid : d.id = sources.ids s.idsTaken := by rw [named]; rfl
    have hdraft : d.status = (.draft, .draft) := by rw [named]; rfl
    have hnew := h.definitions s.idsTaken (Nat.le_refl _) hs
    rw [← hid] at hnew
    have hhas := hp.has_draft hnew
    have hsaved := shows_save h hp saved
    rw [hdraft, hhas.mark_eq] at hsaved
    rcases told with rfl | ⟨template, rfl⟩
    · exact ⟨trivial, hsaved⟩
    · exact ⟨⟨hhas, trivial⟩, hsaved⟩
  | @edited _ id d d' store own loaded changed saved =>
    obtain ⟨hid, hstatus⟩ := R.load_ok h.registry loaded
    have hid' : d'.id = id := (Call.change_keeps changed).1.trans hid
    obtain ⟨hforesees, hwatch⟩ := foresees_edit own changed (hp.has hstatus)
    have hsaved := shows_save h hp saved
    rw [hid', ← hwatch] at hsaved
    exact ⟨hforesees, hsaved⟩
  | @governed action id actor notes d d' e between store loaded changed saved recorded =>
    obtain ⟨hid, hstatus⟩ := R.load_ok h.registry loaded
    have hid' : d'.id = id := (Definition.govern_keeps changed).1.trans hid
    obtain ⟨hforesees, hwatch⟩ := foresees_govern changed (hp.has hstatus)
    have hsaved := shows_save h hp saved
    rw [hid', ← hwatch] at hsaved
    obtain ⟨hregistry, -⟩ := R.save_ok h.registry saved
    obtain ⟨hledger, -⟩ := L.take_other h.ledger rfl saved
    obtain ⟨-, hstatus'⟩ := R.take_other hregistry rfl recorded
    obtain ⟨-, hruns'⟩ := L.take_other hledger rfl recorded
    rw [← hstatus', ← hruns'] at hsaved
    exact ⟨hforesees, hsaved⟩
  | @unrecorded action id actor notes d d' e failure store loaded changed saved refused =>
    obtain ⟨target, -, -, rfl, rfl⟩ := Definition.govern_eq_ok changed
    have hrecords := hcall action id actor notes rfl
      ⟨d.id, action, d.approval, target, actor, notes, now⟩ rfl rfl
    obtain ⟨store', hrecorded⟩ := R.record_ok saved hrecords rfl
    cases hrecorded.symm.trans refused
  | @deleted id d store loaded removed =>
    obtain ⟨-, hstatus⟩ := R.delete_ok h.registry removed
    obtain ⟨-, hruns⟩ := L.delete_ok h.ledger removed
    exact ⟨⟨trivial, trivial⟩, hp.delete now d.org hstatus hruns⟩
  | @started id context d ms r store loaded active given appended =>
    obtain ⟨-, hstatus⟩ := R.load_ok h.registry loaded
    obtain ⟨hactive, -⟩ := hp.has hstatus
    have hid : r.id = sources.ids s.idsTaken := by rw [given]; rfl
    have hcontext : r.context = .object ms := by rw [given]; rfl
    have hnew : p.runs r.id = none := by
      rw [hp.runs, hid, h.runs s.idsTaken (Nat.le_refl _) hs]
      rfl
    obtain ⟨-, q, ⟨-, hqdefinition, hqstatus⟩, hruns⟩ := L.start_ok h.ledger hcontext appended
    obtain ⟨-, hstatus'⟩ := R.take_other h.registry rfl appended
    have hshows := hp.markRun hruns
    rw [← hstatus', hqdefinition, hqstatus, given] at hshows
    refine ⟨⟨⟨hactive.trans active, hnew⟩, trivial⟩, ?_⟩
    rw [given]
    exact hshows
  | @finished _ id r r' store own found ended updated =>
    obtain ⟨hstored, hid, hstart, hrunning, hterminal⟩ := finish_read h.ledger own found ended
    have hshown : p.runs id = some (r'.definition, .running) := by
      rw [hp.runs, hstored, Option.map_some, hrunning, hstart.definition]
    obtain ⟨hforesees, hwatch⟩ := foresees_finished now hshown hterminal
    rw [← hid] at hstored
    obtain ⟨-, -, q, ⟨hsame, hstatus, -⟩, hruns⟩ := L.finish_ok h.ledger hstored hstart updated
    obtain ⟨-, hstatus'⟩ := R.take_other h.registry rfl updated
    have hshows := hp.markRun hruns
    rw [← hstatus', hsame.definition, ← hstart.definition, hstatus, hid, ← hwatch] at hshows
    exact ⟨hforesees, hshows⟩

/-- The same for any calls, one after another. -/
theorem shows_serve (h : Orderly R L sources bound s) (hd : sources.Distinct bound)
    (ha : Atomic σ) (canvas : Editor.Canvas) {calls : List (Timestamp × Call)}
    (hroom : s.idsTaken + calls.length ≤ bound) (hcalls : ∀ c ∈ calls, c.2.Recordable R)
    (hp : p.Shows (R.status s.store) (L.runs s.store)) :
    p.Foresees (announced sources canvas s calls) ∧
      (p.watch (announced sources canvas s calls)).Shows
        (R.status (sessionAfter sources canvas s calls).store)
        (L.runs (sessionAfter sources canvas s calls).store) := by
  refine h.serve_induction hd ha canvas (I := fun s answers =>
    p.Foresees (answers.flatMap Answer.events) ∧
      (p.watch (answers.flatMap Answer.events)).Shows (R.status s.store) (L.runs s.store))
    hroom [] ⟨trivial, hp⟩ ?_
  rintro c hc s answers o h hs ⟨hforesees, hshows⟩ ho
  obtain ⟨hforesees', hshows'⟩ := shows_effect h hs hshows (hcalls c hc) ho
  rw [List.flatMap_append, List.flatMap_singleton, Picture.foresees_append, Picture.watch_append]
  exact ⟨⟨hforesees, hforesees'⟩, hshows'⟩

end

/-! ## Theorem -/

/-- Whoever acts on an approval, and what is noted of it, is a text or nothing. -/
def Call.NamesActor : Call → Prop
  | .govern _ _ actor notes => actor.IsTextOrNull ∧ notes.IsTextOrNull
  | _ => True

/-- Calls one after another, from an empty store and at any times: each event comes where it is
expected, and the picture of one who has heard them all shows what is stored.  Of tables it is
said of calls that name who acts by a text or not at all, and note a text or nothing (`NamesActor`):
an event that names anything else cannot be stored there. -/
theorem announcements_show (sources : Program.Sources) (canvas : Editor.Canvas)
    (calls : List (Timestamp × Call)) (hd : sources.Distinct calls.length) :
    (∀ catalog, let first := newSession (Memory.empty catalog)
      let last := (sessionAfter sources canvas first calls).store
      Picture.blank.Foresees (announced sources canvas first calls) ∧
        (Picture.blank.watch (announced sources canvas first calls)).Shows last.status
          fun id => Assoc.find? id last.runs) ∧
    ∀ templates, (∀ c ∈ calls, c.2.NamesActor) →
      let first := newSession (Tables.mk [] [] [] templates)
      let last := (sessionAfter sources canvas first calls).store
      Picture.blank.Foresees (announced sources canvas first calls) ∧
        (Picture.blank.watch (announced sources canvas first calls)).Shows last.status
          last.runRow? := by
  have hroom : 0 + calls.length ≤ calls.length := Nat.le_of_eq (Nat.zero_add _)
  refine ⟨fun catalog => ?_, fun templates hcalls => ?_⟩
  · exact shows_serve (orderly_memory catalog) hd atomic_memory canvas hroom
      (fun _ _ _ _ _ _ _ _ _ _ => trivial) Picture.shows_blank
  · have hrecordable : ∀ c ∈ calls, c.2.Recordable Tables.registry := by
      intro c hc action id actor notes he e hactor hnotes
      have hnamed := hcalls c hc
      rw [he] at hnamed
      exact ⟨hactor.symm ▸ hnamed.1, hnotes.symm ▸ hnamed.2⟩
    exact shows_serve (orderly_tables templates) hd atomic_tables canvas hroom hrecordable
      Picture.shows_blank

theorem announcements_show_lifetime :
    counting.Distinct lifetime.length ∧
    (∀ c ∈ lifetime, c.2.NamesActor) ∧
    (let first := newSession (Memory.empty .empty)
      let events := announced counting .standard first lifetime
      let last := (sessionAfter counting .standard first lifetime).store
      events.map (fun e => e.happening.title) = ["ApprovalRequested", "AutomationApproved",
        "AutomationActivated", "RunStarted", "RunCompleted", "AutomationPaused",
        "ApprovalRequested"] ∧
      Picture.blank.Foresees events ∧
      (Picture.blank.watch events).Shows last.status fun id => Assoc.find? id last.runs) ∧
    (let first := newSession Tables.empty
      let events := announced counting .standard first lifetime
      let last := (sessionAfter counting .standard first lifetime).store
      events.length = 7 ∧ Picture.blank.Foresees events ∧
      (Picture.blank.watch events).Shows last.status last.runRow?) := by
  have hd : counting.Distinct lifetime.length := distinct_counting (by decide)
  have hnamed : ∀ c ∈ lifetime, c.2.NamesActor := by
    simp [lifetime, Call.NamesActor, Value.IsTextOrNull, Value.IsText]
  obtain ⟨hmemory, htables⟩ :=
    announcements_show counting .standard lifetime hd
  refine ⟨hd, hnamed, ⟨by decide +kernel, hmemory .empty⟩, by decide +kernel, htables [] hnamed⟩

end Service

end Workflow
