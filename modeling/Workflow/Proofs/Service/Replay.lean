import Workflow.Proofs.Definition.Governance
import Workflow.Proofs.Service.Announcement
import Workflow.Proofs.Store.Trails

/-!
# Transitions and the trail in tables

The row of a definition has the status to which the transitions of its approval have
led, in the order in which they were made.  Its history and its trail are put together
from the events by time, whatever the clock has shown.

    the rows of the events are the transitions, as they were made     (Replays)
    each call keeps it so                                             (Recorded.effect)

So the history replays to the status while the clock does not go back
(`history_replayed`), and need not once it does (`history_out_of_step`).
-/

namespace Workflow.Service

open Store (Backend Step Tables)
open Program (Session Outcome)
open ApprovalEvent (ofDefinition byTime IsPath status)

/-! ## Statement -/

/-- The transitions that a sequence of calls was answered with. -/
def transitions (answers : List Answer) : List ApprovalEvent :=
  answers.filterMap fun a => a.result.toOption.bind Reply.event?

theorem transitions_cons (a : Answer) (rest : List Answer) :
    transitions (a :: rest) = (a.result.toOption.bind Reply.event?).toList ++ transitions rest := by
  unfold transitions
  rw [List.filterMap_cons]
  cases a.result.toOption.bind Reply.event? with
  | none => rfl
  | some e => rfl

theorem transitions_snoc (answers : List Answer) (a : Answer) :
    transitions (answers ++ [a])
      = transitions answers ++ (a.result.toOption.bind Reply.event?).toList := by
  have hone : transitions [a] = _ := transitions_cons a []
  unfold transitions at hone ⊢
  rw [List.filterMap_append, hone]
  simp

/-- The events that are stored are the transitions that were made, which have led from a draft to
where the definition stands.  Of what is not stored there are no events. -/
def Replays (id : Uuid) (stored : Option (Lifecycle × ApprovalStatus))
    (events made : List ApprovalEvent) : Prop :=
  match stored with
  | none => events = []
  | some st => events = made ∧ IsPath id .draft made ∧ st.2 = status made

variable {sources : Program.Sources} {bound : Nat} {s : Session Tables} {now : Timestamp}
  {made : List ApprovalEvent} {store : Tables}

/-- What is stored comes of the transitions that were made, and what is still to be created has
none yet. -/
structure Recorded (sources : Program.Sources) (bound : Nat) (made : List ApprovalEvent)
    (s : Session Tables) : Prop where
  replays : ∀ id, Replays id (s.store.status id) (ofDefinition id s.store.approvals)
    (ofDefinition id made)
  fresh : ∀ k, s.idsTaken ≤ k → k < bound → ofDefinition (sources.ids k) made = []

/-! ## Steps -/

/-- A transition leads on from where the definition stands. -/
theorem Replays.snoc {id : Uuid} {st : Lifecycle × ApprovalStatus} {events : List ApprovalEvent}
    (h : Replays id (some st) events made) {e : ApprovalEvent} (hpath : IsPath id st.2 [e])
    {st' : Lifecycle × ApprovalStatus} (hst : st'.2 = e.target) :
    Replays id (some st') (events ++ [e]) (made ++ [e]) := by
  obtain ⟨rfl, hbefore, hstatus⟩ := h
  refine ⟨rfl, ApprovalEvent.isPath_append hbefore ?_, ?_⟩
  · show IsPath id (status events) [e]
    rw [← hstatus]
    exact hpath
  · rw [ApprovalEvent.status_append]
    exact hst

namespace Recorded

/-- Neither the statuses nor the events have changed. -/
theorem same (h : Recorded sources bound made s) (hs : store.status = s.store.status)
    (he : store.approvals = s.store.approvals) {n : Nat} (hn : s.idsTaken ≤ n) {drawsTaken : Nat} :
    Recorded sources bound made ⟨store, n, drawsTaken⟩ where
  replays := by
    show ∀ id, Replays id (store.status id) (ofDefinition id store.approvals) _
    rw [hs, he]
    exact h.replays
  fresh k hk := h.fresh k (Nat.le_trans hn hk)

/-- Nothing has changed but for one definition. -/
theorem put (h : Recorded sources bound made s) {id : Uuid}
    {st : Option (Lifecycle × ApprovalStatus)} {events : List ApprovalEvent}
    (hs : ∀ id', store.status id' = if id' = id then st else s.store.status id')
    (he : ∀ id', id' ≠ id → ofDefinition id' store.approvals = ofDefinition id' s.store.approvals)
    (hown : ∀ e ∈ events, e.definition = id)
    (hid : Replays id st (ofDefinition id store.approvals) (ofDefinition id made ++ events))
    {n : Nat} (hn : s.idsTaken ≤ n)
    (hfree : events = [] ∨ ∀ k, n ≤ k → k < bound → sources.ids k ≠ id) {drawsTaken : Nat} :
    Recorded sources bound (made ++ events) ⟨store, n, drawsTaken⟩ := by
  constructor
  · intro id'
    show Replays id' (store.status id') _ _
    rw [hs, ApprovalEvent.ofDefinition_append hown]
    by_cases hid' : id' = id
    · rw [if_pos hid', if_pos hid', hid']
      exact hid
    · rw [if_neg hid', if_neg hid', he id' hid']
      exact h.replays id'
  · intro k hk hkb
    have hbefore := h.fresh k (Nat.le_trans hn hk) hkb
    rcases hfree with rfl | hfree
    · rw [List.append_nil]
      exact hbefore
    · rw [ApprovalEvent.ofDefinition_append hown, if_neg (hfree k hk hkb)]
      exact hbefore

/-- One definition has changed, and no transition was made. -/
theorem keep (h : Recorded sources bound made s) {id : Uuid}
    {st : Option (Lifecycle × ApprovalStatus)}
    (hs : ∀ id', store.status id' = if id' = id then st else s.store.status id')
    (he : ∀ id', id' ≠ id → ofDefinition id' store.approvals = ofDefinition id' s.store.approvals)
    (hid : Replays id st (ofDefinition id store.approvals) (ofDefinition id made))
    {n : Nat} (hn : s.idsTaken ≤ n) {drawsTaken : Nat} :
    Recorded sources bound made ⟨store, n, drawsTaken⟩ := by
  rw [← List.append_nil (ofDefinition id made)] at hid
  rw [← List.append_nil made]
  exact h.put hs he (fun e he => absurd he List.not_mem_nil) hid hn (Or.inl rfl)

theorem approvals_of_saved {d : Definition} {v : Value}
    (saved : Backend.take (.save d v) s.store = (.ok (), store)) :
    store.approvals = s.store.approvals :=
  Tables.approvals_of_save (Tables.written_eq_ok saved)

/-- A draft is saved under a new identifier. -/
theorem found (hr : Recorded sources bound made s)
    (h : Orderly Tables.registry Tables.ledger sources bound s) (hs : s.idsTaken < bound)
    {d : Definition} {v : Value} (hid : d.id = sources.ids s.idsTaken) (hdraft : d.approval = .draft)
    (saved : Backend.take (.save d v) s.store = (.ok (), store)) :
    Recorded sources bound made ⟨store, s.idsTaken + 1, s.drawsTaken⟩ := by
  have hnew := h.definitions s.idsTaken (Nat.le_refl _) hs
  have hreplays := hr.replays d.id
  rw [hid, show s.store.status _ = none from hnew, ← hid] at hreplays
  obtain ⟨-, hstatus⟩ := Tables.registry.save_ok h.registry saved
  refine hr.keep hstatus (fun id' _ => by rw [approvals_of_saved saved]) ?_ (Nat.le_succ _)
  rw [approvals_of_saved saved, show ofDefinition d.id s.store.approvals = [] from hreplays, hid,
    hr.fresh s.idsTaken (Nat.le_refl _) hs]
  exact ⟨rfl, trivial, hdraft⟩

/-- A stored definition is replaced by one whose approval stands as before. -/
theorem edit (hr : Recorded sources bound made s)
    (h : Orderly Tables.registry Tables.ledger sources bound s) {id : Uuid} {d d' : Definition}
    {v : Value} (loaded : Backend.take (.load id) s.store = (.ok d, s.store)) (hid : d'.id = id)
    (hsame : d'.approval = d.approval)
    (saved : Backend.take (.save d' v) s.store = (.ok (), store)) :
    Recorded sources bound made ⟨store, s.idsTaken, s.drawsTaken⟩ := by
  obtain ⟨-, hbefore⟩ := Tables.registry.load_ok h.registry loaded
  have hreplays := hr.replays id
  rw [show s.store.status id = _ from hbefore] at hreplays
  obtain ⟨hevents, hpath, hreplayed⟩ := hreplays
  obtain ⟨-, hstatus⟩ := Tables.registry.save_ok h.registry saved
  rw [hid] at hstatus
  refine hr.keep hstatus (fun id' _ => by rw [approvals_of_saved saved]) ?_ (Nat.le_refl _)
  rw [approvals_of_saved saved]
  exact ⟨hevents, hpath, hsame.trans hreplayed⟩

/-- An action on the approval is saved and recorded. -/
theorem govern (hr : Recorded sources bound made s)
    (h : Orderly Tables.registry Tables.ledger sources bound s) (hn : now.IsUniversal)
    {action : ApprovalAction} {id : Uuid} {actor notes : Value} (hactor : actor.IsTextOrNull)
    (hnotes : notes.IsTextOrNull) {d d' : Definition} {e : ApprovalEvent} {v : Value}
    {between : Tables} (loaded : Backend.take (.load id) s.store = (.ok d, s.store))
    (changed : d.govern action actor notes now = .ok (d', e))
    (saved : Backend.take (.save d' v) s.store = (.ok (), between))
    (recorded : Backend.take (.appendApproval e) between = (.ok (), store)) :
    Recorded sources bound (made ++ [e]) ⟨store, s.idsTaken, s.drawsTaken⟩ := by
  obtain ⟨hid, hbefore⟩ := Tables.registry.load_ok h.registry loaded
  obtain ⟨hpath, happroval⟩ := Definition.govern_isPath changed
  obtain ⟨hid', -, -, hown⟩ := Definition.govern_keeps changed
  rw [hid] at hpath hid' hown
  have hreplays := hr.replays id
  rw [show s.store.status id = _ from hbefore] at hreplays
  obtain ⟨hregistry, hstatus⟩ := Tables.registry.save_ok h.registry saved
  obtain ⟨-, hsame⟩ := Tables.registry.take_other hregistry rfl recorded
  rw [hid', ← hsame] at hstatus
  have hevents : store.approvals = s.store.approvals ++ [e] := by
    obtain ⟨_, -, -, he, -⟩ := Definition.govern_eq_ok changed
    rw [Tables.approvals_of_append (by rw [he]; exact hn) (by rw [he]; exact hactor)
      (by rw [he]; exact hnotes) (Tables.written_eq_ok recorded), approvals_of_saved saved]
  have hone : ∀ f ∈ [e], f.definition = id := fun f hf => List.mem_singleton.1 hf ▸ hown
  refine hr.put hstatus (fun id' hne => ?_) hone ?_ (Nat.le_refl _)
    (Or.inr (h.ne_of_stored hbefore))
  · rw [hevents, ApprovalEvent.ofDefinition_append hone, if_neg hne]
  · rw [hevents, ApprovalEvent.ofDefinition_append hone, if_pos rfl]
    exact hreplays.snoc hpath happroval

/-- Whatever a call does, what is stored comes of the transitions that were made. -/
theorem effect (hr : Recorded sources bound made s)
    (h : Orderly Tables.registry Tables.ledger sources bound s) (hs : s.idsTaken < bound)
    {call : Call} (hn : now.IsUniversal) (hc : call.NamesActor) {o : Outcome Tables Reply}
    (ho : Effect sources now s call o) :
    Recorded sources bound (made ++ (o.result.toOption.bind Reply.event?).toList) o.session := by
  have hidle {s : Session Tables} (hs : Recorded sources bound made s) :
      Recorded sources bound (made ++ []) s := by
    rwa [List.append_nil]
  cases ho with
  | quiet result drawsTaken first last idle =>
    rw [idle]
    exact hidle (hr.same rfl rfl first)
  | founded proposed accepted named saved told =>
    exact hidle (hr.found h hs (by rw [named]; rfl) (by rw [named]; rfl) saved)
  | edited own loaded changed saved =>
    obtain ⟨hid, -⟩ := Tables.registry.load_ok h.registry loaded
    have hid' := (Call.change_keeps changed).1.trans hid
    exact hidle (hr.edit h loaded hid' (Call.edit_approval own changed) saved)
  | governed loaded changed saved recorded =>
    exact hr.govern h hn hc.1 hc.2 loaded changed saved recorded
  | @unrecorded action id actor notes d d' e failure store loaded changed saved refused =>
    obtain ⟨target, -, -, rfl, rfl⟩ := Definition.govern_eq_ok changed
    obtain ⟨store', hrecorded⟩ := Tables.registry.record_ok saved
      (e := ⟨d.id, action, d.approval, target, actor, notes, now⟩) hc rfl
    cases hrecorded.symm.trans refused
  | deleted loaded removed =>
    obtain ⟨-, hstatus⟩ := Tables.registry.delete_ok h.registry removed
    have hevents := Tables.ofDefinition_delete (Tables.written_eq_ok removed)
    refine hidle (hr.keep hstatus (fun id' hne => ?_) ?_ (Nat.le_refl _))
    · rw [hevents, if_neg hne]
    · rw [hevents, if_pos rfl]
      exact rfl
  | started loaded active given appended =>
    obtain ⟨-, hstatus⟩ := Tables.registry.take_other h.registry rfl appended
    have hevents := Tables.approvals_of_appendRun (Tables.written_eq_ok appended)
    exact hidle (hr.same hstatus hevents (Nat.le_succ _))
  | finished own found ended updated =>
    obtain ⟨-, hstatus⟩ := Tables.registry.take_other h.registry rfl updated
    have hevents := Tables.approvals_of_updateRun (Tables.written_eq_ok updated)
    exact hidle (hr.same hstatus hevents (Nat.le_refl _))

/-- And so it does after any calls. -/
theorem after (hr : Recorded sources bound [] s)
    (h : Orderly Tables.registry Tables.ledger sources bound s) (hd : sources.Distinct bound)
    (canvas : Editor.Canvas) {calls : List (Timestamp × Call)}
    (hroom : s.idsTaken + calls.length ≤ bound)
    (hcalls : ∀ c ∈ calls, c.1.IsUniversal ∧ c.2.NamesActor) :
    Recorded sources bound (transitions (serve sources canvas s calls))
      (sessionAfter sources canvas s calls) := by
  refine h.serve_induction hd atomic_tables canvas
    (I := fun s answers => Recorded sources bound (transitions answers) s) hroom [] hr ?_
  intro c hc s answers o h hs hr ho
  rw [transitions_snoc]
  exact hr.effect h hs (hcalls c hc).1 (hcalls c hc).2 ho

end Recorded

/-! ## From the beginning -/

theorem recorded_tables (templates : List Store.TemplateRow) :
    Recorded sources bound [] (newSession (Tables.mk [] [] [] templates)) where
  replays _ := rfl
  fresh _ _ _ := rfl

/-- A transition has the time of its call. -/
theorem time_of_effect {call : Call} {o : Outcome Tables Reply} (ho : Effect sources now s call o)
    {e : ApprovalEvent} (he : o.result.toOption.bind Reply.event? = some e) : e.time = now := by
  cases ho with
  | quiet result drawsTaken first last idle => cases idle.symm.trans he
  | governed loaded changed saved recorded =>
    obtain rfl := Option.some.inj he
    obtain ⟨_, -, -, rfl, -⟩ := Definition.govern_eq_ok changed
    rfl
  | founded _ _ _ _ _ | edited _ _ _ _ | unrecorded _ _ _ _ | deleted _ _ | started _ _ _ _
  | finished _ _ _ _ => cases he

/-- The transitions have the times of their calls, in the order of the calls. -/
theorem times_of_transitions (canvas : Editor.Canvas) (s : Session Tables)
    (calls : List (Timestamp × Call)) :
    ((transitions (serve sources canvas s calls)).map (·.time)).Sublist (calls.map Prod.fst) := by
  induction calls generalizing s with
  | nil => exact .slnil
  | cons c rest ih =>
    obtain ⟨now, call⟩ := c
    let o := (call.program canvas now).run sources s
    have hrest := ih o.session
    show ((transitions (⟨o.result, o.events⟩ :: serve sources canvas o.session rest)).map _).Sublist _
    rw [transitions_cons, List.map_append]
    cases he : o.result.toOption.bind Reply.event? with
    | none => exact hrest.cons now
    | some e =>
      have htime : e.time = now :=
        time_of_effect (atomic_tables.effect_program sources canvas now s call) he
      show (e.time :: _).Sublist (now :: _)
      rw [htime]
      exact hrest.cons_cons now

/-! ## Theorem -/

/-- After calls at any times, one after another, the status of each stored definition is where
its transitions have led, and its history and its trail are its transitions by time.  While the
clock does not go back they are the transitions as they were made, and the history replays to
the status wherever the last of them is nowhere before another. -/
theorem history_replayed (sources : Program.Sources) (canvas : Editor.Canvas)
    (templates : List Store.TemplateRow) (calls : List (Timestamp × Call))
    (hids : sources.Distinct calls.length)
    (hcalls : ∀ c ∈ calls, c.1.IsUniversal ∧ c.2.NamesActor) :
    let first := newSession (Tables.mk [] [] [] templates)
    let last := sessionAfter sources canvas first calls
    ∀ id d, last.store.load id = .ok d →
      let made := ofDefinition id (transitions (serve sources canvas first calls))
      IsPath id .draft made ∧ d.approval = status made ∧
        d.history = byTime made ∧
        (approvals id).run sources last = ⟨.ok (byTime made), [], last⟩ ∧
        (calls.Pairwise (fun c c' => c.1.instant ≤ c'.1.instant) →
          d.history = made ∧ status d.history = d.approval) ∧
        ((∀ e ∈ made.getLast?, ∀ a ∈ made, a.time.instant ≤ e.time.instant) →
          status d.history = d.approval) := by
  intro first last id d hload made
  have hroom : 0 + calls.length ≤ calls.length := Nat.le_of_eq (Nat.zero_add _)
  have hrecorded : Recorded sources calls.length (transitions (serve sources canvas first calls))
      last :=
    (recorded_tables templates).after (orderly_tables templates) hids canvas hroom hcalls
  have htake : Backend.take (.load id) last.store = (.ok d, last.store) :=
    congrArg (·, last.store) hload
  obtain ⟨-, hstatus⟩ := Tables.registry.load_ok trivial htake
  have hreplays := hrecorded.replays id
  rw [show last.store.status id = _ from hstatus] at hreplays
  obtain ⟨hevents, hpath, hreplayed⟩ := hreplays
  have happroval : d.approval = status made := hreplayed
  have htrail : last.store.trail id = byTime made := by
    rw [Tables.trail_eq, hevents]
  have hhistory : d.history = byTime made := (Tables.history_of_load hload).trans htrail
  refine ⟨hpath, happroval, hhistory, ?_, fun hclock => ?_, fun hlast => ?_⟩
  · show (Program.take (.load id) fun _ => Program.take (.approvals id) .done).run sources last = _
    simp only [Program.run, htake]
    show Outcome.mk (.ok (last.store.trail id)) [] last = _
    rw [htrail]
  · have htimes : (made.map (·.time)).Sublist (calls.map Prod.fst) :=
      ((List.filter_sublist).map _).trans (times_of_transitions canvas first calls)
    have hcalled : (calls.map Prod.fst).Pairwise fun a b => a.instant ≤ b.instant :=
      List.pairwise_map.2 hclock
    have hordered := List.pairwise_map.1 (hcalled.sublist htimes)
    have hmade : d.history = made := hhistory.trans (ApprovalEvent.byTime_of_ordered hordered)
    exact ⟨hmade, by rw [hmade, happroval]⟩
  · rw [hhistory, ApprovalEvent.status_byTime hlast, happroval]

/-! ## A clock that is set back -/

/-- The clock is set back between a request and the approval, and is ahead of both when approval
is requested anew. -/
def setBack : List (Timestamp × Call) :=
  [(⟨0, some 0⟩, .create Definition.welcomeProposal),
    (⟨5, some 0⟩, .govern .request (Uuid.ofNat 0) .null .null),
    (⟨3, some 0⟩, .govern .approve (Uuid.ofNat 0) (.text "ann") .null),
    (⟨9, some 0⟩, .govern .request (Uuid.ofNat 0) .null .null)]

def requested : ApprovalEvent :=
  ⟨Uuid.ofNat 0, .request, .draft, .pending, .null, .null, ⟨5, some 0⟩⟩

def approved : ApprovalEvent :=
  ⟨Uuid.ofNat 0, .approve, .pending, .approved, .text "ann", .null, ⟨3, some 0⟩⟩

def requestedAnew : ApprovalEvent :=
  ⟨Uuid.ofNat 0, .request, .approved, .pending, .null, .null, ⟨9, some 0⟩⟩

theorem byTime_setBack : byTime [requested, approved] = [approved, requested] := by
  simp [byTime, List.mergeSort, requested, approved, Timestamp.instant]

/-- The tables after so many of the calls. -/
def setBackAfter (n : Nat) : Session Tables :=
  sessionAfter counting .standard (newSession (Tables.mk [] [] [] [])) (setBack.take n)

/-- The last request is nowhere before another transition, so the history replays to the status,
although it is out of order. -/
theorem history_replayed_ahead :
    ∃ d, (setBackAfter 4).store.load (Uuid.ofNat 0) = .ok d ∧ d.approval = .pending ∧
      d.history = [approved, requested, requestedAnew] ∧ status d.history = d.approval := by
  have hids : counting.Distinct setBack.length := distinct_counting (by decide)
  have hcalls : ∀ c ∈ setBack, c.1.IsUniversal ∧ c.2.NamesActor := by
    simp [setBack, Timestamp.IsUniversal, Call.NamesActor, Value.IsTextOrNull, Value.IsText]
  have hmade : ofDefinition (Uuid.ofNat 0) (transitions (serve counting .standard
      (newSession (Tables.mk [] [] [] [])) setBack)) = [requested, approved, requestedAnew] := by
    decide +kernel
  have hstored : ((setBackAfter 4).store.load (Uuid.ofNat 0)).toOption.map (·.approval)
      = some .pending := by decide +kernel
  cases hload : (setBackAfter 4).store.load (Uuid.ofNat 0) with
  | error e =>
    rw [hload] at hstored
    cases hstored
  | ok d =>
    rw [hload] at hstored
    obtain ⟨-, -, hhistory, -, -, hlast⟩ :=
      history_replayed counting .standard [] setBack hids hcalls (Uuid.ofNat 0) d hload
    rw [hmade] at hhistory hlast
    refine ⟨d, rfl, Option.some.inj hstored, ?_, hlast (by decide)⟩
    rw [hhistory, show [requested, approved, requestedAnew]
      = [requested, approved] ++ [requestedAnew] from rfl,
      ApprovalEvent.byTime_snoc (by decide), byTime_setBack]
    rfl

/-- An approval by a clock that has been set back: the definition is approved, and its history
replays to a request that is still pending. -/
theorem history_out_of_step :
    ∃ d, (setBackAfter 3).store.load (Uuid.ofNat 0) = .ok d ∧ d.approval = .approved ∧
      d.history = [approved, requested] ∧ status d.history = .pending ∧
      transitions (serve counting .standard (newSession (Tables.mk [] [] [] [])) (setBack.take 3))
        = [requested, approved] := by
  have hstored : ((setBackAfter 3).store.load (Uuid.ofNat 0)).toOption.map (·.approval)
      = some .approved := by decide +kernel
  have hevents : ofDefinition (Uuid.ofNat 0) (setBackAfter 3).store.approvals
      = [requested, approved] := by decide +kernel
  cases hload : (setBackAfter 3).store.load (Uuid.ofNat 0) with
  | error e =>
    rw [hload] at hstored
    cases hstored
  | ok d =>
    rw [hload] at hstored
    have hhistory : d.history = [approved, requested] := by
      rw [Tables.history_of_load hload, Tables.trail_eq, hevents, byTime_setBack]
    exact ⟨d, rfl, Option.some.inj hstored, hhistory, by rw [hhistory]; rfl, by decide +kernel⟩

end Workflow.Service
