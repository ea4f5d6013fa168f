import Workflow.Proofs.Service.Interleaving
import Workflow.Proofs.Service.Orderly

/-!
# The trail of a definition

Clients take actions on the approval of one definition at the same time and in any order of
steps.  An action is saved with the definition first, and then recorded in the trail by a
step of its own.

    each step keeps the invariant, and so does any order of steps     (Traced.after)
    the history is what has been saved, in the order of the saves     (Traced.stored)
    the trail is what has been recorded, in the order of that         (Traced.trail)
    once all have come to an end, the same events are in both         (trail_recorded)

The orders may differ, for a client may be overtaken between its save and its record: the
trail is no path of the table then, and need not lead to the status of the definition
(`trail_out_of_order`).
-/

namespace Workflow.Service

open Store (Backend Memory Step)

/-! ## Saves and records -/

/-- The transition that a step saves: the last one of a history. -/
def savedBy : Step → Option ApprovalEvent
  | .save d _ => d.history.getLast?
  | .load _ | .delete _ | .definitions _ | .appendApproval _ | .approvals _ | .appendRun _
  | .updateRun _ | .run _ | .runs .. | .orgRuns .. | .summary _ | .templates | .template _ => none

/-- The transition that a step records. -/
def recordedBy : Step → Option ApprovalEvent
  | .appendApproval e => some e
  | .load _ | .save .. | .delete _ | .definitions _ | .approvals _ | .appendRun _
  | .updateRun _ | .run _ | .runs .. | .orgRuns .. | .summary _ | .templates | .template _ => none

/-- The transitions that were saved, each with the client that did. -/
def saves (taken : List (Nat × Step)) : List (Nat × ApprovalEvent) :=
  taken.filterMap fun p => (savedBy p.2).map (p.1, ·)

/-- The transitions that were recorded, each with the client that did. -/
def records (taken : List (Nat × Step)) : List (Nat × ApprovalEvent) :=
  taken.filterMap fun p => (recordedBy p.2).map (p.1, ·)

namespace Client

/-- A client has saved a transition and recorded it. -/
def HasRecorded (e : ApprovalEvent) (c : Client) : Prop := c.rest.settled? = some (.event e)

/-- A client has saved a transition, and may be about to record it. -/
def HasSaved (e : ApprovalEvent) (c : Client) : Prop :=
  (∃ next, c.rest = .take (.appendApproval e) next) ∨ c.HasRecorded e

variable {c : Client} {e : ApprovalEvent}

/-- A client that is about to take a step has recorded nothing, and has saved just what it is about
to record. -/
theorem hasSaved_take {s : Step} {next : s.Answer → Program Reply} (hr : c.rest = .take s next)
    (f : ApprovalEvent) : (c.HasSaved f ↔ s = .appendApproval f) ∧ ¬c.HasRecorded f := by
  have hnot : ¬c.HasRecorded f := by
    unfold HasRecorded
    rw [hr]
    rintro ⟨⟩
  refine ⟨⟨?_, ?_⟩, hnot⟩
  · rintro (⟨next', hr'⟩ | h)
    · exact (Program.take.inj (hr.symm.trans hr')).1
    · exact absurd h hnot
  · rintro rfl
    exact Or.inl ⟨next, hr⟩

theorem hasSaved_settled (hr : c.rest.settled? = some (.event e)) (f : ApprovalEvent) :
    (c.HasSaved f ↔ f = e) ∧ (c.HasRecorded f ↔ f = e) := by
  have hrecorded : c.HasRecorded f ↔ f = e := by
    unfold HasRecorded
    rw [hr]
    constructor
    · intro h
      exact (Reply.event.inj (Option.some.inj h)).symm
    · rintro rfl
      rfl
  refine ⟨⟨?_, fun h => Or.inr (hrecorded.2 h)⟩, hrecorded⟩
  rintro (⟨next, hr'⟩ | h)
  · rw [hr'] at hr
    cases hr
  · exact hrecorded.1 h

theorem not_hasSaved_failed {failure : Error} (hr : c.rest = .fail failure) (f : ApprovalEvent) :
    ¬c.HasSaved f ∧ ¬c.HasRecorded f := by
  have hnot : ¬c.HasRecorded f := by
    unfold HasRecorded
    rw [hr]
    rintro ⟨⟩
  refine ⟨?_, hnot⟩
  rintro (⟨next, hr'⟩ | h)
  · cases hr.symm.trans hr'
  · exact hnot h

end Client

theorem saves_append (taken ts : List (Nat × Step)) :
    saves (taken ++ ts) = saves taken ++ saves ts :=
  List.filterMap_append

theorem records_append (taken ts : List (Nat × Step)) :
    records (taken ++ ts) = records taken ++ records ts :=
  List.filterMap_append

/-! ## Clients -/

/-- How far a call that takes an action on the approval has come. -/
inductive Governing (action : ApprovalAction) (id : Uuid) (actor notes : Value) (now : Timestamp)
    (loaded : Option Definition) : Program Reply → Prop where
  | loading : Governing action id actor notes now loaded
      (.take (.load id) (deciding action id actor notes now))
  | saving {h d : Definition} {e : ApprovalEvent} (held : loaded = some h) (named : h.id = id)
      (changed : h.govern action actor notes now = .ok (d, e)) :
      Governing action id actor notes now loaded
        (.take (.save d (.int h.version)) fun _ => .take (.appendApproval e) fun _ =>
          concluding action id actor notes now h.isActive e)
  | recording {e : ApprovalEvent} (own : e.definition = id) (wasActive : Bool) :
      Governing action id actor notes now loaded
        (.take (.appendApproval e) fun _ => concluding action id actor notes now wasActive e)
  | settled {left : Program Reply} {e : ApprovalEvent} (h : left.settled? = some (.event e)) :
      Governing action id actor notes now loaded left
  | failed (e : Error) : Governing action id actor notes now loaded (.fail e)

/-- A client takes an action on the approval of a definition. -/
def Client.Governs (id : Uuid) (c : Client) : Prop :=
  ∃ action actor notes, c.call = .govern action id actor notes ∧
    Governing action id actor notes c.now c.loaded c.rest

theorem settled?_concluding (action : ApprovalAction) (id : Uuid) (actor notes : Value)
    (now : Timestamp) (wasActive : Bool) (e : ApprovalEvent) :
    (concluding action id actor notes now wasActive e).settled? = some (.event e) := by
  unfold concluding
  split
  · rfl
  · rfl

/-! ## Tallies -/

section

variable {σ : Type}

/-- A list of the clients of which something holds with an event, each once. -/
structure Pool.Tally (P : Pool σ) (has : ApprovalEvent → Client → Prop)
    (tally : List (Nat × ApprovalEvent)) : Prop where
  mem_iff : ∀ i e, (i, e) ∈ tally ↔ P.At i (has e)
  nodup : tally.Nodup

variable {P P' : Pool σ} {has : ApprovalEvent → Client → Prop} {tally : List (Nat × ApprovalEvent)}
  {i : Nat} {c c' : Client} {e : ApprovalEvent}

theorem Pool.Tally.congr (h : P.Tally has tally) (hc : P.clients[i]? = some c)
    (hset : P'.clients = P.clients.set i c') (hhas : ∀ f, has f c' ↔ has f c) :
    P'.Tally has tally where
  mem_iff j f := (h.mem_iff j f).trans (Pool.at_congr hc hset (hhas f) j).symm
  nodup := h.nodup

/-- It comes to hold of one more client. -/
theorem Pool.Tally.snoc (h : P.Tally has tally) (hc : P.clients[i]? = some c)
    (hset : P'.clients = P.clients.set i c') (hnot : ∀ f, ¬has f c) (hhas : ∀ f, has f c' ↔ f = e) :
    P'.Tally has (tally ++ [(i, e)]) := by
  have hnew : ∀ f, (i, f) ∉ tally := by
    intro f hf
    obtain ⟨c₁, hc₁, hl⟩ := (h.mem_iff i f).1 hf
    obtain rfl := Option.some.inj (hc.symm.trans hc₁)
    exact hnot f hl
  refine ⟨fun j f => ?_, ?_⟩
  · rw [Pool.at_set hc hset, List.mem_append, List.mem_singleton, Prod.mk.injEq]
    by_cases hj : j = i
    · subst hj
      rw [if_pos rfl, hhas]
      simp [hnew f]
    · rw [if_neg hj, ← h.mem_iff]
      simp [hj]
  · exact Assoc.nodup_append_singleton h.nodup (hnew e)

end

/-! ## Invariant -/

section

variable {id : Uuid} {began : Definition} {base : Shelf} {sources : Program.Sources}
  {P : Pool Memory} {taken ts : List (Nat × Step)} {i : Nat} {c : Client}

/-- The invariant of a pool in which the steps `taken` have been taken. -/
structure Pool.Traced (id : Uuid) (began : Definition) (base : Shelf) (sources : Program.Sources)
    (P : Pool Memory) (taken : List (Nat × Step)) : Prop where
  sound : P.Sound Memory.shelving sources 0 base
  clients : ∀ c ∈ P.clients, c.Governs id
  stored : ∃ d, P.store.load id = .ok d ∧ d.Governed ∧
    d.history = began.history ++ (saves taken).map Prod.snd
  trail : P.store.trail id = began.history ++ (records taken).map Prod.snd
  saved : P.Tally Client.HasSaved (saves taken)
  recorded : P.Tally Client.HasRecorded (records taken)

/-! ## Steps -/

theorem Client.Governs.not_fresh (h : c.Governs id) (next : Uuid → Program Reply) :
    c.rest ≠ .fresh next := by
  obtain ⟨action, actor, notes, -, stage⟩ := h
  intro hr
  rw [hr] at stage
  cases stage with
  | settled hs => cases hs

/-- No identifier is ever taken, so nothing is asked of the sources. -/
theorem Pool.Traced.sound_advance (h : P.Traced id began base sources taken) (i : Nat) :
    (P.advance sources i).Sound Memory.shelving sources 0 base := by
  have hids : (P.advance sources i).idsTaken = P.idsTaken :=
    P.idsTaken_advance i fun c hc => (h.clients c (List.mem_of_getElem? hc)).not_fresh
  have hdistinct : sources.Distinct 0 := fun j k hj => absurd hj (Nat.not_lt_zero j)
  exact h.sound.advance hdistinct (hids ▸ h.sound.taken)

variable {c' : Client} {d d' : Definition} {e : ApprovalEvent}

/-- The client goes on, and nothing happens to the definition or its trail. -/
theorem Pool.Traced.aside (h : P.Traced id began base sources taken)
    (hc : P.clients[i]? = some c) (hset : (P.advance sources i).clients = P.clients.set i c')
    (hstore : (P.advance sources i).store = P.store) (hgoverns : c'.Governs id)
    (hsaved : ∀ e, c'.HasSaved e ↔ c.HasSaved e)
    (hrecorded : ∀ e, c'.HasRecorded e ↔ c.HasRecorded e)
    (hquiet : saves ts = [] ∧ records ts = []) :
    (P.advance sources i).Traced id began base sources (taken ++ ts) := by
  have hsaves : saves (taken ++ ts) = saves taken := by
    rw [saves_append, hquiet.1, List.append_nil]
  have hrecords : records (taken ++ ts) = records taken := by
    rw [records_append, hquiet.2, List.append_nil]
  exact {
    sound := h.sound_advance i
    clients := Pool.forall_set hset h.clients hgoverns
    stored := by
      rw [hstore, hsaves]
      exact h.stored
    trail := by
      rw [hstore, hrecords]
      exact h.trail
    saved := by
      rw [hsaves]
      exact h.saved.congr hc hset hsaved
    recorded := by
      rw [hrecords]
      exact h.recorded.congr hc hset hrecorded }

/-- A step on the store is refused, and the client fails. -/
theorem Pool.Traced.fails (h : P.Traced id began base sources taken) (hc : P.clients[i]? = some c)
    {s : Step} {next : s.Answer → Program Reply} (hr : c.rest = .take s next)
    (hs : ∀ e, s ≠ .appendApproval e) {failure : Error}
    (ht : Backend.take s P.store = (.error failure, P.store)) :
    (P.advance sources i).Traced id began base sources taken := by
  obtain ⟨action, actor, notes, hcall, -⟩ := h.clients c (List.mem_of_getElem? hc)
  have hadvance : P.advance sources i = _ := Pool.advance_error hc hr ht
  have hstore : (P.advance sources i).store = P.store := by rw [hadvance]; rfl
  have hbefore := Client.hasSaved_take hr
  have hafter := Client.not_hasSaved_failed (c := { c with rest := .fail failure }) rfl
  rw [← List.append_nil taken]
  refine h.aside hc (congrArg Pool.clients hadvance) hstore
    ⟨action, actor, notes, hcall, .failed failure⟩ (fun f => ?_) (fun f => ?_) ⟨rfl, rfl⟩
  · exact iff_of_false (hafter f).1 fun hf => hs f ((hbefore f).1.1 hf)
  · exact iff_of_false (hafter f).2 (hbefore f).2

/-- A transition of the stored definition is saved. -/
theorem Pool.Traced.save (h : P.Traced id began base sources taken) (hc : P.clients[i]? = some c)
    (hset : (P.advance sources i).clients = P.clients.set i c')
    (hstore : (P.advance sources i).store = P.store.put d') (hgoverns : c'.Governs id) {v : Value}
    {next next' : Unit → Program Reply} (hbefore : c.rest = .take (.save d' v) next)
    (hafter : c'.rest = .take (.appendApproval e) next') (hcurrent : P.store.load id = .ok d)
    (hid : d'.id = id) {action : ApprovalAction} {actor notes : Value} {now : Timestamp}
    (hchanged : d.govern action actor notes now = .ok (d', e)) :
    (P.advance sources i).Traced id began base sources (taken ++ [(i, .save d' v)]) := by
  obtain ⟨d₀, hload, hgoverned, hhistory⟩ := h.stored
  obtain rfl : d₀ = d := Except.ok.inj (hload.symm.trans hcurrent)
  obtain ⟨-, -, hhistory', -⟩ := Definition.govern_keeps hchanged
  have hsaves : saves (taken ++ [(i, .save d' v)]) = saves taken ++ [(i, e)] := by
    rw [saves_append]
    simp [saves, savedBy, hhistory']
  have hrecords : records (taken ++ [(i, .save d' v)]) = records taken := by
    rw [records_append]
    exact List.append_nil _
  exact {
    sound := h.sound_advance i
    clients := Pool.forall_set hset h.clients hgoverns
    stored := by
      refine ⟨d', ?_, hgoverned.govern hchanged, ?_⟩
      · rw [hstore, Memory.load_put, if_pos hid.symm]
      · rw [hsaves, hhistory', hhistory, List.map_append, List.append_assoc]
        rfl
    trail := by
      rw [hstore, hrecords]
      exact h.trail
    saved := by
      rw [hsaves]
      refine h.saved.snoc hc hset (fun f hf => ?_) fun f => ?_
      · exact Step.noConfusion ((Client.hasSaved_take hbefore f).1.1 hf)
      · rw [(Client.hasSaved_take hafter f).1, Step.appendApproval.injEq, eq_comm]
    recorded := by
      rw [hrecords]
      exact h.recorded.congr hc hset fun f =>
        iff_of_false (Client.hasSaved_take hafter f).2 (Client.hasSaved_take hbefore f).2 }

/-- A transition that was saved is recorded. -/
theorem Pool.Traced.record (h : P.Traced id began base sources taken) (hc : P.clients[i]? = some c)
    (hset : (P.advance sources i).clients = P.clients.set i c')
    (hstore : (P.advance sources i).store = P.store.appendApproval e) (hgoverns : c'.Governs id)
    {next : Unit → Program Reply} (hbefore : c.rest = .take (.appendApproval e) next)
    (hafter : c'.rest.settled? = some (.event e)) (hown : e.definition = id) :
    (P.advance sources i).Traced id began base sources (taken ++ [(i, .appendApproval e)]) := by
  have hsaves : saves (taken ++ [(i, .appendApproval e)]) = saves taken := by
    rw [saves_append]
    exact List.append_nil _
  have hrecords : records (taken ++ [(i, .appendApproval e)]) = records taken ++ [(i, e)] :=
    records_append _ _
  exact {
    sound := h.sound_advance i
    clients := Pool.forall_set hset h.clients hgoverns
    stored := by
      rw [hstore, hsaves]
      exact h.stored
    trail := by
      rw [hstore, hrecords, Memory.trail_appendApproval, if_pos hown.symm, h.trail,
        List.map_append, List.append_assoc]
      rfl
    saved := by
      rw [hsaves]
      refine h.saved.congr hc hset fun f => ?_
      rw [(Client.hasSaved_settled hafter f).1, (Client.hasSaved_take hbefore f).1,
        Step.appendApproval.injEq, eq_comm]
    recorded := by
      rw [hrecords]
      exact h.recorded.snoc hc hset (fun f => (Client.hasSaved_take hbefore f).2)
        fun f => (Client.hasSaved_settled hafter f).2 }

/-- A client that has loaded the definition goes on to save what it makes of it, or fails. -/
theorem Client.governs_loaded {action : ApprovalAction} {actor notes : Value}
    (hcall : c.call = .govern action id actor notes) (hl : c.loaded = some d) (hd : d.id = id)
    (hr : c.rest = deciding action id actor notes c.now d) :
    c.Governs id ∧ ∀ e, ¬c.HasSaved e ∧ ¬c.HasRecorded e := by
  unfold deciding at hr
  cases hg : d.govern action actor notes c.now with
  | error failure =>
    rw [hg] at hr
    refine ⟨⟨action, actor, notes, hcall, ?_⟩, Client.not_hasSaved_failed hr⟩
    rw [hr]
    exact .failed failure
  | ok r =>
    rw [hg] at hr
    refine ⟨⟨action, actor, notes, hcall, ?_⟩, fun e => ?_⟩
    · rw [hr]
      exact .saving hl hd hg
    · obtain ⟨hsaved, hrecorded⟩ := Client.hasSaved_take hr e
      exact ⟨fun hs => Step.noConfusion (hsaved.1 hs), hrecorded⟩

/-- Each step of a client keeps the invariant. -/
theorem Pool.Traced.advanceClient (h : P.Traced id began base sources taken)
    (hc : P.clients[i]? = some c) : (P.advance sources i).Traced id began base sources
      (taken ++ (c.takes P.store).toList.map (i, ·)) := by
  obtain ⟨action, actor, notes, hcall, stage⟩ := h.clients c (List.mem_of_getElem? hc)
  generalize hr : c.rest = left at stage
  cases stage with
  | loading =>
    obtain ⟨d, hload, -⟩ := h.stored
    have ht : Backend.take (.load id) P.store = (.ok d, P.store) := Prod.ext hload rfl
    have hnamed : d.id = id := h.sound.store id d (Memory.load_eq_ok.1 hload)
    have hadvance : P.advance sources i = _ := Pool.advance_ok hc hr ht
    have hstore : (P.advance sources i).store = P.store := by rw [hadvance]
    obtain ⟨hgoverns, hafter⟩ := Client.governs_loaded (c := { c with
      rest := deciding action id actor notes c.now d
      loaded := some d }) hcall rfl hnamed rfl
    have hbefore := Client.hasSaved_take hr
    rw [Pool.takes_ok hr ht]
    refine h.aside hc (congrArg Pool.clients hadvance) hstore hgoverns
      (fun e => ?_) (fun e => ?_) ⟨rfl, rfl⟩
    · exact iff_of_false (hafter e).1 fun hs => Step.noConfusion ((hbefore e).1.1 hs)
    · exact iff_of_false (hafter e).2 (hbefore e).2
  | @saving d d' e held named changed =>
    have hchange : c.call.change c.now d = .ok d' := by
      rw [hcall]
      exact map_eq_ok.2 ⟨_, changed, rfl⟩
    obtain ⟨hid, -, -, hown⟩ := Definition.govern_keeps changed
    rcases (h.sound.client hc).save h.sound.store held hchange with
      ⟨failure, ht⟩ | ⟨store, ht, -, hstored, -⟩
    · rw [Pool.takes_error hr ht]
      show (P.advance sources i).Traced id began base sources (taken ++ [])
      rw [List.append_nil]
      exact h.fails hc hr (fun _ => Step.noConfusion) ht
    · have hadvance : P.advance sources i = _ := Pool.advance_ok hc hr ht
      have hcurrent : P.store.load id = .ok d := Memory.load_eq_ok.2 (named ▸ hstored)
      have hput : (P.advance sources i).store = P.store.put d' :=
        (congrArg Pool.store hadvance).trans (Memory.take_save_eq_ok ht)
      rw [Pool.takes_ok hr ht]
      refine h.save hc (congrArg Pool.clients hadvance) hput ?_ hr rfl hcurrent (hid.trans named)
        changed
      exact ⟨action, actor, notes, hcall, .recording (hown.trans named) d.isActive⟩
  | @recording e own wasActive =>
    have ht : Backend.take (.appendApproval e) P.store = (.ok (), P.store.appendApproval e) := rfl
    have hadvance : P.advance sources i = _ := Pool.advance_ok hc hr ht
    have hsettled := settled?_concluding action id actor notes c.now wasActive e
    rw [Pool.takes_ok hr ht]
    exact h.record hc (congrArg Pool.clients hadvance) (congrArg Pool.store hadvance)
      ⟨action, actor, notes, hcall, .settled hsettled⟩ hr hsettled own
  | @settled _ e hs =>
    have hnone : c.takes P.store = none := by
      refine Pool.takes_eq_none (fun s next hr' => ?_) P.store
      rw [← hr, hr'] at hs
      cases hs
    rw [hnone]
    cases left with
    | done a =>
      rw [Pool.advance_of_over hc (Or.inl ⟨a, hr⟩)]
      exact (List.append_nil taken).symm ▸ h
    | announce event next =>
      have hadvance : P.advance sources i = _ := Pool.advance_announce hc hr
      have hstore : (P.advance sources i).store = P.store := by rw [hadvance]; rfl
      have hbefore : c.rest.settled? = some (.event e) := by rw [hr]; exact hs
      have hsettled : next.settled? = some (.event e) := hs
      have hafter := Client.hasSaved_settled (c := { c with rest := next }) hsettled
      refine h.aside hc (congrArg Pool.clients hadvance) hstore
        ⟨action, actor, notes, hcall, .settled hsettled⟩ (fun f => ?_) (fun f => ?_) ⟨rfl, rfl⟩
      · exact (hafter f).1.trans (Client.hasSaved_settled hbefore f).1.symm
      · exact (hafter f).2.trans (Client.hasSaved_settled hbefore f).2.symm
    | fail _ | take _ _ | fresh _ | draw _ _ => cases hs
  | failed e =>
    have hnone : c.takes P.store = none := by
      refine Pool.takes_eq_none (fun s next hr' => ?_) P.store
      rw [hr] at hr'
      cases hr'
    rw [hnone, Pool.advance_of_over hc (Or.inr ⟨e, hr⟩)]
    exact (List.append_nil taken).symm ▸ h

/-- Any order of steps keeps the invariant. -/
theorem Pool.Traced.after (h : P.Traced id began base sources taken) (order : List Nat) :
    (P.after sources order).Traced id began base sources (taken ++ P.taken sources order) :=
  Pool.after_induction (I := fun P taken => P.Traced id began base sources taken)
    (fun _ _ _ _ h hc => h.advanceClient hc) h order

/-! ## Start -/

theorem Pool.start_traced (sources : Program.Sources) (canvas : Editor.Canvas) {m : Memory}
    (hm : m.Sound) (hbegan : m.load id = .ok began) (hgoverned : began.Governed)
    (htrail : m.trail id = began.history) {calls : List (Timestamp × Call)}
    (hcalls : ∀ p ∈ calls, ∃ action actor notes, p.2 = .govern action id actor notes) :
    (Pool.start canvas m calls).Traced id began m.shelf sources [] := by
  have hloading : ∀ c ∈ (Pool.start canvas m calls).clients, c.Governs id ∧
      ∃ next, c.rest = .take (.load id) next := by
    intro c hc
    obtain ⟨⟨now, call⟩, hp, rfl⟩ := Pool.mem_start hc
    obtain ⟨action, actor, notes, rfl⟩ := hcalls _ hp
    have hrest := program_govern action id actor notes canvas now
    refine ⟨⟨action, actor, notes, rfl, ?_⟩, _, hrest⟩
    show Governing action id actor notes now none
      ((Call.govern action id actor notes).program canvas now)
    rw [hrest]
    exact .loading
  have hnothing : ∀ i e, ¬(Pool.start canvas m calls).At i (Client.HasSaved e) ∧
      ¬(Pool.start canvas m calls).At i (Client.HasRecorded e) := by
    intro i e
    refine ⟨?_, ?_⟩
    · rintro ⟨c, hc, hs⟩
      obtain ⟨-, next, hr⟩ := hloading c (List.mem_of_getElem? hc)
      exact Step.noConfusion ((Client.hasSaved_take hr e).1.1 hs)
    · rintro ⟨c, hc, hs⟩
      obtain ⟨-, next, hr⟩ := hloading c (List.mem_of_getElem? hc)
      exact (Client.hasSaved_take hr e).2 hs
  exact {
    sound := Pool.start_sound Memory.shelving sources canvas hm
      (fun k hk => absurd hk (Nat.not_lt_zero k)) fun p _ => admits_memory p.1 p.2
    clients := fun c hc => (hloading c hc).1
    stored := ⟨began, hbegan, hgoverned, (List.append_nil _).symm⟩
    trail := htrail.trans (List.append_nil _).symm
    saved := ⟨fun i e => iff_of_false List.not_mem_nil (hnothing i e).1, List.nodup_nil⟩
    recorded := ⟨fun i e => iff_of_false List.not_mem_nil (hnothing i e).2, List.nodup_nil⟩ }

end

/-! ## Theorem -/

/-- What is said of a pool in which the steps `taken` have been taken, the definition being stored
as `d`. -/
structure Pool.KeepsTrail (id : Uuid) (before : List ApprovalEvent) (taken : List (Nat × Step))
    (P : Pool Memory) (d : Definition) : Prop where
  stored : P.store.load id = .ok d
  /-- the history is what has been saved, in the order of the saves -/
  history : d.history = before ++ (saves taken).map Prod.snd
  /-- its events lead on, one from where the one before has led to, and at last to the status -/
  path : ApprovalEvent.IsPath id .draft d.history
  status : d.approval = ApprovalEvent.status d.history
  /-- a client has saved just what it returns -/
  returned : ∀ i e, (i, e) ∈ saves taken ↔ P.At i (·.rest = .done (.event e))
  once : (saves taken).Nodup
  /-- the trail is what has been recorded, in the order of that -/
  trail : P.store.trail id = before ++ (records taken).map Prod.snd
  /-- whatever was saved has been recorded, and nothing else -/
  complete : (records taken).Perm (saves taken)
  /-- in the same order, it is the history -/
  in_order : records taken = saves taken → P.store.trail id = d.history

/-- Once all clients that take actions on the approval of a definition have come to an end, its
history and its trail are made of the same events, the one in the order in which they were saved,
the other in the order in which they were recorded. -/
theorem trail_recorded (sources : Program.Sources) (canvas : Editor.Canvas) {m : Memory}
    (hm : m.Sound) {id : Uuid} {began : Definition} (hbegan : m.load id = .ok began)
    (hgoverned : began.Governed) (htrail : m.trail id = began.history)
    (calls : List (Timestamp × Call))
    (hcalls : ∀ p ∈ calls, ∃ action actor notes, p.2 = .govern action id actor notes)
    (order : List Nat)
    (hover : ∀ c ∈ ((Pool.start canvas m calls).after sources order).clients, c.Over) :
    ∃ d, Pool.KeepsTrail id began.history ((Pool.start canvas m calls).taken sources order)
      ((Pool.start canvas m calls).after sources order) d := by
  have h := (Pool.start_traced sources canvas hm hbegan hgoverned htrail hcalls).after order
  rw [List.nil_append] at h
  generalize (Pool.start canvas m calls).taken sources order = taken at h
  generalize (Pool.start canvas m calls).after sources order = P at h hover
  obtain ⟨d, hload, hg, hhistory⟩ := h.stored
  -- of a client that has come to an end the three say the same
  have hdone : ∀ i e, (P.At i (Client.HasSaved e) ↔ P.At i (·.rest = .done (.event e))) ∧
      (P.At i (Client.HasRecorded e) ↔ P.At i (·.rest = .done (.event e))) := by
    intro i e
    have hclient : ∀ c, P.clients[i]? = some c → (c.HasSaved e ↔ c.rest = .done (.event e)) ∧
        (c.HasRecorded e ↔ c.rest = .done (.event e)) := by
      intro c hc
      rcases hover c (List.mem_of_getElem? hc) with ⟨a, hr⟩ | ⟨failure, hr⟩
      · simp [Client.HasSaved, Client.HasRecorded, hr, Program.settled?]
      · simp [Client.HasSaved, Client.HasRecorded, hr, Program.settled?]
    exact ⟨exists_congr fun c => and_congr_right fun hc => (hclient c hc).1,
      exists_congr fun c => and_congr_right fun hc => (hclient c hc).2⟩
  have hid : d.id = id := h.sound.store id d (Memory.load_eq_ok.1 hload)
  refine ⟨d, {
    stored := hload
    history := hhistory
    path := hid ▸ hg.path
    status := hg.approval_eq
    returned := fun i e => (h.saved.mem_iff i e).trans (hdone i e).1
    once := h.saved.nodup
    trail := h.trail
    complete := ?_
    in_order := ?_ }⟩
  · refine (List.perm_ext_iff_of_nodup h.recorded.nodup h.saved.nodup).2 ?_
    rintro ⟨i, e⟩
    rw [h.recorded.mem_iff, h.saved.mem_iff, (hdone i e).1, (hdone i e).2]
  · intro hsame
    rw [h.trail, hhistory, hsame]

/-! ## A client that is overtaken -/

def draftInMemory : Memory := (Memory.empty .empty).put Definition.welcome

/-- One client requests the approval, and another one approves. -/
def overtaking : List (Timestamp × Call) :=
  [(⟨1, some 0⟩, .govern .request (Uuid.ofNat 1) .null .null),
    (⟨2, some 0⟩, .govern .approve (Uuid.ofNat 1) (.text "ann") .null)]

/-- The second one loads once the first one has saved, and records before it. -/
def overtakingOrder : List Nat := [0, 0, 1, 1, 1, 0, 0, 1]

theorem sound_draftInMemory : draftInMemory.Sound := by
  refine Memory.Sound.put ?_ Definition.welcome
  intro id d h
  cases h

theorem overtaking_governs :
    ∀ p ∈ overtaking, ∃ action actor notes, p.2 = .govern action (Uuid.ofNat 1) actor notes := by
  intro p hp
  simp only [overtaking, List.mem_cons, List.not_mem_nil, or_false] at hp
  rcases hp with rfl | rfl
  · exact ⟨_, _, _, rfl⟩
  · exact ⟨_, _, _, rfl⟩

theorem overtaking_over :
    ∀ c ∈ ((Pool.start .standard draftInMemory overtaking).after counting overtakingOrder).clients,
      c.Over := by
  intro c hc
  obtain ⟨i, hi⟩ := List.getElem?_of_mem hc
  rcases i with _ | _ | i
  · obtain rfl := Option.some.inj hi
    exact Or.inl ⟨_, rfl⟩
  · obtain rfl := Option.some.inj hi
    exact Or.inl ⟨_, rfl⟩
  · cases hi

/-- The approval is recorded before the request that it approves. -/
theorem trail_recorded_overtaking :
    (∃ d, Pool.KeepsTrail (Uuid.ofNat 1) []
      ((Pool.start .standard draftInMemory overtaking).taken counting overtakingOrder)
      ((Pool.start .standard draftInMemory overtaking).after counting overtakingOrder) d) ∧
    ((Pool.start .standard draftInMemory overtaking).after counting overtakingOrder).store.trail
      (Uuid.ofNat 1) =
      [⟨Uuid.ofNat 1, .approve, .pending, .approved, .text "ann", .null, ⟨2, some 0⟩⟩,
        ⟨Uuid.ofNat 1, .request, .draft, .pending, .null, .null, ⟨1, some 0⟩⟩] := by
  have hbegan : draftInMemory.load (Uuid.ofNat 1) = .ok Definition.welcome := rfl
  have hbegun : Definition.Begun Definition.welcome :=
    .created Definition.welcomeProposal (Uuid.ofNat 1) ⟨0, some 0⟩ rfl
  refine ⟨?_, by decide +kernel⟩
  exact trail_recorded counting .standard sound_draftInMemory hbegan
    (Definition.governed_of_begun hbegun) rfl overtaking overtaking_governs overtakingOrder overtaking_over

/-- The trail does not always follow the transitions. -/
theorem trail_out_of_order :
    ¬∀ (calls : List (Timestamp × Call)) (order : List Nat) (P : Pool Memory) (d : Definition),
      (∀ p ∈ calls, ∃ action actor notes, p.2 = .govern action (Uuid.ofNat 1) actor notes) →
      P = (Pool.start .standard draftInMemory calls).after counting order →
      (∀ c ∈ P.clients, c.Over) → P.store.load (Uuid.ofNat 1) = .ok d →
      P.store.trail (Uuid.ofNat 1) = d.history ∧
        ApprovalEvent.IsPath (Uuid.ofNat 1) .draft (P.store.trail (Uuid.ofNat 1)) ∧
        ApprovalEvent.status (P.store.trail (Uuid.ofNat 1)) = d.approval := by
  intro h
  obtain ⟨-, -, hstatus⟩ :=
    h overtaking overtakingOrder _ _ overtaking_governs rfl overtaking_over rfl
  revert hstatus
  decide +kernel

end Workflow.Service
