import Workflow.Proofs.Service.Fitting
import Workflow.Proofs.Service.Orderly

/-!
# The store in memory is consistent

Definitions, trails and runs are kept in three maps that are written by separate
steps.  After any calls, one after another, they fit together.

    each run and each event belongs to a stored definition
    the trail of a stored definition is its history
    a run has a time at which it finished just if its status is terminal

So the runs of an organization are those of its definitions (`consistent_always`).
-/

namespace Workflow

/-! ## Organizations -/

namespace Service

/-- No call hands a definition over to another organization. -/
theorem Call.change_org {call : Call} {now : Timestamp} {d d' : Definition}
    (h : call.change now d = .ok d') : d'.org = d.org := by
  refine change_induction (R := fun d d' => d'.org = d.org) ?_ ?_ ?_ h
  · exact fun d => rfl
  · exact fun d₁ d₂ d₃ h₁ h₂ => h₂.trans h₁
  · exact fun op d d' _ h => (Definition.Operation.apply_keeps h).org

/-- A call that takes no action on the approval leaves the history as it is. -/
theorem Call.edit_history {call : Call} {id : Uuid} {now : Timestamp} {d d' : Definition}
    (own : call.editing? = some id) (h : call.change now d = .ok d') :
    d'.history = d.history := by
  refine change_history (fun op hop => ?_) h
  cases op with
  | govern action actor notes =>
    cases call with
    | govern _ _ _ _ => cases own
    | _ => exact hop.elim
  | rename _ _ | updateTrigger _ | updateGraph _ _ | applyEdited _ | activate | pause => rfl

end Service

/-! ## Invariant -/

namespace Store.Memory

/-- The maps of a store fit together. -/
structure Consistent (m : Memory) : Prop where
  /-- a run belongs to a stored definition, and to its organization -/
  run_owner : ∀ r ∈ Assoc.values m.runs, ∃ d, m.load r.definition = .ok d ∧ r.org = d.org
  /-- an event belongs to the stored definition in whose trail it is -/
  event_owner : ∀ id, ∀ e ∈ m.trail id, e.definition = id ∧ ∃ d, m.load id = .ok d
  trail_eq : ∀ id d, m.load id = .ok d → m.trail id = d.history
  finished_iff : ∀ r ∈ Assoc.values m.runs, r.finishedAt.isSome = r.status.isTerminal
  failed_of_error : ∀ r ∈ Assoc.values m.runs, r.lastError ≠ .null → r.status = .failed

variable {m m' : Memory} {d d' : Definition}

theorem consistent_empty (catalog : Catalog) : Consistent (empty catalog) where
  run_owner _ h := absurd h List.not_mem_nil
  event_owner _ _ h := absurd h List.not_mem_nil
  trail_eq _ _ h := by cases h
  finished_iff _ h := absurd h List.not_mem_nil
  failed_of_error _ h := absurd h List.not_mem_nil

/-- What is stored under a new identifier has no trail yet. -/
theorem Consistent.create (hc : m.Consistent) (hnew : ∀ d', m.load d.id ≠ .ok d')
    (hh : d.history = []) : (m.put d).Consistent where
  run_owner r hr := by
    obtain ⟨d₀, hload, horg⟩ := hc.run_owner r hr
    refine ⟨d₀, ?_, horg⟩
    rw [load_put, if_neg, hload]
    rintro hid
    exact hnew d₀ (hid ▸ hload)
  event_owner id e he := by
    obtain ⟨hown, d₀, hload⟩ := hc.event_owner id e he
    refine ⟨hown, d₀, ?_⟩
    rw [load_put, if_neg, hload]
    rintro rfl
    exact hnew d₀ hload
  trail_eq id d₀ hload := by
    rw [load_put] at hload
    show m.trail id = d₀.history
    by_cases hid : id = d.id
    · rw [if_pos hid] at hload
      obtain rfl := Except.ok.inj hload
      rw [hh]
      refine List.eq_nil_iff_forall_not_mem.2 fun e he => ?_
      obtain ⟨-, d', hd'⟩ := hc.event_owner id e he
      exact hnew d' (hid ▸ hd')
    · rw [if_neg hid] at hload
      exact hc.trail_eq id d₀ hload
  finished_iff := hc.finished_iff
  failed_of_error := hc.failed_of_error

/-- A definition is replaced by a changed one, and the events that its history has gained are
appended to its trail. -/
theorem Consistent.change (hc : m.Consistent) (hd : m.load d'.id = .ok d) (horg : d'.org = d.org)
    {events : List ApprovalEvent} (hh : d'.history = d.history ++ events)
    (hown : ∀ e ∈ events, e.definition = d'.id)
    (hload : ∀ id, m'.load id = if id = d'.id then .ok d' else m.load id)
    (htrail : ∀ id, m'.trail id = if id = d'.id then m.trail id ++ events else m.trail id)
    (hruns : m'.runs = m.runs) : m'.Consistent where
  run_owner := by
    rw [hruns]
    intro r hr
    obtain ⟨d₀, hd₀, horg₀⟩ := hc.run_owner r hr
    rw [hload]
    by_cases hid : r.definition = d'.id
    · rw [hid, hd] at hd₀
      obtain rfl := Except.ok.inj hd₀
      exact ⟨d', if_pos hid, horg₀.trans horg.symm⟩
    · exact ⟨d₀, (if_neg hid).trans hd₀, horg₀⟩
  event_owner := by
    intro id e he
    rw [htrail] at he
    rw [hload]
    by_cases hid : id = d'.id
    · rw [if_pos hid] at he ⊢
      refine ⟨?_, d', rfl⟩
      rcases List.mem_append.1 he with he | he
      · exact (hc.event_owner id e he).1
      · exact (hown e he).trans hid.symm
    · rw [if_neg hid] at he ⊢
      exact hc.event_owner id e he
  trail_eq := by
    intro id d₀ hd₀
    rw [hload] at hd₀
    rw [htrail]
    by_cases hid : id = d'.id
    · rw [if_pos hid] at hd₀ ⊢
      obtain rfl := Except.ok.inj hd₀
      rw [hid, hc.trail_eq d'.id d hd, hh]
    · rw [if_neg hid] at hd₀ ⊢
      exact hc.trail_eq id d₀ hd₀
  finished_iff := by
    rw [hruns]
    exact hc.finished_iff
  failed_of_error := by
    rw [hruns]
    exact hc.failed_of_error

/-- Deleting a definition clears all three maps. -/
theorem Consistent.delete (hc : m.Consistent) {id : Uuid} (h : m.delete id = .ok m') :
    m'.Consistent where
  run_owner r hr := by
    obtain ⟨hr, hne⟩ := mem_runs_delete h hr
    rw [load_delete h, if_neg hne]
    exact hc.run_owner r hr
  event_owner id' e he := by
    rw [trail_delete h] at he
    rw [load_delete h]
    by_cases hid : id' = id
    · rw [if_pos hid] at he
      cases he
    · rw [if_neg hid] at he ⊢
      exact hc.event_owner id' e he
  trail_eq id' d hd := by
    rw [load_delete h] at hd
    rw [trail_delete h]
    by_cases hid : id' = id
    · rw [if_pos hid] at hd
      cases hd
    · rw [if_neg hid] at hd ⊢
      exact hc.trail_eq id' d hd
  finished_iff r hr := hc.finished_iff r (mem_runs_delete h hr).1
  failed_of_error r hr := hc.failed_of_error r (mem_runs_delete h hr).1

theorem mem_runs_of_run {id : Uuid} {r : Run} (h : m.run id = .ok r) : r ∈ Assoc.values m.runs :=
  List.mem_map.2 ⟨_, Assoc.mem_of_find? (run_eq_ok.1 h), rfl⟩

/-- A run of a stored definition is written. -/
theorem Consistent.putRun (hc : m.Consistent) {r : Run}
    (hd : m.load r.definition = .ok d) (horg : r.org = d.org)
    (hfinished : r.finishedAt.isSome = r.status.isTerminal)
    (herror : r.lastError ≠ .null → r.status = .failed) : (m.putRun r).Consistent where
  run_owner q hq := by
    rcases Assoc.mem_values_put hq with rfl | hq
    · exact ⟨d, hd, horg⟩
    · exact hc.run_owner q hq
  event_owner := hc.event_owner
  trail_eq := hc.trail_eq
  finished_iff q hq := by
    rcases Assoc.mem_values_put hq with rfl | hq
    · exact hfinished
    · exact hc.finished_iff q hq
  failed_of_error q hq := by
    rcases Assoc.mem_values_put hq with rfl | hq
    · exact herror
    · exact hc.failed_of_error q hq

end Store.Memory

/-! ## Calls -/

namespace Service

open Store (Backend Memory)
open Program (Session Outcome)

section

variable {sources : Program.Sources} {bound : Nat} {s : Session Memory} {now : Timestamp}
  {call : Call} {o : Outcome Memory Reply}

/-- Whatever a call does, the maps fit together after it. -/
theorem consistent_effect (h : Orderly Memory.registry Memory.ledger sources bound s)
    (hs : s.idsTaken < bound) (hc : s.store.Consistent) (ho : Effect sources now s call o) :
    o.session.store.Consistent := by
  cases ho with
  | quiet result drawsTaken first last => exact hc
  | @founded _ p name d events store proposed accepted named saved told =>
    obtain rfl := Memory.take_save_eq_ok saved
    refine hc.create (fun d' hd' => ?_) (by rw [named]; rfl)
    have hid : d.id = sources.ids s.idsTaken := by rw [named]; rfl
    have hnew := h.definitions s.idsTaken (Nat.le_refl _) hs
    obtain ⟨-, hstatus⟩ := Memory.registry.load_ok h.registry (congrArg (·, s.store) hd')
    rw [← hid] at hnew
    cases hnew.symm.trans hstatus
  | @edited _ id d d' store own loaded changed saved =>
    obtain rfl := Memory.take_save_eq_ok saved
    obtain ⟨hid, -⟩ := Memory.registry.load_ok h.registry loaded
    have hload : s.store.load d'.id = .ok d := by
      rw [(Call.change_keeps changed).1, hid]
      exact (Prod.mk.inj loaded).1
    have hhistory : d'.history = d.history ++ [] := by
      rw [List.append_nil]
      exact Call.edit_history own changed
    refine hc.change hload (Call.change_org changed) hhistory
      (fun _ he => absurd he List.not_mem_nil) (Memory.load_put s.store d') (fun id => ?_) rfl
    rw [List.append_nil, ite_self]
    rfl
  | @governed action id actor notes d d' e between store loaded changed saved recorded =>
    obtain rfl := Memory.take_save_eq_ok saved
    obtain rfl := (Prod.mk.inj recorded).2
    obtain ⟨hid, -⟩ := Memory.registry.load_ok h.registry loaded
    obtain ⟨hid', horg, hhistory, hown⟩ := Definition.govern_keeps changed
    have hload : s.store.load d'.id = .ok d := by
      rw [hid', hid]
      exact (Prod.mk.inj loaded).1
    have hown' : e.definition = d'.id := hown.trans hid'.symm
    refine hc.change hload horg hhistory ?_ (Memory.load_put s.store d') (fun id => ?_) rfl
    · intro e' he'
      rw [List.mem_singleton.1 he']
      exact hown'
    · rw [← hown']
      exact Memory.trail_appendApproval (s.store.put d') e id
  | unrecorded loaded changed saved refused => cases refused
  | deleted loaded removed => exact hc.delete (Memory.written_eq_ok removed)
  | @started id context d ms r store loaded active given appended =>
    obtain rfl := (Prod.mk.inj appended).2
    subst given
    exact hc.putRun (Prod.mk.inj loaded).1 rfl rfl fun hn => absurd rfl hn
  | @finished _ id r r' store own found ended updated =>
    obtain rfl := Memory.updateRun_eq_ok (Memory.written_eq_ok updated)
    obtain ⟨-, status, houtcome, rfl⟩ := Call.finish_eq_ok own ended
    have hmem : r ∈ Assoc.values s.store.runs := Memory.mem_runs_of_run (Prod.mk.inj found).1
    obtain ⟨d, hload, horg⟩ := hc.run_owner r hmem
    exact hc.putRun hload horg (Call.outcome_eq_ok own houtcome).1.symm Call.failed_of_lastError

/-! ## Times -/

/-- How a run that is stored after a call came to be so. -/
inductive RunStep (now : Timestamp) (before : List Run) : Run → Prop where
  | kept {r : Run} (h : r ∈ before) : RunStep now before r
  | started (id definition : Uuid) (org context : Value) :
      RunStep now before (Run.start id definition org context now)
  | finished {r : Run} (h : r ∈ before) (status : RunStatus) (lastError : Value) :
      RunStep now before { r with
        status := status
        finishedAt := some now
        lastError := lastError }

/-- Each run that is stored after a call was so before it, or was started or finished by it. -/
theorem runStep_of_effect (ho : Effect sources now s call o) :
    ∀ q ∈ Assoc.values o.session.store.runs, RunStep now (Assoc.values s.store.runs) q := by
  have hsave : ∀ {d : Definition} {v : Value} {m m' : Memory},
      Backend.take (.save d v) m = (.ok (), m') → m'.runs = m.runs :=
    fun h => Memory.take_other_runs rfl h
  intro q hq
  cases ho with
  | quiet result drawsTaken first last => exact .kept hq
  | founded proposed accepted named saved told => exact .kept (hsave saved ▸ hq)
  | edited own loaded changed saved => exact .kept (hsave saved ▸ hq)
  | governed loaded changed saved recorded =>
    obtain rfl := (Prod.mk.inj recorded).2
    exact .kept (hsave saved ▸ hq)
  | unrecorded loaded changed saved refused => cases refused
  | deleted loaded removed =>
    exact .kept (Memory.mem_runs_delete (Memory.written_eq_ok removed) hq).1
  | started loaded active given appended =>
    obtain rfl := (Prod.mk.inj appended).2
    rcases Assoc.mem_values_put hq with rfl | hq
    · rw [given]
      exact .started _ _ _ _
    · exact .kept hq
  | @finished _ id r r' store own found ended updated =>
    obtain rfl := Memory.updateRun_eq_ok (Memory.written_eq_ok updated)
    obtain ⟨-, status, -, rfl⟩ := Call.finish_eq_ok own ended
    have hmem : r ∈ Assoc.values s.store.runs := Memory.mem_runs_of_run (Prod.mk.inj found).1
    rcases Assoc.mem_values_put hq with rfl | hq
    · exact .finished hmem status (call.lastError status)
    · exact .kept hq

/-- If the clock never goes back, no run finishes before it has started. -/
theorem finished_after_started (canvas : Editor.Canvas) {calls : List (Timestamp × Call)}
    (hclock : calls.Pairwise fun c c' => c.1.instant ≤ c'.1.instant)
    (hfirst : ∀ r ∈ Assoc.values s.store.runs, (∀ c ∈ calls, r.startedAt.instant ≤ c.1.instant) ∧
      ∀ t ∈ r.finishedAt, r.startedAt.instant ≤ t.instant) :
    ∀ r ∈ Assoc.values (sessionAfter sources canvas s calls).store.runs, ∀ t ∈ r.finishedAt,
      r.startedAt.instant ≤ t.instant := by
  induction calls generalizing s with
  | nil => exact fun r hr => (hfirst r hr).2
  | cons c rest ih =>
    obtain ⟨now, call⟩ := c
    obtain ⟨hnow, hrest⟩ := List.pairwise_cons.1 hclock
    refine ih hrest ?_
    intro q hq
    cases runStep_of_effect (atomic_memory.effect_program sources canvas now s call) q hq with
    | kept h =>
      obtain ⟨hpast, hordered⟩ := hfirst q h
      exact ⟨fun c hc => hpast c (List.mem_cons_of_mem _ hc), hordered⟩
    | started id definition org context =>
      refine ⟨hnow, ?_⟩
      rintro t ⟨⟩
    | @finished r h status lastError =>
      obtain ⟨hpast, -⟩ := hfirst r h
      refine ⟨fun c hc => hpast c (List.mem_cons_of_mem _ hc), ?_⟩
      rintro t ⟨⟩
      exact hpast (now, call) List.mem_cons_self

/-- Every run was started at the time of a call. -/
theorem started_at_call (h : Orderly Memory.registry Memory.ledger sources bound s)
    (hd : sources.Distinct bound) (canvas : Editor.Canvas) {calls : List (Timestamp × Call)}
    (hroom : s.idsTaken + calls.length ≤ bound)
    (hfirst : ∀ r ∈ Assoc.values s.store.runs, r.startedAt ∈ calls.map Prod.fst) :
    ∀ r ∈ Assoc.values (sessionAfter sources canvas s calls).store.runs,
      r.startedAt ∈ calls.map Prod.fst := by
  refine h.induction hd atomic_memory canvas
    (I := fun m => ∀ r ∈ Assoc.values m.runs, r.startedAt ∈ calls.map Prod.fst) hroom hfirst ?_
  intro c hc s o _ _ hi ho q hq
  cases runStep_of_effect ho q hq with
  | kept h => exact hi q h
  | started id definition org context => exact List.mem_map.2 ⟨c, hc, rfl⟩
  | @finished r h status lastError => exact hi r h

end

/-! ## Lists of runs -/

theorem allComparable_of_mem {ts us : List Timestamp} (h : Timestamp.allComparable ts = true)
    (hus : ∀ u ∈ us, u ∈ ts) : Timestamp.allComparable us = true := by
  unfold Timestamp.allComparable at h ⊢
  rcases Bool.or_eq_true_iff.1 h with h | h
  · have hall : us.all Timestamp.isZoned = true :=
      List.all_eq_true.2 fun u hu => List.all_eq_true.1 h u (hus u hu)
    rw [hall]
    rfl
  · have hall : us.all (fun u => !u.isZoned) = true :=
      List.all_eq_true.2 fun u hu => List.all_eq_true.1 h u (hus u hu)
    rw [hall, Bool.or_true]

/-- Of runs that can be ordered, as many as there are, each is listed once. -/
theorem recent_all {rs : List Run} (hids : (rs.map Run.id).Nodup)
    (hz : Timestamp.allComparable (rs.map Run.startedAt) = true) {n : Int} (hn : rs.length ≤ n) :
    ∃ listed, Run.recent rs n = .ok listed ∧ (listed.map Run.id).Nodup ∧
      ∀ r, r ∈ listed ↔ r ∈ rs := by
  have hperm := Run.newestFirst_perm rs
  exact ⟨Run.newestFirst rs, Run.recent_of_length_le hz hn, (hperm.map Run.id).nodup_iff.2 hids,
    fun r => hperm.mem_iff⟩

/-- The runs of an organization are those of its definitions. -/
theorem runsOfOrg_all {m : Memory} (hfiled : Assoc.Filed Run.id m.runs) (hc : m.Consistent)
    (hz : Timestamp.allComparable ((Assoc.values m.runs).map Run.startedAt) = true)
    (org : Value) {n : Int} (hn : m.runs.length ≤ n) :
    ∃ listed, m.runsOfOrg org (.int n) = .ok listed ∧ (listed.map Run.id).Nodup ∧
      ∀ r, r ∈ listed ↔ r ∈ Assoc.values m.runs ∧
        ∃ d, m.load r.definition = .ok d ∧ d.org.same org = true := by
  have hsub : ((Assoc.values m.runs).filter (·.org.same org)).Sublist (Assoc.values m.runs) :=
    List.filter_sublist
  have hids : ((Assoc.values m.runs).map Run.id) = Assoc.keys m.runs := by
    unfold Assoc.values Assoc.keys
    rw [List.map_map]
    exact List.map_congr_left hfiled.own
  have hnodup : (((Assoc.values m.runs).filter (·.org.same org)).map Run.id).Nodup := by
    have hall : ((Assoc.values m.runs).map Run.id).Nodup := hids ▸ hfiled.nodup
    exact hall.sublist (hsub.map Run.id)
  have hcomparable : Timestamp.allComparable
      (((Assoc.values m.runs).filter (·.org.same org)).map Run.startedAt) = true :=
    allComparable_of_mem hz fun t ht => (hsub.map Run.startedAt).subset ht
  have hlength : ((Assoc.values m.runs).filter (·.org.same org)).length ≤ n := by
    have hle := hsub.length_le
    have hvalues : (Assoc.values m.runs).length = m.runs.length := List.length_map _
    omega
  obtain ⟨listed, hrecent, hlisted, hmem⟩ := recent_all hnodup hcomparable hlength
  refine ⟨listed, hrecent, hlisted, fun r => ?_⟩
  rw [hmem, List.mem_filter]
  refine and_congr_right fun hr => ?_
  obtain ⟨d, hload, horg⟩ := hc.run_owner r hr
  rw [horg]
  constructor
  · exact fun h => ⟨d, hload, h⟩
  · rintro ⟨d', hload', h⟩
    obtain rfl := Except.ok.inj (hload.symm.trans hload')
    exact h

theorem run_listOrgRuns (sources : Program.Sources) (s : Session Memory) (org limit : Value) :
    ((listOrgRuns org limit).run sources s).result = s.store.runsOfOrg org limit := by
  have ht : Backend.take (.orgRuns org limit) s.store = (s.store.runsOfOrg org limit, s.store) :=
    rfl
  unfold listOrgRuns Program.step
  cases h : s.store.runsOfOrg org limit with
  | ok listed =>
    rw [h] at ht
    simp only [Program.run, ht]
  | error e =>
    rw [h] at ht
    simp only [Program.run, ht]

/-! ## Theorem -/

/-- After any calls, one after another and from the empty store, the maps fit together.  If the
clock never goes back, no run finishes before it has started; and if the times can be ordered, an
organization's runs are listed each once, all of its definitions' runs and no others. -/
theorem consistent_always (sources : Program.Sources) (canvas : Editor.Canvas)
    (catalog : Catalog) (calls : List (Timestamp × Call)) (hd : sources.Distinct calls.length) :
    let s := sessionAfter sources canvas (newSession (Memory.empty catalog)) calls
    s.store.Consistent ∧
      ((calls.Pairwise fun c c' => c.1.instant ≤ c'.1.instant) →
        ∀ r ∈ Assoc.values s.store.runs, ∀ t ∈ r.finishedAt, r.startedAt.instant ≤ t.instant) ∧
      (Timestamp.allComparable (calls.map Prod.fst) = true → ∀ (org : Value) (n : Int),
        s.store.runs.length ≤ n →
        ∃ listed, ((listOrgRuns org (.int n)).run sources s).result = .ok listed ∧
          (listed.map Run.id).Nodup ∧
          ∀ r, r ∈ listed ↔ r ∈ Assoc.values s.store.runs ∧
            ∃ d, s.store.load r.definition = .ok d ∧ d.org.same org = true) := by
  have hroom : 0 + calls.length ≤ calls.length := Nat.le_of_eq (Nat.zero_add _)
  have hfirst : Orderly Memory.registry Memory.ledger sources calls.length
      (newSession (Memory.empty catalog)) := orderly_memory catalog
  have hconsistent : (sessionAfter sources canvas (newSession (Memory.empty catalog))
      calls).store.Consistent :=
    hfirst.induction hd atomic_memory canvas hroom (Memory.consistent_empty catalog)
      fun c _ s o h hs hc ho => consistent_effect h hs hc ho
  refine ⟨hconsistent, fun hclock => ?_, fun hz org n hn => ?_⟩
  · exact finished_after_started canvas hclock fun r hr => nomatch hr
  · have hstarted := started_at_call hfirst hd canvas hroom fun r hr => nomatch hr
    have hfiled := hfirst.induction hd atomic_memory canvas (I := Memory.ledger.Sound) hroom
      hfirst.ledger fun c _ s o h hs _ ho => (h.effect hd hs ho).1.ledger
    have hcomparable := allComparable_of_mem hz fun t ht => by
      obtain ⟨r, hr, rfl⟩ := List.mem_map.1 ht
      exact hstarted r hr
    obtain ⟨listed, hlist, hlisted⟩ := runsOfOrg_all hfiled hconsistent hcomparable org hn
    refine ⟨listed, ?_, hlisted⟩
    rw [run_listOrgRuns, hlist]

theorem consistent_always_lifetime :
    let s := sessionAfter counting .standard (newSession (Memory.empty .empty)) lifetime
    counting.Distinct lifetime.length ∧
    (lifetime.Pairwise fun c c' => c.1.instant ≤ c'.1.instant) ∧
    Timestamp.allComparable (lifetime.map Prod.fst) = true ∧
    s.store.runs.length = 1 ∧ (s.store.trail (Uuid.ofNat 0)).length = 3 ∧
    s.store.Consistent ∧
    (∀ r ∈ Assoc.values s.store.runs, ∀ t ∈ r.finishedAt, r.startedAt.instant ≤ t.instant) ∧
    ∃ listed, ((listOrgRuns (.text "acme") (.int 1)).run counting s).result = .ok listed ∧
      (listed.map Run.id).Nodup ∧
      ∀ r, r ∈ listed ↔ r ∈ Assoc.values s.store.runs ∧
        ∃ d, s.store.load r.definition = .ok d ∧ d.org.same (.text "acme") = true := by
  have hd : counting.Distinct lifetime.length := distinct_counting (by decide)
  have hclock : lifetime.Pairwise fun c c' => c.1.instant ≤ c'.1.instant := by decide +kernel
  have hz : Timestamp.allComparable (lifetime.map Prod.fst) = true := by decide +kernel
  obtain ⟨hconsistent, hfinished, hlisted⟩ :=
    consistent_always counting .standard .empty lifetime hd
  refine ⟨hd, hclock, hz, by decide +kernel, by decide +kernel, hconsistent, hfinished hclock, ?_⟩
  exact hlisted hz (.text "acme") 1 (by decide +kernel)

end Service

end Workflow
