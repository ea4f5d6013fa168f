import Workflow.Proofs.Store.Ledger

/-!
# What belongs to stored definitions

Runs and events are kept in maps of their own, and nothing keeps one from being added that
belongs to no stored definition.  It shows up then as any other does.

    a definition shows up nowhere ↔ it has neither runs nor a trail     (forgets_iff)
    deleting is the only step after which less is stored                (has_delete, has_save)
    events of stored definitions are added → all is still owned         (Owned.appendApprovals)
-/

namespace Workflow.Store.Memory

/-- A definition is stored. -/
def Has (m : Memory) (id : Uuid) : Prop := ∃ d, m.load id = .ok d

/-- Each run and each event belongs to a stored definition. -/
structure Owned (m : Memory) : Prop where
  run : ∀ id r, m.run id = .ok r → m.Has r.definition
  event : ∀ id, ∀ e ∈ m.trail id, e.definition = id ∧ m.Has id

/-- Nothing of a definition shows up, in whichever way it is asked for. -/
structure Forgets (m : Memory) (id : Uuid) : Prop where
  run : ∀ id' r, m.run id' = .ok r → r.definition ≠ id
  runs : ∀ limit rs, m.runsOf id limit = .ok rs → rs = []
  orgRuns : ∀ org limit rs, m.runsOfOrg org limit = .ok rs → ∀ r ∈ rs, r.definition ≠ id
  trail : m.trail id = []

variable {m m' : Memory} {id : Uuid}

/-! ## What shows up -/

theorem mem_of_recent {rs listed : List Run} {n : Int} (h : Run.recent rs n = .ok listed) {r : Run}
    (hr : r ∈ listed) : r ∈ rs := by
  unfold Run.recent at h
  split at h
  · obtain rfl := Except.ok.inj h
    exact List.mem_reverse.1 (List.mem_mergeSort.1 (List.mem_of_mem_take hr))
  · cases h

/-- What is listed can be read one by one. -/
theorem forgets_iff (hm : Assoc.Filed Run.id m.runs) :
    m.Forgets id ↔ (∀ id' r, m.run id' = .ok r → r.definition ≠ id) ∧ m.trail id = [] := by
  constructor
  · exact fun h => ⟨h.run, h.trail⟩
  · rintro ⟨hrun, htrail⟩
    have hvalues : ∀ r ∈ Assoc.values m.runs, r.definition ≠ id :=
      fun r hr => hrun r.id r (run_eq_ok.2 (hm.find?_of_mem_values hr))
    refine ⟨hrun, fun limit rs h => ?_, fun org limit rs h r hr => ?_, htrail⟩
    · obtain ⟨n, -, hrecent⟩ := bind_eq_ok.1 h
      refine List.eq_nil_iff_forall_not_mem.2 fun r hr => ?_
      obtain ⟨hvalue, hown⟩ := List.mem_filter.1 (mem_of_recent hrecent hr)
      exact hvalues r hvalue (of_decide_eq_true hown)
    · obtain ⟨n, -, hrecent⟩ := bind_eq_ok.1 h
      exact hvalues r (List.mem_filter.1 (mem_of_recent hrecent hr)).1

theorem run_putRun (m : Memory) (r : Run) (id : Uuid) :
    (m.putRun r).run id = if id = r.id then .ok r else m.run id := by
  unfold run
  rw [find?_putRun]
  by_cases hid : id = r.id
  · rw [if_pos hid, if_pos hid]
  · rw [if_neg hid, if_neg hid]

theorem run_delete (hm : Assoc.Filed Run.id m.runs) (h : m.delete id = .ok m') {id' : Uuid}
    {r : Run} : m'.run id' = .ok r ↔ m.run id' = .ok r ∧ r.definition ≠ id := by
  obtain rfl := delete_eq_ok h
  rw [run_eq_ok, run_eq_ok]
  show Assoc.find? id' (m.runs.filter fun e => decide (e.2.definition ≠ id)) = some r ↔ _
  rw [Assoc.find?_filter hm.nodup (fun r => decide (r.definition ≠ id)), Option.filter_eq_some_iff,
    decide_eq_true_iff]

/-! ## Which definitions are stored after a step -/

theorem has_delete (h : m.delete id = .ok m') (id' : Uuid) :
    m'.Has id' ↔ m.Has id' ∧ id' ≠ id := by
  unfold Has
  rw [load_delete h]
  by_cases hid : id' = id
  · rw [if_pos hid]
    constructor
    · rintro ⟨d, hd⟩
      cases hd
    · exact fun hd => absurd hid hd.2
  · rw [if_neg hid]
    exact (and_iff_left hid).symm

/-- Only a stored definition can be saved over a version. -/
theorem has_save {d : Definition} {v : Value} (hv : v ≠ .null) (h : m.save d v = .ok m')
    (id : Uuid) : m'.Has id ↔ m.Has id := by
  obtain ⟨_, hversion, h⟩ := bind_eq_ok.1 h
  obtain rfl := pure_eq_ok.1 h
  unfold checkVersion at hversion
  rw [if_neg hv] at hversion
  obtain ⟨current, hload, -⟩ := bind_eq_ok.1 hversion
  unfold Has
  rw [load_put]
  by_cases hid : id = d.id
  · rw [if_pos hid, hid]
    exact iff_of_true ⟨d, rfl⟩ ⟨current, hload⟩
  · rw [if_neg hid]

/-! ## Additions to what is stored -/

theorem owned_empty (catalog : Catalog) : (empty catalog).Owned where
  run _ _ h := by cases h
  event _ _ h := absurd h List.not_mem_nil

theorem Owned.put (hm : m.Owned) (d : Definition) : (m.put d).Owned := by
  have hhas : ∀ id, m.Has id → (m.put d).Has id := by
    rintro id ⟨c, hc⟩
    unfold Has
    rw [load_put]
    by_cases hid : id = d.id
    · exact ⟨d, if_pos hid⟩
    · exact ⟨c, (if_neg hid).trans hc⟩
  refine ⟨fun id r hr => hhas _ (hm.run id r hr), fun id e he => ?_⟩
  obtain ⟨hown, hid⟩ := hm.event id e he
  exact ⟨hown, hhas id hid⟩

theorem Owned.appendApprovals (hm : m.Owned) {es : List ApprovalEvent}
    (hes : ∀ e ∈ es, m.Has e.definition) : (es.foldl appendApproval m).Owned := by
  induction es generalizing m with
  | nil => exact hm
  | cons e es ih =>
    refine ih ⟨hm.run, fun id f hf => ?_⟩ fun f hf => hes f (List.mem_cons_of_mem e hf)
    rw [trail_appendApproval] at hf
    by_cases hid : id = e.definition
    · rw [if_pos hid] at hf
      rcases List.mem_append.1 hf with hf | hf
      · exact hm.event id f hf
      · obtain rfl := List.mem_singleton.1 hf
        exact ⟨hid.symm, hid ▸ hes f List.mem_cons_self⟩
    · rw [if_neg hid] at hf
      exact hm.event id f hf

end Workflow.Store.Memory
