import Workflow.Proofs.Store.Agreement

/-!
# Steps on stores that agree

What is read from two stores that agree is the same, what is written to both keeps
them in agreement, and what the one refuses the other refuses for the same reason.
A definition that is saved with a new event in its history leaves the event to be
recorded in the trail.

    they agree → the tables load what memory loads            (Agree.load_eq)
    they agree, d changed and saved in both → they agree      (Agree.save)
-/

namespace Workflow.Store

/-- Stores that agree; `pending` are the events that histories have and trails have not yet. -/
structure Agree (limit clock : Int) (pending : List ApprovalEvent) (m : Memory)
    (t : Tables) : Prop where
  definitions : DefinitionsAgree limit m.definitions t.definitions
  trails : TrailsAgree clock m.trails t.approvals
  runs : RunsAgree clock m.runs t.runs
  templates : TemplatesAgree m.catalog t
  histories : ∀ id d, Assoc.find? id m.definitions = some d →
    d.history = m.trail id ++ pending.filter (·.definition = id)
  orphans : ∀ id, Assoc.find? id m.definitions = none → m.trail id = []

namespace Agree

variable {limit limit' clock clock' : Int} {pending : List ApprovalEvent} {m : Memory}
  {t : Tables} {d h : Definition} {id : Uuid}

theorem mono (ha : Agree limit clock pending m t) (hl : limit ≤ limit') (hc : clock ≤ clock') :
    Agree limit' clock' pending m t where
  definitions := ha.definitions.mono hl
  trails := ha.trails.mono hc
  runs := ha.runs.mono hc
  templates := ha.templates
  histories := ha.histories
  orphans := ha.orphans

/-! ## Reading -/

theorem trail_eq (ha : Agree limit clock pending m t) (id : Uuid) : t.trail id = m.trail id :=
  ha.trails.mergeSort_eq id

theorem row?_eq (ha : Agree limit clock pending m t) (id : Uuid) :
    t.row? id = (Assoc.find? id m.definitions).map DefinitionRow.of :=
  ha.definitions.find?_eq id

/-- A row is read with its trail as the definition that memory has. -/
theorem read_eq (ha : Agree limit clock [] m t) (hf : Assoc.find? id m.definitions = some d) :
    (DefinitionRow.of d).read (t.trail id) = .ok d := by
  have hd := ha.definitions.typed d (DefinitionsAgree.mem_of_find? hf)
  have hh := ha.histories id d hf
  rw [List.filter_nil, List.append_nil] at hh
  rw [DefinitionRow.read_of hd, ha.trail_eq id, ← hh]

theorem load_eq (ha : Agree limit clock [] m t) (id : Uuid) : t.load id = m.load id := by
  unfold Tables.load Memory.load
  rw [ha.row?_eq id]
  cases hf : Assoc.find? id m.definitions with
  | none => rfl
  | some d => exact ha.read_eq hf

theorem list_eq (ha : Agree limit clock [] m t) {org : Value} (ho : org.IsTextOrNull) :
    t.list org = m.list org := by
  let wanted (d : Definition) : Bool := org = .null || d.org = org
  have hsame : ∀ d ∈ Assoc.values m.definitions, (org = .null || d.org.same org) = wanted d := by
    intro d hd
    obtain ⟨s, hs⟩ := (ha.definitions.typed d hd).org
    show _ = (decide (org = .null) || decide (d.org = org))
    rcases ho with rfl | ⟨s', rfl⟩
    · rfl
    · rw [hs, Value.same_text]
      simp
  have hmemory : m.list org
      = .ok (((Assoc.values m.definitions).filter wanted).mergeSort Memory.changedFirst) := by
    have hz : Timestamp.allComparable
        (((Assoc.values m.definitions).filter wanted).map Definition.updatedAt) = true := by
      refine Timestamp.allComparable_of_universal ?_
      intro time htime
      obtain ⟨d, hd, rfl⟩ := List.mem_map.1 htime
      exact (ha.definitions.typed d (List.mem_filter.1 hd).1).updatedAt
    unfold Memory.list
    dsimp only
    rw [List.filter_congr hsame, if_pos hz]
  have hrows : (t.definitions.filter fun row => org = .null || row.org = org)
      = ((Assoc.values m.definitions).filter wanted).map DefinitionRow.of := by
    rw [ha.definitions.rows_eq, List.filter_map]
    rfl
  have hsorted : (((Assoc.values m.definitions).filter wanted).map DefinitionRow.of).mergeSort
        Tables.changedFirst
      = (((Assoc.values m.definitions).filter wanted).mergeSort Memory.changedFirst).map
        DefinitionRow.of := by
    refine (List.map_mergeSort ?_).symm
    intro a _ b _
    rfl
  have hread : ((((Assoc.values m.definitions).filter wanted).mergeSort
        Memory.changedFirst).map DefinitionRow.of).mapM (fun row => row.read (t.trail row.id))
      = .ok (((Assoc.values m.definitions).filter wanted).mergeSort Memory.changedFirst) := by
    refine mapM_map_eq_ok fun d hd => ?_
    have hmem : d ∈ Assoc.values m.definitions :=
      (List.mem_filter.1 (List.mem_mergeSort.1 hd)).1
    exact ha.read_eq (ha.definitions.filed.find?_of_mem_values hmem)
  rw [hmemory]
  unfold Tables.list
  rw [ho.column]
  show ((t.definitions.filter fun row => org = .null || row.org = org).mergeSort
    Tables.changedFirst).mapM (fun row => row.read (t.trail row.id)) = _
  rw [hrows, hsorted, hread]

theorem runRow?_eq (ha : Agree limit clock pending m t) (id : Uuid) :
    t.runRow? id = Assoc.find? id m.runs := ha.runs.find?_eq id

theorem typed_of_run (ha : Agree limit clock pending m t) {r : Run}
    (hf : Assoc.find? id m.runs = some r) : r.Typed := by
  refine ha.runs.typed r ?_
  rw [ha.runs.rows_eq]
  exact List.mem_map.2 ⟨(id, r), Assoc.mem_of_find? hf, rfl⟩

theorem run_eq (ha : Agree limit clock pending m t) (id : Uuid) : t.run id = m.run id := by
  unfold Tables.run Memory.run
  rw [ha.runRow?_eq id]
  cases hf : Assoc.find? id m.runs with
  | none => rfl
  | some r => exact readRun_of_object (ha.typed_of_run hf).context

theorem runsOf_eq (ha : Agree limit clock pending m t) (id : Uuid) {n : Int}
    (hn : 0 ≤ n ∧ n < 2 ^ 63) : t.runsOf id (.int n) = m.runsOf id (.int n) := by
  show Tables.recent _ (some n) = Run.recent _ n
  exact ha.runs.recent_filter _ hn

theorem runsOfOrg_eq (ha : Agree limit clock pending m t) {org : Value} (ho : org.IsText)
    {n : Int} (hn : 0 ≤ n ∧ n < 2 ^ 63) :
    t.runsOfOrg org (.int n) = m.runsOfOrg org (.int n) := by
  have hsame : ∀ r ∈ Assoc.values m.runs, r.org.same org = decide (r.org = org) := by
    intro r hr
    rw [← ha.runs.rows_eq] at hr
    obtain ⟨s, hs⟩ := (ha.runs.typed r hr).org
    obtain ⟨s', rfl⟩ := ho
    rw [hs, Value.same_text]
    simp
  unfold Tables.runsOfOrg
  show (Column.inserting (Column.text org) >>= fun wanted =>
    Tables.recent (t.runs.filter (·.org = wanted)) (some n)) = _
  rw [ho.column]
  show Tables.recent (t.runs.filter (·.org = org)) (some n) = _
  rw [ha.runs.recent_filter _ hn]
  show Run.recent ((Assoc.values m.runs).filter (·.org = org)) n
    = Run.recent ((Assoc.values m.runs).filter (·.org.same org)) n
  rw [List.filter_congr hsame]

theorem summary_eq (ha : Agree limit clock pending m t) (id : Uuid) :
    RunSummary.ofRuns id t.runs = m.summary id := by
  unfold Memory.summary
  rw [ha.runs.rows_eq]

/-! ## Writing definitions -/

/-- A definition is written whose history is its trail and the events that are still to be
recorded. -/
theorem put_histories (ha : Agree limit clock [] m t) (hh : d.history = m.trail d.id ++ pending)
    (hp : ∀ e ∈ pending, e.definition = d.id) :
    (∀ id d', Assoc.find? id (m.put d).definitions = some d' →
      d'.history = (m.put d).trail id ++ pending.filter (·.definition = id)) ∧
    ∀ id, Assoc.find? id (m.put d).definitions = none → (m.put d).trail id = [] := by
  constructor
  · intro id d' hf
    by_cases hid : id = d.id
    · subst hid
      obtain rfl := Option.some.inj ((Assoc.find?_put_self _ _ _).symm.trans hf)
      have hpending : pending.filter (·.definition = d.id) = pending :=
        List.filter_eq_self.2 fun e he => decide_eq_true (hp e he)
      rw [hh, hpending]
      rfl
    · have hpending : pending.filter (·.definition = id) = [] := by
        refine List.filter_eq_nil_iff.2 fun e he => ?_
        rw [hp e he]
        simpa using Ne.symm hid
      rw [hpending]
      exact ha.histories id d' ((Assoc.find?_put_of_ne hid _ _).symm.trans hf)
  · intro id hf
    by_cases hid : id = d.id
    · subst hid
      cases (Assoc.find?_put_self _ _ _).symm.trans hf
    · exact ha.orphans id ((Assoc.find?_put_of_ne hid _ _).symm.trans hf)

theorem insert (ha : Agree limit clock [] m t) (hd : d.Typed) (hs : d.Storable)
    (hc : d.createdAt.isStorable = true) (hv : d.version ≤ limit) (hlimit : limit < 2 ^ 63)
    (hh : d.history = []) (hnew : Assoc.find? d.id m.definitions = none) :
    ∃ t', Backend.take (.save d .null) m = (.ok (), m.put d) ∧
      Backend.take (.save d .null) t = (.ok (), t') ∧ Agree limit clock [] (m.put d) t' := by
  have hpos := hd.version
  have hcheck : DefinitionRow.checkStorable [d.createdAt, d.updatedAt] d = .ok () := by
    refine hs.check hd ?_
    simp [hc, hs.updatedAt]
  have hrow : t.row? d.id = none := by rw [ha.row?_eq, hnew, Option.map_none]
  have hsave : t.save d .null
      = .ok { t with definitions := t.definitions ++ [DefinitionRow.of d] } := by
    unfold Tables.save
    rw [hrow]
    exact Tables.insert_of_fits hd hcheck (by omega)
  have hhistory : d.history = m.trail d.id ++ [] := by
    rw [hh, ha.orphans d.id hnew]
    rfl
  obtain ⟨histories, orphans⟩ := ha.put_histories hhistory (by simp)
  refine ⟨_, rfl, congrArg t.written hsave, ?_⟩
  exact ⟨ha.definitions.append hd hs hv hnew, ha.trails, ha.runs, ha.templates.of_templates rfl,
    histories, orphans⟩

theorem save (ha : Agree limit clock [] m t) (hf : Assoc.find? d.id m.definitions = some h)
    (hd : d.Typed) (hs : d.Storable) (hle : limit ≤ limit') (hv : d.version ≤ limit')
    (hlimit : limit' < 2 ^ 63) (hc : d.createdAt = h.createdAt)
    (hh : d.history = h.history ++ pending) (hp : ∀ e ∈ pending, e.definition = d.id) :
    ∃ t', Backend.take (.save d (.int h.version)) m = (.ok (), m.put d) ∧
      Backend.take (.save d (.int h.version)) t = (.ok (), t') ∧
      Agree limit' clock pending (m.put d) t' := by
  have hmem := DefinitionsAgree.mem_of_find? hf
  have hpos := (ha.definitions.typed h hmem).version
  have hmax := ha.definitions.version h hmem
  have hmemory : m.save d (.int h.version) = .ok (m.put d) := by
    rw [Memory.save_of_some hf, if_pos rfl]
  have hrow : t.row? d.id = some (DefinitionRow.of h) := by
    rw [ha.row?_eq, hf, Option.map_some]
  have hcreated : ({ DefinitionRow.of d with createdAt := (DefinitionRow.of h).createdAt }
      : DefinitionRow) = DefinitionRow.of d := by
    show ({ DefinitionRow.of d with createdAt := h.createdAt } : DefinitionRow) = _
    rw [← hc]
    rfl
  have hversion : (DefinitionRow.of h).version = h.version := rfl
  have htables : t.save d (.int h.version)
      = .ok { t with definitions := t.definitions.map fun r =>
        if r.id = d.id then DefinitionRow.of d else r } := by
    rw [Tables.save_of_some hrow, Tables.update_of_fits hd (hs.fits hd (by omega)) (by omega),
      if_pos hversion, hcreated]
  have hhistory : d.history = m.trail d.id ++ pending := by
    have htrail := ha.histories d.id h hf
    rw [List.filter_nil, List.append_nil] at htrail
    rw [hh, htrail]
  obtain ⟨histories, orphans⟩ := ha.put_histories hhistory hp
  refine ⟨_, congrArg m.written hmemory, congrArg t.written htables, ?_⟩
  exact ⟨ha.definitions.replace hle hd hs hv hf, ha.trails, ha.runs,
    ha.templates.of_templates rfl, histories, orphans⟩

/-- Without a definition and its trail the others keep theirs. -/
theorem drop_histories (ha : Agree limit clock [] m t) (id : Uuid) {m' : Memory}
    (hd : m'.definitions = Assoc.drop id m.definitions)
    (ht : m'.trails = Assoc.drop id m.trails) :
    (∀ id' d', Assoc.find? id' m'.definitions = some d' →
      d'.history = m'.trail id' ++ ([] : List ApprovalEvent).filter (·.definition = id')) ∧
    ∀ id', Assoc.find? id' m'.definitions = none → m'.trail id' = [] := by
  have htrail : ∀ {id' : Uuid}, id' ≠ id → m'.trail id' = m.trail id' := by
    intro id' hid
    unfold Memory.trail
    rw [ht, Assoc.find?_drop_of_ne hid]
  rw [hd]
  constructor
  · intro id' d' hf
    by_cases hid : id' = id
    · rw [hid, Assoc.find?_drop_self] at hf
      cases hf
    · rw [Assoc.find?_drop_of_ne hid] at hf
      rw [htrail hid]
      exact ha.histories id' d' hf
  · intro id' hf
    by_cases hid : id' = id
    · unfold Memory.trail
      rw [ht, hid, Assoc.find?_drop_self]
      rfl
    · rw [Assoc.find?_drop_of_ne hid] at hf
      rw [htrail hid]
      exact ha.orphans id' hf

theorem delete (ha : Agree limit clock [] m t) (hf : Assoc.find? id m.definitions = some d) :
    ∃ m' t', Backend.take (.delete id) m = (.ok (), m') ∧
      Backend.take (.delete id) t = (.ok (), t') ∧ Agree limit clock [] m' t' ∧
      (∀ id', Assoc.find? id' m.definitions = none → Assoc.find? id' m'.definitions = none) ∧
      ∀ id', Assoc.find? id' m.runs = none → Assoc.find? id' m'.runs = none := by
  obtain ⟨m', hmemory, hcatalog, hdefinitions, htrails, hruns⟩ : ∃ m', m.delete id = .ok m' ∧
      m'.catalog = m.catalog ∧ m'.definitions = Assoc.drop id m.definitions ∧
      m'.trails = Assoc.drop id m.trails ∧ m'.runs = m.runs.filter (·.2.definition ≠ id) := by
    unfold Memory.delete
    rw [Memory.load_eq_ok.2 hf]
    exact ⟨_, rfl, rfl, rfl, rfl, rfl⟩
  have htables : t.delete id = .ok { t with
      definitions := t.definitions.filter (·.id ≠ id)
      approvals := t.approvals.filter (·.definition ≠ id)
      runs := t.runs.filter (·.definition ≠ id) } := by
    unfold Tables.delete
    rw [ha.row?_eq, hf]
    rfl
  obtain ⟨histories, orphans⟩ := ha.drop_histories id hdefinitions htrails
  refine ⟨m', _, congrArg m.written hmemory, congrArg t.written htables, ?_, ?_, ?_⟩
  · refine ⟨?_, ?_, ?_, ?_, histories, orphans⟩
    · rw [hdefinitions]
      exact ha.definitions.remove id
    · rw [htrails]
      exact ha.trails.remove id
    · rw [hruns]
      exact ha.runs.filter fun r => decide (r.definition ≠ id)
    · rw [hcatalog]
      exact ha.templates.of_templates rfl
  · rw [hdefinitions]
    exact fun id' hnone => Assoc.find?_eq_none_of_sublist (Assoc.drop_sublist id _) hnone
  · rw [hruns]
    exact fun id' hnone => Assoc.find?_eq_none_of_sublist List.filter_sublist hnone

/-! ## Writing events and runs -/

/-- The event that was to be recorded is recorded in its trail. -/
theorem appendApproval {e : ApprovalEvent} (ha : Agree limit clock [e] m t)
    (hactor : e.actor.IsTextOrNull) (hnotes : e.notes.IsTextOrNull) (htime : e.time.IsUniversal)
    (hs : e.time.isStorable = true) (hc : clock ≤ e.time.instant)
    (hf : Assoc.find? e.definition m.definitions = some d) :
    ∃ t', Backend.take (.appendApproval e) m = (.ok (), m.appendApproval e) ∧
      Backend.take (.appendApproval e) t = (.ok (), t') ∧
      Agree limit e.time.instant [] (m.appendApproval e) t' := by
  have hrow : approvalRow e = .ok e := by
    have hcheck : Column.checkStorable [e.time] [] = .ok () := by
      unfold Column.checkStorable
      simp [hs]
    unfold approvalRow
    rw [hcheck, hactor.column, hnotes.column, htime.toUniversal]
    rfl
  have htables : t.appendApproval e = .ok { t with approvals := t.approvals ++ [e] } := by
    unfold Tables.appendApproval
    rw [hrow]
    rfl
  refine ⟨_, rfl, congrArg t.written htables, ?_⟩
  refine ⟨ha.definitions, ha.trails.append hc, ha.runs.mono hc, ha.templates.of_templates rfl,
    ?_, ?_⟩
  · intro id d' hf'
    have hh := ha.histories id d' hf'
    unfold Memory.trail Memory.appendApproval at *
    dsimp only at *
    by_cases hid : e.definition = id
    · subst hid
      rw [Assoc.find?_put_self, hh]
      simp [Memory.trail]
    · rw [Assoc.find?_put_of_ne (Ne.symm hid), hh]
      simp [hid]
  · intro id hf'
    have hid : id ≠ e.definition := by
      rintro rfl
      cases hf.symm.trans hf'
    unfold Memory.trail Memory.appendApproval
    dsimp only
    rw [Assoc.find?_put_of_ne hid]
    exact ha.orphans id hf'

theorem appendRun (ha : Agree limit clock [] m t) {r : Run} (hr : r.Typed)
    (hlast : r.lastError = .null) (hfinished : r.finishedAt = none)
    (hs : r.startedAt.isStorable = true) (hc : clock < r.startedAt.instant)
    (hnew : Assoc.find? r.id m.runs = none) :
    ∃ t', Backend.take (.appendRun r) m = (.ok (), m.putRun r) ∧
      Backend.take (.appendRun r) t = (.ok (), t') ∧
      Agree limit r.startedAt.instant [] (m.putRun r) t' := by
  have hrow : runRow r = .ok r := by
    have hcheck : Column.checkStorable (r.startedAt :: r.finishedAt.toList) [r.context]
        = .ok () := by
      unfold Column.checkStorable
      simp [hfinished, hs, hr.writable]
    unfold runRow
    rw [hcheck, hr.org.column, hlast, hr.startedAt.toUniversal, hfinished]
    show Except.ok { r with lastError := .null, finishedAt := none } = Except.ok r
    rw [← hlast, ← hfinished]
  have hfree : t.runRow? r.id = none := by rw [ha.runRow?_eq, hnew]
  have htables : t.appendRun r = .ok { t with runs := t.runs ++ [r] } := by
    unfold Tables.appendRun
    rw [hrow, hfree]
    rfl
  have hle := Int.le_of_lt hc
  refine ⟨_, rfl, congrArg t.written htables, ?_⟩
  exact ⟨ha.definitions, ha.trails.mono hle, ha.runs.append hr hnew hc,
    ha.templates.of_templates rfl, ha.histories, ha.orphans⟩

/-- A running run is finished in both stores. -/
theorem updateRun (ha : Agree limit clock [] m t) {current r : Run}
    (hf : Assoc.find? r.id m.runs = some current) (hrunning : current.status.isTerminal = false)
    {status : RunStatus} {lastError : Value} {now : Timestamp}
    (hr : r = { current with
      status := status
      finishedAt := some now
      lastError := lastError })
    (hlast : lastError.IsTextOrNull) (hn : now.IsUniversal) (hs : now.isStorable = true) :
    ∃ t', Backend.take (.updateRun r) m = (.ok (), m.putRun r) ∧
      Backend.take (.updateRun r) t = (.ok (), t') ∧ Agree limit clock [] (m.putRun r) t' := by
  have hcurrent := ha.typed_of_run hf
  have hmemory : m.updateRun r = .ok (m.putRun r) := by
    unfold Memory.updateRun
    rw [Memory.run_eq_ok.2 hf]
    show (if current.status.isTerminal = true then _ else _) = _
    rw [if_neg (by simp [hrunning])]
    rfl
  have htables : t.updateRun r = .ok { t with
      runs := t.runs.map fun q => if q.id = r.id then r else q } := by
    have hcheck : Column.checkStorable r.finishedAt.toList [r.context] = .ok () := by
      unfold Column.checkStorable
      rw [hr]
      simp [hs, hcurrent.writable]
    have hcolumn : Column.text r.lastError = .ok r.lastError := by
      rw [hr]
      exact hlast.column
    have hwritten : ({ current with
        status := r.status
        finishedAt := r.finishedAt.map Timestamp.toUniversal
        lastError := r.lastError
        context := r.context } : Run) = r := by
      rw [hr, Option.map_some, hn.toUniversal]
    unfold Tables.updateRun
    rw [hcheck, hcolumn, ha.runRow?_eq, hf]
    show (if current.status.isTerminal = true then _ else _ : Except Error Tables) = _
    rw [if_neg (by simp [hrunning])]
    show Except.ok _ = Except.ok _
    rw [hwritten]
  have htyped : r.Typed := by
    rw [hr]
    exact { hcurrent with }
  have hstart : r.startedAt = current.startedAt := by rw [hr]
  refine ⟨_, congrArg m.written hmemory, congrArg t.written htables, ?_⟩
  exact ⟨ha.definitions, ha.trails, ha.runs.replace hf htyped hstart,
    ha.templates.of_templates rfl, ha.histories, ha.orphans⟩

end Agree

end Workflow.Store
