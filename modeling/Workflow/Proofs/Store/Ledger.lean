import Workflow.Proofs.Store.Registry
import Workflow.Proofs.Store.Runs

/-!
# How a store keeps runs

A run is recorded once under its identifier and is replaced once, when it is
finished.  Either store looks at the stored run when it is asked to replace it, and
refuses if that has been finished already.

    the stored run is running → it is replaced                     (finish_found)
    it is finished → the update fails and says so                  (finish_finished)
    it is not stored → the update fails and says so                (finish_missing)

Memory and tables both keep runs so (`Memory.ledger`, `Tables.ledger`).
-/

namespace Workflow

/-- One run at two times: only how it ended may differ. -/
structure Run.SameStart (r q : Run) : Prop where
  id : r.id = q.id
  definition : r.definition = q.definition
  org : r.org = q.org
  startedAt : r.startedAt = q.startedAt
  context : r.context = q.context

namespace Run.SameStart

variable {r q s : Run}

theorem refl (r : Run) : r.SameStart r := ⟨rfl, rfl, rfl, rfl, rfl⟩

theorem symm (h : r.SameStart q) : q.SameStart r :=
  ⟨h.id.symm, h.definition.symm, h.org.symm, h.startedAt.symm, h.context.symm⟩

theorem trans (h : r.SameStart q) (h' : q.SameStart s) : r.SameStart s :=
  ⟨h.id.trans h'.id, h.definition.trans h'.definition, h.org.trans h'.org,
    h.startedAt.trans h'.startedAt, h.context.trans h'.context⟩

end Run.SameStart

namespace Store

/-- Whether a step writes runs. -/
def writesRuns : Step → Bool
  | .delete _ | .appendRun _ | .updateRun _ => true
  | .load _ | .save .. | .definitions _ | .appendApproval _ | .approvals _ | .run _ | .runs ..
  | .orgRuns .. | .summary _ | .templates | .template _ => false

/-- Where a store keeps runs, and how its steps treat them. -/
structure Ledger (σ : Type) [Backend σ] where
  runs : σ → Uuid → Option Run
  Sound : σ → Prop
  /-- what must be so for a finished run to be kept as it is -/
  Fits : Run → Prop
  run_found : ∀ {st : σ} {id r}, Sound st → runs st id = some r →
    Backend.take (.run id) st = (.ok r, st) ∧ r.id = id
  run_missing : ∀ {st : σ} {id}, Sound st → runs st id = none →
    Backend.take (.run id) st = (.error (.runMissing id), st)
  start_ok : ∀ {st st' : σ} {r ms}, Sound st → r.context = .object ms →
    Backend.take (.appendRun r) st = (.ok (), st') → Sound st' ∧
      ∃ q, (q.id = r.id ∧ q.definition = r.definition ∧ q.status = r.status) ∧
        ∀ id, runs st' id = if id = r.id then some q else runs st id
  finish_ok : ∀ {st st' : σ} {current r}, Sound st → runs st r.id = some current →
    r.SameStart current → Backend.take (.updateRun r) st = (.ok (), st') →
    Sound st' ∧ current.status.isTerminal = false ∧
      ∃ q, (q.SameStart current ∧ q.status = r.status ∧ (Fits r → q = r)) ∧
        ∀ id, runs st' id = if id = r.id then some q else runs st id
  finish_found : ∀ {st : σ} {current r}, Sound st → Fits r → runs st r.id = some current →
    current.status.isTerminal = false → ∃ st', Backend.take (.updateRun r) st = (.ok (), st')
  finish_finished : ∀ {st : σ} {current r}, Sound st → Fits r → runs st r.id = some current →
    current.status.isTerminal = true → Backend.take (.updateRun r) st
      = (.error (.runFinished r.id current.status (actionOf r)), st)
  finish_missing : ∀ {st : σ} {r}, Sound st → Fits r → runs st r.id = none →
    Backend.take (.updateRun r) st = (.error (.runMissing r.id), st)
  delete_ok : ∀ {st st' : σ} {id}, Sound st → Backend.take (.delete id) st = (.ok (), st') →
    Sound st' ∧ ∀ id', runs st' id' = (runs st id').filter (·.definition ≠ id)
  take_other : ∀ {s : Step} {st st' : σ} {a}, Sound st → writesRuns s = false →
    Backend.take s st = (.ok a, st') → Sound st' ∧ runs st' = runs st
  take_error : ∀ {s : Step} {st st' : σ} {e}, Backend.take s st = (.error e, st') → st' = st

theorem Ledger.run_ok {σ : Type} [Backend σ] (L : Ledger σ) {st st' : σ} {id : Uuid} {r : Run}
    (hs : L.Sound st) (h : Backend.take (.run id) st = (.ok r, st')) :
    L.runs st id = some r ∧ r.id = id := by
  cases hr : L.runs st id with
  | none =>
    rw [L.run_missing hs hr] at h
    cases h
  | some q =>
    obtain ⟨hfound, hid⟩ := L.run_found hs hr
    rw [hfound] at h
    cases h
    exact ⟨rfl, hid⟩

/-! ## Memory -/

namespace Memory

variable {m m' : Memory}

theorem run_of_none {id : Uuid} (h : Assoc.find? id m.runs = none) :
    m.run id = .error (.runMissing id) := by
  unfold run
  rw [h]

theorem updateRun_of_some {current r : Run} (h : Assoc.find? r.id m.runs = some current) :
    m.updateRun r = if current.status.isTerminal
      then .error (.runFinished r.id current.status (actionOf r)) else .ok (m.putRun r) := by
  unfold updateRun
  rw [run_eq_ok.2 h]
  rfl

theorem updateRun_of_none {r : Run} (h : Assoc.find? r.id m.runs = none) :
    m.updateRun r = .error (.runMissing r.id) := by
  unfold updateRun
  rw [run_of_none h]
  rfl

theorem find?_putRun (m : Memory) (r : Run) (id : Uuid) :
    Assoc.find? id (m.putRun r).runs = if id = r.id then some r else Assoc.find? id m.runs := by
  unfold putRun
  by_cases hid : id = r.id
  · rw [if_pos hid, hid]
    exact Assoc.find?_put_self _ _ _
  · rw [if_neg hid]
    exact Assoc.find?_put_of_ne hid _ _

theorem take_updateRun (m : Memory) (r : Run) :
    Backend.take (.updateRun r) m = m.written (m.updateRun r) := rfl

theorem take_other_runs {s : Step} {a : s.Answer} (hw : writesRuns s = false)
    (h : Backend.take s m = (.ok a, m')) : m'.runs = m.runs := by
  cases s with
  | save d v =>
    rw [take_save_eq_ok h]
    rfl
  | delete _ | appendRun _ | updateRun _ => cases hw
  | appendApproval e =>
    rw [← (Prod.mk.inj h).2]
    rfl
  | load _ | definitions _ | approvals _ | run _ | runs _ _ | orgRuns _ _ | summary _
  | templates | template _ => rw [← (Prod.mk.inj h).2]

/-- Runs are kept as they are, each under its own identifier. -/
def ledger : Ledger Memory where
  runs m id := Assoc.find? id m.runs
  Sound m := Assoc.Filed Run.id m.runs
  Fits _ := True
  run_found := by
    intro m id r hs h
    exact ⟨congrArg (·, m) (run_eq_ok.2 h), hs.key_of_find? h⟩
  run_missing := by
    intro m id hs h
    exact congrArg (·, m) (run_of_none h)
  start_ok := by
    intro m m' r ms hs _ h
    obtain rfl := (Prod.mk.inj h).2
    exact ⟨hs.put rfl, r, ⟨rfl, rfl, rfl⟩, find?_putRun m r⟩
  finish_ok := by
    intro m m' current r hs hc hsame h
    have hupdate := written_eq_ok h
    rw [updateRun_of_some hc] at hupdate
    cases ht : current.status.isTerminal with
    | true => simp [ht] at hupdate
    | false =>
      rw [ht] at hupdate
      obtain rfl : m.putRun r = m' := Except.ok.inj hupdate
      exact ⟨hs.put rfl, rfl, r, ⟨hsame, rfl, fun _ => rfl⟩, find?_putRun m r⟩
  finish_found := by
    intro m current r _ _ hc ht
    refine ⟨m.putRun r, ?_⟩
    rw [take_updateRun, updateRun_of_some hc, ht]
    rfl
  finish_finished := by
    intro m current r _ _ hc ht
    rw [take_updateRun, updateRun_of_some hc, ht]
    rfl
  finish_missing := by
    intro m r _ _ hc
    rw [take_updateRun, updateRun_of_none hc]
    rfl
  delete_ok := by
    intro m m' id hs h
    obtain rfl := delete_eq_ok (written_eq_ok h)
    refine ⟨hs.filter _, fun id' => ?_⟩
    exact Assoc.find?_filter hs.nodup (fun r => decide (r.definition ≠ id)) id'
  take_other := by
    intro s m m' a hs hw h
    have hruns := take_other_runs hw h
    rw [hruns]
    exact ⟨hs, rfl⟩
  take_error := take_error_eq

end Memory

/-! ## Tables -/

namespace Tables

variable {t t' : Tables}

/-- Each run has one row, with an object for its context. -/
structure RunsSound (t : Tables) : Prop where
  contexts : ∀ row ∈ t.runs, ∃ ms, row.context = .object ms
  nodup : (t.runs.map Run.id).Nodup

theorem id_of_runRow? {id : Uuid} {row : Run} (h : t.runRow? id = some row) : row.id = id := by
  have hid := List.find?_some h
  simpa using hid

/-- What can be written of how a run ended: its time and its error are of their declared types. -/
structure RunFits (r : Run) : Prop where
  writable : r.context.isWritable = true
  finishedAt : ∀ t ∈ r.finishedAt, t.IsUniversal ∧ t.isStorable = true
  lastError : r.lastError.IsTextOrNull

theorem RunFits.check {r : Run} (h : RunFits r) :
    Column.checkStorable r.finishedAt.toList [r.context] = .ok () := by
  have htimes : r.finishedAt.toList.all Timestamp.isStorable = true := by
    refine List.all_eq_true.2 fun t ht => ?_
    exact (h.finishedAt t (Option.mem_toList.1 ht)).2
  unfold Column.checkStorable
  simp [htimes, h.writable]

theorem RunFits.finishedAt_eq {r : Run} (h : RunFits r) :
    r.finishedAt.map Timestamp.toUniversal = r.finishedAt := by
  cases hf : r.finishedAt with
  | none => rfl
  | some t => rw [Option.map_some, (h.finishedAt t hf).1.toUniversal]

/-- What fits is looked at only if the stored run is. -/
theorem updateRun_of_fits {r : Run} (h : RunFits r) :
    t.updateRun r = match t.runRow? r.id with
      | none => .error (.runMissing r.id)
      | some current =>
        if current.status.isTerminal then .error (.runFinished r.id current.status (actionOf r))
        else .ok { t with runs := t.runs.map fun q => if q.id = r.id then { current with
          status := r.status
          finishedAt := r.finishedAt.map Timestamp.toUniversal
          lastError := r.lastError
          context := r.context } else q } := by
  unfold updateRun
  rw [h.check, h.lastError.column]
  rfl

theorem runRow?_append {row : Run} (hr : t.runRow? row.id = none)
    (h : t'.runs = t.runs ++ [row]) (id : Uuid) :
    t'.runRow? id = if id = row.id then some row else t.runRow? id := by
  unfold runRow?
  rw [h]
  exact Assoc.find?_snoc Run.id hr id

theorem runRow?_replace {row : Run}
    (h : t'.runs = t.runs.map fun r => if r.id = row.id then row else r) (id : Uuid) :
    t'.runRow? id = if id = row.id then (t.runRow? id).map fun _ => row else t.runRow? id := by
  unfold runRow?
  rw [h]
  exact Assoc.find?_map_replace Run.id t.runs row id

theorem RunsSound.append (hs : t.RunsSound) {row : Run}
    (hrow : ∃ ms, row.context = .object ms) (hnone : t.runRow? row.id = none)
    (h : t'.runs = t.runs ++ [row]) : t'.RunsSound where
  contexts := by
    rw [h]
    intro q hq
    rcases List.mem_append.1 hq with hq | hq
    · exact hs.contexts q hq
    · rw [List.mem_singleton.1 hq]
      exact hrow
  nodup := by
    have hfree : row.id ∉ t.runs.map Run.id := by
      intro hmem
      obtain ⟨q, hq, hid⟩ := List.mem_map.1 hmem
      have := List.find?_eq_none.1 hnone q hq
      simp [hid] at this
    rw [h, List.map_append]
    exact Assoc.nodup_append_singleton hs.nodup hfree

theorem RunsSound.replace (hs : t.RunsSound) {row : Run}
    (hrow : ∃ ms, row.context = .object ms)
    (h : t'.runs = t.runs.map fun r => if r.id = row.id then row else r) : t'.RunsSound where
  contexts := by
    rw [h]
    intro q hq
    obtain ⟨r, hr, rfl⟩ := List.mem_map.1 hq
    split
    · exact hrow
    · exact hs.contexts r hr
  nodup := by
    have hids : t'.runs.map Run.id = t.runs.map Run.id := by
      rw [h, List.map_map]
      refine List.map_congr_left fun r _ => ?_
      show (if r.id = row.id then row else r).id = r.id
      split
      next hid => exact hid.symm
      · rfl
    rw [hids]
    exact hs.nodup

theorem RunsSound.filter (hs : t.RunsSound) {p : Run → Bool} (h : t'.runs = t.runs.filter p) :
    t'.RunsSound where
  contexts := by
    rw [h]
    exact fun q hq => hs.contexts q (List.mem_filter.1 hq).1
  nodup := by
    rw [h]
    exact hs.nodup.sublist (List.filter_sublist.map Run.id)

theorem take_updateRun (t : Tables) (r : Run) :
    Backend.take (.updateRun r) t = t.written (t.updateRun r) := rfl

theorem take_other_runs {s : Step} {a : s.Answer} (hw : writesRuns s = false)
    (h : Backend.take s t = (.ok a, t')) : t'.runs = t.runs := by
  cases s with
  | save d v =>
    obtain ⟨-, _, -, -, ⟨-, rfl⟩ | ⟨-, rfl⟩⟩ := save_eq_ok (written_eq_ok h)
    · rfl
    · rfl
  | delete _ | appendRun _ | updateRun _ => cases hw
  | appendApproval e =>
    obtain ⟨_, -, rfl⟩ := appendApproval_eq_ok (written_eq_ok h)
    rfl
  | load _ | definitions _ | approvals _ | run _ | runs _ _ | orgRuns _ _ | summary _
  | templates | template _ => rw [← (Prod.mk.inj h).2]

/-- Runs are kept by universal time, with an object for a context. -/
def ledger : Ledger Tables where
  runs := runRow?
  Sound := RunsSound
  Fits := RunFits
  run_found := by
    intro t id row hs h
    have hread : t.run id = .ok row := by
      unfold run
      rw [h]
      exact readRun_of_object (hs.contexts row (List.mem_of_find?_eq_some h))
    exact ⟨congrArg (·, t) hread, id_of_runRow? h⟩
  run_missing := by
    intro t id hs h
    have hread : t.run id = .error (.runMissing id) := by
      unfold run
      rw [h]
    exact congrArg (·, t) hread
  start_ok := by
    intro t t' r ms hs hcontext h
    obtain ⟨row, hrow, hnone, rfl⟩ := appendRun_eq_ok (written_eq_ok h)
    obtain ⟨_, -, hrow⟩ := bind_eq_ok.1 hrow
    obtain ⟨org, -, hrow⟩ := bind_eq_ok.1 hrow
    obtain ⟨lastError, -, hrow⟩ := bind_eq_ok.1 hrow
    obtain rfl := pure_eq_ok.1 hrow
    let row : Run := { r with
      org := org
      startedAt := r.startedAt.toUniversal
      finishedAt := r.finishedAt.map Timestamp.toUniversal
      lastError := lastError }
    have hobject : ∃ ms, row.context = .object ms := ⟨ms, hcontext⟩
    have hnone : t.runRow? row.id = none := hnone
    exact ⟨hs.append hobject hnone rfl, row, ⟨rfl, rfl, rfl⟩, runRow?_append hnone rfl⟩
  finish_ok := by
    intro t t' current r hs hc hsame h
    obtain ⟨current', lastError, hc', hrunning, hlast, rfl⟩ := updateRun_eq_ok (written_eq_ok h)
    obtain rfl : current = current' := Option.some.inj (hc.symm.trans hc')
    let row : Run := { current with
      status := r.status
      finishedAt := r.finishedAt.map Timestamp.toUniversal
      lastError := lastError
      context := r.context }
    have hid : row.id = r.id := show current.id = r.id from id_of_runRow? hc
    have hstart : row.SameStart current := ⟨rfl, rfl, rfl, rfl, hsame.context⟩
    have hobject : ∃ ms, row.context = .object ms := by
      rw [hstart.context]
      exact hs.contexts current (List.mem_of_find?_eq_some hc)
    have hkept : RunFits r → row = r := by
      intro hf
      have hlast : lastError = r.lastError := Except.ok.inj (hlast.symm.trans hf.lastError.column)
      show Run.mk current.id current.definition current.org r.status current.startedAt
        (r.finishedAt.map Timestamp.toUniversal) lastError r.context = r
      rw [← hsame.id, ← hsame.definition, ← hsame.org, ← hsame.startedAt, hf.finishedAt_eq, hlast]
    rw [← hid]
    refine ⟨hs.replace hobject rfl, hrunning, row, ⟨hstart, rfl, hkept⟩, fun id => ?_⟩
    rw [runRow?_replace rfl id]
    split
    next hown => rw [hown, hid, hc, Option.map_some]
    · rfl
  finish_found := by
    intro t current r _ hf hc ht
    rw [take_updateRun, updateRun_of_fits hf, hc]
    simp only [ht]
    exact ⟨_, rfl⟩
  finish_finished := by
    intro t current r _ hf hc ht
    rw [take_updateRun, updateRun_of_fits hf, hc]
    simp only [ht]
    rfl
  finish_missing := by
    intro t r _ hf hc
    rw [take_updateRun, updateRun_of_fits hf, hc]
    rfl
  delete_ok := by
    intro t t' id hs h
    obtain rfl := delete_eq_ok (written_eq_ok h)
    refine ⟨hs.filter rfl, fun id' => ?_⟩
    exact Assoc.find?_filter_values hs.nodup (fun r => decide (r.definition ≠ id)) id'
  take_other := by
    intro s t t' a hs hw h
    have hruns := take_other_runs hw h
    refine ⟨⟨hruns ▸ hs.contexts, hruns ▸ hs.nodup⟩, ?_⟩
    unfold runRow?
    rw [hruns]
  take_error := take_error_eq

end Tables

end Store

end Workflow
