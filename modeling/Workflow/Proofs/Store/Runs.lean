import Workflow.Proofs.Assoc
import Workflow.Proofs.Run.Newest
import Workflow.Proofs.Store.Row

/-!
# Runs in two stores

Runs in memory and their rows are the same records, each filed under its own
identifier, in the order in which they were started.  If no two were started at one
instant then either store lists them newest first in one order only.

    runs in the order of their starts → newest first is the reverse   (newestFirst, mergeSort)
    the rows of a table are listed as the runs in memory are          (tables_recent_eq)
-/

namespace Workflow

/-- A run as it is kept, with an object for its context. -/
structure Run.Typed (r : Run) : Prop where
  org : r.org.IsText
  context : ∃ ms, r.context = .object ms
  writable : r.context.isWritable = true
  startedAt : r.startedAt.IsUniversal

theorem Value.toObject_object (ms : Config) : (Value.object ms).toObject = .ok ms := by
  cases ms with
  | nil => rfl
  | cons e rest => rfl

theorem Timestamp.IsUniversal.isZoned {t : Timestamp} (h : t.IsUniversal) : t.isZoned = true := by
  unfold Timestamp.isZoned
  rw [show t.offset = some 0 from h]
  rfl

/-- Times by universal time can be ordered. -/
theorem Timestamp.allComparable_of_universal {ts : List Timestamp}
    (h : ∀ t ∈ ts, t.IsUniversal) : Timestamp.allComparable ts = true := by
  have hz : ts.all Timestamp.isZoned = true := List.all_eq_true.2 fun t ht => (h t ht).isZoned
  unfold Timestamp.allComparable
  rw [hz]
  rfl

namespace Store

/-! ## Lists of runs -/

/-- Each run was started after those before it. -/
def StartedInOrder (rs : List Run) : Prop :=
  rs.Pairwise fun a b => a.startedAt.instant < b.startedAt.instant

variable {rs : List Run}

theorem StartedInOrder.apart (h : StartedInOrder rs) : Run.StartedApart rs :=
  h.imp Int.ne_of_lt

theorem StartedInOrder.reverse (h : StartedInOrder rs) :
    rs.reverse.Pairwise fun a b => Run.startedFirst a b = true := by
  refine List.pairwise_reverse.2 (h.imp ?_)
  intro a b hab
  show decide (a.startedAt.instant ≤ b.startedAt.instant) = true
  exact decide_eq_true (Int.le_of_lt hab)

theorem StartedInOrder.newestFirst (h : StartedInOrder rs) : Run.newestFirst rs = rs.reverse :=
  List.mergeSort_of_pairwise h.reverse

/-- No two starts are equal, so there is one order only. -/
theorem StartedInOrder.mergeSort (h : StartedInOrder rs) :
    rs.mergeSort Run.startedFirst = rs.reverse := by
  rw [h.apart.mergeSort_eq, h.newestFirst]

theorem recent_eq (h : StartedInOrder rs) (ht : ∀ r ∈ rs, r.Typed) (n : Int) :
    Run.recent rs n = .ok (rs.reverse.take n.toNat) := by
  have hz : Timestamp.allComparable (rs.map Run.startedAt) = true := by
    refine Timestamp.allComparable_of_universal ?_
    intro t htime
    obtain ⟨r, hr, rfl⟩ := List.mem_map.1 htime
    exact (ht r hr).startedAt
  rw [Run.recent_of_comparable hz, h.newestFirst]

/-! ## Lists of rows -/

/-- The contexts that are kept in the column are objects. -/
def KeepContexts (rows : List Run) : Prop := ∀ row ∈ rows, ∃ ms, row.context = .object ms

theorem readRun_of_object {row : Run} (h : ∃ ms, row.context = .object ms) :
    readRun row = .ok row := by
  obtain ⟨ms, hms⟩ := h
  unfold readRun
  rw [hms, Value.toObject_object]
  show Except.ok { row with context := .object ms } = Except.ok row
  rw [← hms]

theorem KeepContexts.mapM_readRun (h : KeepContexts rs) : rs.mapM readRun = .ok rs := by
  have hread := mapM_map_eq_ok (f := readRun) (g := id) fun row hrow => readRun_of_object (h row hrow)
  rwa [List.map_id] at hread

/-- What a table makes of a limit. -/
theorem Tables.recent_eq (h : KeepContexts rs) (n : Int) :
    Tables.recent rs (some n) =
      if -(2 ^ 63) ≤ n ∧ n < 2 ^ 63 then
        .ok (if n < 0 then rs.mergeSort Run.startedFirst
          else (rs.mergeSort Run.startedFirst).take n.toNat)
      else .error (.faulty .integerTooWide) := by
  show (Column.inserting (Column.integer n) >>= fun n =>
    (if n < 0 then rs.mergeSort Run.startedFirst
      else (rs.mergeSort Run.startedFirst).take n.toNat).mapM readRun) = _
  by_cases hn : -(2 ^ 63) ≤ n ∧ n < 2 ^ 63
  · rw [if_pos hn, Column.integer_of_fits hn]
    refine KeepContexts.mapM_readRun fun row hrow => h row ?_
    split at hrow
    · exact List.mem_mergeSort.1 hrow
    · exact List.mem_mergeSort.1 (List.mem_of_mem_take hrow)
  · rw [if_neg hn, show Column.integer n = .error .integerTooWide from if_neg hn]
    rfl

/-- A table lists its rows as memory lists its runs, up to a limit that a column can hold. -/
theorem tables_recent_eq (h : StartedInOrder rs) (ht : ∀ r ∈ rs, r.Typed) {n : Int}
    (hn : 0 ≤ n ∧ n < 2 ^ 63) : Tables.recent rs (some n) = Run.recent rs n := by
  rw [recent_eq h ht, Tables.recent_eq fun r hr => (ht r hr).context, if_pos (by omega),
    if_neg (by omega), h.mergeSort]

/-! ## Agreement -/

/-- Runs, and the rows that stand for them; none was started after `clock`. -/
structure RunsAgree (clock : Int) (runs : List (Uuid × Run)) (rows : List Run) : Prop where
  rows_eq : rows = Assoc.values runs
  filed : Assoc.Filed Run.id runs
  typed : ∀ r ∈ rows, r.Typed
  ordered : StartedInOrder rows
  past : ∀ r ∈ rows, r.startedAt.instant ≤ clock

namespace RunsAgree

variable {clock clock' : Int} {runs : List (Uuid × Run)} {rows : List Run} {r : Run}

theorem nil (clock : Int) : RunsAgree clock [] [] where
  rows_eq := rfl
  filed := Assoc.Filed.nil
  typed := by simp
  ordered := List.Pairwise.nil
  past := by simp

theorem mono (h : RunsAgree clock runs rows) (hc : clock ≤ clock') :
    RunsAgree clock' runs rows where
  rows_eq := h.rows_eq
  filed := h.filed
  typed := h.typed
  ordered := h.ordered
  past r hr := Int.le_trans (h.past r hr) hc

theorem find?_eq (h : RunsAgree clock runs rows) (id : Uuid) :
    rows.find? (·.id = id) = Assoc.find? id runs := by
  rw [h.filed.find?_eq id, h.rows_eq]

theorem append (h : RunsAgree clock runs rows) (hr : r.Typed)
    (hnew : Assoc.find? r.id runs = none) (hstart : clock < r.startedAt.instant) :
    RunsAgree r.startedAt.instant (Assoc.put r.id r runs) (rows ++ [r]) where
  rows_eq := by rw [Assoc.values_put_of_none hnew, h.rows_eq]
  filed := h.filed.put rfl
  typed := by
    intro q hq
    rcases List.mem_append.1 hq with hq | hq
    · exact h.typed q hq
    · rw [List.mem_singleton.1 hq]
      exact hr
  ordered := by
    refine List.pairwise_append.2 ⟨h.ordered, List.pairwise_singleton _ _, ?_⟩
    intro a ha b hb
    rw [List.mem_singleton.1 hb]
    exact Int.lt_of_le_of_lt (h.past a ha) hstart
  past := by
    intro q hq
    rcases List.mem_append.1 hq with hq | hq
    · exact Int.le_of_lt (Int.lt_of_le_of_lt (h.past q hq) hstart)
    · obtain rfl := List.mem_singleton.1 hq
      exact Int.le_refl _

theorem replace (h : RunsAgree clock runs rows) {current : Run}
    (hf : Assoc.find? r.id runs = some current) (hr : r.Typed)
    (hstart : r.startedAt = current.startedAt) :
    RunsAgree clock (Assoc.put r.id r runs)
      (rows.map fun q => if q.id = r.id then r else q) := by
  -- a run that is replaced keeps its place and its start
  have hsame : ∀ q ∈ rows, (if q.id = r.id then r else q).startedAt = q.startedAt := by
    intro q hq
    by_cases hid : q.id = r.id
    · rw [h.rows_eq] at hq
      obtain ⟨e, he, rfl⟩ := List.mem_map.1 hq
      have hkey : e.1 = r.id := (h.filed.own e he).symm.trans hid
      have hfound : Assoc.find? e.1 runs = some e.2 := Assoc.find?_of_mem h.filed.nodup he
      rw [hkey, hf] at hfound
      rw [if_pos hid, hstart, Option.some.inj hfound]
    · rw [if_neg hid]
  refine ⟨?_, h.filed.put rfl, ?_, ?_, ?_⟩
  · rw [h.filed.values_put_of_some hf, h.rows_eq]
  · intro q hq
    obtain ⟨q', hq', rfl⟩ := List.mem_map.1 hq
    by_cases hid : q'.id = r.id
    · rw [if_pos hid]
      exact hr
    · rw [if_neg hid]
      exact h.typed q' hq'
  · refine List.pairwise_map.2 (h.ordered.imp_of_mem ?_)
    intro a b ha hb hab
    rw [hsame a ha, hsame b hb]
    exact hab
  · intro q hq
    obtain ⟨q', hq', rfl⟩ := List.mem_map.1 hq
    rw [hsame q' hq']
    exact h.past q' hq'

theorem filter (h : RunsAgree clock runs rows) (p : Run → Bool) :
    RunsAgree clock (runs.filter fun e => p e.2) (rows.filter p) where
  rows_eq := by
    rw [h.rows_eq, Assoc.values, Assoc.values, List.filter_map]
    rfl
  filed := h.filed.filter _
  typed r hr := h.typed r (List.mem_filter.1 hr).1
  ordered := h.ordered.filter p
  past r hr := h.past r (List.mem_filter.1 hr).1

/-- Whichever runs are asked for, either store lists them alike. -/
theorem recent_filter (h : RunsAgree clock runs rows) (p : Run → Bool) {n : Int}
    (hn : 0 ≤ n ∧ n < 2 ^ 63) :
    Tables.recent (rows.filter p) (some n) = Run.recent ((Assoc.values runs).filter p) n := by
  have hp := h.filter p
  rw [tables_recent_eq hp.ordered hp.typed hn, h.rows_eq]

end RunsAgree

end Store

end Workflow
