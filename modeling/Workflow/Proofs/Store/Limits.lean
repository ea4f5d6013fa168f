import Workflow.Proofs.Store.Runs
import Workflow.Store.Memory

/-!
# Limits of lists of runs

Either store lists the runs of an automation or of an organization newest first, and a limit
that is no negative number cuts the list off after as many runs.  They differ at the other
limits.  In memory a negative limit stands for zero, and any number is a limit.  In a table a
negative limit is none at all, and a limit must fit into 64 bits.

    started apart → newest first in one order only, up to the limit       (limits_decide)
    the same runs are recorded in both → both hold the same               (HoldSame.record)
    a negative limit: nothing in memory, everything in a table            (limit_disregarded)
-/

namespace Workflow

/-! ## Moments by universal time -/

theorem Timestamp.instant_toUniversal (t : Timestamp) : t.toUniversal.instant = t.instant := by
  simp [instant, toUniversal]

/-- The run as a table gives it back. -/
def Run.universal (r : Run) : Run :=
  { r with
    startedAt := r.startedAt.toUniversal
    finishedAt := r.finishedAt.map Timestamp.toUniversal }

theorem Run.IsNewestFirst.universal {rs listed : List Run} (h : IsNewestFirst rs listed) :
    IsNewestFirst (rs.map Run.universal) (listed.map Run.universal) where
  perm := h.perm.map _
  ordered := by
    refine List.pairwise_map.2 (h.ordered.imp fun {a b} hab => ?_)
    show b.startedAt.toUniversal.instant < a.startedAt.toUniversal.instant
    rwa [Timestamp.instant_toUniversal, Timestamp.instant_toUniversal]

theorem Value.same_text_right (v : Value) (s : String) :
    v.same (.text s) = decide (v = .text s) := by
  cases v with
  | text s' => simp
  | null | bool _ | int _ | float _ | list _ | object _ | numbered _ _ | foreign =>
    simp [same, quantity?, number?]

namespace Store

open Run (StartedApart IsNewestFirst)

/-! ## Lists of either store -/

/-- Whose runs are listed. -/
inductive Owner where
  | automation (id : Uuid)
  | org (name : String)

def Owner.owns : Owner → Run → Bool
  | automation id, r => r.definition = id
  | org name, r => r.org = .text name

variable {m : Memory} {t : Tables} {owner : Owner} {n : Int}

def Memory.runsOwned (m : Memory) (owner : Owner) : List Run :=
  (Assoc.values m.runs).filter owner.owns

def Memory.listRuns (m : Memory) : Owner → Value → Except Error (List Run)
  | .automation id, limit => m.runsOf id limit
  | .org name, limit => m.runsOfOrg (.text name) limit

def Tables.runsOwned (t : Tables) (owner : Owner) : List Run := t.runs.filter owner.owns

def Tables.listRuns (t : Tables) : Owner → Value → Except Error (List Run)
  | .automation id, limit => t.runsOf id limit
  | .org name, limit => t.runsOfOrg (.text name) limit

theorem Memory.listRuns_int (m : Memory) (owner : Owner) (n : Int) :
    m.listRuns owner (.int n) = Run.recent (m.runsOwned owner) n := by
  cases owner with
  | automation id => rfl
  | org name =>
    show Run.recent ((Assoc.values m.runs).filter (·.org.same (.text name))) n = _
    simp only [Value.same_text_right]
    rfl

theorem Tables.listRuns_int (t : Tables) (owner : Owner) (n : Int) :
    t.listRuns owner (.int n) = Tables.recent (t.runsOwned owner) (some n) := by
  cases owner with
  | automation id => rfl
  | org name => rfl

/-! ## The same runs in both stores -/

/-- The rows are those of the runs in memory, in any order. -/
structure HoldSame (m : Memory) (t : Tables) : Prop where
  filed : Assoc.Filed Run.id m.runs
  rows : t.runs.Perm ((Assoc.values m.runs).map Run.universal)
  zoned : ∀ r ∈ Assoc.values m.runs, r.startedAt.isZoned = true

theorem holdSame_empty (catalog : Catalog) : HoldSame (.empty catalog) .empty where
  filed := .nil
  rows := .nil
  zoned := by simp [Memory.empty, Assoc.values]

theorem zoned_of_runRow {r row : Run} (h : runRow r = .ok row) : r.startedAt.isZoned = true := by
  obtain ⟨_, hcheck, -⟩ := bind_eq_ok.1 h
  unfold Column.checkStorable at hcheck
  split at hcheck
  next hall =>
    have htimes := (Bool.and_eq_true_iff.1 hall).1
    have hstart := List.all_eq_true.1 htimes r.startedAt List.mem_cons_self
    unfold Timestamp.isStorable at hstart
    rw [Bool.and_assoc] at hstart
    exact (Bool.and_eq_true_iff.1 hstart).1
  next => cases hcheck

/-- A new run that a table can hold as it is, up to the zones of its times, is recorded in
both. -/
theorem HoldSame.record (h : HoldSame m t) {r : Run} (hr : runRow r = .ok r.universal)
    (hnew : Assoc.find? r.id m.runs = none) :
    ∃ t', t.appendRun r = .ok t' ∧ HoldSame (m.putRun r) t' := by
  have hvalues : Assoc.values (m.putRun r).runs = Assoc.values m.runs ++ [r] :=
    Assoc.values_put_of_none hnew
  have hrow : t.runRow? r.id = none := by
    refine List.find?_eq_none.2 fun row hrow hid => ?_
    obtain ⟨q, hq, rfl⟩ := List.mem_map.1 (h.rows.subset hrow)
    have hfound := h.filed.find?_of_mem_values hq
    rw [show q.id = r.id from of_decide_eq_true hid, hnew] at hfound
    cases hfound
  refine ⟨{ t with runs := t.runs ++ [r.universal] }, ?_, h.filed.put rfl, ?_, ?_⟩
  · unfold Tables.appendRun
    rw [hr, hrow]
    rfl
  · rw [hvalues, List.map_append]
    exact h.rows.append (List.Perm.refl _)
  · intro q hq
    rw [hvalues] at hq
    rcases List.mem_append.1 hq with hq | hq
    · exact h.zoned q hq
    · rw [List.mem_singleton.1 hq]
      exact zoned_of_runRow hr

theorem HoldSame.comparable (h : HoldSame m t) (owner : Owner) :
    Timestamp.allComparable ((m.runsOwned owner).map Run.startedAt) = true := by
  refine Bool.or_eq_true_iff.2 (.inl (List.all_eq_true.2 fun start hstart => ?_))
  obtain ⟨r, hr, rfl⟩ := List.mem_map.1 hstart
  exact h.zoned r (List.mem_filter.1 hr).1

theorem HoldSame.owned_perm (h : HoldSame m t) (owner : Owner) :
    (t.runsOwned owner).Perm ((m.runsOwned owner).map Run.universal) := by
  have hrows := h.rows.filter owner.owns
  have howns : owner.owns ∘ Run.universal = owner.owns := by
    cases owner with
    | automation | org => rfl
  rwa [List.filter_map, howns] at hrows

/-! ## Main result -/

/-- Of the runs that memory holds, as many as a limit admits are listed, if their starts can
be compared. -/
structure ListedInMemory (m : Memory) (owner : Owner) (listed : List Run) : Prop where
  newestFirst : IsNewestFirst (m.runsOwned owner) listed
  listRuns : ∀ n : Int, m.listRuns owner (.int n) =
    if Timestamp.allComparable ((m.runsOwned owner).map Run.startedAt) = true
    then .ok (listed.take n.toNat) else .error (.faulty .mixedZones)

/-- Of the rows that a table holds, as many as a limit of 64 bits admits are listed, and all
of them if it is negative. -/
structure ListedInTable (t : Tables) (owner : Owner) (listed : List Run) : Prop where
  newestFirst : IsNewestFirst (t.runsOwned owner) listed
  admitted : ∀ n : Int, 0 ≤ n → n < 2 ^ 63 → t.listRuns owner (.int n) = .ok (listed.take n.toNat)
  negative : ∀ n : Int, -(2 ^ 63) ≤ n → n < 0 → t.listRuns owner (.int n) = .ok listed
  wide : ∀ n : Int, n < -(2 ^ 63) ∨ 2 ^ 63 ≤ n →
    t.listRuns owner (.int n) = .error (.faulty .integerTooWide)

theorem listedInMemory (h : StartedApart (m.runsOwned owner)) :
    ListedInMemory m owner (Run.newestFirst (m.runsOwned owner)) where
  newestFirst := h.newestFirst
  listRuns n := m.listRuns_int owner n

theorem listedInTable (h : StartedApart (t.runsOwned owner)) (hk : KeepContexts t.runs) :
    ListedInTable t owner (Run.newestFirst (t.runsOwned owner)) := by
  have hown : KeepContexts (t.runsOwned owner) := fun row hrow => hk row (List.mem_filter.1 hrow).1
  have hlist (n : Int) : t.listRuns owner (.int n) =
      if -(2 ^ 63) ≤ n ∧ n < 2 ^ 63 then
        .ok (if n < 0 then Run.newestFirst (t.runsOwned owner)
          else (Run.newestFirst (t.runsOwned owner)).take n.toNat)
      else .error (.faulty .integerTooWide) := by
    rw [t.listRuns_int, Tables.recent_eq hown, h.mergeSort_eq]
  refine ⟨h.newestFirst, fun n hn hw => ?_, fun n hw hn => ?_, fun n hn => ?_⟩
  · rw [hlist, if_pos (by omega), if_neg (by omega)]
  · rw [hlist, if_pos (by omega), if_pos hn]
  · rw [hlist, if_neg (by omega)]

/-- Runs of which no two started at one instant are listed newest first by either store, each
by its rule for limits.  If both hold the same runs, the lists are the same at every limit
that is neither negative nor beyond 64 bits. -/
theorem limits_decide (m : Memory) (t : Tables) (owner : Owner)
    (hm : StartedApart (m.runsOwned owner)) (ht : StartedApart (t.runsOwned owner))
    (hk : KeepContexts t.runs) :
    ∃ listed rows, ListedInMemory m owner listed ∧ ListedInTable t owner rows ∧
      (HoldSame m t → rows = listed.map Run.universal ∧
        ∀ n : Int, 0 ≤ n → n < 2 ^ 63 →
          m.listRuns owner (.int n) = .ok (listed.take n.toNat) ∧
          t.listRuns owner (.int n) = .ok ((listed.take n.toNat).map Run.universal)) := by
  have hmemory := listedInMemory hm
  have htable := listedInTable ht hk
  refine ⟨_, _, hmemory, htable, fun h => ?_⟩
  have hrows := htable.newestFirst.unique hmemory.newestFirst.universal (h.owned_perm owner)
  refine ⟨hrows, fun n hn hw => ⟨?_, ?_⟩⟩
  · rw [hmemory.listRuns, if_pos (h.comparable owner)]
  · rw [htable.admitted n hn hw, hrows, List.map_take]

/-! ## Two runs in two zones -/

def firstRun : Run :=
  Run.start (Uuid.ofNat 1) (Uuid.ofNat 7) (.text "acme") (.object [])
    ⟨10 * Timestamp.hour, some Timestamp.hour⟩

def secondRun : Run :=
  Run.start (Uuid.ofNat 2) (Uuid.ofNat 7) (.text "acme") (.object []) ⟨10 * Timestamp.hour, some 0⟩

def inMemory : Memory := ((Memory.empty .empty).putRun firstRun).putRun secondRun

def inTables : Tables := { Tables.empty with runs := [firstRun.universal, secondRun.universal] }

theorem holdSame_zones : HoldSame inMemory inTables := by
  obtain ⟨t₁, ht₁, h₁⟩ := (holdSame_empty .empty).record (r := firstRun) rfl rfl
  obtain ⟨t₂, ht₂, h₂⟩ := h₁.record (r := secondRun) rfl rfl
  have hfirst : Tables.empty.appendRun firstRun =
      .ok { Tables.empty with runs := [firstRun.universal] } := rfl
  obtain rfl := Except.ok.inj (ht₁.symm.trans hfirst)
  obtain rfl := Except.ok.inj (ht₂.symm.trans (rfl : _ = Except.ok inTables))
  exact h₂

theorem startedApart_inMemory (owner : Owner) : StartedApart (inMemory.runsOwned owner) := by
  have hall : StartedApart (Assoc.values inMemory.runs) := by
    refine List.pairwise_pair.2 ?_
    decide
  exact hall.filter _

theorem startedApart_inTables (owner : Owner) : StartedApart (inTables.runsOwned owner) := by
  have hall : StartedApart inTables.runs := by
    refine List.pairwise_pair.2 ?_
    decide
  exact hall.filter _

theorem keepContexts_inTables : KeepContexts inTables.runs := by
  intro row hrow
  rcases List.mem_cons.1 hrow with rfl | hrow
  · exact ⟨[], rfl⟩
  · rw [List.mem_singleton.1 hrow]
    exact ⟨[], rfl⟩

theorem isNewestFirst_inMemory :
    IsNewestFirst (inMemory.runsOwned (.org "acme")) [secondRun, firstRun] where
  perm := List.Perm.swap _ _ _
  ordered := by
    refine List.pairwise_pair.2 ?_
    decide

theorem limits_decide_zones :
    StartedApart (inMemory.runsOwned (.org "acme")) ∧
    StartedApart (inTables.runsOwned (.org "acme")) ∧ KeepContexts inTables.runs ∧
    HoldSame inMemory inTables ∧
    ListedInMemory inMemory (.org "acme") [secondRun, firstRun] ∧
    ListedInTable inTables (.org "acme") [secondRun.universal, firstRun.universal] ∧
    ∀ n : Int, 0 ≤ n → n < 2 ^ 63 →
      inMemory.listRuns (.org "acme") (.int n) = .ok ([secondRun, firstRun].take n.toNat) ∧
      inTables.listRuns (.org "acme") (.int n) =
        .ok (([secondRun, firstRun].take n.toNat).map Run.universal) := by
  have hm := startedApart_inMemory (.org "acme")
  have ht := startedApart_inTables (.org "acme")
  obtain ⟨listed, rows, hmemory, htable, hsame⟩ :=
    limits_decide inMemory inTables (.org "acme") hm ht keepContexts_inTables
  obtain rfl := hmemory.newestFirst.unique isNewestFirst_inMemory (List.Perm.refl _)
  obtain ⟨rfl, hlists⟩ := hsame holdSame_zones
  exact ⟨hm, ht, keepContexts_inTables, holdSame_zones, hmemory, htable, hlists⟩

/-- The same runs are in both stores, and a list of at most minus one of them has none in
memory and all in the table. -/
theorem limit_disregarded :
    HoldSame inMemory inTables ∧ StartedApart (inTables.runsOwned (.org "acme")) ∧
    inMemory.listRuns (.org "acme") (.int (-1)) = .ok [] ∧
    inTables.listRuns (.org "acme") (.int (-1)) =
      .ok [secondRun.universal, firstRun.universal] := by
  have htable := listedInTable (startedApart_inTables (.org "acme")) keepContexts_inTables
  have hrows := htable.newestFirst.unique isNewestFirst_inMemory.universal (List.Perm.refl _)
  refine ⟨holdSame_zones, startedApart_inTables _, ?_, ?_⟩
  · rw [inMemory.listRuns_int, Run.recent_of_comparable (holdSame_zones.comparable _)]
    rfl
  · rw [htable.negative (-1) (by decide) (by decide), hrows]
    rfl

end Store

end Workflow
