import Mathlib.Data.List.Induction
import Workflow.Proofs.Run.Newest
import Workflow.Proofs.Sorting

/-!
# Runs that started at one instant

The starts of some runs may leave open which of two comes first.  Then it is settled by the
positions at which the runs are recorded, and the one recorded later comes first.  So any runs
are ranked in one way only, even if one of them is recorded twice, and a limit says how much
of the ranking is listed and never changes it.

    one run more stands before those not started after it, and all else stays   (IsRanking.record)
    newest first is a ranking, and there is no other       (exists_isRanking, IsRanking.unique)
    at every limit a beginning of the ranking is listed                     (recent_ranked)
-/

namespace Workflow.Run

variable {rs : List Run} {ranked ranked' front back : List (Run × Nat)} {r : Run}

/-- The starts of any two can be compared. -/
def Orderable (rs : List Run) : Prop :=
  ∀ a ∈ rs, ∀ b ∈ rs, Timestamp.comparable a.startedAt b.startedAt = true

theorem Orderable.allComparable (h : Orderable rs) :
    Timestamp.allComparable (rs.map startedAt) = true :=
  Timestamp.allComparable_iff.2 (List.forall_mem_map.2 fun a ha =>
    List.forall_mem_map.2 (h a ha))

/-! ## Rankings -/

/-- The runs with their positions, newest first, and of equal starts the later position first. -/
structure IsRanking (rs : List Run) (ranked : List (Run × Nat)) : Prop where
  perm : ranked.Perm rs.zipIdx
  descending : ranked.Pairwise fun a b => b.1.startedAt.instant ≤ a.1.startedAt.instant
  ties : ranked.Pairwise fun a b => a.1.startedAt.instant = b.1.startedAt.instant → b.2 < a.2

theorem IsRanking.nil : IsRanking [] [] where
  perm := .nil
  descending := .nil
  ties := .nil

theorem IsRanking.position_lt (h : IsRanking rs ranked) {e : Run × Nat} (he : e ∈ ranked) :
    e.2 < rs.length := List.snd_lt_of_mem_zipIdx (h.perm.subset he)

theorem IsRanking.run_mem (h : IsRanking rs ranked) {e : Run × Nat} (he : e ∈ ranked) :
    e.1 ∈ rs := List.fst_mem_of_mem_zipIdx (h.perm.subset he)

/-- One run more is put before those that were not started after it.  Nothing else is moved. -/
theorem IsRanking.record (h : IsRanking rs (front ++ back))
    (hfront : ∀ e ∈ front, r.startedAt.instant < e.1.startedAt.instant)
    (hback : ∀ e ∈ back, e.1.startedAt.instant ≤ r.startedAt.instant) :
    IsRanking (rs ++ [r]) (front ++ (r, rs.length) :: back) where
  perm := by
    rw [List.zipIdx_append, Nat.zero_add]
    exact List.perm_middle.trans ((h.perm.cons _).trans (List.perm_append_singleton _ _).symm)
  descending := pairwise_insert h.descending (fun e he => Int.le_of_lt (hfront e he)) hback
  ties := by
    refine pairwise_insert h.ties (fun e he heq => ?_) fun e he _ => ?_
    · exact absurd heq.symm (Int.ne_of_lt (hfront e he))
    · exact h.position_lt (List.mem_append_right front he)

theorem IsRanking.record_newest (h : IsRanking rs ranked)
    (hr : ∀ q ∈ rs, q.startedAt.instant ≤ r.startedAt.instant) :
    IsRanking (rs ++ [r]) ((r, rs.length) :: ranked) := by
  have hsplit : IsRanking rs ([] ++ ranked) := h
  exact hsplit.record nofun fun e he => hr e.1 (h.run_mem he)

/-- Start and position leave no choice of order. -/
theorem IsRanking.unique (h : IsRanking rs ranked) (h' : IsRanking rs ranked') :
    ranked' = ranked := by
  refine (h'.perm.trans h.perm.symm).eq_of_pairwise ?_ (h'.descending.and h'.ties)
    (h.descending.and h.ties)
  rintro a b - - ⟨hle, hlater⟩ ⟨hge, hearlier⟩
  have heq : a.1.startedAt.instant = b.1.startedAt.instant := Int.le_antisymm hge hle
  have := hlater heq
  have := hearlier heq.symm
  omega

/-! ## Sorting -/

/-- Where one run more is put when the runs are sorted. -/
theorem newestFirst_snoc (rs : List Run) (r : Run) :
    ∃ newer older, newestFirst (rs ++ [r]) = newer ++ r :: older ∧
      newestFirst rs = newer ++ older ∧
      (∀ q ∈ newer, r.startedAt.instant < q.startedAt.instant) ∧
      ∀ q ∈ older, q.startedAt.instant ≤ r.startedAt.instant := by
  obtain ⟨newer, older, hall, hrest, hnewer, holder⟩ :=
    mergeSort_cons_split startedFirst_trans startedFirst_total r rs.reverse
  refine ⟨newer, older, ?_, hrest, fun q hq => ?_, fun q hq => startedFirst_iff.1 (holder q hq)⟩
  · rw [newestFirst, List.reverse_append]
    exact hall
  · have hlt := hnewer q hq
    rwa [startedFirst, decide_eq_false_iff_not, Int.not_le] at hlt

theorem exists_isRanking (rs : List Run) :
    ∃ ranked, IsRanking rs ranked ∧ ranked.map Prod.fst = newestFirst rs := by
  induction rs using List.reverseRecOn with
  | nil => exact ⟨[], .nil, List.mergeSort_nil.symm⟩
  | append_singleton rest r ih =>
    obtain ⟨ranked, hranked, hsorted⟩ := ih
    obtain ⟨newer, older, hall, hrest, hnewer, holder⟩ := newestFirst_snoc rest r
    -- the ranking so far is cut where the sorted runs are
    obtain ⟨front, back, rfl, rfl, rfl⟩ := List.map_eq_append_iff.1 (hsorted.trans hrest)
    refine ⟨front ++ (r, rest.length) :: back, ?_, ?_⟩
    · exact hranked.record (fun e he => hnewer e.1 (List.mem_map_of_mem he))
        fun e he => holder e.1 (List.mem_map_of_mem he)
    · rw [hall, List.map_append, List.map_cons]

theorem IsRanking.map_fst (h : IsRanking rs ranked) : ranked.map Prod.fst = newestFirst rs := by
  obtain ⟨ranked', h', hsorted⟩ := exists_isRanking rs
  rw [← hsorted, h'.unique h]

/-! ## Limits -/

/-- The runs have one ranking, and at every limit a beginning of it is listed. -/
structure ListedBy (rs : List Run) (ranked : List (Run × Nat)) : Prop where
  isRanking_iff : ∀ ranked', IsRanking rs ranked' ↔ ranked' = ranked
  limited : ∀ limit : Int, ∃ listed, recent rs limit = .ok listed ∧
    listed <+: ranked.map Prod.fst ∧ (listed.length : Int) = min (max limit 0) rs.length
  complete : ∀ limit : Int, rs.length ≤ limit →
    recent rs limit = .ok (ranked.map Prod.fst) ∧ (ranked.map Prod.fst).Perm rs

theorem IsRanking.listedBy (h : IsRanking rs ranked) (hc : Orderable rs) : ListedBy rs ranked where
  isRanking_iff ranked' := ⟨h.unique, fun heq => heq ▸ h⟩
  limited limit := by
    refine ⟨_, recent_of_comparable hc.allComparable limit, ?_, ?_⟩
    · rw [h.map_fst]
      exact List.take_prefix _ _
    · rw [List.length_take, (newestFirst_perm rs).length_eq]
      omega
  complete limit hlimit := by
    rw [recent_of_length_le hc.allComparable hlimit, h.map_fst]
    exact ⟨rfl, newestFirst_perm rs⟩

/-- Runs whose starts can be compared are listed newest first up to the limit, those that
started at one instant in the reverse of the order in which they are recorded.  If one run more
is recorded than which none is newer, it comes first and the rest stays as it is. -/
theorem recent_ranked (rs : List Run) (h : Orderable rs) :
    ∃ ranked, ListedBy rs ranked ∧
      ∀ r, Orderable (rs ++ [r]) → (∀ q ∈ rs, q.startedAt.instant ≤ r.startedAt.instant) →
        ListedBy (rs ++ [r]) ((r, rs.length) :: ranked) := by
  obtain ⟨ranked, hranked, -⟩ := exists_isRanking rs
  exact ⟨ranked, hranked.listedBy h, fun r hr hnewest => (hranked.record_newest hnewest).listedBy hr⟩

/-! ## Three runs in two zones -/

/-- The first and the last of these runs started at one instant, the second an hour later. -/
def acrossZones : List Run :=
  [start (Uuid.ofNat 1) (Uuid.ofNat 7) (.text "acme") (.object [])
      ⟨10 * Timestamp.hour, some Timestamp.hour⟩,
    start (Uuid.ofNat 2) (Uuid.ofNat 7) (.text "acme") (.object []) ⟨10 * Timestamp.hour, some 0⟩,
    start (Uuid.ofNat 3) (Uuid.ofNat 7) (.text "acme") (.object []) ⟨9 * Timestamp.hour, some 0⟩]

/-- A run that started at the same instant as the newest of these. -/
def asNew : Run :=
  start (Uuid.ofNat 4) (Uuid.ofNat 7) (.text "acme") (.object [])
    ⟨11 * Timestamp.hour, some Timestamp.hour⟩

def ranking : List (Run × Nat) :=
  [(acrossZones[1], 1), (acrossZones[2], 2), (acrossZones[0], 0)]

theorem isRanking_acrossZones : IsRanking acrossZones ranking where
  perm := List.perm_append_singleton (acrossZones[0], 0) [(acrossZones[1], 1), (acrossZones[2], 2)]
  descending := by decide
  ties := by decide

theorem recent_ranked_acrossZones :
    Orderable acrossZones ∧ Orderable (acrossZones ++ [asNew]) ∧
    (∀ q ∈ acrossZones, q.startedAt.instant ≤ asNew.startedAt.instant) ∧
    ListedBy acrossZones ranking ∧
    ListedBy (acrossZones ++ [asNew]) ((asNew, 3) :: ranking) := by
  have h : Orderable acrossZones := by
    unfold Orderable
    decide
  have hnew : Orderable (acrossZones ++ [asNew]) := by
    unfold Orderable
    decide
  have hnewest : ∀ q ∈ acrossZones, q.startedAt.instant ≤ asNew.startedAt.instant := by decide
  obtain ⟨ranked, hlisted, hrecorded⟩ := recent_ranked acrossZones h
  obtain rfl := (hlisted.isRanking_iff ranking).1 isRanking_acrossZones
  exact ⟨h, hnew, hnewest, hlisted, hrecorded asNew hnew hnewest⟩

end Workflow.Run
