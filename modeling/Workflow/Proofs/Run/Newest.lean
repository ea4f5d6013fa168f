import Workflow.Run

/-!
# Runs newest first

Sorting runs by their starts loses none of them and invents none.  Whatever their
times, they can be sorted only if these can be compared with each other, which all of
them with a zone can, and all of them without one.

    newest first is a permutation in which no run started before the next   (newestFirst_perm,
                                                                            pairwise_newestFirst)
    if no two started at one instant there is one such order                (IsNewestFirst.unique)
-/

namespace Workflow

/-! ## Comparable times -/

namespace Timestamp

variable {ts us : List Timestamp}

theorem comparable_of_all (h : allComparable ts = true) {t u : Timestamp} (ht : t ∈ ts)
    (hu : u ∈ ts) : comparable t u = true := by
  unfold allComparable at h
  rcases Bool.or_eq_true_iff.1 h with hall | hall
  · rw [comparable, List.all_eq_true.1 hall t ht, List.all_eq_true.1 hall u hu]
    rfl
  · have ht' := List.all_eq_true.1 hall t ht
    have hu' := List.all_eq_true.1 hall u hu
    rw [Bool.not_eq_true'] at ht' hu'
    rw [comparable, ht', hu']
    rfl

/-- The first of some times has a zone or none, and so have all that can be compared with it. -/
theorem allComparable_iff :
    allComparable ts = true ↔ ∀ t ∈ ts, ∀ u ∈ ts, comparable t u = true := by
  refine ⟨fun h t ht u hu => comparable_of_all h ht hu, fun h => ?_⟩
  cases ts with
  | nil => rfl
  | cons t rest =>
    have hsame : ∀ u ∈ t :: rest, t.isZoned = u.isZoned := fun u hu =>
      eq_of_beq (h t List.mem_cons_self u hu)
    refine Bool.or_eq_true_iff.2 ?_
    cases hz : t.isZoned with
    | true => exact .inl (List.all_eq_true.2 fun u hu => (hsame u hu).symm.trans hz)
    | false =>
      refine .inr (List.all_eq_true.2 fun u hu => ?_)
      rw [← hsame u hu, hz]
      rfl

theorem allComparable_perm (hp : ts.Perm us) : allComparable ts = allComparable us := by
  unfold allComparable
  rw [hp.all_eq, hp.all_eq]

end Timestamp

/-! ## Sorted runs -/

namespace Run

theorem startedFirst_iff {a b : Run} :
    startedFirst a b = true ↔ b.startedAt.instant ≤ a.startedAt.instant := decide_eq_true_iff

theorem startedFirst_trans (a b c : Run) (hab : startedFirst a b = true)
    (hbc : startedFirst b c = true) : startedFirst a c = true := by
  rw [startedFirst_iff] at *
  omega

theorem startedFirst_total (a b : Run) : (startedFirst a b || startedFirst b a) = true := by
  rw [Bool.or_eq_true, startedFirst_iff, startedFirst_iff]
  omega

theorem newestFirst_perm (rs : List Run) : (newestFirst rs).Perm rs :=
  (List.mergeSort_perm _ _).trans (List.reverse_perm rs)

theorem pairwise_newestFirst (rs : List Run) :
    (newestFirst rs).Pairwise fun a b => startedFirst a b = true :=
  List.pairwise_mergeSort startedFirst_trans startedFirst_total rs.reverse

theorem recent_of_comparable {rs : List Run}
    (h : Timestamp.allComparable (rs.map startedAt) = true) (limit : Int) :
    recent rs limit = .ok ((newestFirst rs).take limit.toNat) := if_pos h

/-- A limit that admits all runs leaves none out. -/
theorem recent_of_length_le {rs : List Run}
    (h : Timestamp.allComparable (rs.map startedAt) = true) {limit : Int}
    (hlimit : rs.length ≤ limit) : recent rs limit = .ok (newestFirst rs) := by
  rw [recent_of_comparable h, List.take_of_length_le]
  rw [(newestFirst_perm rs).length_eq]
  omega

/-! ## Different starts -/

/-- No two runs were started at one instant. -/
def StartedApart (rs : List Run) : Prop :=
  rs.Pairwise fun a b => a.startedAt.instant ≠ b.startedAt.instant

/-- The runs, each started after the next. -/
structure IsNewestFirst (rs listed : List Run) : Prop where
  perm : listed.Perm rs
  ordered : listed.Pairwise fun a b => b.startedAt.instant < a.startedAt.instant

variable {rs rs' listed listed' : List Run}

/-- Sorting runs that were started apart leaves no choice of order. -/
theorem StartedApart.isNewestFirst (h : StartedApart rs) (hp : listed.Perm rs)
    (hs : listed.Pairwise fun a b => startedFirst a b = true) : IsNewestFirst rs listed where
  perm := hp
  ordered := by
    refine ((hp.symm.pairwise h Ne.symm).and hs).imp ?_
    rintro a b ⟨hne, hle⟩
    have := startedFirst_iff.1 hle
    omega

theorem IsNewestFirst.unique (h : IsNewestFirst rs listed) (h' : IsNewestFirst rs' listed')
    (hp : rs.Perm rs') : listed = listed' := by
  refine (h.perm.trans (hp.trans h'.perm.symm)).eq_of_pairwise ?_ h.ordered h'.ordered
  intro a b _ _ hab hba
  omega

theorem StartedApart.newestFirst (h : StartedApart rs) : IsNewestFirst rs (Run.newestFirst rs) :=
  h.isNewestFirst (newestFirst_perm rs) (pairwise_newestFirst rs)

/-- It does not matter which of two runs is met first if neither has the start of the other. -/
theorem StartedApart.mergeSort_eq (h : StartedApart rs) :
    rs.mergeSort startedFirst = Run.newestFirst rs :=
  (h.isNewestFirst (List.mergeSort_perm rs _)
    (List.pairwise_mergeSort startedFirst_trans startedFirst_total rs)).unique h.newestFirst
    (List.Perm.refl rs)

end Run

end Workflow
