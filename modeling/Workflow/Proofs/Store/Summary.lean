import Workflow.Proofs.Run.Summary
import Workflow.Store.Memory

/-!
# The summary and the list of runs

The runs of an automation are summarized in the order in which they are stored, and listed
newest first.  Either way they are the same runs, so what the summary counts is what is
listed, and its latest start is the start of the run that is listed first, although of two
runs that started at one instant the summary knows the one stored first and the list shows
the one stored last.

    the first run listed has a newest start                     (isNewest_head?)
    summary and list agree, and no order of storing matters     (summary_matches)
-/

namespace Workflow

/-! ## Lists -/

/-- The first of the runs newest first has a newest start. -/
theorem RunSummary.isNewest_head? (rs : List Run) :
    IsNewest (rs.map Run.startedAt) ((Run.newestFirst rs).head?.map Run.startedAt) := by
  have hperm := Run.newestFirst_perm rs
  have hsorted := Run.pairwise_newestFirst rs
  cases hlist : Run.newestFirst rs with
  | nil =>
    rw [hlist] at hperm
    exact .nil (by rw [hperm.symm.eq_nil, List.map_nil])
  | cons first rest =>
    rw [hlist] at hperm hsorted
    refine .mem (List.mem_map_of_mem (hperm.subset List.mem_cons_self)) fun t ht => ?_
    obtain ⟨r, hr, rfl⟩ := List.mem_map.1 ht
    rcases List.mem_cons.1 (hperm.mem_iff.2 hr) with rfl | hr
    · exact Int.le_refl _
    · exact Run.startedFirst_iff.1 ((List.pairwise_cons.1 hsorted).1 r hr)

/-- What a summary says of runs that are listed newest first. -/
structure RunSummary.Summarizes (s : RunSummary) (listed : List Run) : Prop where
  total : s.total = listed.length
  statuses : s.counts.map Prod.fst = [.running, .success, .failed, .cancelled]
  counts : ∀ e ∈ s.counts, e.2 = (listed.filter (·.status = e.1)).length
  sum : (s.counts.map Prod.snd).foldl (· + ·) 0 = s.total
  lastStart : s.lastStart.map Timestamp.instant = listed.head?.map (·.startedAt.instant)
  never : s.lastStart = none ↔ listed = []

/-- Summaries that differ at most in the zone in which the latest start is given. -/
structure RunSummary.Alike (s s' : RunSummary) : Prop where
  definition : s.definition = s'.definition
  total : s.total = s'.total
  counts : s.counts = s'.counts
  lastStart : s.lastStart.map Timestamp.instant = s'.lastStart.map Timestamp.instant

namespace Store.Memory

open RunSummary (IsNewest tally)

variable {m m' : Memory} {id : Uuid}

/-- The runs of an automation in the order in which they are stored. -/
def ownRuns (m : Memory) (id : Uuid) : List Run := (Assoc.values m.runs).filter (·.definition = id)

theorem summarizes_newestFirst {rs : List Run} {last : Option Timestamp}
    (h : IsNewest (rs.map Run.startedAt) last) :
    RunSummary.Summarizes ⟨id, rs.length, last, tally rs⟩ (Run.newestFirst rs) where
  total := (Run.newestFirst_perm rs).length_eq.symm
  statuses := rfl
  counts e he := by
    obtain ⟨s, -, rfl⟩ := List.mem_map.1 he
    rw [← List.countP_eq_length_filter, (Run.newestFirst_perm rs).countP_eq]
  sum := RunSummary.sum_tally rs
  lastStart := by
    rw [h.instant_eq (RunSummary.isNewest_head? rs) (List.Perm.refl _), Option.map_map]
    rfl
  never := by
    have hnil : Run.newestFirst rs = [] ↔ rs = [] := by
      rw [← List.length_eq_zero_iff, (Run.newestFirst_perm rs).length_eq, List.length_eq_zero_iff]
    rw [hnil]
    cases h with
    | nil hrs => exact iff_of_true rfl (List.map_eq_nil_iff.1 hrs)
    | mem ht _ => exact iff_of_false nofun fun hrs => by simp [hrs] at ht

/-- A summary counts what is listed, if the limit admits all runs, and knows the start of the
first of them.  It is the same in whatever order the runs have been stored. -/
theorem summary_matches (m : Memory) (id : Uuid)
    (h : Timestamp.allComparable ((m.ownRuns id).map Run.startedAt) = true) :
    ∃ s, m.summary id = .ok s ∧ s.definition = id ∧
      (∀ limit : Int, (m.ownRuns id).length ≤ limit → ∃ listed,
        m.runsOf id (.int limit) = .ok listed ∧ listed.Perm (m.ownRuns id) ∧ s.Summarizes listed) ∧
      ∀ m' : Memory, (Assoc.values m'.runs).Perm (Assoc.values m.runs) →
        ∃ s', m'.summary id = .ok s' ∧ s'.Alike s := by
  obtain ⟨last, hs, hlast⟩ := RunSummary.ofRuns_eq h
  refine ⟨_, hs, rfl, fun limit hlimit => ?_, fun m' hp => ?_⟩
  · exact ⟨_, Run.recent_of_length_le h hlimit, Run.newestFirst_perm _,
      summarizes_newestFirst hlast⟩
  · have hown : (m'.ownRuns id).Perm (m.ownRuns id) := hp.filter _
    have hstarts := hown.map Run.startedAt
    obtain ⟨last', hs', hlast'⟩ := RunSummary.ofRuns_eq
      ((Timestamp.allComparable_perm hstarts).trans h)
    exact ⟨_, hs', rfl, hown.length_eq, RunSummary.tally_perm hown,
      hlast'.instant_eq hlast hstarts⟩

/-- Two runs of one automation that started at one instant, given in two zones, with an
earlier one between them and a run of another automation, whose start has no zone. -/
def twoZones : Memory :=
  let run (id definition : Nat) (status : RunStatus) (start : Timestamp) : Uuid × Run :=
    (Uuid.ofNat id, ⟨Uuid.ofNat id, Uuid.ofNat definition, .text "acme", status, start, none, .null,
      .object []⟩)
  { Memory.empty .empty with
    runs := [run 1 7 .success ⟨9 * Timestamp.hour, some 0⟩,
      run 2 7 .failed ⟨8 * Timestamp.hour, some 0⟩,
      run 3 8 .running ⟨20 * Timestamp.hour, none⟩,
      run 4 7 .running ⟨10 * Timestamp.hour, some Timestamp.hour⟩] }

theorem summary_matches_twoZones :
    Timestamp.allComparable ((twoZones.ownRuns (Uuid.ofNat 7)).map Run.startedAt) = true ∧
    ∃ s, twoZones.summary (Uuid.ofNat 7) = .ok s ∧
      s = ⟨Uuid.ofNat 7, 3, some ⟨9 * Timestamp.hour, some 0⟩,
        [(.running, 1), (.success, 1), (.failed, 1), (.cancelled, 0)]⟩ ∧
      (∀ limit : Int, 3 ≤ limit → ∃ listed,
        twoZones.runsOf (Uuid.ofNat 7) (.int limit) = .ok listed ∧
        listed.Perm (twoZones.ownRuns (Uuid.ofNat 7)) ∧ s.Summarizes listed) ∧
      ∀ m' : Memory, (Assoc.values m'.runs).Perm (Assoc.values twoZones.runs) →
        ∃ s', m'.summary (Uuid.ofNat 7) = .ok s' ∧ s'.Alike s := by
  have hc : Timestamp.allComparable
      ((twoZones.ownRuns (Uuid.ofNat 7)).map Run.startedAt) = true := by
    decide +kernel
  obtain ⟨s, hs, -, hlisted, hstored⟩ := summary_matches twoZones (Uuid.ofNat 7) hc
  have hsummary : twoZones.summary (Uuid.ofNat 7) =
      .ok ⟨Uuid.ofNat 7, 3, some ⟨9 * Timestamp.hour, some 0⟩,
        [(.running, 1), (.success, 1), (.failed, 1), (.cancelled, 0)]⟩ := by
    rfl
  exact ⟨hc, s, hs, Except.ok.inj (hs.symm.trans hsummary), hlisted, hstored⟩

end Store.Memory

end Workflow
