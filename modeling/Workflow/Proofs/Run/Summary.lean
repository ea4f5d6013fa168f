import Workflow.Proofs.Except
import Workflow.Proofs.Run.Newest

/-!
# Counting runs in one pass

A summary is made in one pass over the runs in the order in which they are stored: one
counter for each status and the latest start so far.  What the pass has made of the runs it
has gone through is a count of them, and a newest start among theirs.

    one run more → a count of one run more                      (IsCount.add)
    all runs → a count of all, and the sum of the counters      (ofRuns_eq)
    a run of another automation changes nothing                 (ofRuns_filter)
-/

namespace Workflow.RunSummary

/-! ## Newest starts -/

/-- A start than which none is newer, unless there is none. -/
inductive IsNewest (ts : List Timestamp) : Option Timestamp → Prop where
  | nil (h : ts = []) : IsNewest ts none
  | mem {t : Timestamp} (ht : t ∈ ts) (hmax : ∀ u ∈ ts, u.instant ≤ t.instant) :
    IsNewest ts (some t)

variable {ts us : List Timestamp} {last last' : Option Timestamp}

/-- Of the same starts there is one newest instant. -/
theorem IsNewest.instant_eq (h : IsNewest ts last) (h' : IsNewest us last') (hp : ts.Perm us) :
    last.map Timestamp.instant = last'.map Timestamp.instant := by
  cases h with
  | nil hts =>
    cases h' with
    | nil => rfl
    | mem hu _ => cases hts ▸ hp.mem_iff.2 hu
  | @mem t ht hmax =>
    cases h' with
    | nil hus => cases hus ▸ hp.mem_iff.1 ht
    | @mem u hu hmax' =>
      have hle : u.instant ≤ t.instant := hmax u (hp.mem_iff.2 hu)
      have hge : t.instant ≤ u.instant := hmax' t (hp.mem_iff.1 ht)
      exact congrArg some (Int.le_antisymm hge hle)

/-- The later of the newest start so far and one more is the newest of all. -/
theorem IsNewest.later (h : IsNewest ts last) {t : Timestamp}
    (hc : ∀ u ∈ ts, Timestamp.comparable t u = true) :
    ∃ start, later last t = .ok start ∧ IsNewest (ts ++ [t]) (some start) := by
  have hlast : t ∈ ts ++ [t] := List.mem_append_right ts List.mem_cons_self
  cases h with
  | nil hts =>
    refine ⟨t, rfl, .mem hlast ?_⟩
    simp [hts]
  | @mem u hu hmax =>
    refine ⟨if u.instant < t.instant then t else u, if_pos (hc u hu), ?_⟩
    by_cases hlt : u.instant < t.instant
    · rw [if_pos hlt]
      refine .mem hlast fun v hv => ?_
      rcases List.mem_append.1 hv with hv | hv
      · have := hmax v hv
        omega
      · exact Int.le_of_eq (by rw [List.mem_singleton.1 hv])
    · rw [if_neg hlt]
      refine .mem (List.mem_append_left [t] hu) fun v hv => ?_
      rcases List.mem_append.1 hv with hv | hv
      · exact hmax v hv
      · rw [List.mem_singleton.1 hv]
        omega

/-! ## Counters -/

/-- The number of runs by status. -/
def tally (rs : List Run) : List (RunStatus × Nat) :=
  (Named.cases (α := RunStatus)).map fun s => (s, rs.countP (·.status = s))

theorem countOne_tally (rs : List Run) (r : Run) :
    countOne r.status (tally rs) = tally (rs ++ [r]) := by
  unfold countOne tally
  rw [List.map_map]
  refine List.map_congr_left fun s _ => ?_
  by_cases hs : s = r.status
  · simp [hs]
  · simp [hs, Ne.symm hs]

theorem tally_perm {rs rs' : List Run} (hp : rs.Perm rs') : tally rs = tally rs' := by
  unfold tally
  refine List.map_congr_left fun s _ => ?_
  rw [hp.countP_eq]

/-- Each run is counted under one status. -/
theorem sum_tally (rs : List Run) :
    ((tally rs).map Prod.snd).foldl (· + ·) 0 = rs.length := by
  induction rs with
  | nil => rfl
  | cons r rest ih =>
    simp only [tally, Named.cases, List.map_cons, List.map_nil, List.foldl_cons, List.foldl_nil,
      List.countP_cons, List.length_cons] at ih ⊢
    cases hs : r.status <;> simp <;> omega

/-! ## The pass -/

/-- What the pass has made of the runs that it has gone through. -/
structure IsCount (definition : Uuid) (seen : List Run) (s : RunSummary) : Prop where
  definition : s.definition = definition
  lastStart : IsNewest (seen.map Run.startedAt) s.lastStart
  counts : s.counts = tally seen

variable {definition : Uuid} {seen rs rs' : List Run} {s s' : RunSummary} {r : Run}

theorem isCount_blank (definition : Uuid) : IsCount definition [] (blank definition) where
  definition := rfl
  lastStart := .nil rfl
  counts := rfl

theorem IsCount.add (h : IsCount definition seen s) (hr : r.definition = definition)
    (hc : ∀ q ∈ seen, Timestamp.comparable r.startedAt q.startedAt = true) :
    ∃ s', s.add r = .ok s' ∧ IsCount definition (seen ++ [r]) s' := by
  obtain ⟨start, hlater, hnewest⟩ := h.lastStart.later (t := r.startedAt) (by simpa using hc)
  refine ⟨{ s with lastStart := some start, counts := countOne r.status s.counts }, ?_, ?_⟩
  · unfold RunSummary.add
    rw [if_pos (hr.trans h.definition.symm), hlater]
    rfl
  · refine ⟨h.definition, ?_, ?_⟩
    · rw [List.map_append]
      exact hnewest
    · show countOne r.status s.counts = _
      rw [h.counts, countOne_tally]

theorem IsCount.foldlM_add (h : IsCount definition seen s)
    (hrs : ∀ r ∈ rs, r.definition = definition)
    (hc : Timestamp.allComparable ((seen ++ rs).map Run.startedAt) = true) :
    ∃ s', rs.foldlM RunSummary.add s = .ok s' ∧ IsCount definition (seen ++ rs) s' := by
  induction rs generalizing seen s with
  | nil =>
    rw [List.append_nil]
    exact ⟨s, rfl, h⟩
  | cons r rest ih =>
    obtain ⟨s₁, hs₁, h₁⟩ := h.add (hrs r List.mem_cons_self) fun q hq =>
      Timestamp.comparable_of_all hc (List.mem_map_of_mem (by simp))
        (List.mem_map_of_mem (by simp [hq]))
    rw [List.append_cons] at hc ⊢
    obtain ⟨s₂, hs₂, h₂⟩ := ih h₁ (fun q hq => hrs q (List.mem_cons_of_mem r hq)) hc
    refine ⟨s₂, ?_, h₂⟩
    rw [List.foldlM_cons, hs₁]
    exact hs₂

theorem add_of_ne (h : r.definition ≠ s.definition) : s.add r = .ok s := if_neg h

theorem definition_of_add (h : s.add r = .ok s') : s'.definition = s.definition := by
  unfold add at h
  split at h
  · obtain ⟨start, -, h⟩ := bind_eq_ok.1 h
    rw [← pure_eq_ok.1 h]
  · rw [← Except.ok.inj h]

theorem foldlM_add_filter (s : RunSummary) (rs : List Run) :
    (rs.filter (·.definition = s.definition)).foldlM add s = rs.foldlM add s := by
  induction rs generalizing s with
  | nil => rfl
  | cons r rest ih =>
    by_cases hr : r.definition = s.definition
    · rw [List.filter_cons_of_pos (by simpa using hr), List.foldlM_cons, List.foldlM_cons]
      cases hs : s.add r with
      | error e => rfl
      | ok s' =>
        show (rest.filter _).foldlM add s' = rest.foldlM add s'
        rw [← definition_of_add hs, ih s']
    · rw [List.filter_cons_of_neg (by simpa using hr), List.foldlM_cons, add_of_ne hr]
      exact ih s

/-- The runs of other automations might as well not be there. -/
theorem ofRuns_filter (definition : Uuid) (rs : List Run) :
    ofRuns definition (rs.filter (·.definition = definition)) = ofRuns definition rs := by
  unfold ofRuns
  rw [show rs.foldlM add (blank definition) = _ from (foldlM_add_filter (blank definition) rs).symm]
  rfl

/-- Runs whose starts can be compared are summarized, whatever their order. -/
theorem ofRuns_eq (h : Timestamp.allComparable
      ((rs.filter (·.definition = definition)).map Run.startedAt) = true) :
    ∃ last, ofRuns definition rs =
        .ok ⟨definition, (rs.filter (·.definition = definition)).length, last,
          tally (rs.filter (·.definition = definition))⟩ ∧
      IsNewest ((rs.filter (·.definition = definition)).map Run.startedAt) last := by
  rw [← ofRuns_filter]
  generalize hown : rs.filter (·.definition = definition) = own at h ⊢
  have hdefinition : ∀ r ∈ own, r.definition = definition := by
    intro r hr
    rw [← hown] at hr
    simpa using (List.mem_filter.1 hr).2
  obtain ⟨s, hs, hd, hlast, hcounts⟩ :=
    (isCount_blank definition).foldlM_add hdefinition (by simpa using h)
  rw [List.nil_append] at hlast hcounts
  refine ⟨s.lastStart, bind_eq_ok.2 ⟨s, hs, ?_⟩, hlast⟩
  rw [pure_eq_ok, hcounts, sum_tally, hd]

end Workflow.RunSummary
