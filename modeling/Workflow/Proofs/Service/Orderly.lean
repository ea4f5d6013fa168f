import Workflow.Proofs.Definition.Governance
import Workflow.Proofs.Service.Effect
import Workflow.Proofs.Store.Ledger
import Workflow.Service.Serve

/-!
# Calls one after another

While calls are carried out one after another, each identifier that is taken is new:
nothing is stored under it, neither a definition nor a run.  So a definition or a run
that is created never takes the place of another.

    orderly, any call → orderly, one identifier further at most    (Orderly.effect)
    what every effect keeps holds after any calls                  (Orderly.induction)
-/

namespace Workflow.Service

open Store (Backend Step Memory Tables Registry Ledger)
open Program (Session Outcome)

section

variable {σ : Type} [Backend σ] {R : Registry σ} {L : Ledger σ} {sources : Program.Sources}
  {bound : Nat} {s : Session σ} {now : Timestamp} {store : σ}

/-- Nothing is stored under an identifier that is still to be taken, up to `bound`. -/
structure Orderly (R : Registry σ) (L : Ledger σ) (sources : Program.Sources) (bound : Nat)
    (s : Session σ) : Prop where
  registry : R.Sound s.store
  ledger : L.Sound s.store
  definitions : ∀ k, s.idsTaken ≤ k → k < bound → R.status s.store (sources.ids k) = none
  runs : ∀ k, s.idsTaken ≤ k → k < bound → L.runs s.store (sources.ids k) = none

/-- What is stored already has none of the identifiers still to be taken. -/
theorem Orderly.ne_of_stored (h : Orderly R L sources bound s) {id : Uuid}
    {st : Lifecycle × ApprovalStatus} (hs : R.status s.store id = some st) :
    ∀ k, s.idsTaken ≤ k → k < bound → sources.ids k ≠ id := by
  rintro k hk hkb rfl
  cases hs.symm.trans (h.definitions k hk hkb)

theorem Orderly.ne_of_run (h : Orderly R L sources bound s) {id : Uuid} {r : Run}
    (hs : L.runs s.store id = some r) :
    ∀ k, s.idsTaken ≤ k → k < bound → sources.ids k ≠ id := by
  rintro k hk hkb rfl
  cases hs.symm.trans (h.runs k hk hkb)

/-- The identifier that is taken next is taken once. -/
theorem ne_of_distinct (hd : sources.Distinct bound) {n : Nat} (hn : n < bound) :
    ∀ k, n + 1 ≤ k → k < bound → sources.ids k ≠ sources.ids n := by
  intro k hk hkb he
  have := hd k n hkb hn he
  omega

/-! ## Steps -/

theorem Orderly.quiet (h : Orderly R L sources bound s) {n drawsTaken : Nat}
    (hn : s.idsTaken ≤ n) : Orderly R L sources bound ⟨s.store, n, drawsTaken⟩ where
  registry := h.registry
  ledger := h.ledger
  definitions k hk := h.definitions k (Nat.le_trans hn hk)
  runs k hk := h.runs k (Nat.le_trans hn hk)

theorem Orderly.save (h : Orderly R L sources bound s) {d : Definition} {v : Value}
    (hsave : Backend.take (.save d v) s.store = (.ok (), store)) {n : Nat} (hn : s.idsTaken ≤ n)
    (hfree : ∀ k, n ≤ k → k < bound → sources.ids k ≠ d.id) {drawsTaken : Nat} :
    Orderly R L sources bound ⟨store, n, drawsTaken⟩ := by
  obtain ⟨hregistry, hstatus⟩ := R.save_ok h.registry hsave
  obtain ⟨hledger, hruns⟩ := L.take_other h.ledger rfl hsave
  refine ⟨hregistry, hledger, ?_, ?_⟩
  · intro k hk hkb
    show R.status store (sources.ids k) = none
    rw [hstatus, if_neg (hfree k hk hkb)]
    exact h.definitions k (Nat.le_trans hn hk) hkb
  · intro k hk hkb
    show L.runs store (sources.ids k) = none
    rw [hruns]
    exact h.runs k (Nat.le_trans hn hk) hkb

theorem Orderly.record (h : Orderly R L sources bound s) {e : ApprovalEvent}
    (hrecord : Backend.take (.appendApproval e) s.store = (.ok (), store)) :
    Orderly R L sources bound { s with store := store } := by
  obtain ⟨hregistry, hstatus⟩ := R.take_other h.registry rfl hrecord
  obtain ⟨hledger, hruns⟩ := L.take_other h.ledger rfl hrecord
  refine ⟨hregistry, hledger, ?_, ?_⟩
  · show ∀ k, s.idsTaken ≤ k → k < bound → R.status store (sources.ids k) = none
    rw [hstatus]
    exact h.definitions
  · show ∀ k, s.idsTaken ≤ k → k < bound → L.runs store (sources.ids k) = none
    rw [hruns]
    exact h.runs

theorem Orderly.delete (h : Orderly R L sources bound s) {id : Uuid}
    (hdelete : Backend.take (.delete id) s.store = (.ok (), store)) :
    Orderly R L sources bound { s with store := store } := by
  obtain ⟨hregistry, hstatus⟩ := R.delete_ok h.registry hdelete
  obtain ⟨hledger, hruns⟩ := L.delete_ok h.ledger hdelete
  refine ⟨hregistry, hledger, ?_, ?_⟩
  · intro k hk hkb
    show R.status store (sources.ids k) = none
    rw [hstatus, h.definitions k hk hkb, ite_self]
  · intro k hk hkb
    show L.runs store (sources.ids k) = none
    rw [hruns, h.runs k hk hkb]
    rfl

/-- One run was written, and nothing else. -/
theorem Orderly.writeRun (h : Orderly R L sources bound s) {step : Step}
    (hw : writesDefinitions step = false) {a : step.Answer}
    (ht : Backend.take step s.store = (.ok a, store)) (hledger : L.Sound store) {id : Uuid}
    {q : Run} (hruns : ∀ id', L.runs store id' = if id' = id then some q else L.runs s.store id')
    {n : Nat} (hn : s.idsTaken ≤ n) (hfree : ∀ k, n ≤ k → k < bound → sources.ids k ≠ id)
    {drawsTaken : Nat} : Orderly R L sources bound ⟨store, n, drawsTaken⟩ := by
  obtain ⟨hregistry, hstatus⟩ := R.take_other h.registry hw ht
  refine ⟨hregistry, hledger, ?_, ?_⟩
  · intro k hk hkb
    show R.status store (sources.ids k) = none
    rw [hstatus]
    exact h.definitions k (Nat.le_trans hn hk) hkb
  · intro k hk hkb
    show L.runs store (sources.ids k) = none
    rw [hruns, if_neg (hfree k hk hkb)]
    exact h.runs k (Nat.le_trans hn hk) hkb

/-! ## Calls -/

/-- A run that was read and finished is still the same run, has been running, and is not any
more. -/
theorem finish_read (hs : L.Sound store) {st : σ} {call : Call} {id : Uuid} {r r' : Run}
    (own : call.finishing? = some id) (found : Backend.take (.run id) store = (.ok r, st))
    (ended : call.finish now r = .ok r') :
    L.runs store id = some r ∧ r'.id = id ∧ r'.SameStart r ∧ r.status = .running ∧
      r'.status.isTerminal = true := by
  obtain ⟨hstored, hown⟩ := L.run_ok hs found
  obtain ⟨hrunning, status, houtcome, rfl⟩ := Call.finish_eq_ok own ended
  have hrunning : r.status = .running := by
    cases hs : r.status with
    | running => rfl
    | success | failed | cancelled =>
      rw [hs] at hrunning
      cases hrunning
  exact ⟨hstored, hown, ⟨rfl, rfl, rfl, rfl, rfl⟩, hrunning, (Call.outcome_eq_ok own houtcome).1⟩

/-- Any call leaves an orderly session orderly, and takes one identifier at most. -/
theorem Orderly.effect (h : Orderly R L sources bound s) (hd : sources.Distinct bound)
    (hs : s.idsTaken < bound) {call : Call} {o : Outcome σ Reply}
    (ho : Effect sources now s call o) :
    Orderly R L sources bound o.session ∧ o.session.idsTaken ≤ s.idsTaken + 1 := by
  cases ho with
  | quiet result drawsTaken first last => exact ⟨h.quiet first, last⟩
  | @founded _ p name d events store proposed accepted named saved told =>
    have hid : d.id = sources.ids s.idsTaken := by rw [named]; rfl
    exact ⟨h.save saved (Nat.le_succ _) (hid ▸ ne_of_distinct hd hs), Nat.le_refl _⟩
  | @edited _ id d d' store own loaded changed saved =>
    obtain ⟨hid, hstatus⟩ := R.load_ok h.registry loaded
    have hid' : d'.id = id := (Call.change_keeps changed).1.trans hid
    exact ⟨h.save saved (Nat.le_refl _) (hid' ▸ h.ne_of_stored hstatus), Nat.le_succ _⟩
  | @governed action id actor notes d d' e between store loaded changed saved recorded =>
    obtain ⟨hid, hstatus⟩ := R.load_ok h.registry loaded
    have hid' : d'.id = id := (Definition.govern_keeps changed).1.trans hid
    have hsaved : Orderly R L sources bound ⟨between, s.idsTaken, s.drawsTaken⟩ :=
      h.save saved (Nat.le_refl _) (hid' ▸ h.ne_of_stored hstatus)
    exact ⟨hsaved.record recorded, Nat.le_succ _⟩
  | @unrecorded action id actor notes d d' e failure store loaded changed saved refused =>
    obtain ⟨hid, hstatus⟩ := R.load_ok h.registry loaded
    have hid' : d'.id = id := (Definition.govern_keeps changed).1.trans hid
    exact ⟨h.save saved (Nat.le_refl _) (hid' ▸ h.ne_of_stored hstatus), Nat.le_succ _⟩
  | deleted loaded removed => exact ⟨h.delete removed, Nat.le_succ _⟩
  | @started id context d ms r store loaded active given appended =>
    have hid : r.id = sources.ids s.idsTaken := by rw [given]; rfl
    have hcontext : r.context = .object ms := by rw [given]; rfl
    obtain ⟨hledger, q, -, hruns⟩ := L.start_ok h.ledger hcontext appended
    rw [hid] at hruns
    exact ⟨h.writeRun rfl appended hledger hruns (Nat.le_succ _) (ne_of_distinct hd hs),
      Nat.le_refl _⟩
  | @finished _ id r r' store own found ended updated =>
    obtain ⟨hstored, hid, hstart, -, -⟩ := finish_read h.ledger own found ended
    rw [← hid] at hstored
    obtain ⟨hledger, -, q, -, hruns⟩ := L.finish_ok h.ledger hstored hstart updated
    exact ⟨h.writeRun rfl updated hledger hruns (Nat.le_refl _) (h.ne_of_run hstored),
      Nat.le_succ _⟩

/-- What every effect on an orderly session keeps, together with the answers so far, holds after
any calls. -/
theorem Orderly.serve_induction (h : Orderly R L sources bound s) (hd : sources.Distinct bound)
    (ha : Atomic σ) (canvas : Editor.Canvas) {I : Session σ → List Answer → Prop}
    {calls : List (Timestamp × Call)} (hroom : s.idsTaken + calls.length ≤ bound)
    (answers : List Answer) (hi : I s answers)
    (step : ∀ c ∈ calls, ∀ (s : Session σ) (answers : List Answer) (o : Outcome σ Reply),
      Orderly R L sources bound s → s.idsTaken < bound → I s answers →
      Effect sources c.1 s c.2 o → I o.session (answers ++ [⟨o.result, o.events⟩])) :
    I (sessionAfter sources canvas s calls) (answers ++ serve sources canvas s calls) := by
  induction calls generalizing s answers with
  | nil =>
    show I s (answers ++ [])
    rw [List.append_nil]
    exact hi
  | cons c rest ih =>
    obtain ⟨now, call⟩ := c
    rw [List.length_cons] at hroom
    have hs : s.idsTaken < bound := by omega
    have heffect := ha.effect_program sources canvas now s call
    obtain ⟨ho, htaken⟩ := h.effect hd hs heffect
    have hnext := ih ho (by omega) _
      (step (now, call) List.mem_cons_self s answers _ h hs hi heffect)
      fun c hc => step c (List.mem_cons_of_mem _ hc)
    rw [List.append_assoc] at hnext
    exact hnext

/-- The same of the store alone. -/
theorem Orderly.induction (h : Orderly R L sources bound s) (hd : sources.Distinct bound)
    (ha : Atomic σ) (canvas : Editor.Canvas) {I : σ → Prop} {calls : List (Timestamp × Call)}
    (hroom : s.idsTaken + calls.length ≤ bound) (hi : I s.store)
    (step : ∀ c ∈ calls, ∀ (s : Session σ) (o : Outcome σ Reply), Orderly R L sources bound s →
      s.idsTaken < bound → I s.store → Effect sources c.1 s c.2 o → I o.session.store) :
    I (sessionAfter sources canvas s calls).store :=
  h.serve_induction hd ha canvas (I := fun s _ => I s.store) hroom [] hi
    fun c hc s _ o => step c hc s o

end

/-! ## From the beginning -/

variable {sources : Program.Sources} {bound : Nat}

theorem orderly_memory (catalog : Catalog) :
    Orderly Memory.registry Memory.ledger sources bound (newSession (Memory.empty catalog)) where
  registry _ _ h := nomatch h
  ledger := Assoc.Filed.nil
  definitions _ _ _ := rfl
  runs _ _ _ := rfl

theorem orderly_tables (templates : List Store.TemplateRow) :
    Orderly Tables.registry Tables.ledger sources bound
      (newSession (Tables.mk [] [] [] templates)) where
  registry := trivial
  ledger := ⟨fun _ h => absurd h List.not_mem_nil, List.nodup_nil⟩
  definitions _ _ _ := rfl
  runs _ _ _ := rfl

/-- Identifiers in order, and the same draw over and over. -/
def counting : Program.Sources := ⟨Uuid.ofNat, fun _ => .int 0⟩

theorem distinct_counting {bound : Nat} (h : bound ≤ 2 ^ 128) : counting.Distinct bound := by
  intro j k hj hk he
  have hvalue : j % 2 ^ 128 = k % 2 ^ 128 := congrArg Uuid.value he
  rwa [Nat.mod_eq_of_lt (by omega), Nat.mod_eq_of_lt (by omega)] at hvalue

/-- An automation is approved and activated, runs once, and is paused by a request for its
approval anew. -/
def lifetime : List (Timestamp × Call) :=
  [(⟨0, some 0⟩, .create Definition.welcomeProposal),
    (⟨1, some 0⟩, .govern .request (Uuid.ofNat 0) .null .null),
    (⟨2, some 0⟩, .govern .approve (Uuid.ofNat 0) (.text "ann") .null),
    (⟨3, some 0⟩, .activate (Uuid.ofNat 0)),
    (⟨4, some 0⟩, .startRun (Uuid.ofNat 0) .null),
    (⟨5, some 0⟩, .completeRun (Uuid.ofNat 1) (.text "success") .null),
    (⟨6, some 0⟩, .govern .request (Uuid.ofNat 0) .null .null)]

end Workflow.Service
