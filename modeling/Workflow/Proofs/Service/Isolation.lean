import Workflow.Proofs.Service.Consistency
import Workflow.Proofs.Store.Frame

/-!
# Automations do not interfere

A call that writes concerns one definition: the one that it is addressed to, the one
whose run it finishes, or the one that it creates.  After any calls, one after
another and from the empty store, such a call leaves the other definitions and the
other organizations as they are.

    a call addressed to A touches A and its organization only       (Effect.touches)
    others and other organizations are shown as before              (calls_isolated)
-/

namespace Workflow.Service

open Store (Backend Memory Step)
open Program (Session Outcome)

/-! ## Addressees -/

namespace Call

/-- The definition that a call which writes is addressed to; a run stands for its
definition. -/
def addressee? (m : Memory) : Call → Option Uuid
  | update id _ _ | saveEdited id _ _ | delete id | govern _ id _ _ | activate id | pause id
  | startRun id _ => some id
  | completeRun id _ _ | cancelRun id => (m.run id).toOption.map Run.definition
  | create _ | get _ | list _ | editorView _ | approvals _ | templates | install .. | getRun _
  | listRuns .. | listOrgRuns .. | summary _ => none

/-- The organization that a call creates a definition for. -/
def founder? : Call → Option Value
  | create p => some p.context.org
  | install _ context _ => some context.org
  | get _ | list _ | update .. | editorView _ | saveEdited .. | delete _ | govern .. | approvals _
  | activate _ | pause _ | templates | startRun .. | completeRun .. | cancelRun _ | getRun _
  | listRuns .. | listOrgRuns .. | summary _ => none

theorem addressee?_of_editing {call : Call} {id : Uuid} (own : call.editing? = some id)
    (m : Memory) : call.addressee? m = some id := by
  cases call with
  | update _ _ _ | saveEdited _ _ _ | activate _ | pause _ => exact own
  | _ => cases own

theorem addressee?_of_finishing {call : Call} {id : Uuid} {m : Memory} {r : Run}
    (own : call.finishing? = some id) (h : m.run id = .ok r) :
    call.addressee? m = some r.definition := by
  have haddressee : call.addressee? m = (m.run id).toOption.map Run.definition := by
    cases call with
    | completeRun _ _ _ | cancelRun _ =>
      cases own
      rfl
    | _ => cases own
  rw [haddressee, h]
  rfl

end Call

/-! ## Calls -/

section

variable {sources : Program.Sources} {bound : Nat} {s : Session Memory} {now : Timestamp}
  {call : Call} {o : Outcome Memory Reply}

/-- Definitions stay filed under their own identifiers. -/
theorem filed_step {step : Step} {m m' : Memory} {r} (h : Backend.take step m = (r, m'))
    (hf : Assoc.Filed Definition.id m.definitions) :
    Assoc.Filed Definition.id m'.definitions := by
  cases r with
  | error e => rwa [Memory.take_error_eq h]
  | ok a =>
    cases hw : writesDefinitions step with
    | false => rwa [Memory.take_other_definitions hw h]
    | true =>
      cases step with
      | save d expected =>
        rw [Memory.take_save_eq_ok h]
        exact hf.put rfl
      | delete id =>
        rw [Memory.delete_eq_ok (Memory.written_eq_ok h)]
        exact hf.drop id
      | _ => cases hw

/-- A changed definition takes the place of the one that was loaded. -/
theorem touches_change (hs : s.store.Sound) {id : Uuid} {d d' : Definition}
    (hload : s.store.load id = .ok d) (hid : d'.id = d.id) (horg : d'.org = d.org) :
    Memory.Touches id d.org s.store (s.store.put d') := by
  have hstored := Memory.load_eq_ok.1 hload
  have hid : d'.id = id := hid.trans (hs id d hstored)
  have htouches : Memory.Touches d'.id d'.org s.store (s.store.put d') := by
    refine .put fun c hc => ?_
    rw [hid] at hc
    obtain rfl := Option.some.inj (hstored.symm.trans hc)
    exact ⟨(hs id d hstored).trans hid.symm, horg.symm⟩
  rwa [hid, horg] at htouches

/-- A call that is addressed to a definition writes nothing, or what it writes belongs to that
definition. -/
theorem Effect.touches (h : Orderly Memory.registry Memory.ledger sources bound s)
    (hs : s.idsTaken < bound) (hf : Assoc.Filed Definition.id s.store.definitions)
    (hc : s.store.Consistent) (ho : Effect sources now s call o) {A : Uuid}
    (hA : call.addressee? s.store = some A) :
    o.session.store = s.store ∨
      ∃ d, s.store.load A = .ok d ∧ Memory.Touches A d.org s.store o.session.store := by
  cases ho with
  | quiet result drawsTaken first last => exact .inl rfl
  | founded proposed accepted named saved told => cases proposed <;> cases hA
  | @edited _ id d d' store own loaded changed saved =>
    obtain rfl := Option.some.inj ((Call.addressee?_of_editing own s.store).symm.trans hA)
    obtain ⟨hload, -⟩ := Prod.mk.inj loaded
    obtain rfl := Memory.take_save_eq_ok saved
    exact .inr ⟨d, hload, touches_change h.registry hload (Call.change_keeps changed).1
      (Call.change_org changed)⟩
  | @governed action id actor notes d d' e between store loaded changed saved recorded =>
    obtain rfl := Option.some.inj hA
    obtain ⟨hload, -⟩ := Prod.mk.inj loaded
    obtain rfl := Memory.take_save_eq_ok saved
    obtain rfl := (Prod.mk.inj recorded).2
    obtain ⟨hid, horg, -, hown⟩ := Definition.govern_keeps changed
    have hput := touches_change h.registry hload hid horg
    have hown : e.definition = id :=
      hown.trans (h.registry id d (Memory.load_eq_ok.1 hload))
    exact .inr ⟨d, hload, hput.trans (hown ▸ .appendApproval)⟩
  | unrecorded loaded changed saved refused => cases refused
  | @deleted id d store loaded removed =>
    obtain rfl := Option.some.inj hA
    obtain ⟨hload, -⟩ := Prod.mk.inj loaded
    refine .inr ⟨d, hload, .delete (Memory.written_eq_ok removed) (fun c hc' => ?_) fun r hr hown => ?_⟩
    · have hstored := Assoc.find?_of_mem hf.nodup hc'
      obtain rfl := Option.some.inj ((Memory.load_eq_ok.1 hload).symm.trans hstored)
      exact ⟨hf.key_of_find? hstored, rfl⟩
    · obtain ⟨d', hload', horg⟩ := hc.run_owner r hr
      obtain rfl := Except.ok.inj (hload.symm.trans (hown ▸ hload'))
      exact horg
  | @started id context d ms r store loaded active given appended =>
    obtain rfl := Option.some.inj hA
    obtain ⟨hload, -⟩ := Prod.mk.inj loaded
    obtain rfl := (Prod.mk.inj appended).2
    have hnew : Assoc.find? r.id s.store.runs = none := by
      rw [given]
      exact h.runs s.idsTaken (Nat.le_refl _) hs
    have htouches : Memory.Touches r.definition r.org s.store (s.store.putRun r) :=
      .putRun fun q hq => nomatch hnew.symm.trans hq
    rw [given] at htouches ⊢
    exact .inr ⟨d, hload, htouches⟩
  | @finished _ id r r' store own found ended updated =>
    obtain ⟨hrun, -⟩ := Prod.mk.inj found
    obtain rfl := Memory.updateRun_eq_ok (Memory.written_eq_ok updated)
    obtain rfl := Option.some.inj ((Call.addressee?_of_finishing own hrun).symm.trans hA)
    obtain ⟨-, hid, hstart, -, -⟩ := finish_read h.ledger own found ended
    obtain ⟨d, hload, horg⟩ := hc.run_owner r (Memory.mem_runs_of_run hrun)
    have htouches : Memory.Touches r'.definition r'.org s.store (s.store.putRun r') := by
      refine .putRun fun q hq => ?_
      rw [hid, Memory.run_eq_ok.1 hrun] at hq
      obtain rfl := Option.some.inj hq
      exact ⟨hstart.definition.symm, hstart.org.symm⟩
    rw [hstart.definition, hstart.org, horg] at htouches
    exact .inr ⟨d, hload, htouches⟩

/-- A call that creates a definition writes nothing, or stores one that is new, for the
organization that it was given. -/
theorem Effect.founds (h : Orderly Memory.registry Memory.ledger sources bound s)
    (hs : s.idsTaken < bound) (ho : Effect sources now s call o) {org : Value}
    (horg : call.founder? = some org) :
    o.session.store = s.store ∨
      s.store.shelf (sources.ids s.idsTaken) = none ∧
        Memory.Touches (sources.ids s.idsTaken) org s.store o.session.store := by
  cases ho with
  | quiet result drawsTaken first last => exact .inl rfl
  | @founded _ p name d events store proposed accepted named saved told =>
    have hid : d.id = sources.ids s.idsTaken := by rw [named]; rfl
    have hown : d.org = org := by
      rw [named]
      cases proposed with
      | given p => exact Option.some.inj horg
      | offered context name found => exact Option.some.inj horg
    have hnew : s.store.shelf (sources.ids s.idsTaken) = none :=
      Option.map_eq_none_iff.1 (h.definitions s.idsTaken (Nat.le_refl _) hs)
    obtain rfl := Memory.take_save_eq_ok saved
    have htouches : Memory.Touches d.id d.org s.store (s.store.put d) := by
      refine .put fun c hc => ?_
      rw [hid] at hc
      cases hnew.symm.trans hc
    rw [hid, hown] at htouches
    exact .inr ⟨hnew, htouches⟩
  | edited own loaded changed saved =>
    cases call with
    | create _ | install _ _ _ => cases own
    | _ => cases horg
  | finished own found ended updated =>
    cases call with
    | create _ | install _ _ _ => cases own
    | _ => cases horg
  | _ => cases horg

end

/-! ## Sessions -/

theorem length_serve {σ : Type} [Backend σ] (sources : Program.Sources) (canvas : Editor.Canvas)
    (s : Session σ) (calls : List (Timestamp × Call)) :
    (serve sources canvas s calls).length = calls.length := by
  induction calls generalizing s with
  | nil => rfl
  | cons c rest ih => exact congrArg (· + 1) (ih _)

/-- What is relied on of a session: each identifier to be taken is new, runs and events belong to
stored definitions, and definitions are filed under their own identifiers. -/
structure Settled (sources : Program.Sources) (bound : Nat) (s : Session Memory) : Prop where
  orderly : Orderly Memory.registry Memory.ledger sources bound s
  consistent : s.store.Consistent
  filed : Assoc.Filed Definition.id s.store.definitions

theorem settled_empty (sources : Program.Sources) (bound : Nat) (catalog : Catalog) :
    Settled sources bound (newSession (Memory.empty catalog)) :=
  ⟨orderly_memory catalog, Memory.consistent_empty catalog, Assoc.Filed.nil⟩

/-- Any calls leave a settled session settled, and take one identifier each at most. -/
theorem Settled.after {sources : Program.Sources} {bound : Nat} {s : Session Memory}
    (h : Settled sources bound s) (hd : sources.Distinct bound) (canvas : Editor.Canvas)
    {calls : List (Timestamp × Call)} (hroom : s.idsTaken + calls.length ≤ bound) :
    Settled sources bound (sessionAfter sources canvas s calls) ∧
      (sessionAfter sources canvas s calls).idsTaken ≤ s.idsTaken + calls.length := by
  have hreached := h.orderly.serve_induction hd atomic_memory canvas
    (I := fun t answers => Settled sources bound t ∧ t.idsTaken ≤ s.idsTaken + answers.length)
    hroom [] ⟨h, Nat.le_refl _⟩ fun c _ t answers o ht hlt ⟨hsettled, htaken⟩ ho => by
      obtain ⟨ho', hnext⟩ := ht.effect hd hlt ho
      refine ⟨⟨ho', consistent_effect ht hlt hsettled.consistent ho,
        ho.keeps filed_step hsettled.filed⟩, ?_⟩
      rw [List.length_append, List.length_singleton]
      omega
  rwa [List.nil_append, length_serve] at hreached

/-! ## Theorem -/

/-- Other definitions, and organizations other than that of the definition, are shown as
before. -/
structure Isolated (m m' : Memory) (A : Uuid) : Prop where
  definitions : ∀ B, B ≠ A → m.Undisturbed m' B
  organizations : ∀ P, P ≠ .null → (∀ d, m.load A = .ok d → d.org.same P = false) →
    m.OrgUndisturbed m' P

/-- All that was stored, and all organizations but the given one, are shown as before. -/
structure IsolatedFounding (m m' : Memory) (org : Value) : Prop where
  definitions : ∀ B d, m.load B = .ok d → m.Undisturbed m' B
  organizations : ∀ P, P ≠ .null → org.same P = false → m.OrgUndisturbed m' P

/-- After any calls, one after another and from the empty store, a call that is addressed to a
definition or to a run of it leaves other definitions and other organizations as they are, and a
call that creates a definition leaves all that was stored and other organizations. -/
theorem calls_isolated (sources : Program.Sources) (canvas : Editor.Canvas) (catalog : Catalog)
    (calls : List (Timestamp × Call)) (now : Timestamp) (call : Call)
    (hd : sources.Distinct (calls.length + 1)) :
    let s := sessionAfter sources canvas (newSession (Memory.empty catalog)) calls
    let m' := ((call.program canvas now).run sources s).session.store
    (∀ A, call.addressee? s.store = some A → Isolated s.store m' A) ∧
      ∀ org, call.founder? = some org → IsolatedFounding s.store m' org := by
  intro s m'
  have hroom : 0 + calls.length ≤ calls.length + 1 := by omega
  obtain ⟨⟨h, hc, hf⟩, htaken⟩ :=
    (settled_empty sources (calls.length + 1) catalog).after hd canvas hroom
  have hs : s.idsTaken < calls.length + 1 := by
    have htaken : s.idsTaken ≤ 0 + calls.length := htaken
    omega
  have ho := atomic_memory.effect_program sources canvas now s call
  refine ⟨fun A hA => ?_, fun org horg => ?_⟩
  · rcases ho.touches h hs hf hc hA with hsame | ⟨d, hload, htouches⟩
    · have hsame : m' = s.store := hsame
      rw [hsame]
      exact ⟨fun B _ => .refl _ B, fun P _ _ => .refl _ P⟩
    · exact ⟨fun B hB => htouches.undisturbed hB,
        fun P hP hne => htouches.orgUndisturbed hP (hne d hload)⟩
  · rcases ho.founds h hs horg with hsame | ⟨hnew, htouches⟩
    · have hsame : m' = s.store := hsame
      rw [hsame]
      exact ⟨fun B _ _ => .refl _ B, fun P _ _ => .refl _ P⟩
    · refine ⟨fun B d hload => htouches.undisturbed ?_,
        fun P hP hne => htouches.orgUndisturbed hP hne⟩
      rintro rfl
      cases hnew.symm.trans (Memory.load_eq_ok.1 hload)

/-- Two organizations have an automation each. -/
def neighbours : List (Timestamp × Call) :=
  [(⟨0, some 0⟩, .create Definition.welcomeProposal),
    (⟨1, some 0⟩, .create { Definition.welcomeProposal with context := ⟨.text "globex", .null⟩ })]

/-- One of them is deleted. -/
theorem calls_isolated_neighbours :
    let s := sessionAfter counting .standard (newSession (Memory.empty .empty)) neighbours
    let o := ((Call.delete (Uuid.ofNat 0)).program .standard ⟨2, some 0⟩).run counting s
    let m' := o.session.store
    counting.Distinct (neighbours.length + 1) ∧ s.store.definitions.length = 2 ∧
      m'.definitions.length = 1 ∧ s.store.Undisturbed m' (Uuid.ofNat 1) ∧
      s.store.OrgUndisturbed m' (.text "globex") := by
  intro s o m'
  have hd : counting.Distinct (neighbours.length + 1) := distinct_counting (by decide)
  have hisolated := (calls_isolated counting .standard .empty neighbours ⟨2, some 0⟩
    (.delete (Uuid.ofNat 0)) hd).1 (Uuid.ofNat 0) rfl
  refine ⟨hd, by decide +kernel, by decide +kernel, hisolated.definitions _ (by decide), ?_⟩
  refine hisolated.organizations _ nofun fun d hload => ?_
  have horg : (s.store.load (Uuid.ofNat 0)).toOption.map Definition.org = some (.text "acme") := by
    decide +kernel
  rw [hload] at horg
  rw [Option.some.inj horg]
  decide

end Workflow.Service
