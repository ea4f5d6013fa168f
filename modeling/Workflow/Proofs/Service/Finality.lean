import Workflow.Proofs.Service.Finishing
import Workflow.Proofs.Service.Orderly

/-!
# A run is finished once

Clients that complete and cancel runs, and delete definitions, at the same time and in any
order of steps, finish each run at most once.

    of the clients that are to finish a run one succeeds at most     (FinishesOnce.once)
    the end of a run is announced by it, and once                    (told_once, told_iff)
    from then on the run is stored as it left it, or deleted         (finished, frozen)
    and whoever is to finish it later is refused                     (refused, missing)

One thing comes before the run is looked at: whether the outcome is one by which a run can
be completed.  A client that names another is told of that, whether or not the run has been
finished (`faulty`); so not every later call is refused for the run's sake
(`late_client_faulty`).
-/

namespace Workflow.Service

open Store (Backend Ledger Memory Tables)

/-! ## Statement -/

/-- What a store answers when it is asked for a run. -/
def recorded {σ : Type} [Backend σ] (store : σ) (id : Uuid) : Option Run :=
  (Backend.take (.run id) store).1.toOption

/-- The next step of a client is one on the store. -/
def Client.Waits (c : Client) : Prop := ∃ s next, c.rest = .take s next

/-- What is said of a pool that has come from a first one by an order of steps. -/
structure Pool.FinishesOnce {σ : Type} [Backend σ] (sources : Program.Sources) (first : Pool σ)
    (order : List Nat) (P : Pool σ) : Prop where
  /-- a stored run began as it did at first -/
  kept : ∀ id r, recorded P.store id = some r →
    ∃ r₀, recorded first.store id = some r₀ ∧ r.SameStart r₀
  /-- a run is gone just if its definition was deleted -/
  gone : ∀ id r₀, recorded first.store id = some r₀ → recorded P.store id = none →
    .deleted r₀.definition ∈ P.log
  /-- what a client has finished had been running, and is stored as it left it or is gone -/
  finished : ∀ i id r, P.FinishedBy i id r → r.status.isTerminal = true ∧
    (∃ r₀, recorded first.store id = some r₀ ∧ r₀.status.isTerminal = false) ∧
    (recorded P.store id = some r ∨ recorded P.store id = none)
  /-- no two clients have finished one run -/
  once : ∀ i j id r r', P.FinishedBy i id r → P.FinishedBy j id r' → i = j
  /-- and one has, if the run has come to be finished -/
  some_client : ∀ id r₀ r, recorded first.store id = some r₀ → r₀.status.isTerminal = false →
    recorded P.store id = some r → r.status.isTerminal = true → ∃ i, P.FinishedBy i id r
  /-- no run's end is announced twice -/
  told_once : ((first.told sources order).filterMap endedRun?).Nodup
  /-- it is announced by the client that has finished the run, before it returns -/
  told_iff : ∀ id, id ∈ (first.told sources order).filterMap endedRun? ↔
    ∃ i r, P.Finisher i id (· = .done (.run r))
  /-- a finished run stays as it is for as long as it is stored -/
  frozen : ∀ id r, recorded P.store id = some r → r.status.isTerminal = true →
    ∀ later, recorded (P.after sources later).store id = some r ∨
      recorded (P.after sources later).store id = none
  /-- a run that is gone stays so -/
  forgotten : ∀ id, recorded P.store id = none →
    ∀ later, recorded (P.after sources later).store id = none
  /-- a client that replaces a running run has finished it -/
  succeeds : ∀ i c id r r' next, P.clients[i]? = some c → c.call.finishing? = some id →
    c.rest = .take (.updateRun r') next → recorded P.store id = some r →
    r.status.isTerminal = false → (P.advance sources i).FinishedBy i id r'
  /-- if the run has been finished the client fails, when it reads it as when it replaces it -/
  refused : ∀ i c id status r, P.clients[i]? = some c → c.call.finishing? = some id →
    c.Waits → c.call.outcome = .ok status → recorded P.store id = some r →
    r.status.isTerminal = true → P.advance sources i = P.setClient i
      { c with rest := .fail (.runFinished id r.status (endedBy status)) }
  /-- so it does if the run is gone -/
  missing : ∀ i c id, P.clients[i]? = some c → c.call.finishing? = some id → c.Waits →
    recorded P.store id = none →
    P.advance sources i = P.setClient i { c with rest := .fail (.runMissing id) }
  /-- but an outcome that is none is told of, whatever the run is like -/
  faulty : ∀ i c id r e, P.clients[i]? = some c → c.call.finishing? = some id → c.Waits →
    c.call.outcome = .error e → recorded P.store id = some r →
    P.advance sources i = P.setClient i { c with rest := .fail e }

/-! ## Proof -/

section

variable {σ : Type} [Backend σ] {L : Ledger σ} {began : Uuid → Option Run}
  {sources : Program.Sources} {P : Pool σ} {told : List Event} {i : Nat} {c : Client} {id : Uuid}

theorem recorded_eq (L : Ledger σ) {store : σ} (hs : L.Sound store) (id : Uuid) :
    recorded store id = L.runs store id := by
  unfold recorded
  cases hr : L.runs store id with
  | none =>
    rw [L.run_missing hs hr]
    rfl
  | some r =>
    rw [(L.run_found hs hr).1]
    rfl

/-- A client that is to finish a run and waits for the store is about to read the run or to
replace it. -/
theorem Pool.Exclusive.waiting (h : P.Exclusive L began told) (hc : P.clients[i]? = some c)
    (own : c.call.finishing? = some id) (hw : c.Waits) :
    c.rest = .take (.run id) (closing c.call id c.now) ∨
      ∃ r r', r'.id = id ∧ c.call.finish c.now r = .ok r' ∧ L.Fits r' ∧
        c.rest = .take (.updateRun r') fun _ => ending id c.now r' := by
  obtain ⟨s, next, hr⟩ := hw
  rcases h.clients c (List.mem_of_getElem? hc) with ⟨id', own', stage⟩ | ⟨idle, -⟩
  · obtain rfl := Option.some.inj (own.symm.trans own')
    generalize hp : c.rest = left at stage
    cases stage with
    | reading admits => exact Or.inl rfl
    | @writing r₀ r r' stored same named ended fits =>
      exact Or.inr ⟨r, r', named, ended, fits, rfl⟩
    | telling | returned | failed =>
      rw [hp] at hr
      cases hr
  · rw [own] at idle
    cases idle

/-- A client that reads a run goes on with it, and nothing else happens. -/
theorem Pool.Exclusive.advance_read (h : P.Exclusive L began told) (hc : P.clients[i]? = some c)
    (hr : c.rest = .take (.run id) (closing c.call id c.now)) {r : Run}
    (hrun : L.runs P.store id = some r) :
    P.advance sources i = P.setClient i { c with rest := closing c.call id c.now r } := by
  rw [Pool.advance_ok hc hr (L.run_found h.sound hrun).1]
  show { P with clients := _, log := P.log ++ [] } = _
  rw [List.append_nil]
  rfl

theorem Pool.Exclusive.succeeds (h : P.Exclusive L began told) (hc : P.clients[i]? = some c)
    (own : c.call.finishing? = some id) {r r' : Run} {next : Unit → Program Reply}
    (hr : c.rest = .take (.updateRun r') next) (hrun : L.runs P.store id = some r)
    (running : r.status.isTerminal = false) : (P.advance sources i).FinishedBy i id r' := by
  have hw : c.Waits := ⟨_, _, hr⟩
  rcases h.waiting hc own hw with hread | ⟨q, q', named, -, fits, hreplace⟩
  · rw [hr] at hread
    cases hread
  · rw [hr] at hreplace
    obtain ⟨hstep, hnext⟩ := Program.take.inj hreplace
    obtain rfl := Store.Step.updateRun.inj hstep
    obtain rfl := eq_of_heq hnext
    rw [← named] at hrun
    obtain ⟨store, hupdate⟩ := L.finish_found h.sound fits hrun running
    rw [Pool.advance_ok hc hr hupdate]
    refine (finisher_set hc rfl i id _).2 ?_
    rw [if_pos rfl]
    exact ⟨own, rfl⟩

theorem Pool.Exclusive.refused (h : P.Exclusive L began told) (hc : P.clients[i]? = some c)
    (own : c.call.finishing? = some id) (hw : c.Waits) {status : RunStatus} {r : Run}
    (ho : c.call.outcome = .ok status) (hrun : L.runs P.store id = some r)
    (terminal : r.status.isTerminal = true) : P.advance sources i = P.setClient i
      { c with rest := .fail (.runFinished id r.status (endedBy status)) } := by
  rcases h.waiting hc own hw with hread | ⟨q, r', named, ended, fits, hreplace⟩
  · have hid : r.id = id := (L.run_found h.sound hrun).2
    have hclosing : closing c.call id c.now r
        = .fail (.runFinished id r.status (endedBy status)) := by
      unfold closing
      rw [Call.finish_of_terminal own ho c.now terminal, hid]
    rw [h.advance_read hc hread hrun, hclosing]
  · obtain ⟨-, status', ho', hr'⟩ := Call.finish_eq_ok own ended
    obtain rfl : status = status' := Except.ok.inj (ho.symm.trans ho')
    have haction : Store.actionOf r' = endedBy status := by
      rw [hr']
      rfl
    rw [← named] at hrun
    rw [Pool.advance_error hc hreplace (L.finish_finished h.sound fits hrun terminal), haction,
      named]

theorem Pool.Exclusive.missing (h : P.Exclusive L began told) (hc : P.clients[i]? = some c)
    (own : c.call.finishing? = some id) (hw : c.Waits) (hrun : L.runs P.store id = none) :
    P.advance sources i = P.setClient i { c with rest := .fail (.runMissing id) } := by
  rcases h.waiting hc own hw with hread | ⟨q, r', named, ended, fits, hreplace⟩
  · exact Pool.advance_error hc hread (L.run_missing h.sound hrun)
  · rw [← named] at hrun
    rw [Pool.advance_error hc hreplace (L.finish_missing h.sound fits hrun), named]

theorem Pool.Exclusive.faulty (h : P.Exclusive L began told) (hc : P.clients[i]? = some c)
    (own : c.call.finishing? = some id) (hw : c.Waits) {r : Run} {e : Error}
    (ho : c.call.outcome = .error e) (hrun : L.runs P.store id = some r) :
    P.advance sources i = P.setClient i { c with rest := .fail e } := by
  rcases h.waiting hc own hw with hread | ⟨q, r', -, ended, -⟩
  · have hclosing : closing c.call id c.now r = .fail e := by
      unfold closing
      rw [Call.finish_of_error own ho c.now r]
    rw [h.advance_read hc hread hrun, hclosing]
  · rw [Call.finish_of_error own ho c.now q] at ended
    cases ended

/-- The calls that the clients carry out: they finish a run or delete a definition. -/
def Call.EndsRuns (call : Call) : Prop :=
  (∃ id, call.finishing? = some id) ∨ ∃ id, call = .delete id

theorem Pool.start_exclusive (L : Ledger σ) (canvas : Editor.Canvas) {store : σ}
    (hs : L.Sound store) {calls : List (Timestamp × Call)} (hcalls : ∀ p ∈ calls, p.2.EndsRuns)
    (hadmits : ∀ p ∈ calls, Admits L (L.runs store) p.1 p.2) :
    (Pool.start canvas store calls).Exclusive L (L.runs store) [] := by
  -- whoever is to finish a run has yet to read it
  have hreading : ∀ i id left, (Pool.start canvas store calls).Finisher i id left →
      ∃ next, left (.take (.run id) next) := by
    rintro i id left ⟨c, hc, own, hl⟩
    obtain ⟨p, -, rfl⟩ := Pool.mem_start (List.mem_of_getElem? hc)
    have hrest : (Client.start canvas p.1 p.2).rest = .take (.run id) (closing p.2 id p.1) :=
      program_finishing own canvas p.1
    rw [hrest] at hl
    exact ⟨_, hl⟩
  have hnobody : ∀ i id r, ¬(Pool.start canvas store calls).FinishedBy i id r := by
    intro i id r h
    obtain ⟨next, hl⟩ := hreading i id _ h
    cases hl
  exact {
    sound := hs
    clients := by
      intro c hc
      obtain ⟨⟨now, call⟩, hp, rfl⟩ := Pool.mem_start hc
      rcases hcalls _ hp with ⟨id, own⟩ | ⟨id, rfl⟩
      · refine Or.inl ⟨id, own, ?_⟩
        show Finishing L (L.runs store) now call id (call.program canvas now)
        rw [program_finishing own]
        exact .reading (hadmits _ hp)
      · exact Or.inr ⟨rfl, leavesRuns_delete id canvas now⟩
    kept := fun id r hr => ⟨r, hr, .refl r, Or.inl rfl⟩
    gone := by
      intro id r₀ hsome hnone
      have hnone : L.runs store id = none := hnone
      rw [hsome] at hnone
      cases hnone
    finished := fun i id r h => absurd h (hnobody i id r)
    once := fun i _ id r _ h => absurd h (hnobody i id r)
    told_nodup := List.nodup_nil
    told_iff := by
      intro id
      refine iff_of_false List.not_mem_nil ?_
      rintro ⟨i, r, h⟩
      obtain ⟨next, hl⟩ := hreading i id _ h
      cases hl }

/-- Clients of a store that keeps runs finish each of them once. -/
theorem Pool.finishesOnce (L : Ledger σ) (sources : Program.Sources) (canvas : Editor.Canvas)
    {store : σ} (hs : L.Sound store) {calls : List (Timestamp × Call)}
    (hcalls : ∀ p ∈ calls, p.2.EndsRuns)
    (hadmits : ∀ p ∈ calls, Admits L (L.runs store) p.1 p.2) (order : List Nat) :
    Pool.FinishesOnce sources (Pool.start canvas store calls) order
      ((Pool.start canvas store calls).after sources order) := by
  have h : ((Pool.start canvas store calls).after sources order).Exclusive L (L.runs store)
      ([] ++ (Pool.start canvas store calls).told sources order) :=
    (Pool.start_exclusive L canvas hs hcalls hadmits).after order
  rw [List.nil_append] at h
  generalize (Pool.start canvas store calls).after sources order = P at h
  have hfirst : recorded (Pool.start canvas store calls).store = L.runs store :=
    funext (recorded_eq L hs)
  have hstored : recorded P.store = L.runs P.store := funext (recorded_eq L h.sound)
  have hlater : ∀ later, recorded (P.after sources later).store
      = L.runs (P.after sources later).store :=
    fun later => funext (recorded_eq L (h.after later).sound)
  exact {
    kept := by
      rw [hfirst, hstored]
      intro id r hr
      obtain ⟨r₀, hbegan, hstart, -⟩ := h.kept id r hr
      exact ⟨r₀, hbegan, hstart⟩
    gone := by
      rw [hfirst, hstored]
      exact h.gone
    finished := by
      rw [hfirst, hstored]
      exact h.finished
    once := h.once
    some_client := by
      rw [hfirst, hstored]
      intro id r₀ r hbegan running hr terminal
      obtain ⟨r₁, hbegan', -, rfl | ⟨-, hby⟩⟩ := h.kept id r hr
      · obtain rfl := Option.some.inj (hbegan.symm.trans hbegan')
        rw [terminal] at running
        cases running
      · exact hby
    told_once := h.told_nodup
    told_iff := h.told_iff
    frozen := by
      intro id r hr terminal later
      rw [hstored] at hr
      rw [hlater]
      exact h.frozen hr terminal later
    forgotten := by
      intro id hnone later
      rw [hstored] at hnone
      rw [hlater]
      exact h.forgotten hnone later
    succeeds := by
      rw [hstored]
      exact fun i c id r r' next hc own hr hrun running => h.succeeds hc own hr hrun running
    refused := by
      rw [hstored]
      exact fun i c id status r hc own hw ho hrun terminal => h.refused hc own hw ho hrun terminal
    missing := by
      rw [hstored]
      exact fun i c id hc own hw hrun => h.missing hc own hw hrun
    faulty := by
      rw [hstored]
      exact fun i c id r e hc own hw ho hrun => h.faulty hc own hw ho hrun }

end

/-! ## What the tables admit -/

theorem Call.lastError_typed {call : Call} (h : call.Typed) (status : RunStatus) :
    (call.lastError status).IsTextOrNull := by
  cases call with
  | completeRun id outcome error =>
    show (if status = .failed then error else .null : Value).IsTextOrNull
    split
    · exact h
    · exact Or.inl rfl
  | _ => exact Or.inl rfl

/-- Runs whose contexts have been written are finished by calls with arguments of the declared
types. -/
theorem admits_finishing {t : Tables} (hwritable : ∀ row ∈ t.runs, row.context.isWritable = true)
    {now : Timestamp} (hnow : now.IsUniversal ∧ now.isStorable = true) {call : Call}
    (hc : call.Typed) : Admits Tables.ledger t.runRow? now call := by
  intro id r₀ r r' own hbegan hsame hf
  obtain ⟨-, status, -, rfl⟩ := Call.finish_eq_ok own hf
  exact {
    writable := by
      show r.context.isWritable = true
      rw [hsame.context]
      exact hwritable r₀ (List.mem_of_find?_eq_some hbegan)
    finishedAt := by
      intro t ht
      obtain rfl := Option.some.inj ht
      exact hnow
    lastError := Call.lastError_typed hc status }

/-! ## Theorem -/

/-- However the steps of clients that complete and cancel runs and delete definitions interleave,
each run is finished once at most, in memory or in tables.  Tables need arguments of the declared
types and a clock that shows universal time. -/
theorem finishes_once (sources : Program.Sources) (canvas : Editor.Canvas)
    (calls : List (Timestamp × Call)) (hcalls : ∀ p ∈ calls, p.2.EndsRuns) (order : List Nat) :
    (∀ m : Memory, Assoc.Filed Run.id m.runs →
      Pool.FinishesOnce sources (Pool.start canvas m calls) order
        ((Pool.start canvas m calls).after sources order)) ∧
    (∀ t : Tables, t.RunsSound → (∀ row ∈ t.runs, row.context.isWritable = true) →
      (∀ p ∈ calls, (p.1.IsUniversal ∧ p.1.isStorable = true) ∧ p.2.Typed) →
      Pool.FinishesOnce sources (Pool.start canvas t calls) order
        ((Pool.start canvas t calls).after sources order)) := by
  constructor
  · intro m hm
    exact Pool.finishesOnce Memory.ledger sources canvas hm hcalls
      (fun _ _ _ _ _ _ _ _ _ _ => trivial) order
  · intro t ht hwritable htyped
    exact Pool.finishesOnce Tables.ledger sources canvas ht hcalls
      (fun p hp => admits_finishing hwritable (htyped p hp).1 (htyped p hp).2) order

/-! ## A race -/

def welcomeRun : Run :=
  .start (Uuid.ofNat 2) Definition.welcome.id Definition.welcome.org (.object [("lead", .int 7)])
    ⟨1, some 0⟩

def runningInMemory : Memory := ((Memory.empty .empty).put Definition.welcome).putRun welcomeRun

def runningInTables : Tables :=
  { Tables.empty with
    definitions := [Store.DefinitionRow.of Definition.welcome]
    runs := [welcomeRun] }

/-- The run is completed by two clients and cancelled by two, and a fifth one deletes its
definition. -/
def duel : List (Timestamp × Call) :=
  [(⟨2, some 0⟩, .completeRun (Uuid.ofNat 2) (.text "success") .null),
    (⟨3, some 0⟩, .cancelRun (Uuid.ofNat 2)),
    (⟨4, some 0⟩, .completeRun (Uuid.ofNat 2) (.text "failed") (.text "timeout")),
    (⟨5, some 0⟩, .delete (Uuid.ofNat 1)),
    (⟨6, some 0⟩, .cancelRun (Uuid.ofNat 2))]

/-- The first two read the run before either replaces it, and the second is faster. -/
def duelOrder : List Nat := [0, 1, 1, 0, 1, 2, 3, 3, 4]

/-- One end of the run is announced, and the run goes with its definition. -/
theorem finishes_once_duel :
    (Pool.FinishesOnce counting (Pool.start .standard runningInMemory duel) duelOrder
        ((Pool.start .standard runningInMemory duel).after counting duelOrder) ∧
      ((Pool.start .standard runningInMemory duel).told counting duelOrder).filterMap endedRun?
        = [Uuid.ofNat 2] ∧
      recorded ((Pool.start .standard runningInMemory duel).after counting duelOrder).store
        (Uuid.ofNat 2) = none) ∧
    (Pool.FinishesOnce counting (Pool.start .standard runningInTables duel) duelOrder
        ((Pool.start .standard runningInTables duel).after counting duelOrder) ∧
      ((Pool.start .standard runningInTables duel).told counting duelOrder).filterMap endedRun?
        = [Uuid.ofNat 2] ∧
      recorded ((Pool.start .standard runningInTables duel).after counting duelOrder).store
        (Uuid.ofNat 2) = none) := by
  have hcalls : ∀ p ∈ duel, p.2.EndsRuns := by
    intro p hp
    simp only [duel, List.mem_cons, List.not_mem_nil, or_false] at hp
    rcases hp with rfl | rfl | rfl | rfl | rfl
    · exact Or.inl ⟨_, rfl⟩
    · exact Or.inl ⟨_, rfl⟩
    · exact Or.inl ⟨_, rfl⟩
    · exact Or.inr ⟨_, rfl⟩
    · exact Or.inl ⟨_, rfl⟩
  have htyped : ∀ p ∈ duel, (p.1.IsUniversal ∧ p.1.isStorable = true) ∧ p.2.Typed := by
    intro p hp
    simp only [duel, List.mem_cons, List.not_mem_nil, or_false] at hp
    rcases hp with rfl | rfl | rfl | rfl | rfl
    · exact ⟨⟨rfl, rfl⟩, Or.inl rfl⟩
    · exact ⟨⟨rfl, rfl⟩, trivial⟩
    · exact ⟨⟨rfl, rfl⟩, Or.inr ⟨_, rfl⟩⟩
    · exact ⟨⟨rfl, rfl⟩, trivial⟩
    · exact ⟨⟨rfl, rfl⟩, trivial⟩
  obtain ⟨hm, ht⟩ := finishes_once counting .standard duel hcalls duelOrder
  refine ⟨⟨?_, by decide +kernel, by decide +kernel⟩, ?_, by decide +kernel, by decide +kernel⟩
  · exact hm runningInMemory (Assoc.Filed.nil.put rfl)
  · refine ht runningInTables ⟨?_, ?_⟩ ?_ htyped
    · intro row hrow
      obtain rfl := List.mem_singleton.1 hrow
      exact ⟨_, rfl⟩
    · exact List.nodup_cons.2 ⟨List.not_mem_nil, List.nodup_nil⟩
    · intro row hrow
      obtain rfl := List.mem_singleton.1 hrow
      decide +kernel

/-! ## A client that is not refused -/

/-- The second client names an outcome that is none. -/
def lateCalls : List (Timestamp × Call) :=
  [(⟨2, some 0⟩, .completeRun (Uuid.ofNat 2) (.text "success") .null),
    (⟨3, some 0⟩, .completeRun (Uuid.ofNat 2) (.text "running") .null)]

/-- Not every client that comes late is told that the run has been finished. -/
theorem late_client_faulty :
    ¬∀ (calls : List (Timestamp × Call)) (order : List Nat) (P : Pool Memory) (i j : Nat)
      (c : Client) (id : Uuid) (r : Run), (∀ p ∈ calls, p.2.EndsRuns) →
      P = (Pool.start .standard runningInMemory calls).after counting order →
      P.FinishedBy i id r → recorded P.store id = some r → P.clients[j]? = some c →
      c.call.finishing? = some id → c.Waits → ∃ status action,
        P.advance counting j
          = P.setClient j { c with rest := .fail (.runFinished id status action) } := by
  intro h
  let finished : Run := { welcomeRun with status := .success, finishedAt := some ⟨2, some 0⟩ }
  have hcalls : ∀ p ∈ lateCalls, p.2.EndsRuns := by
    intro p hp
    simp only [lateCalls, List.mem_cons, List.not_mem_nil, or_false] at hp
    rcases hp with rfl | rfl
    · exact Or.inl ⟨_, rfl⟩
    · exact Or.inl ⟨_, rfl⟩
  obtain ⟨status, action, hadvance⟩ := h lateCalls [0, 0, 0] _ 0 1 _ (Uuid.ofNat 2) finished hcalls
    rfl ⟨_, rfl, rfl, rfl⟩ rfl rfl rfl ⟨_, _, rfl⟩
  have hrest := congrArg (fun P : Pool Memory => P.clients[1]?.map Client.rest) hadvance
  have hfail : some (Program.fail (.faulty (.noOutcome .running)) : Program Reply)
      = some (.fail (.runFinished (Uuid.ofNat 2) status action)) := hrest
  cases hfail

end Workflow.Service
