import Workflow.Proofs.Service.Effect
import Workflow.Proofs.Service.Invariant
import Workflow.Proofs.Store.Ledger

/-!
# Clients that finish runs

Any number of clients are to finish runs, and others may delete the definitions of these.
A client that has read its run may hold it for as long as it likes; the store looks at
the run once more when it is asked to replace it.

    each step is one of few moves                       (Exclusive.move)
    each move keeps the invariant                       (Exclusive.step)
    so does any order of steps                          (Exclusive.after)

What is invariant: a stored run is as it was at first, or it began as that and some client
has finished it; and what a client has finished is stored as it left it or has been
deleted, and was finished by no other client.
-/

namespace Workflow.Service

open Store (Backend Ledger Step)

/-! ## Announcements -/

/-- The run whose end is announced. -/
def endedRun? (e : Event) : Option Uuid :=
  match e.happening with
  | .runCompleted run _ _ | .runCancelled run => some run
  | .approvalRequested .. | .approved .. | .rejected .. | .activated | .paused _ | .deleted _
  | .installed .. | .runStarted _ => none

theorem endedRun?_finishedAs (definition id : Uuid) (now : Timestamp) (r : Run) :
    endedRun? ⟨definition, now, finishedAs id r⟩ = some id := by
  unfold finishedAs
  split
  · rfl
  · rfl

/-! ## Clients -/

/-- Whether a step starts or finishes a run. -/
def movesRun : Step → Bool
  | .appendRun _ | .updateRun _ => true
  | .load _ | .save .. | .delete _ | .definitions _ | .appendApproval _ | .approvals _ | .run _
  | .runs .. | .orgRuns .. | .summary _ | .templates | .template _ => false

/-- Neither starts nor finishes a run, and announces the end of none. -/
def LeavesRuns : Program Reply → Prop
  | .done _ | .fail _ => True
  | .take s next => movesRun s = false ∧ ∀ a, LeavesRuns (next a)
  | .announce e next => endedRun? e = none ∧ LeavesRuns next
  | .fresh next => ∀ id, LeavesRuns (next id)
  | .draw _ next => ∀ draws, LeavesRuns (next draws)

theorem leavesRuns_delete (id : Uuid) (canvas : Editor.Canvas) (now : Timestamp) :
    LeavesRuns ((Call.delete id).program canvas now) :=
  ⟨rfl, fun _ => ⟨rfl, fun _ => ⟨rfl, trivial⟩⟩⟩

section

variable {σ : Type} [Backend σ] (L : Ledger σ) (began : Uuid → Option Run)

/-- What a call makes of the run that it is to finish can be kept. -/
def Admits (now : Timestamp) (call : Call) : Prop :=
  ∀ id r₀ r r', call.finishing? = some id → began id = some r₀ → r.SameStart r₀ →
    call.finish now r = .ok r' → L.Fits r'

/-- How far a call that is to finish a run has come. -/
inductive Finishing (now : Timestamp) (call : Call) (id : Uuid) : Program Reply → Prop where
  | reading (admits : Admits L began now call) :
    Finishing now call id (.take (.run id) (closing call id now))
  | writing {r₀ r r' : Run} (stored : began id = some r₀) (same : r.SameStart r₀)
    (named : r'.id = id) (ended : call.finish now r = .ok r') (fits : L.Fits r') :
    Finishing now call id (.take (.updateRun r') fun _ => ending id now r')
  | telling (r : Run) : Finishing now call id (ending id now r)
  | returned (r : Run) : Finishing now call id (.done (.run r))
  | failed (e : Error) : Finishing now call id (.fail e)

/-- A client is about to finish a run, or leaves all of them alone. -/
def Client.Stage (c : Client) : Prop :=
  (∃ id, c.call.finishing? = some id ∧ Finishing L began c.now c.call id c.rest) ∨
    c.call.finishing? = none ∧ LeavesRuns c.rest

end

section

variable {σ : Type}

/-- A client is to finish a run, and something holds of what is left of its call. -/
def Pool.Finisher (P : Pool σ) (i : Nat) (id : Uuid) (left : Program Reply → Prop) : Prop :=
  P.At i fun c => c.call.finishing? = some id ∧ left c.rest

/-- A client has finished a run. -/
def Pool.FinishedBy (P : Pool σ) (i : Nat) (id : Uuid) (r : Run) : Prop :=
  P.Finisher i id fun p => p.settled? = some (.run r)

theorem finisher_set {P P' : Pool σ} {i : Nat} {c c' : Client} (hc : P.clients[i]? = some c)
    (hset : P'.clients = P.clients.set i c') (j : Nat) (id : Uuid) (left : Program Reply → Prop) :
    P'.Finisher j id left ↔ if j = i then c'.call.finishing? = some id ∧ left c'.rest
      else P.Finisher j id left :=
  Pool.at_set hc hset j _

/-- Something that is said of the same clients before and after. -/
theorem finisher_congr {P P' : Pool σ} {i : Nat} {c c' : Client} {left : Program Reply → Prop}
    (hc : P.clients[i]? = some c) (hset : P'.clients = P.clients.set i c')
    (hcall : c'.call = c.call)
    (hleft : ∀ id, c.call.finishing? = some id → (left c'.rest ↔ left c.rest)) (j : Nat)
    (id : Uuid) : P'.Finisher j id left ↔ P.Finisher j id left := by
  refine Pool.at_congr hc hset ?_ j
  rw [hcall]
  exact and_congr_right (hleft id)

end

/-! ## Invariant -/

section

variable {σ : Type} [Backend σ] {L : Ledger σ} {began : Uuid → Option Run}
  {sources : Program.Sources} {P P' : Pool σ} {told es : List Event} {i : Nat}

/-- The invariant of a pool in which `told` has been announced. -/
structure Pool.Exclusive (L : Ledger σ) (began : Uuid → Option Run) (P : Pool σ)
    (told : List Event) : Prop where
  sound : L.Sound P.store
  clients : ∀ c ∈ P.clients, c.Stage L began
  kept : ∀ id r, L.runs P.store id = some r → ∃ r₀, began id = some r₀ ∧ r.SameStart r₀ ∧
    (r = r₀ ∨ r₀.status.isTerminal = false ∧ ∃ i, P.FinishedBy i id r)
  gone : ∀ id r₀, began id = some r₀ → L.runs P.store id = none →
    .deleted r₀.definition ∈ P.log
  finished : ∀ i id r, P.FinishedBy i id r → r.status.isTerminal = true ∧
    (∃ r₀, began id = some r₀ ∧ r₀.status.isTerminal = false) ∧
    (L.runs P.store id = some r ∨ L.runs P.store id = none)
  once : ∀ i j id r r', P.FinishedBy i id r → P.FinishedBy j id r' → i = j
  told_nodup : (told.filterMap endedRun?).Nodup
  told_iff : ∀ id, id ∈ told.filterMap endedRun? ↔
    ∃ i r, P.Finisher i id (· = .done (.run r))

/-! ## Moves -/

/-- What a step of one client does, and what it announces. -/
inductive Pool.Move (L : Ledger σ) (began : Uuid → Option Run) (P P' : Pool σ) (i : Nat) :
    List Event → Prop where
  | stays (same : P' = P) : Move L began P P' i []
  /-- nothing happens to the runs, but that some may be deleted with their definition -/
  | aside {c c' : Client} {es : List Event} (client : P.clients[i]? = some c)
    (clients : P'.clients = P.clients.set i c') (call : c'.call = c.call)
    (stage : c'.Stage L began)
    (unsettled : c.call.finishing? = none ∨ c.rest.settled? = none ∧ c'.rest.settled? = none)
    (sound : L.Sound P'.store)
    (runs : ∀ id, L.runs P'.store id = L.runs P.store id ∨ L.runs P'.store id = none ∧
      ∀ r, L.runs P.store id = some r → .deleted r.definition ∈ P'.log)
    (log : ∀ e ∈ P.log, e ∈ P'.log) (silent : es.filterMap endedRun? = []) :
    Move L began P P' i es
  /-- a run that has been running is replaced -/
  | finishes {c c' : Client} {id : Uuid} {q r : Run} (client : P.clients[i]? = some c)
    (clients : P'.clients = P.clients.set i c') (call : c'.call = c.call)
    (stage : c'.Stage L began) (own : c.call.finishing? = some id)
    (unsettled : c.rest.settled? = none) (rest : c'.rest = ending id c'.now r)
    (sound : L.Sound P'.store) (current : L.runs P.store id = some q)
    (running : q.status.isTerminal = false) (same : r.SameStart q)
    (terminal : r.status.isTerminal = true)
    (runs : ∀ id', L.runs P'.store id' = if id' = id then some r else L.runs P.store id')
    (log : P'.log = P.log) : Move L began P P' i []
  /-- that a run has been finished is announced -/
  | tells {c : Client} {id : Uuid} {r : Run} (client : P.clients[i]? = some c)
    (own : c.call.finishing? = some id) (rest : c.rest = ending id c.now r)
    (after : P' = P.setClient i { c with rest := .done (.run r) }) :
    Move L began P P' i [⟨r.definition, c.now, finishedAs id r⟩]

variable {c : Client}

/-- A step on the store that fails ends the call and nothing else. -/
theorem Pool.Move.fails (hs : L.Sound P.store) (hc : P.clients[i]? = some c)
    {s : Step} {next : s.Answer → Program Reply} (hr : c.rest = .take s next) {e : Error}
    (ht : Backend.take s P.store = (.error e, P.store))
    (hstage : ({ c with rest := .fail e } : Client).Stage L began) :
    P.Move L began (P.advance sources i) i [] := by
  have hunsettled : c.rest.settled? = none := by rw [hr]; rfl
  rw [Pool.advance_error hc hr ht]
  exact .aside hc rfl rfl hstage (Or.inr ⟨hunsettled, rfl⟩) hs (fun _ => Or.inl rfl)
    (fun _ he => he) rfl

/-- A client that leaves runs alone may still delete the definition of some. -/
theorem Pool.Exclusive.move_idle (h : P.Exclusive L began told) (hc : P.clients[i]? = some c)
    (idle : c.call.finishing? = none) (leaves : LeavesRuns c.rest) :
    P.Move L began (P.advance sources i) i c.tells := by
  unfold Client.tells
  cases hr : c.rest with
  | done a => exact .stays (Pool.advance_of_over hc (Or.inl ⟨a, hr⟩))
  | fail e => exact .stays (Pool.advance_of_over hc (Or.inr ⟨e, hr⟩))
  | announce e next =>
    rw [hr] at leaves
    rw [Pool.advance_announce hc hr]
    have hsilent : [e].filterMap endedRun? = [] := by
      rw [List.filterMap_cons_none leaves.1]
      rfl
    exact .aside hc rfl rfl (Or.inr ⟨idle, leaves.2⟩) (Or.inl idle) h.sound
      (fun _ => Or.inl rfl) (fun _ he => he) hsilent
  | fresh next =>
    rw [hr] at leaves
    rw [Pool.advance_fresh hc hr]
    exact .aside hc rfl rfl (Or.inr ⟨idle, leaves _⟩) (Or.inl idle) h.sound
      (fun _ => Or.inl rfl) (fun _ he => he) rfl
  | draw count next =>
    rw [hr] at leaves
    rw [Pool.advance_draw hc hr]
    exact .aside hc rfl rfl (Or.inr ⟨idle, leaves _⟩) (Or.inl idle) h.sound
      (fun _ => Or.inl rfl) (fun _ he => he) rfl
  | take s next =>
    rw [hr] at leaves
    cases ht : Backend.take s P.store with
    | mk answer store =>
      cases answer with
      | error e =>
        obtain rfl := L.take_error ht
        exact .fails h.sound hc hr ht (Or.inr ⟨idle, trivial⟩)
      | ok a =>
        rw [Pool.advance_ok hc hr ht]
        have hlog : ∀ e ∈ P.log, e ∈ P.log ++ c.entries s := fun _ he => List.mem_append_left _ he
        by_cases hw : Store.writesRuns s = true
        · obtain ⟨d, rfl⟩ : ∃ d, s = .delete d := by
            cases s with
            | delete d => exact ⟨d, rfl⟩
            | appendRun _ | updateRun _ => cases leaves.1
            | _ => cases hw
          obtain ⟨hsound, hruns⟩ := L.delete_ok h.sound ht
          refine .aside hc rfl rfl (Or.inr ⟨idle, leaves.2 a⟩) (Or.inl idle) hsound
            (fun id => ?_) hlog rfl
          show L.runs store id = L.runs P.store id ∨ _
          rw [hruns]
          cases hq : L.runs P.store id with
          | none => exact Or.inl rfl
          | some q =>
            by_cases hd : q.definition = d
            · right
              refine ⟨by simp [hd], fun r hr => ?_⟩
              obtain rfl := Option.some.inj hr
              rw [hd]
              exact List.mem_append_right _ List.mem_cons_self
            · exact Or.inl (by simp [hd])
        · obtain ⟨hsound, hruns⟩ := L.take_other h.sound (Bool.eq_false_iff.2 hw) ht
          exact .aside hc rfl rfl (Or.inr ⟨idle, leaves.2 a⟩) (Or.inl idle) hsound
            (fun id => Or.inl (congrFun hruns id)) hlog rfl

/-- A client that is to finish a run reads it, replaces it if it is still running, and announces
that. -/
theorem Pool.Exclusive.move_finisher (h : P.Exclusive L began told) (hc : P.clients[i]? = some c)
    {id : Uuid} (own : c.call.finishing? = some id)
    (stage : Finishing L began c.now c.call id c.rest) :
    P.Move L began (P.advance sources i) i c.tells := by
  have hfailed : ∀ e, ({ c with rest := .fail e } : Client).Stage L began :=
    fun e => Or.inl ⟨id, own, .failed e⟩
  unfold Client.tells
  generalize hr : c.rest = left at stage
  cases stage with
  | reading admits =>
    cases hrun : L.runs P.store id with
    | none => exact .fails h.sound hc hr (L.run_missing h.sound hrun) (hfailed _)
    | some r =>
      obtain ⟨hread, hid⟩ := L.run_found h.sound hrun
      obtain ⟨r₀, hbegan, hsame, -⟩ := h.kept id r hrun
      have hclosing : Finishing L began c.now c.call id (closing c.call id c.now r) ∧
          (closing c.call id c.now r).settled? = none := by
        unfold closing
        cases hf : c.call.finish c.now r with
        | error e => exact ⟨.failed e, rfl⟩
        | ok r' =>
          have hnamed : r'.id = id := by
            obtain ⟨-, _, -, rfl⟩ := Call.finish_eq_ok own hf
            exact hid
          exact ⟨.writing hbegan hsame hnamed hf (admits id r₀ r r' own hbegan hsame hf), rfl⟩
      rw [Pool.advance_ok hc hr hread]
      refine .aside hc rfl rfl (Or.inl ⟨id, own, hclosing.1⟩) (Or.inr ⟨?_, hclosing.2⟩) h.sound
        (fun _ => Or.inl rfl) (fun _ he => List.mem_append_left _ he) rfl
      rw [hr]
      rfl
  | @writing r₀ r r' stored same named ended fits =>
    subst named
    cases hrun : L.runs P.store r'.id with
    | none => exact .fails h.sound hc hr (L.finish_missing h.sound fits hrun) (hfailed _)
    | some q =>
      cases ht : q.status.isTerminal with
      | true => exact .fails h.sound hc hr (L.finish_finished h.sound fits hrun ht) (hfailed _)
      | false =>
        obtain ⟨-, status, houtcome, hr'⟩ := Call.finish_eq_ok own ended
        have hterminal : r'.status.isTerminal = true := by
          rw [hr']
          exact (Call.outcome_eq_ok own houtcome).1
        have hsame : r'.SameStart q := by
          obtain ⟨r₁, hbegan, hq, -⟩ := h.kept r'.id q hrun
          obtain rfl := Option.some.inj (stored.symm.trans hbegan)
          have hstart : r'.SameStart r := by
            rw [hr']
            exact ⟨rfl, rfl, rfl, rfl, rfl⟩
          exact (hstart.trans same).trans hq.symm
        obtain ⟨store, hupdate⟩ := L.finish_found h.sound fits hrun ht
        obtain ⟨hsound, -, q', ⟨-, -, hkept⟩, hruns⟩ := L.finish_ok h.sound hrun hsame hupdate
        rw [hkept fits] at hruns
        rw [Pool.advance_ok hc hr hupdate]
        refine .finishes hc rfl rfl (Or.inl ⟨r'.id, own, .telling r'⟩) own ?_ rfl hsound hrun ht
          hsame hterminal hruns (List.append_nil _)
        rw [hr]
        rfl
  | telling r => exact .tells hc own hr (Pool.advance_announce hc hr)
  | returned r => exact .stays (Pool.advance_of_over hc (Or.inl ⟨_, hr⟩))
  | failed e => exact .stays (Pool.advance_of_over hc (Or.inr ⟨e, hr⟩))

/-- Each step is one of the moves. -/
theorem Pool.Exclusive.move (h : P.Exclusive L began told) (i : Nat) :
    P.Move L began (P.advance sources i) i (P.clients[i]?.elim [] Client.tells) := by
  cases hc : P.clients[i]? with
  | none => exact .stays (Pool.advance_of_none hc)
  | some c =>
    rcases h.clients c (List.mem_of_getElem? hc) with ⟨id, own, stage⟩ | ⟨idle, leaves⟩
    · exact h.move_finisher hc own stage
    · exact h.move_idle hc idle leaves

/-! ## What the moves do -/

theorem settled?_ne_of_done {p : Program Reply} {r : Reply} (h : p.settled? = none) :
    p ≠ .done r := by
  rintro rfl
  cases h

/-- No client comes to have finished a run, or the one that moves does: it has finished none
before, and replaces one that is running. -/
theorem Pool.Move.finishedBy_eq (m : P.Move L began P' i es) :
    (∀ j id r, P'.FinishedBy j id r ↔ P.FinishedBy j id r) ∨
      ∃ id q r, (L.runs P.store id = some q ∧ q.status.isTerminal = false) ∧
        (L.runs P'.store id = some r ∧ r.status.isTerminal = true) ∧
        (∀ id' r', ¬P.FinishedBy i id' r') ∧
        ∀ j id' r', P'.FinishedBy j id' r' ↔
          if j = i then id' = id ∧ r' = r else P.FinishedBy j id' r' := by
  cases m with
  | stays same =>
    rw [same]
    exact Or.inl fun _ _ _ => Iff.rfl
  | aside client clients call stage unsettled sound runs log silent =>
    refine Or.inl fun j id r => finisher_congr client clients call (fun id' own => ?_) j id
    rcases unsettled with idle | ⟨hbefore, hafter⟩
    · rw [idle] at own
      cases own
    · rw [hbefore, hafter]
  | @finishes c c' id q r client clients call stage own unsettled rest sound current running same
      terminal runs log =>
    right
    refine ⟨id, q, r, ⟨current, running⟩, ⟨by rw [runs, if_pos rfl], terminal⟩, ?_, ?_⟩
    · rintro id' r' ⟨c₁, hc₁, -, hsettled⟩
      obtain rfl := Option.some.inj (client.symm.trans hc₁)
      rw [unsettled] at hsettled
      cases hsettled
    · intro j id' r'
      refine (finisher_set client clients j id' _).trans ?_
      rw [call, own, rest]
      simp [ending, Program.settled?, eq_comm, Pool.FinishedBy]
  | @tells c id' r' client own rest after =>
    have hset : P'.clients = P.clients.set i { c with rest := .done (.run r') } :=
      congrArg Pool.clients after
    refine Or.inl fun j id r => finisher_congr client hset rfl (fun _ _ => ?_) j id
    rw [rest]
    exact Iff.rfl

/-- What has been finished stays so. -/
theorem Pool.Move.still (m : P.Move L began P' i es) {j : Nat} {id : Uuid} {r : Run}
    (h : P.FinishedBy j id r) : P'.FinishedBy j id r := by
  rcases m.finishedBy_eq with hsame | ⟨id', q, r', -, -, hnone, hset⟩
  · exact (hsame j id r).2 h
  · have hj : j ≠ i := by
      rintro rfl
      exact hnone id r h
    refine (hset j id r).2 ?_
    rw [if_neg hj]
    exact h

/-- A run is finished by replacing one that is running. -/
theorem Pool.Move.finishedBy (m : P.Move L began P' i es) {j : Nat} {id : Uuid} {r : Run}
    (h : P'.FinishedBy j id r) : P.FinishedBy j id r ∨
      j = i ∧ L.runs P'.store id = some r ∧ r.status.isTerminal = true ∧
        ∃ q, L.runs P.store id = some q ∧ q.status.isTerminal = false := by
  rcases m.finishedBy_eq with hsame | ⟨id', q, r', hq, ⟨hstored, hterminal⟩, -, hset⟩
  · exact Or.inl ((hsame j id r).1 h)
  · have hj := (hset j id r).1 h
    by_cases hi : j = i
    · rw [if_pos hi] at hj
      obtain ⟨rfl, rfl⟩ := hj
      exact Or.inr ⟨hi, hstored, hterminal, q, hq⟩
    · rw [if_neg hi] at hj
      exact Or.inl hj

/-- A stored run is left as it is, or deleted with its definition, or finished. -/
theorem Pool.Move.runs_eq (m : P.Move L began P' i es) (id : Uuid) :
    L.runs P'.store id = L.runs P.store id ∨
      L.runs P'.store id = none ∧
        (∀ r, L.runs P.store id = some r → .deleted r.definition ∈ P'.log) ∨
      ∃ q r, L.runs P.store id = some q ∧ q.status.isTerminal = false ∧
        L.runs P'.store id = some r ∧ r.SameStart q ∧ P'.FinishedBy i id r := by
  cases m with
  | stays same =>
    rw [same]
    exact Or.inl rfl
  | aside client clients call stage unsettled sound runs log silent =>
    exact (runs id).imp_right Or.inl
  | @finishes c c' id' q r' client clients call stage own unsettled rest sound current running same
      terminal runs log =>
    by_cases hid : id = id'
    · subst hid
      right
      right
      refine ⟨q, r', current, running, by rw [runs, if_pos rfl], same, ?_⟩
      refine (finisher_set client clients i id _).2 ?_
      rw [if_pos rfl, call, rest]
      exact ⟨own, rfl⟩
    · rw [runs, if_neg hid]
      exact Or.inl rfl
  | tells client own rest after =>
    rw [after]
    exact Or.inl rfl

theorem Pool.Move.log_subset (m : P.Move L began P' i es) : ∀ e ∈ P.log, e ∈ P'.log := by
  cases m with
  | stays same => rw [same]; exact fun _ he => he
  | aside client clients call stage unsettled sound runs log silent => exact log
  | finishes client clients call stage own unsettled rest sound current running same terminal runs
      log => rw [log]; exact fun _ he => he
  | tells client own rest after => rw [after]; exact fun _ he => he

theorem Pool.Move.sound (m : P.Move L began P' i es) (h : L.Sound P.store) : L.Sound P'.store := by
  cases m with
  | stays same => rwa [same]
  | aside client clients call stage unsettled sound => exact sound
  | finishes client clients call stage own unsettled rest sound => exact sound
  | tells client own rest after => rwa [after]

theorem Pool.Move.stages (m : P.Move L began P' i es) (h : ∀ c ∈ P.clients, c.Stage L began) :
    ∀ c ∈ P'.clients, c.Stage L began := by
  cases m with
  | stays same => rwa [same]
  | aside client clients call stage => exact Pool.forall_set clients h stage
  | finishes client clients call stage => exact Pool.forall_set clients h stage
  | @tells c id r client own rest after =>
    exact Pool.forall_set (congrArg Pool.clients after) h (Or.inl ⟨id, own, .returned r⟩)

/-- The end of a run is announced by the client that has finished it, as its last step. -/
theorem Pool.Move.told_eq (m : P.Move L began P' i es) :
    (es.filterMap endedRun? = [] ∧ ∀ j id, (∃ r, P'.Finisher j id (· = .done (.run r))) ↔
      ∃ r, P.Finisher j id (· = .done (.run r))) ∨
    ∃ c id r, P.clients[i]? = some c ∧ c.call.finishing? = some id ∧ c.rest = ending id c.now r ∧
      es.filterMap endedRun? = [id] ∧ ∀ j id', (∃ r, P'.Finisher j id' (· = .done (.run r))) ↔
        j = i ∧ id' = id ∨ ∃ r, P.Finisher j id' (· = .done (.run r)) := by
  cases m with
  | stays same =>
    rw [same]
    exact Or.inl ⟨rfl, fun _ _ => Iff.rfl⟩
  | aside client clients call stage unsettled sound runs log silent =>
    refine Or.inl ⟨silent, fun j id => exists_congr fun r => ?_⟩
    refine finisher_congr client clients call (fun id' own => ?_) j id
    rcases unsettled with idle | ⟨hbefore, hafter⟩
    · rw [idle] at own
      cases own
    · exact iff_of_false (settled?_ne_of_done hafter) (settled?_ne_of_done hbefore)
  | finishes client clients call stage own unsettled rest =>
    refine Or.inl ⟨rfl, fun j id => exists_congr fun r => ?_⟩
    refine finisher_congr client clients call (fun _ _ => ?_) j id
    refine iff_of_false ?_ (settled?_ne_of_done unsettled)
    rw [rest]
    exact fun hdone => by cases hdone
  | @tells c id r client own rest after =>
    refine Or.inr ⟨c, id, r, client, own, rest, ?_, fun j id' => ?_⟩
    · rw [List.filterMap_cons_some (endedRun?_finishedAs ..)]
      rfl
    have hset : P'.clients = P.clients.set i { c with rest := .done (.run r) } :=
      congrArg Pool.clients after
    by_cases hj : j = i
    · subst hj
      constructor
      · rintro ⟨r', hr'⟩
        obtain ⟨hid, -⟩ := (if_pos rfl).mp ((finisher_set client hset j id' _).1 hr')
        exact Or.inl ⟨rfl, Option.some.inj (hid.symm.trans own)⟩
      · rintro (⟨-, rfl⟩ | ⟨r', c₁, hc₁, -, hdone⟩)
        · refine ⟨r, (finisher_set client hset j id' _).2 ?_⟩
          rw [if_pos rfl]
          exact ⟨own, rfl⟩
        · rw [client] at hc₁
          obtain rfl := Option.some.inj hc₁
          rw [rest] at hdone
          cases hdone
    · have hsame : ∀ r', P'.Finisher j id' (· = .done (.run r')) ↔
          P.Finisher j id' (· = .done (.run r')) := by
        intro r'
        rw [finisher_set client hset, if_neg hj]
      rw [exists_congr hsame]
      constructor
      · exact Or.inr
      · rintro (⟨hi, -⟩ | hr')
        · exact absurd hi hj
        · exact hr'

/-! ## The invariant is kept -/

/-- While the stored run is running, nobody has finished it. -/
theorem Pool.Exclusive.not_finishedBy (h : P.Exclusive L began told) {id : Uuid} {q : Run}
    (hq : L.runs P.store id = some q) (running : q.status.isTerminal = false) (j : Nat) (r : Run) :
    ¬P.FinishedBy j id r := by
  intro hj
  obtain ⟨hterminal, -, hstored | hnone⟩ := h.finished j id r hj
  · obtain rfl := Option.some.inj (hq.symm.trans hstored)
    rw [hterminal] at running
    cases running
  · rw [hq] at hnone
    cases hnone

/-- A stored run that is running is as it was at first. -/
theorem Pool.Exclusive.running_at_first (h : P.Exclusive L began told) {id : Uuid} {q : Run}
    (hq : L.runs P.store id = some q) (running : q.status.isTerminal = false) :
    ∃ r₀, began id = some r₀ ∧ q.SameStart r₀ ∧ r₀.status.isTerminal = false := by
  obtain ⟨r₀, hbegan, hstart, hby⟩ := h.kept id q hq
  refine ⟨r₀, hbegan, hstart, ?_⟩
  rcases hby with rfl | ⟨hrunning, -⟩
  · exact running
  · exact hrunning

theorem Pool.Exclusive.step (h : P.Exclusive L began told) (m : P.Move L began P' i es) :
    P'.Exclusive L began (told ++ es) where
  sound := m.sound h.sound
  clients := m.stages h.clients
  kept := by
    intro id r hr
    rcases m.runs_eq id with hsame | ⟨hnone, -⟩ | ⟨q, r', hq, running, hr', hstart, hby⟩
    · obtain ⟨r₀, hbegan, hstart, hby⟩ := h.kept id r (hsame ▸ hr)
      refine ⟨r₀, hbegan, hstart, hby.imp_right fun ⟨running, j, hj⟩ => ?_⟩
      exact ⟨running, j, m.still hj⟩
    · rw [hnone] at hr
      cases hr
    · obtain rfl := Option.some.inj (hr.symm.trans hr')
      obtain ⟨r₀, hbegan, hq, hrunning⟩ := h.running_at_first hq running
      exact ⟨r₀, hbegan, hstart.trans hq, Or.inr ⟨hrunning, i, hby⟩⟩
  gone := by
    intro id r₀ hbegan hnone
    rcases m.runs_eq id with hsame | ⟨-, hdeleted⟩ | ⟨q, r', -, -, hr', -⟩
    · exact m.log_subset _ (h.gone id r₀ hbegan (hsame ▸ hnone))
    · cases hq : L.runs P.store id with
      | none => exact m.log_subset _ (h.gone id r₀ hbegan hq)
      | some q =>
        obtain ⟨r₁, hbegan', hstart, -⟩ := h.kept id q hq
        obtain rfl := Option.some.inj (hbegan.symm.trans hbegan')
        rw [← hstart.definition]
        exact hdeleted q hq
    · rw [hnone] at hr'
      cases hr'
  finished := by
    intro j id r hj
    rcases m.finishedBy hj with hj | ⟨-, hstored, hterminal, q, hq, running⟩
    · obtain ⟨hterminal, hrunning, hstored⟩ := h.finished j id r hj
      refine ⟨hterminal, hrunning, ?_⟩
      rcases m.runs_eq id with hsame | ⟨hnone, -⟩ | ⟨q, -, hq, running, -⟩
      · rwa [hsame]
      · exact Or.inr hnone
      · exact absurd hj (h.not_finishedBy hq running j r)
    · obtain ⟨r₀, hbegan, -, hrunning⟩ := h.running_at_first hq running
      exact ⟨hterminal, ⟨r₀, hbegan, hrunning⟩, Or.inl hstored⟩
  once := by
    intro j k id r r' hj hk
    rcases m.finishedBy hj with hj | ⟨rfl, -, -, q, hq, running⟩
    · rcases m.finishedBy hk with hk | ⟨-, -, -, q, hq, running⟩
      · exact h.once j k id r r' hj hk
      · exact absurd hj (h.not_finishedBy hq running j r)
    · rcases m.finishedBy hk with hk | ⟨rfl, -⟩
      · exact absurd hk (h.not_finishedBy hq running k r')
      · rfl
  told_nodup := by
    rw [List.filterMap_append]
    rcases m.told_eq with ⟨hsilent, -⟩ | ⟨c, id, r, hc, own, hr, hends, -⟩
    · rw [hsilent, List.append_nil]
      exact h.told_nodup
    · rw [hends]
      refine Assoc.nodup_append_singleton h.told_nodup fun hmem => ?_
      -- the client that is over would be this one
      obtain ⟨j, r', c₁, hc₁, own₁, hdone⟩ := (h.told_iff id).1 hmem
      have hown : P.FinishedBy i id r := ⟨c, hc, own, by rw [hr]; rfl⟩
      have hother : P.FinishedBy j id r' := ⟨c₁, hc₁, own₁, by rw [hdone]; rfl⟩
      obtain rfl := h.once i j id r r' hown hother
      rw [hc] at hc₁
      obtain rfl := Option.some.inj hc₁
      rw [hr] at hdone
      cases hdone
  told_iff := by
    intro id'
    rw [List.filterMap_append, List.mem_append, h.told_iff id']
    rcases m.told_eq with ⟨hsilent, hover⟩ | ⟨c, id, r, -, -, -, hends, hover⟩
    · rw [hsilent, exists_congr fun j => hover j id']
      simp
    · rw [hends, exists_congr fun j => hover j id', List.mem_singleton]
      constructor
      · rintro (⟨j, hj⟩ | hid)
        · exact ⟨j, Or.inr hj⟩
        · exact ⟨i, Or.inl ⟨rfl, hid⟩⟩
      · rintro ⟨j, ⟨-, hid⟩ | hj⟩
        · exact Or.inr hid
        · exact Or.inl ⟨j, hj⟩

/-- Any order of steps keeps the invariant. -/
theorem Pool.Exclusive.after (h : P.Exclusive L began told) (order : List Nat) :
    (P.after sources order).Exclusive L began (told ++ P.told sources order) := by
  induction order generalizing P told with
  | nil =>
    show P.Exclusive L began (told ++ [])
    rw [List.append_nil]
    exact h
  | cons i order ih =>
    have hmove : P.Move L began (P.advance sources i) i _ := h.move i
    have hnext := ih (h.step hmove)
    rw [List.append_assoc] at hnext
    exact hnext

/-- A run that is gone does not come back. -/
theorem Pool.Exclusive.forgotten (h : P.Exclusive L began told) {id : Uuid}
    (hnone : L.runs P.store id = none) (later : List Nat) :
    L.runs (P.after sources later).store id = none := by
  induction later generalizing P told with
  | nil => exact hnone
  | cons i later ih =>
    have hmove : P.Move L began (P.advance sources i) i _ := h.move i
    rcases hmove.runs_eq id with hsame | ⟨hnone', -⟩ | ⟨q, -, hq, -⟩
    · exact ih (h.step hmove) (hsame.trans hnone)
    · exact ih (h.step hmove) hnone'
    · rw [hnone] at hq
      cases hq

/-- A finished run stays as it is for as long as it is stored. -/
theorem Pool.Exclusive.frozen (h : P.Exclusive L began told) {id : Uuid} {r : Run}
    (hr : L.runs P.store id = some r) (terminal : r.status.isTerminal = true) (later : List Nat) :
    L.runs (P.after sources later).store id = some r ∨
      L.runs (P.after sources later).store id = none := by
  induction later generalizing P told with
  | nil => exact Or.inl hr
  | cons i later ih =>
    have hmove : P.Move L began (P.advance sources i) i _ := h.move i
    rcases hmove.runs_eq id with hsame | ⟨hnone, -⟩ | ⟨q, -, hq, running, -⟩
    · exact ih (h.step hmove) (hsame.trans hr)
    · exact Or.inr ((h.step hmove).forgotten hnone later)
    · obtain rfl := Option.some.inj (hr.symm.trans hq)
      rw [terminal] at running
      cases running

end

end Workflow.Service
