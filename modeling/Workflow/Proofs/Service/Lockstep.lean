import Workflow.Proofs.Program.Alike
import Workflow.Proofs.Store.Lockstep
import Workflow.Service.Serve

/-!
# Calls on stores that agree

Each program of the service, carried out in memory and in tables that agree, takes
steps that are answered alike.  So it announces the same and leads to the same
result, and leaves stores that agree.

    sessions linked, a call that fits → alike, and linked again      (alike_program)
-/

namespace Workflow.Service

open Store (Step Backend Memory Tables Agree)
open Program (Session Alike)

/-! ## Linked sessions -/

/-- How far a sequence of calls has come: the identifiers that were taken, the versions that
were reached, and the time of the last call. -/
structure Stage where
  used : Nat
  limit : Int
  clock : Int

/-- A call takes one identifier and raises a version by three at most. -/
def Stage.next (st : Stage) (now : Timestamp) : Stage := ⟨st.used + 1, st.limit + 3, now.instant⟩

/-- Sessions with stores that agree; the identifiers still to be taken, up to `bound`, are
new to both. -/
structure Linked (sources : Program.Sources) (bound : Nat) (st : Stage)
    (pending : List ApprovalEvent) (s : Session Memory) (t : Session Tables) : Prop where
  store : Agree st.limit st.clock pending s.store t.store
  ids : s.idsTaken = t.idsTaken
  draws : s.drawsTaken = t.drawsTaken
  used : s.idsTaken ≤ st.used
  newDefinitions : ∀ k, s.idsTaken ≤ k → k < bound →
    Assoc.find? (sources.ids k) s.store.definitions = none
  newRuns : ∀ k, s.idsTaken ≤ k → k < bound → Assoc.find? (sources.ids k) s.store.runs = none

/-- The next call comes later than all calls before it, and there is room for what it takes. -/
structure Ready (sources : Program.Sources) (bound : Nat) (st : Stage) (now : Timestamp) :
    Prop where
  distinct : sources.Distinct bound
  room : st.used < bound
  positive : 1 ≤ st.limit
  limit : st.limit + 3 < 2 ^ 63
  universal : now.IsUniversal
  storable : now.isStorable = true
  later : st.clock < now.instant

variable {sources : Program.Sources} {bound : Nat} {st st' : Stage} {now : Timestamp}
  {pending : List ApprovalEvent} {s : Session Memory} {t : Session Tables}

theorem Linked.mono (hl : Linked sources bound st pending s t) (hu : st.used ≤ st'.used)
    (hlimit : st.limit ≤ st'.limit) (hc : st.clock ≤ st'.clock) :
    Linked sources bound st' pending s t where
  store := hl.store.mono hlimit hc
  ids := hl.ids
  draws := hl.draws
  used := Nat.le_trans hl.used hu
  newDefinitions := hl.newDefinitions
  newRuns := hl.newRuns

/-- Sessions stay linked if the stores agree after a step that names nothing by an identifier
still to be taken. -/
theorem Linked.written {pending' : List ApprovalEvent} {m : Memory} {t' : Tables}
    (hl : Linked sources bound st pending s t) (hu : st.used ≤ st'.used)
    (ha : Agree st'.limit st'.clock pending' m t')
    (hd : ∀ k, s.idsTaken ≤ k → k < bound → Assoc.find? (sources.ids k) m.definitions = none)
    (hr : ∀ k, s.idsTaken ≤ k → k < bound → Assoc.find? (sources.ids k) m.runs = none) :
    Linked sources bound st' pending' { s with store := m } { t with store := t' } where
  store := ha
  ids := hl.ids
  draws := hl.draws
  used := Nat.le_trans hl.used hu
  newDefinitions := hd
  newRuns := hr

/-- Nothing has to happen for the next stage to be reached. -/
theorem Linked.next (hr : Ready sources bound st now) (s : Session Memory) (t : Session Tables)
    (hl : Linked sources bound st [] s t) : Linked sources bound (st.next now) [] s t :=
  hl.mono (Nat.le_succ _) (by show st.limit ≤ st.limit + 3; omega) (Int.le_of_lt hr.later)

/-- From linked sessions a program is answered alike, and leaves sessions that are linked at
the next stage. -/
abbrev Lockstep (sources : Program.Sources) (bound : Nat) (st : Stage) (now : Timestamp)
    {α : Type} (p : Program α) : Prop :=
  Alike sources (Linked sources bound st []) p (fun _ => Linked sources bound (st.next now) [])
    (Linked sources bound (st.next now) [])

/-! ## Steps -/

/-- A step that changes nothing is answered alike if stores that agree answer it alike. -/
theorem alike_read (hr : Ready sources bound st now) (step : Step)
    (read : Memory → Except Error step.Answer) (hm : ∀ m, Backend.take step m = (read m, m))
    (ht : ∀ m t, Agree st.limit st.clock [] m t → Backend.take step t = (read m, t)) :
    Alike sources (Linked sources bound st []) (Program.step step)
      (fun a s t => read s.store = .ok a ∧ Linked sources bound st [] s t)
      (Linked sources bound (st.next now) []) := by
  refine Alike.step fun s t hl => ?_
  have hms := hm s.store
  have hts := ht s.store t.store hl.store
  cases h : read s.store with
  | ok a =>
    rw [h] at hms hts
    exact Or.inl ⟨a, s.store, t.store, hms, hts, h, hl⟩
  | error e =>
    rw [h] at hms hts
    exact Or.inr ⟨e, s.store, t.store, hms, hts, hl.next hr⟩

theorem alike_load (hr : Ready sources bound st now) (id : Uuid) :
    Alike sources (Linked sources bound st []) (Program.step (.load id))
      (fun d s t => s.store.load id = .ok d ∧ Linked sources bound st [] s t)
      (Linked sources bound (st.next now) []) := by
  refine alike_read hr (.load id) (fun m => m.load id) (fun m => rfl) fun m t ha => ?_
  show (t.load id, t) = (m.load id, t)
  rw [ha.load_eq]

/-- An identifier that nothing has, and that is not taken again. -/
structure New (sources : Program.Sources) (bound : Nat) (id : Uuid) (s : Session Memory) :
    Prop where
  definition : Assoc.find? id s.store.definitions = none
  run : Assoc.find? id s.store.runs = none
  once : ∀ k, s.idsTaken ≤ k → k < bound → sources.ids k ≠ id

theorem alike_newId (hr : Ready sources bound st now) (failed : Program.Link Memory Tables) :
    Alike sources (Linked sources bound st []) Program.newId
      (fun id s t => New sources bound id s ∧
        Linked sources bound { st with used := st.used + 1 } [] s t)
      failed := by
  intro s t hl
  have hroom : s.idsTaken < bound := Nat.lt_of_le_of_lt hl.used hr.room
  have hid : sources.ids t.idsTaken = sources.ids s.idsTaken := by rw [hl.ids]
  refine ⟨rfl, Or.inl ⟨sources.ids s.idsTaken, rfl, ?_, ⟨?_, ?_, ?_⟩, ?_⟩⟩
  · show Except.ok (sources.ids t.idsTaken) = Except.ok (sources.ids s.idsTaken)
    rw [hid]
  · exact hl.newDefinitions s.idsTaken (Nat.le_refl _) hroom
  · exact hl.newRuns s.idsTaken (Nat.le_refl _) hroom
  · intro k hk hkb he
    have hk : s.idsTaken + 1 ≤ k := hk
    have := hr.distinct k s.idsTaken hkb hroom he
    omega
  · exact {
      store := hl.store
      ids := congrArg (· + 1) hl.ids
      draws := hl.draws
      used := Nat.succ_le_succ hl.used
      newDefinitions k hk hkb := hl.newDefinitions k (Nat.le_of_succ_le hk) hkb
      newRuns k hk hkb := hl.newRuns k (Nat.le_of_succ_le hk) hkb }

/-! ## Changes -/

section

variable {α : Type} {call : Call}

/-- What the change of a call leads to, and which events of it are still to be recorded. -/
def Changes (call : Call) (now : Timestamp) (events : α → List ApprovalEvent)
    (change : Definition → Except Error (Definition × α)) : Prop :=
  ∀ d d' a, change d = .ok (d', a) → call.change now d = .ok d' ∧
    d'.history = d.history ++ events a ∧ ∀ e ∈ events a, e.definition = d.id

/-- A change is computed on the same copy and saved in both stores. -/
theorem alike_mutate (hr : Ready sources bound st now) (hc : call.Typed) (hf : call.Fits)
    {id : Uuid} {expected : Value} {change : Definition → Except Error (Definition × α)}
    {events : α → List ApprovalEvent} (hchange : Changes call now events change) :
    Alike sources (Linked sources bound st []) (mutate id expected change)
      (fun r s t => (∃ d, change d = .ok r) ∧
        Assoc.find? r.1.id s.store.definitions = some r.1 ∧
        Linked sources bound { st with limit := st.limit + 3 } (events r.2) s t)
      (Linked sources bound (st.next now) []) := by
  unfold mutate
  refine Alike.bind (alike_load hr id) fun d => ?_
  show Alike sources _ (if expected ≠ .null ∧ !expected.same (.int d.version) then .fail _
    else _) _ _
  split
  · exact Alike.fail _ fun s t h => h.2.next hr s t
  · refine Alike.bind (Alike.lift fun s t h => h.2.next hr s t) ?_
    rintro ⟨d', a⟩
    refine Alike.assume fun hd' => ?_
    obtain ⟨hcall, hhistory, hevents⟩ := hchange d d' a hd'
    obtain ⟨hid, hcreated, -⟩ := Call.change_keeps hcall
    have hsave : Alike sources
        (fun s t => s.store.load id = .ok d ∧ Linked sources bound st [] s t)
        (Program.step (.save d' (.int d.version)))
        (fun _ s t => (∃ d, change d = .ok (d', a)) ∧
          Assoc.find? d'.id s.store.definitions = some d' ∧
          Linked sources bound { st with limit := st.limit + 3 } (events a) s t)
        (Linked sources bound (st.next now) []) := by
      refine Alike.step fun s t ⟨hload, hl⟩ => Or.inl ?_
      have hfound := Store.Memory.load_eq_ok.1 hload
      have hmem := Store.DefinitionsAgree.mem_of_find? hfound
      have hd := hl.store.definitions.typed d hmem
      have hown : d.id = id := hl.store.definitions.filed.key_of_find? hfound
      have hversion := hl.store.definitions.version d hmem
      have hversion' := Call.change_version_le hcall
      have hlimit := hr.limit
      rw [← hown, ← hid] at hfound
      obtain ⟨t', hm, ht, ha⟩ := hl.store.save hfound
        (hc.change hr.universal hd hcall)
        (hf.change hr.storable (hl.store.definitions.storable d hmem) hcall)
        (show st.limit ≤ st.limit + 3 by omega) (by omega) (by omega) hcreated hhistory
        fun e he => (hevents e he).trans hid.symm
      refine ⟨(), _, t', hm, ht, ⟨d, hd'⟩, Assoc.find?_put_self _ _ _, ?_⟩
      refine hl.written (Nat.le_refl _) ha (fun k hk hkb => ?_) hl.newRuns
      have hnone := hl.newDefinitions k hk hkb
      exact Assoc.find?_put_eq_none (Assoc.ne_of_find? hnone hfound) hnone
    exact Alike.bind hsave fun _ => Alike.pure _ fun s t h => h

/-- A version that was raised belongs to the next stage. -/
theorem Linked.nextOfRaised (hr : Ready sources bound st now)
    (hl : Linked sources bound { st with limit := st.limit + 3 } [] s t) :
    Linked sources bound (st.next now) [] s t :=
  hl.mono (Nat.le_succ _) (Int.le_refl _) (Int.le_of_lt hr.later)

/-- What is not recorded in the history leaves no event to be recorded. -/
theorem changes_of_not_recorded (hrecorded : ∀ op, call.Performs op → op.isRecorded = false)
    {change : Definition → Except Error (Definition × α)}
    (hchange : ∀ d d' a, change d = .ok (d', a) → call.change now d = .ok d') :
    Changes call now (fun _ => []) change := by
  intro d d' a h
  have hcall := hchange d d' a h
  refine ⟨hcall, ?_, by simp⟩
  rw [List.append_nil]
  exact Call.change_history hrecorded hcall

theorem alike_modify (hr : Ready sources bound st now) (hc : call.Typed) (hf : call.Fits)
    (hrecorded : ∀ op, call.Performs op → op.isRecorded = false) {id : Uuid} {expected : Value}
    {change : Definition → Except Error Definition}
    (hchange : ∀ d d', change d = .ok d' → call.change now d = .ok d') :
    Lockstep sources bound st now (modify id expected change) := by
  have hchanges : Changes call now (fun _ => []) fun d => (change d).map (·, ()) := by
    refine changes_of_not_recorded hrecorded fun d d' a h => ?_
    obtain ⟨d₁, h₁, he⟩ := map_eq_ok.1 h
    obtain rfl := (Prod.mk.inj he).1
    exact hchange d d₁ h₁
  unfold modify
  refine Alike.bind (alike_mutate hr hc hf hchanges) ?_
  rintro ⟨d, a⟩
  exact Alike.pure _ fun s t h => h.2.2.nextOfRaised hr

theorem alike_activate (hr : Ready sources bound st now) (id : Uuid) :
    Lockstep sources bound st now (activate id now) := by
  have hrecorded : ∀ op, (Call.activate id).Performs op → op.isRecorded = false := by
    intro op hop
    cases op with
    | activate => rfl
    | _ => exact hop.elim
  have hchanges : Changes (.activate id) now (fun _ => [])
      fun d => (d.activate now).map (·, d.isActive) := by
    refine changes_of_not_recorded hrecorded fun d d' a h => ?_
    obtain ⟨d₁, h₁, he⟩ := map_eq_ok.1 h
    obtain rfl := (Prod.mk.inj he).1
    exact h₁
  unfold activate
  refine Alike.bind (alike_mutate hr (show (Call.activate id).Typed from trivial) trivial
    hchanges) ?_
  rintro ⟨d, wasActive⟩
  cases wasActive with
  | true => exact Alike.pure d fun s t h => h.2.2.nextOfRaised hr
  | false =>
    exact Alike.tell _ _ _ (fun s t h => h.2.2.nextOfRaised hr) (Alike.pure d fun s t h => h)

theorem alike_pause (hr : Ready sources bound st now) (id : Uuid) :
    Lockstep sources bound st now (pause id now) := by
  have hrecorded : ∀ op, (Call.pause id).Performs op → op.isRecorded = false := by
    intro op hop
    cases op with
    | pause => rfl
    | _ => exact hop.elim
  have hmodify : Lockstep sources bound st now (modify id .null (·.pause now)) :=
    alike_modify hr (show (Call.pause id).Typed from trivial) trivial hrecorded fun d d' h => h
  unfold pause
  refine Alike.bind hmodify fun d => ?_
  exact Alike.tell _ _ _ (fun s t h => h) (Alike.pure d fun s t h => h)

theorem alike_saveEdited (hr : Ready sources bound st now) {id : Uuid} {edited : Editor.Graph}
    {expected : Value} (hc : (Call.saveEdited id edited expected).Typed)
    (hf : (Call.saveEdited id edited expected).Fits) :
    Lockstep sources bound st now (saveEdited id edited expected now) := by
  have hrecorded : ∀ op, (Call.saveEdited id edited expected).Performs op →
      op.isRecorded = false := by
    intro op hop
    cases op with
    | applyEdited edited => rfl
    | _ => exact hop.elim
  exact alike_modify hr hc hf hrecorded fun d d' hd => hd

/-- An action on the approval, as it is saved: with whether the definition was active, and
with the event that is still to be recorded. -/
def governing (action : ApprovalAction) (actor notes : Value) (now : Timestamp)
    (d : Definition) : Except Error (Definition × Bool × ApprovalEvent) := do
  let (changed, e) ← d.govern action actor notes now
  pure (changed, d.isActive, e)

theorem governing_eq_ok {action : ApprovalAction} {actor notes : Value} {d d' : Definition}
    {wasActive : Bool} {e : ApprovalEvent}
    (h : governing action actor notes now d = .ok (d', wasActive, e)) :
    d.govern action actor notes now = .ok (d', e) ∧ d'.id = d.id ∧
      d'.history = d.history ++ [e] ∧ e.definition = d.id ∧ e.actor = actor ∧ e.notes = notes ∧
      e.time = now := by
  obtain ⟨⟨d₁, e₁⟩, h₁, h₂⟩ := bind_eq_ok.1 h
  obtain ⟨rfl, h₃⟩ := Prod.mk.inj (pure_eq_ok.1 h₂)
  obtain ⟨-, rfl⟩ := Prod.mk.inj h₃
  refine ⟨h₁, ?_⟩
  obtain ⟨target, -, -, rfl, rfl⟩ := Definition.govern_eq_ok h₁
  unfold Definition.suspend
  split
  · exact ⟨rfl, rfl, rfl, rfl, rfl, rfl⟩
  · exact ⟨rfl, rfl, rfl, rfl, rfl, rfl⟩

/-- An action on the approval is saved with the definition first, and then recorded. -/
theorem alike_govern (hr : Ready sources bound st now) {action : ApprovalAction} {id : Uuid}
    {actor notes : Value} (hc : (Call.govern action id actor notes).Typed) :
    Lockstep sources bound st now (govern action id actor notes now) := by
  have hchanges : Changes (.govern action id actor notes) now (fun a => [a.2])
      (governing action actor notes now) := by
    rintro d d' ⟨wasActive, e⟩ h
    obtain ⟨hgovern, -, hhistory, hown, -⟩ := governing_eq_ok h
    refine ⟨map_eq_ok.2 ⟨_, hgovern, rfl⟩, hhistory, ?_⟩
    intro e' he'
    rw [List.mem_singleton.1 he']
    exact hown
  unfold govern
  refine Alike.bind (alike_mutate hr hc trivial hchanges) ?_
  rintro ⟨d, wasActive, e⟩
  refine Alike.assume ?_
  rintro ⟨d₀, hd₀⟩
  obtain ⟨-, hid, -, hown, hactor, hnotes, htime⟩ := governing_eq_ok hd₀
  have hevent : Alike sources
      (fun s t => Assoc.find? d.id s.store.definitions = some d ∧
        Linked sources bound { st with limit := st.limit + 3 } [e] s t)
      (Program.step (.appendApproval e)) (fun _ => Linked sources bound (st.next now) [])
      (Linked sources bound (st.next now) []) := by
    refine Alike.step fun s t ⟨hfound, hl⟩ => Or.inl ?_
    rw [hid, ← hown] at hfound
    obtain ⟨t', hm, ht, ha⟩ := hl.store.appendApproval (hactor ▸ hc.1) (hnotes ▸ hc.2)
      (htime ▸ hr.universal) (htime ▸ hr.storable) (htime ▸ Int.le_of_lt hr.later) hfound
    refine ⟨(), _, t', hm, ht, ?_⟩
    exact hl.written (Nat.le_succ _) (htime ▸ ha) hl.newDefinitions hl.newRuns
  have hlast : Alike sources (Linked sources bound (st.next now) []) (do
      Program.tell id now (.ofAction action actor notes)
      pure e) (fun _ => Linked sources bound (st.next now) [])
      (Linked sources bound (st.next now) []) :=
    Alike.tell _ _ _ (fun s t h => h) (Alike.pure e fun s t h => h)
  refine Alike.bind hevent fun _ => ?_
  show Alike sources _ (if action = .request ∧ wasActive then _ else _) _ _
  split
  · exact Alike.tell _ _ _ (fun s t h => h) hlast
  · exact hlast

end

/-! ## Definitions that come and go -/

/-- What is created under a new identifier is stored in both. -/
theorem alike_found (hr : Ready sources bound st now) {p : Definition.Proposal}
    (hp : ∀ name id, p.accept = .ok name → (p.define name id now).Typed)
    (hw : (p.graph.toValue []).isWritable = true) :
    Lockstep sources bound st now (found p now) := by
  unfold found
  refine Alike.bind (Alike.lift fun s t h => h.next hr s t) fun name => ?_
  refine Alike.assume fun hname => ?_
  refine Alike.bind (alike_newId hr _) fun id => ?_
  have hsave : Alike sources
      (fun s t => New sources bound id s ∧
        Linked sources bound { st with used := st.used + 1 } [] s t)
      (Program.step (.save (p.define name id now) .null))
      (fun _ => Linked sources bound (st.next now) []) (Linked sources bound (st.next now) []) := by
    refine Alike.step fun s t ⟨hnew, hl⟩ => Or.inl ?_
    have hlimit := hr.limit
    obtain ⟨t', hm, ht, ha⟩ := hl.store.insert (hp name id hname) ⟨hr.storable, hw⟩ hr.storable
      hr.positive (show st.limit < 2 ^ 63 by omega) rfl hnew.definition
    refine ⟨(), _, t', hm, ht, ?_⟩
    refine hl.written (Nat.le_refl _)
      (ha.mono (show st.limit ≤ st.limit + 3 by omega) (Int.le_of_lt hr.later))
      (fun k hk hkb => ?_) hl.newRuns
    exact Assoc.find?_put_eq_none (hnew.once k hk hkb) (hl.newDefinitions k hk hkb)
  exact Alike.bind hsave fun _ => Alike.pure _ fun s t h => h

theorem alike_install (hr : Ready sources bound st now) {key : TemplateKey} {context : Context}
    {name : Value} (hc : (Call.install key context name).Typed) :
    Lockstep sources bound st now (install key context name now) := by
  have hread : Alike sources (Linked sources bound st []) (Program.step (.template key))
      (fun tp s t => s.store.catalog.get key = .ok tp ∧ Linked sources bound st [] s t)
      (Linked sources bound (st.next now) []) := by
    refine alike_read hr (.template key) (fun m => m.catalog.get key) (fun m => rfl) fun m t ha => ?_
    show (t.template key, t) = (m.catalog.get key, t)
    rw [ha.templates.found key]
  unfold install
  refine Alike.bind hread fun tp => ?_
  have hfound : Alike sources
      (fun s t => s.store.catalog.get key = .ok tp ∧ Linked sources bound st [] s t)
      (found (tp.proposal context name) now) (fun _ => Linked sources bound (st.next now) [])
      (Linked sources bound (st.next now) []) := by
    intro s t ⟨htp, hl⟩
    obtain ⟨hdescription, hids, hw⟩ := hl.store.templates.storable key tp htp
    have hp : (tp.proposal context name).Typed := {
      org := hc.1
      user := hc.2
      description := hdescription
      graph := hids
      layout := nofun }
    exact alike_found hr (fun name id ha => hp.define hr.universal id ha) hw s t hl
  refine Alike.bind hfound fun d => ?_
  exact Alike.tell _ _ _ (fun s t h => h) (Alike.pure d fun s t h => h)

theorem alike_delete (hr : Ready sources bound st now) (id : Uuid) :
    Lockstep sources bound st now (delete id now) := by
  unfold delete
  refine Alike.bind (alike_load hr id) fun d => ?_
  have hdelete : Alike sources
      (fun s t => s.store.load id = .ok d ∧ Linked sources bound st [] s t)
      (Program.step (.delete id)) (fun _ => Linked sources bound (st.next now) [])
      (Linked sources bound (st.next now) []) := by
    refine Alike.step fun s t ⟨hload, hl⟩ => Or.inl ?_
    obtain ⟨m', t', hm, ht, ha, hdefinitions, hruns⟩ :=
      hl.store.delete (Store.Memory.load_eq_ok.1 hload)
    refine ⟨(), m', t', hm, ht, Linked.next hr _ _ ?_⟩
    exact hl.written (Nat.le_refl _) ha
      (fun k hk hkb => hdefinitions _ (hl.newDefinitions k hk hkb))
      fun k hk hkb => hruns _ (hl.newRuns k hk hkb)
  refine Alike.bind hdelete fun _ => ?_
  exact fun s t h => ⟨rfl, Or.inl ⟨(), rfl, rfl, h⟩⟩

/-! ## Runs -/

theorem alike_recordRun (hr : Ready sources bound st now) (definition : Uuid) {org : Value}
    (ho : org.IsText) {context : Value} (hc : context = .null ∨ ∃ ms, context = .object ms)
    (hw : context.isWritable = true) :
    Lockstep sources bound st now (recordRun definition org context now) := by
  -- what is handed over is an object, or nothing, which is the empty object
  have hobject : ∀ ms, context.toObject = .ok ms → (Value.object ms).isWritable = true := by
    intro ms hms
    rcases hc with rfl | ⟨ms', rfl⟩
    · cases hms
      rfl
    · obtain rfl := Except.ok.inj ((Value.toObject_object ms').symm.trans hms)
      exact hw
  unfold recordRun
  refine Alike.bind (Alike.lift fun s t h => h.next hr s t) fun ms => ?_
  refine Alike.assume fun hms => ?_
  refine Alike.bind (alike_newId hr _) fun id => ?_
  have happend : Alike sources
      (fun s t => New sources bound id s ∧
        Linked sources bound { st with used := st.used + 1 } [] s t)
      (Program.step (.appendRun (Run.start id definition org (.object ms) now)))
      (fun _ => Linked sources bound (st.next now) []) (Linked sources bound (st.next now) []) := by
    refine Alike.step fun s t ⟨hnew, hl⟩ => Or.inl ?_
    have htyped : (Run.start id definition org (.object ms) now).Typed :=
      ⟨ho, ⟨ms, rfl⟩, hobject ms hms, hr.universal⟩
    obtain ⟨t', hm, ht, ha⟩ := hl.store.appendRun htyped rfl rfl hr.storable hr.later hnew.run
    refine ⟨(), _, t', hm, ht, ?_⟩
    refine hl.written (Nat.le_refl _)
      (ha.mono (show st.limit ≤ st.limit + 3 by omega) (Int.le_refl _)) hl.newDefinitions
      fun k hk hkb => ?_
    exact Assoc.find?_put_eq_none (hnew.once k hk hkb) (hl.newRuns k hk hkb)
  refine Alike.bind happend fun _ => ?_
  exact Alike.tell _ _ _ (fun s t h => h) (Alike.pure _ fun s t h => h)

theorem alike_startRun (hr : Ready sources bound st now) {id : Uuid} {context : Value}
    (hc : (Call.startRun id context).Typed) (hf : (Call.startRun id context).Fits) :
    Lockstep sources bound st now (startRun id context now) := by
  unfold startRun
  refine Alike.bind (alike_load hr id) fun d => ?_
  cases d.isActive with
  | true =>
    intro s t ⟨hload, hl⟩
    have hmem := Store.DefinitionsAgree.mem_of_find? (Store.Memory.load_eq_ok.1 hload)
    have ho := (hl.store.definitions.typed d hmem).org
    exact alike_recordRun hr id ho hc hf s t hl
  | false => exact Alike.fail _ fun s t h => h.2.next hr s t

/-- What finishing makes of a run: it has been running, and nothing but how it ended changes. -/
def Finishes (now : Timestamp) (finish : Run → Except Error Run) : Prop :=
  ∀ r r', finish r = .ok r' → r.status.isTerminal = false ∧ ∃ status lastError,
    Value.IsTextOrNull lastError ∧ r' = { r with
      status := status
      finishedAt := some now
      lastError := lastError }

theorem finishes_finish (status : RunStatus) (action : RunAction) {lastError : Value}
    (hl : lastError.IsTextOrNull) (now : Timestamp) :
    Finishes now fun r => r.finish status action lastError now := by
  intro r r' h
  dsimp only at h
  cases ht : r.status.isTerminal with
  | true =>
    rw [Run.finish_terminal _ _ _ _ _ ht] at h
    cases h
  | false =>
    rw [Run.finish_running _ _ _ _ _ ht] at h
    exact ⟨rfl, status, lastError, hl, (Except.ok.inj h).symm⟩

theorem finishes_complete {error : Value} (he : error.IsTextOrNull) (outcome : Value)
    (now : Timestamp) :
    Finishes now (fun r => do r.complete (← Named.read outcome) error now) := by
  intro r r' h
  obtain ⟨status, -, h⟩ := bind_eq_ok.1 h
  cases status with
  | success => exact finishes_finish .success .complete (Or.inl rfl) now r r' h
  | failed => exact finishes_finish .failed .complete he now r r' h
  | running | cancelled => cases h

/-- A run is finished in both stores, or in neither. -/
theorem alike_finishRun (hr : Ready sources bound st now) (id : Uuid)
    {finish : Run → Except Error Run} (hfinish : Finishes now finish)
    (happening : Run → Happening) :
    Lockstep sources bound st now (finishRun id now finish happening) := by
  have hread : Alike sources (Linked sources bound st []) (Program.step (.run id))
      (fun r s t => s.store.run id = .ok r ∧ Linked sources bound st [] s t)
      (Linked sources bound (st.next now) []) := by
    refine alike_read hr (.run id) (fun m => m.run id) (fun m => rfl) fun m t ha => ?_
    show (t.run id, t) = (m.run id, t)
    rw [ha.run_eq]
  unfold finishRun
  refine Alike.bind hread fun r => ?_
  refine Alike.bind (Alike.lift fun s t h => h.2.next hr s t) fun r' => ?_
  refine Alike.assume fun hr' => ?_
  obtain ⟨hrunning, status, lastError, hlast, heq⟩ := hfinish r r' hr'
  have hupdate : Alike sources
      (fun s t => s.store.run id = .ok r ∧ Linked sources bound st [] s t)
      (Program.step (.updateRun r')) (fun _ => Linked sources bound (st.next now) [])
      (Linked sources bound (st.next now) []) := by
    refine Alike.step fun s t ⟨hrun, hl⟩ => Or.inl ?_
    have hfound := Store.Memory.run_eq_ok.1 hrun
    have hkey : r.id = id := hl.store.runs.filed.key_of_find? hfound
    have hown : r'.id = id := by
      rw [heq]
      exact hkey
    rw [← hown] at hfound
    obtain ⟨t', hm, ht, ha⟩ := hl.store.updateRun hfound hrunning heq hlast hr.universal hr.storable
    refine ⟨(), _, t', hm, ht, Linked.next hr _ _ ?_⟩
    refine hl.written (Nat.le_refl _) ha hl.newDefinitions fun k hk hkb => ?_
    have hnone := hl.newRuns k hk hkb
    exact Assoc.find?_put_eq_none (Assoc.ne_of_find? hnone hfound) hnone
  refine Alike.bind hupdate fun _ => ?_
  exact Alike.tell _ _ _ (fun s t h => h) (Alike.pure r' fun s t h => h)

theorem alike_cancelRun (hr : Ready sources bound st now) (id : Uuid) :
    Lockstep sources bound st now (cancelRun id now) :=
  alike_finishRun hr id (finishes_finish .cancelled .cancel (Or.inl rfl) now) _

/-! ## Reading -/

/-- What a step that changes nothing is answered is all that comes of it. -/
theorem alike_answer (hr : Ready sources bound st now) (step : Step)
    (read : Memory → Except Error step.Answer) (hm : ∀ m, Backend.take step m = (read m, m))
    (ht : ∀ m t, Agree st.limit st.clock [] m t → Backend.take step t = (read m, t)) :
    Lockstep sources bound st now (Program.step step) :=
  (alike_read hr step read hm ht).weaken (fun _ _ h => h) (fun _ s t h => h.2.next hr s t)
    (fun _ _ h => h)

/-- What is asked of a definition is asked once it has been found. -/
theorem alike_ifStored {α : Type} (hr : Ready sources bound st now) (id : Uuid) {p : Program α}
    {after : α → Program.Link Memory Tables}
    (hp : Alike sources (Linked sources bound st []) p after
      (Linked sources bound (st.next now) [])) :
    Alike sources (Linked sources bound st []) (Program.step (.load id) >>= fun _ => p) after
      (Linked sources bound (st.next now) []) :=
  Alike.bind (alike_load hr id) fun _ =>
    hp.weaken (fun _ _ h => h.2) (fun _ _ _ h => h) (fun _ _ h => h)

theorem alike_get (hr : Ready sources bound st now) (id : Uuid) :
    Lockstep sources bound st now (get id) :=
  (alike_load hr id).weaken (fun _ _ h => h) (fun _ s t h => h.2.next hr s t) (fun _ _ h => h)

theorem alike_list (hr : Ready sources bound st now) {org : Value} (ho : org.IsTextOrNull) :
    Lockstep sources bound st now (list org) := by
  refine alike_answer hr (.definitions org) (fun m => m.list org) (fun m => rfl) fun m t ha => ?_
  show (t.list org, t) = (m.list org, t)
  rw [ha.list_eq ho]

/-- The editor draws as many numbers on either store, and the same ones. -/
theorem alike_editorView (hr : Ready sources bound st now) (canvas : Editor.Canvas) (id : Uuid) :
    Lockstep sources bound st now (editorView canvas id) := by
  unfold editorView
  refine Alike.bind (alike_load hr id) fun d => ?_
  have hlift : ∀ draws, Alike sources (Linked sources bound (st.next now) [])
      (Program.lift (d.edited canvas draws)) (fun _ => Linked sources bound (st.next now) [])
      (Linked sources bound (st.next now) []) := fun draws =>
    (Alike.lift fun s t h => h).weaken (fun _ _ h => h) (fun _ _ _ h => h.2) (fun _ _ h => h)
  refine Alike.draw (fun s t h => h.2.draws) ?_ hlift
  intro s t ⟨_, hl⟩
  exact { hl.next hr with draws := congrArg (· + d.drawsTaken) hl.draws }

theorem alike_approvals (hr : Ready sources bound st now) (id : Uuid) :
    Lockstep sources bound st now (approvals id) := by
  refine alike_ifStored hr id ?_
  refine alike_answer hr (.approvals id) (fun m => .ok (m.trail id)) (fun m => rfl) fun m t ha => ?_
  show (Except.ok (t.trail id), t) = (Except.ok (m.trail id), t)
  rw [ha.trail_eq]

theorem alike_templates (hr : Ready sources bound st now) :
    Lockstep sources bound st now templates := by
  refine alike_answer hr .templates (fun m => m.catalog.list .null) (fun m => rfl) fun m t ha => ?_
  show (t.listTemplates, t) = (m.catalog.list .null, t)
  rw [ha.templates.listed]

theorem alike_getRun (hr : Ready sources bound st now) (id : Uuid) :
    Lockstep sources bound st now (getRun id) := by
  refine alike_answer hr (.run id) (fun m => m.run id) (fun m => rfl) fun m t ha => ?_
  show (t.run id, t) = (m.run id, t)
  rw [ha.run_eq]

theorem alike_listRuns (hr : Ready sources bound st now) (id : Uuid) {n : Int}
    (hn : 0 ≤ n ∧ n < 2 ^ 63) :
    Lockstep sources bound st now (listRuns id (.int n)) := by
  refine alike_answer hr (.runs id (.int n)) (fun m => m.runsOf id (.int n)) (fun m => rfl)
    fun m t ha => ?_
  show (t.runsOf id (.int n), t) = (m.runsOf id (.int n), t)
  rw [ha.runsOf_eq id hn]

theorem alike_listOrgRuns (hr : Ready sources bound st now) {org : Value} (ho : org.IsText)
    {n : Int} (hn : 0 ≤ n ∧ n < 2 ^ 63) :
    Lockstep sources bound st now (listOrgRuns org (.int n)) := by
  refine alike_answer hr (.orgRuns org (.int n)) (fun m => m.runsOfOrg org (.int n))
    (fun m => rfl) fun m t ha => ?_
  show (t.runsOfOrg org (.int n), t) = (m.runsOfOrg org (.int n), t)
  rw [ha.runsOfOrg_eq ho hn]

theorem alike_summary (hr : Ready sources bound st now) (id : Uuid) :
    Lockstep sources bound st now (summary id) := by
  refine alike_ifStored hr id ?_
  refine alike_answer hr (.summary id) (fun m => m.summary id) (fun m => rfl) fun m t ha => ?_
  show (RunSummary.ofRuns id t.runs, t) = (m.summary id, t)
  rw [ha.summary_eq]

/-! ## Calls -/

/-- What a program leads to is put into a reply. -/
theorem alike_reply {α : Type} {p : Program α} {link : Program.Link Memory Tables}
    (reply : α → Reply)
    (hp : Alike sources (Linked sources bound st []) p (fun _ => link) link) :
    Alike sources (Linked sources bound st []) (p >>= fun a => pure (reply a))
      (fun _ => link) link :=
  Alike.bind hp fun a => Alike.pure (reply a) fun _ _ h => h

/-- A call whose arguments are of their types and fit the tables is answered alike. -/
theorem alike_program (hr : Ready sources bound st now) (canvas : Editor.Canvas) {call : Call}
    (hc : call.Typed) (hf : call.Fits) :
    Lockstep sources bound st now (call.program canvas now) := by
  cases call with
  | create p =>
    refine alike_reply .definition (alike_found hr ?_ hf)
    exact fun name id ha => Definition.Proposal.Typed.define hc hr.universal id ha
  | get id => exact alike_reply .definition (alike_get hr id)
  | list org => exact alike_reply .definitions (alike_list hr hc)
  | update id r expected =>
    have hrecorded : ∀ op, (Call.update id r expected).Performs op → op.isRecorded = false := by
      intro op hop
      cases op with
      | govern action actor notes => exact hop.elim
      | rename _ _ | updateTrigger _ | updateGraph _ _ | applyEdited _ | activate | pause => rfl
    exact alike_reply .definition (alike_modify hr hc hf hrecorded fun d d' h => h)
  | editorView id => exact alike_reply .edited (alike_editorView hr canvas id)
  | saveEdited id edited expected => exact alike_reply .definition (alike_saveEdited hr hc hf)
  | delete id => exact alike_reply (fun _ => .nothing) (alike_delete hr id)
  | govern action id actor notes => exact alike_reply .event (alike_govern hr hc)
  | approvals id => exact alike_reply .events (alike_approvals hr id)
  | activate id => exact alike_reply .definition (alike_activate hr id)
  | pause id => exact alike_reply .definition (alike_pause hr id)
  | templates => exact alike_reply .templates (alike_templates hr)
  | install key context name => exact alike_reply .definition (alike_install hr hc)
  | startRun id context => exact alike_reply .run (alike_startRun hr hc hf)
  | completeRun id outcome error =>
    exact alike_reply .run (alike_finishRun hr id (finishes_complete hc outcome now) _)
  | cancelRun id => exact alike_reply .run (alike_cancelRun hr id)
  | getRun id => exact alike_reply .run (alike_getRun hr id)
  | listRuns id limit =>
    obtain ⟨n, rfl, hn⟩ := hf
    exact alike_reply .runs (alike_listRuns hr id hn)
  | listOrgRuns org limit =>
    obtain ⟨n, rfl, hn⟩ := hf
    exact alike_reply .runs (alike_listOrgRuns hr hc.1 hn)
  | summary id => exact alike_reply .summary (alike_summary hr id)

end Workflow.Service
