import Workflow.Proofs.Service.Invariant
import Workflow.Proofs.Store.Memory
import Workflow.Proofs.Store.Tables

/-!
# No update is lost

Clients that use one store at a time, their steps in any order, never overwrite a
change that they have not seen.

    what is stored is what replaying the log leads to             (LosesNothing.replayed)
    a save that succeeds writes a change to what is stored        (LosesNothing.written)
    over the stored version it succeeds, over another it fails    (LosesNothing.current, stale)

All this holds of either store (`no_update_lost`).
-/

namespace Workflow.Service

open Store (Backend Step Memory Tables)

/-! ## Statement -/

/-- A client is about to save what its call has made of the definition that it loaded. -/
def Client.Saves (c : Client) (h d : Definition) : Prop :=
  c.loaded = some h ∧ c.call.change c.now h = .ok d ∧
    ∃ next, c.rest = .take (.save d (.int h.version)) next

/-- What is said of a pool that has come from a first one.  A definition is kept but for what
`core` leaves out, and is refused unless it fits. -/
structure Pool.LosesNothing {σ : Type} [Backend σ] (core : Definition → Definition)
    (shelf : σ → Shelf) (fits : Definition → Prop) (sources : Program.Sources)
    (first P : Pool σ) : Prop where
  /-- what is stored is what the log leads to -/
  replayed : ∀ id, shelf P.store id = ((shelf first.store).replay P.log id).map core
  /-- a save is of a new definition, or of a change to the one that was loaded -/
  saves : ∀ (i : Nat) (c : Client) (d : Definition) (expected : Value)
    (next : Unit → Program Reply), P.clients[i]? = some c →
    c.rest = .take (.save d expected) next →
      (expected = .null ∧ c.given = some d.id ∧ shelf P.store d.id = none) ∨
        ∃ h, expected = .int h.version ∧ c.Saves h d
  /-- a save that succeeds writes a change to what is stored just before it -/
  written : ∀ (i : Nat) (c : Client) (h d : Definition) (store : σ), P.clients[i]? = some c →
    c.Saves h d → Backend.take (.save d (.int h.version)) P.store = (.ok (), store) →
      shelf P.store h.id = some (core h) ∧ d.id = h.id ∧ (P.advance sources i).store = store ∧
        shelf store = (shelf P.store).put h.id (some (core d)) ∧
        (P.advance sources i).log = P.log ++ [.changed h.id c.call c.now]
  /-- over the stored version it succeeds -/
  current : ∀ (i : Nat) (c : Client) (h d s : Definition), P.clients[i]? = some c →
    c.Saves h d → fits d → shelf P.store h.id = some s → s.version = h.version →
      ∃ store, Backend.take (.save d (.int h.version)) P.store = (.ok (), store)
  /-- over any other version it is refused, and changes nothing -/
  stale : ∀ (i : Nat) (c : Client) (h d s : Definition), P.clients[i]? = some c →
    c.Saves h d → fits d → shelf P.store h.id = some s → s.version ≠ h.version →
      P.advance sources i = P.setClient i
        { c with rest := .fail (.stale h.id (.int h.version) s.version) }
  /-- and so it is if the definition has been deleted -/
  missing : ∀ (i : Nat) (c : Client) (h d : Definition), P.clients[i]? = some c →
    c.Saves h d → shelf P.store h.id = none →
      P.advance sources i = P.setClient i { c with rest := .fail (.definitionMissing h.id) }
  /-- what does not fit is refused, whatever the version -/
  refused : ∀ (i : Nat) (c : Client) (h d s : Definition), P.clients[i]? = some c →
    c.Saves h d → ¬fits d → shelf P.store h.id = some s →
      ∃ e, P.advance sources i = P.setClient i { c with rest := .fail e }

/-! ## Proof -/

section

variable {σ : Type} [Backend σ] {S : Shelving σ} {sources : Program.Sources}

/-- Nothing is lost as long as the invariant holds. -/
theorem Pool.Sound.losesNothing {first P : Pool σ} {bound : Nat}
    (hP : P.Sound S sources bound (S.shelf first.store)) :
    Pool.LosesNothing S.core S.shelf S.Fits sources first P where
  replayed := hP.replayed
  saves := by
    intro i c d expected next hc hr
    have hsound := hP.clients c (List.mem_of_getElem? hc)
    have hcareful := hsound.careful
    rw [hr] at hcareful
    rcases hcareful.1 with ⟨he, hgiven, -⟩ | ⟨h, hl, rfl, hd⟩
    · exact Or.inl ⟨he, hgiven, hsound.fresh d.id hgiven⟩
    · exact Or.inr ⟨h, rfl, hl, hd, next, hr⟩
  written := by
    rintro i c h d store hc ⟨hl, hd, next, hr⟩ ht
    have hsound := hP.clients c (List.mem_of_getElem? hc)
    rcases hsound.save hP.store hl hd with ⟨e, he⟩ | ⟨store', ht', -, hstored, hput⟩
    · rw [he] at ht
      cases ht
    · obtain rfl := (Prod.mk.inj (ht'.symm.trans ht)).2
      obtain ⟨hid, -, -⟩ := Call.change_keeps hd
      have hadvance : P.advance sources i = _ := Pool.advance_ok hc hr ht
      refine ⟨hstored, hid, congrArg Pool.store hadvance, hput, ?_⟩
      rw [hadvance, ← hid]
      rfl
  current := by
    rintro i c h d s hc ⟨hl, hd, next, hr⟩ hf hs hv
    have hsound := hP.clients c (List.mem_of_getElem? hc)
    obtain ⟨hh, hd', hid, hle⟩ := hsound.change hl hd
    obtain rfl := (hsound.current h hl s hs).2 hv
    have hcreated : (S.core h).createdAt = d.createdAt := by
      rw [S.core_createdAt, (Call.change_keeps hd).2.1]
    rw [← hid] at hs
    obtain ⟨store, ht, -⟩ := S.save_current hP.store hh hd' hf hle hs hv hcreated
    exact ⟨store, ht⟩
  stale := by
    rintro i c h d s hc ⟨hl, hd, next, hr⟩ hf hs hv
    have hsound := hP.clients c (List.mem_of_getElem? hc)
    obtain ⟨hh, hd', hid, hle⟩ := hsound.change hl hd
    rw [← hid] at hs ⊢
    exact Pool.advance_error hc hr (S.save_stale hP.store hh hd' hf hle hs hv)
  missing := by
    rintro i c h d hc ⟨hl, hd, next, hr⟩ hs
    have hsound := hP.clients c (List.mem_of_getElem? hc)
    obtain ⟨-, -, hid, -⟩ := hsound.change hl hd
    rw [← hid] at hs ⊢
    exact Pool.advance_error hc hr (S.save_missing hP.store hs)
  refused := by
    rintro i c h d s hc ⟨hl, hd, next, hr⟩ hf hs
    have hsound := hP.clients c (List.mem_of_getElem? hc)
    obtain ⟨-, hd', hid, -⟩ := hsound.change hl hd
    rw [← hid] at hs
    obtain ⟨e, he⟩ := S.save_unfit hP.store hd' hf hs
    exact ⟨e, Pool.advance_error hc hr he⟩

/-- Clients of a store that keeps definitions lose nothing. -/
theorem Shelving.losesNothing (S : Shelving σ) (sources : Program.Sources)
    (canvas : Editor.Canvas) {store : σ} (hs : S.Sound store)
    {calls : List (Timestamp × Call)} (hcalls : ∀ p ∈ calls, S.Admits p.1 p.2)
    (order : List Nat) {P : Pool σ} (hP : P = (Pool.start canvas store calls).after sources order)
    (hids : sources.Distinct P.idsTaken)
    (hnew : ∀ k, k < P.idsTaken → S.shelf store (sources.ids k) = none) :
    Pool.LosesNothing S.core S.shelf S.Fits sources (Pool.start canvas store calls) P := by
  have hstart := Pool.start_sound S sources canvas hs hnew hcalls
  subst hP
  exact (hstart.after hids (Nat.le_refl _)).losesNothing

end

/-! ## Calls that the stores admit -/

theorem admits_memory (now : Timestamp) (call : Call) : Memory.shelving.Admits now call where
  change _ _ _ _ := trivial
  create _ _ _ _ _ := trivial
  install _ _ _ _ _ _ _ _ _ := trivial

theorem admits_tables {now : Timestamp} {call : Call} (hn : now.IsUniversal)
    (hc : call.Typed) : Tables.shelving.Admits now call where
  change d d' hd h := hc.change hn hd h
  create := by
    rintro p rfl name id ha
    exact Definition.Proposal.Typed.define hc hn id ha
  install := by
    rintro key context name rfl t ⟨hdescription, hgraph⟩ name' id ha
    obtain ⟨horg, huser⟩ := hc
    have hp : (t.proposal context name).Typed := {
      org := horg
      user := huser
      description := hdescription
      graph := hgraph
      layout := nofun }
    exact hp.define hn id ha

/-! ## Theorem -/

/-- However the steps of the clients interleave, no update is lost, in memory or in tables, if
the identifiers that were given are distinct and new.  Tables keep all of a definition but its
history, and need arguments of the declared types. -/
theorem no_update_lost (sources : Program.Sources) (canvas : Editor.Canvas)
    (calls : List (Timestamp × Call)) (order : List Nat) :
    (∀ (m : Memory) (P : Pool Memory), m.Sound →
      P = (Pool.start canvas m calls).after sources order → sources.Distinct P.idsTaken →
      (∀ k, k < P.idsTaken → m.shelf (sources.ids k) = none) →
      Pool.LosesNothing (fun d => d) Memory.shelf (fun _ => True) sources
        (Pool.start canvas m calls) P) ∧
    (∀ (t : Tables) (P : Pool Tables), t.Sound →
      P = (Pool.start canvas t calls).after sources order → sources.Distinct P.idsTaken →
      (∀ k, k < P.idsTaken → t.shelf (sources.ids k) = none) →
      (∀ p ∈ calls, p.1.IsUniversal ∧ p.2.Typed) →
      Pool.LosesNothing Definition.withoutHistory Tables.shelf Store.DefinitionRow.Fits sources
        (Pool.start canvas t calls) P) := by
  constructor
  · intro m P hm hP hids hnew
    exact Memory.shelving.losesNothing sources canvas hm (fun p _ => admits_memory p.1 p.2)
      order hP hids hnew
  · intro t P ht hP hids hnew hcalls
    exact Tables.shelving.losesNothing sources canvas ht
      (fun p hp => admits_tables (hcalls p hp).1 (hcalls p hp).2) order hP hids hnew

/-! ## A race -/

/-- An automation with one step is created, and then renamed by two clients at a time. -/
def race : List (Timestamp × Call) :=
  [(⟨0, some 0⟩, .create ⟨.text "Welcome", .event "lead.created", ⟨.text "acme", .null⟩,
      ⟨[⟨"n1", .action, "", [("action_kind", .text "email.send")]⟩], []⟩, .text "", [], none⟩),
    (⟨1, some 0⟩, .update (Uuid.ofNat 0) ⟨.text "Hello", .null, none, none⟩ .null),
    (⟨2, some 0⟩, .update (Uuid.ofNat 0) ⟨.text "Hi", .null, none, none⟩ .null)]

def raceSources : Program.Sources := ⟨Uuid.ofNat, fun _ => .int 0⟩

/-- Both load before either saves. -/
def raceOrder : List Nat := [0, 0, 1, 2, 1, 2]

def raceInMemory : Pool Memory :=
  (Pool.start .standard (Memory.empty .empty) race).after raceSources raceOrder

def raceInTables : Pool Tables :=
  (Pool.start .standard Tables.empty race).after raceSources raceOrder

/-- Only the first of the two names is written. -/
theorem no_update_lost_race :
    (Pool.LosesNothing (fun d => d) Memory.shelf (fun _ => True) raceSources
        (Pool.start .standard (Memory.empty .empty) race) raceInMemory ∧
      raceInMemory.log.length = 2 ∧
      (raceInMemory.store.shelf (Uuid.ofNat 0)).map (·.name) = some (.text "Hello")) ∧
    (Pool.LosesNothing Definition.withoutHistory Tables.shelf Store.DefinitionRow.Fits raceSources
        (Pool.start .standard Tables.empty race) raceInTables ∧
      raceInTables.log.length = 2 ∧
      (raceInTables.store.shelf (Uuid.ofNat 0)).map (·.name) = some (.text "Hello")) := by
  obtain ⟨hm, ht⟩ := no_update_lost raceSources .standard race raceOrder
  have hids : raceSources.Distinct 1 := fun j k hj hk _ => by omega
  have htyped : ∀ p ∈ race, p.1.IsUniversal ∧ p.2.Typed := by
    intro p hp
    simp only [race, List.mem_cons, List.not_mem_nil, or_false] at hp
    rcases hp with rfl | rfl | rfl
    · refine ⟨rfl, ⟨_, rfl⟩, Or.inl rfl, ⟨_, rfl⟩, ?_, nofun⟩
      exact List.nodup_cons.2 ⟨List.not_mem_nil, List.nodup_nil⟩
    · exact ⟨rfl, Or.inl rfl, nofun⟩
    · exact ⟨rfl, Or.inl rfl, nofun⟩
  have hmtaken : raceInMemory.idsTaken = 1 := by decide +kernel
  have httaken : raceInTables.idsTaken = 1 := by decide +kernel
  refine ⟨⟨?_, by decide +kernel, by decide +kernel⟩, ?_, by decide +kernel, by decide +kernel⟩
  · refine hm (Memory.empty .empty) raceInMemory ?_ rfl (hmtaken ▸ hids) fun k _ => rfl
    intro id d h
    simp [Memory.empty] at h
  · refine ht Tables.empty raceInTables ⟨?_, ?_⟩ rfl (httaken ▸ hids) (fun k _ => rfl) htyped
    · simp [Tables.empty]
    · simp [Tables.empty]

end Workflow.Service
