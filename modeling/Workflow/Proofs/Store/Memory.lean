import Workflow.Proofs.Service.Shelving
import Workflow.Store.Memory

/-!
# Definitions in memory

The store in memory keeps whole definitions, of any kind, each under its own
identifier.

    (m.put d).shelf = m.shelf.put d.id (some d)              (shelf_put)
    m.save d v succeeds ↔ the stored version is v            (save_of_some)
-/

namespace Workflow.Store

open Service (Shelf Shelving writesDefinitions)

namespace Memory

/-! ## Definitions -/

/-- Each definition is filed under its own identifier. -/
def Sound (m : Memory) : Prop := ∀ id d, Assoc.find? id m.definitions = some d → d.id = id

def shelf (m : Memory) : Shelf := fun id => Assoc.find? id m.definitions

variable {m m' : Memory} {d c : Definition} {id : Uuid}

theorem load_eq_ok : m.load id = .ok d ↔ Assoc.find? id m.definitions = some d := by
  unfold load
  cases Assoc.find? id m.definitions with
  | none => simp
  | some c => simp

theorem run_eq_ok {r : Run} : m.run id = .ok r ↔ Assoc.find? id m.runs = some r := by
  unfold run
  cases Assoc.find? id m.runs with
  | none => simp
  | some q => simp

theorem load_put (m : Memory) (d : Definition) (id : Uuid) :
    (m.put d).load id = if id = d.id then .ok d else m.load id := by
  by_cases hid : id = d.id
  · rw [if_pos hid, hid, load_put_self]
  · rw [if_neg hid, load_put_of_ne m d hid]

theorem shelf_put (m : Memory) (d : Definition) :
    (m.put d).shelf = m.shelf.put d.id (some d) := by
  funext id
  by_cases h : id = d.id
  · rw [h, Shelf.put_self]
    exact Assoc.find?_put_self _ _ _
  · rw [Shelf.put_of_ne _ h]
    exact Assoc.find?_put_of_ne h _ _

theorem Sound.put (h : m.Sound) (d : Definition) : (m.put d).Sound := by
  intro id d' hd
  have hs := congrFun (shelf_put m d) id
  by_cases hid : id = d.id
  · rw [hid, Shelf.put_self, ← hid] at hs
    obtain rfl : d' = d := Option.some.inj (hd.symm.trans hs)
    exact hid.symm
  · rw [Shelf.put_of_ne _ hid] at hs
    exact h id d' (hs.symm.trans hd)

theorem checkVersion_of_some {v : Int} (h : m.shelf id = some c) :
    m.checkVersion id (.int v) =
      if c.version = v then .ok () else .error (.stale id (.int v) c.version) := by
  have hl : m.load id = .ok c := by
    unfold load
    rw [show Assoc.find? id m.definitions = some c from h]
  unfold checkVersion
  rw [if_neg Value.noConfusion, hl]
  show (if (Value.int c.version).same (.int v) = true then _ else _) = _
  by_cases hv : c.version = v
  · rw [if_pos hv, if_pos (by simp [hv])]
    rfl
  · rw [if_neg hv, if_neg (by simp [hv])]

theorem save_of_some {v : Int} (h : m.shelf d.id = some c) :
    m.save d (.int v) =
      if c.version = v then .ok (m.put d) else .error (.stale d.id (.int v) c.version) := by
  unfold save
  rw [checkVersion_of_some h]
  by_cases hv : c.version = v
  · rw [if_pos hv, if_pos hv]
    rfl
  · rw [if_neg hv, if_neg hv]
    rfl

theorem save_of_none {v : Int} (h : m.shelf d.id = none) :
    m.save d (.int v) = .error (.definitionMissing d.id) := by
  have hl : m.load d.id = .error (.definitionMissing d.id) := by
    unfold load
    rw [show Assoc.find? d.id m.definitions = none from h]
  unfold save checkVersion
  rw [if_neg Value.noConfusion, hl]
  rfl

theorem take_save (m : Memory) (d : Definition) (expected : Value) :
    Backend.take (.save d expected) m = m.written (m.save d expected) := rfl

theorem delete_eq_ok (h : m.delete id = .ok m') :
    m' = { m with
      definitions := Assoc.drop id m.definitions
      trails := Assoc.drop id m.trails
      runs := m.runs.filter (·.2.definition ≠ id) } := by
  obtain ⟨d, -, h⟩ := bind_eq_ok.1 h
  exact (pure_eq_ok.1 h).symm

theorem load_delete (h : m.delete id = .ok m') (id' : Uuid) :
    m'.load id' = if id' = id then .error (.definitionMissing id') else m.load id' := by
  obtain rfl := delete_eq_ok h
  by_cases hid : id' = id
  · rw [if_pos hid, hid]
    have hfind : Assoc.find? id (Assoc.drop id m.definitions) = none := Assoc.find?_drop_self _ _
    simp only [load, hfind]
  · rw [if_neg hid]
    have hfind : Assoc.find? id' (Assoc.drop id m.definitions) = Assoc.find? id' m.definitions :=
      Assoc.find?_drop_of_ne hid _
    simp only [load, hfind]

/-! ## Trails and runs -/

theorem trail_delete (h : m.delete id = .ok m') (id' : Uuid) :
    m'.trail id' = if id' = id then [] else m.trail id' := by
  obtain rfl := delete_eq_ok h
  unfold trail
  by_cases hid : id' = id
  · rw [if_pos hid, hid]
    show (Assoc.find? id (Assoc.drop id m.trails)).getD [] = []
    rw [Assoc.find?_drop_self]
    rfl
  · rw [if_neg hid]
    show (Assoc.find? id' (Assoc.drop id m.trails)).getD [] = _
    rw [Assoc.find?_drop_of_ne hid]

theorem mem_runs_delete (h : m.delete id = .ok m') {r : Run}
    (hr : r ∈ Assoc.values m'.runs) : r ∈ Assoc.values m.runs ∧ r.definition ≠ id := by
  obtain rfl := delete_eq_ok h
  obtain ⟨e, he, rfl⟩ := List.mem_map.1 hr
  obtain ⟨hmem, hne⟩ := List.mem_filter.1 he
  exact ⟨List.mem_map.2 ⟨e, hmem, rfl⟩, by simpa using hne⟩

theorem trail_appendApproval (m : Memory) (e : ApprovalEvent) (id : Uuid) :
    (m.appendApproval e).trail id = if id = e.definition then m.trail id ++ [e] else m.trail id := by
  unfold trail appendApproval
  by_cases hid : id = e.definition
  · rw [if_pos hid, hid]
    show (Assoc.find? _ (Assoc.put _ _ _)).getD [] = _
    rw [Assoc.find?_put_self]
    rfl
  · rw [if_neg hid]
    show (Assoc.find? _ (Assoc.put _ _ _)).getD [] = _
    rw [Assoc.find?_put_of_ne hid]

/-! ## Steps -/

/-- A write that fails leaves the store as it was. -/
theorem written_eq_error {r : Except Error Memory} {e : Error}
    (h : m.written r = (.error e, m')) : m' = m := by
  unfold written at h
  cases r with
  | ok a => cases h
  | error e => exact (Prod.mk.inj h).2.symm

theorem written_eq_ok {r : Except Error Memory} (h : m.written r = (.ok (), m')) :
    r = .ok m' := by
  unfold written at h
  cases r with
  | ok a => rw [(Prod.mk.inj h).2]
  | error e => cases h

theorem take_save_eq_ok {v : Value} (h : Backend.take (.save d v) m = (.ok (), m')) :
    m' = m.put d := by
  obtain ⟨_, -, h⟩ := bind_eq_ok.1 (written_eq_ok h)
  exact (pure_eq_ok.1 h).symm

theorem updateRun_eq_ok {r : Run} (h : m.updateRun r = .ok m') : m' = m.putRun r := by
  obtain ⟨current, -, h⟩ := bind_eq_ok.1 h
  split at h
  · cases h
  · exact (pure_eq_ok.1 h).symm

theorem shelf_eq_of_definitions (h : m'.definitions = m.definitions) : m'.shelf = m.shelf := by
  unfold shelf
  rw [h]

theorem sound_of_definitions (hs : m.Sound) (h : m'.definitions = m.definitions) :
    m'.Sound := by
  unfold Sound
  rw [h]
  exact hs

/-- Only saving and deleting touch the definitions. -/
theorem take_other_definitions {s : Step} {a : s.Answer} (hw : writesDefinitions s = false)
    (h : Backend.take s m = (.ok a, m')) : m'.definitions = m.definitions := by
  cases s with
  | save d expected => cases hw
  | delete id => cases hw
  | updateRun r =>
    rw [updateRun_eq_ok (written_eq_ok h)]
    rfl
  | appendApproval e => rw [← (Prod.mk.inj h).2]; rfl
  | appendRun r => rw [← (Prod.mk.inj h).2]; rfl
  | load _ | definitions _ | approvals _ | run _ | runs _ _ | orgRuns _ _ | summary _
  | templates | template _ => rw [← (Prod.mk.inj h).2]

theorem take_error_eq {s : Step} {e : Error} (h : Backend.take s m = (.error e, m')) :
    m' = m := by
  cases s with
  | save d expected => exact written_eq_error h
  | delete id => exact written_eq_error h
  | updateRun r => exact written_eq_error h
  | appendApproval e => cases h
  | appendRun r => cases h
  | load _ | definitions _ | approvals _ | run _ | runs _ _ | orgRuns _ _ | summary _
  | templates | template _ => exact (Prod.mk.inj h).2.symm

/-- No step touches the catalog. -/
theorem take_catalog {s : Step} {r : Except Error s.Answer} (h : Backend.take s m = (r, m')) :
    m'.catalog = m.catalog := by
  cases r with
  | error e => rw [take_error_eq h]
  | ok a =>
    cases s with
    | save d expected =>
      rw [take_save_eq_ok h]
      rfl
    | delete id => rw [delete_eq_ok (written_eq_ok h)]
    | updateRun r =>
      rw [updateRun_eq_ok (written_eq_ok h)]
      rfl
    | appendApproval e => rw [← (Prod.mk.inj h).2]; rfl
    | appendRun r => rw [← (Prod.mk.inj h).2]; rfl
    | load _ | definitions _ | approvals _ | run _ | runs _ _ | orgRuns _ _ | summary _
    | templates | template _ => rw [← (Prod.mk.inj h).2]

/-- Whole definitions are kept, of any kind. -/
def shelving : Shelving Memory where
  core d := d
  shelf := shelf
  Typed _ := True
  TypedTemplate _ := True
  Fits _ := True
  Sound := Sound
  core_version _ := rfl
  core_createdAt _ := rfl
  core_change _ _ _ := rfl
  shelf_core _ _ := rfl
  take_error := take_error_eq
  load_ok := by
    intro m m' id d hs h
    obtain ⟨hl, rfl⟩ := Prod.mk.inj h
    unfold load at hl
    cases hf : Assoc.find? id m.definitions with
    | none => simp [hf] at hl
    | some c =>
      simp only [hf] at hl
      obtain rfl := Except.ok.inj hl
      exact ⟨rfl, hs id c hf, trivial, hf⟩
  template_ok _ _ := trivial
  save_new := by
    intro m d hs _ _
    exact Or.inr ⟨m.put d, rfl, hs.put d, shelf_put m d⟩
  save_missing := by
    intro m d v _ h
    rw [take_save, save_of_none h]
    rfl
  save_unfit := by
    intro m d c v _ _ hf
    exact absurd trivial hf
  save_stale := by
    intro m h d c _ _ _ _ _ hc hv
    rw [take_save, save_of_some hc, if_neg hv]
    rfl
  save_current := by
    intro m h d c hs _ _ _ _ hc hv _
    refine ⟨m.put d, ?_, hs.put d, shelf_put m d⟩
    rw [take_save, save_of_some hc, if_pos hv]
    rfl
  delete_ok := by
    intro m m' id hs h
    obtain rfl := delete_eq_ok (written_eq_ok h)
    refine ⟨?_, ?_⟩
    · intro id' d hd
      by_cases hid : id' = id
      · subst hid
        rw [show Assoc.find? id' (Assoc.drop id' m.definitions) = none from
          Assoc.find?_drop_self _ _] at hd
        cases hd
      · exact hs id' d ((Assoc.find?_drop_of_ne hid _).symm.trans hd)
    · funext id'
      by_cases hid : id' = id
      · rw [hid, Shelf.put_self]
        exact Assoc.find?_drop_self _ _
      · rw [Shelf.put_of_ne _ hid]
        exact Assoc.find?_drop_of_ne hid _
  take_other := by
    intro s m m' a hs hw h
    have hd := take_other_definitions hw h
    exact ⟨sound_of_definitions hs hd, shelf_eq_of_definitions hd⟩

end Memory

end Workflow.Store
