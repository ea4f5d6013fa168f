import Workflow.Proofs.Run.Summary
import Workflow.Proofs.Store.Memory

/-!
# What a write leaves alone

A write that concerns one definition leaves everything else as it is: the other
definitions, their trails and their runs, and the lists of other organizations with
their order.

    put, delete, appendApproval, putRun touch only their definition and its organization
      (Touches.put, Touches.delete, Touches.appendApproval, Touches.putRun)
    what is touched by none is shown as before    (Touches.undisturbed, Touches.orgUndisturbed)
-/

namespace Workflow.Store.Memory

variable {m m' m'' : Memory} {A : Uuid} {org : Value}

/-! ## Observations -/

/-- A definition, its trail, its runs and their statistics are shown as before. -/
structure Undisturbed (m m' : Memory) (id : Uuid) : Prop where
  load : m'.load id = m.load id
  trail : m'.trail id = m.trail id
  runsOf : ∀ limit, m'.runsOf id limit = m.runsOf id limit
  summary : m'.summary id = m.summary id

/-- The definitions and the runs of an organization are listed as before. -/
structure OrgUndisturbed (m m' : Memory) (org : Value) : Prop where
  list : m'.list org = m.list org
  runsOfOrg : ∀ limit, m'.runsOfOrg org limit = m.runsOfOrg org limit

theorem Undisturbed.refl (m : Memory) (id : Uuid) : m.Undisturbed m id :=
  ⟨rfl, rfl, fun _ => rfl, rfl⟩

theorem OrgUndisturbed.refl (m : Memory) (org : Value) : m.OrgUndisturbed m org :=
  ⟨rfl, fun _ => rfl⟩

/-! ## Footprints -/

/-- All that differs belongs to one definition, and its organization is the given one: a
choice that takes none of it chooses the same, in the same order. -/
structure Touches (A : Uuid) (org : Value) (m m' : Memory) : Prop where
  load : ∀ id, id ≠ A → m'.load id = m.load id
  trail : ∀ id, id ≠ A → m'.trail id = m.trail id
  definitions : ∀ p : Definition → Bool, (∀ d, d.id = A → d.org = org → p d = false) →
    (Assoc.values m'.definitions).filter p = (Assoc.values m.definitions).filter p
  runs : ∀ p : Run → Bool, (∀ r, r.definition = A → r.org = org → p r = false) →
    (Assoc.values m'.runs).filter p = (Assoc.values m.runs).filter p

namespace Touches

theorem refl (A : Uuid) (org : Value) (m : Memory) : Touches A org m m :=
  ⟨fun _ _ => rfl, fun _ _ => rfl, fun _ _ => rfl, fun _ _ => rfl⟩

theorem trans (h : Touches A org m m') (h' : Touches A org m' m'') : Touches A org m m'' where
  load id hid := (h'.load id hid).trans (h.load id hid)
  trail id hid := (h'.trail id hid).trans (h.trail id hid)
  definitions p hp := (h'.definitions p hp).trans (h.definitions p hp)
  runs p hp := (h'.runs p hp).trans (h.runs p hp)

/-! ## Writes -/

/-- A definition is stored that is new, or replaces one of the same organization. -/
theorem put {d : Definition}
    (hd : ∀ c, Assoc.find? d.id m.definitions = some c → c.id = d.id ∧ c.org = d.org) :
    Touches d.id d.org m (m.put d) where
  load _ hid := load_put_of_ne m d hid
  trail _ _ := rfl
  definitions _ hp := Assoc.filter_values_put (hp d rfl rfl) fun c hc =>
    let ⟨hid, horg⟩ := hd c hc
    hp c hid horg
  runs _ _ := rfl

theorem appendApproval {e : ApprovalEvent} :
    Touches e.definition org m (m.appendApproval e) where
  load _ _ := rfl
  trail _ hid := by rw [trail_appendApproval, if_neg hid]
  definitions _ _ := rfl
  runs _ _ := rfl

/-- A run is stored that is new, or replaces one of the same definition. -/
theorem putRun {r : Run} (hr : ∀ q, Assoc.find? r.id m.runs = some q →
    q.definition = r.definition ∧ q.org = r.org) :
    Touches r.definition r.org m (m.putRun r) where
  load _ _ := rfl
  trail _ _ := rfl
  definitions _ _ := rfl
  runs _ hp := Assoc.filter_values_put (hp r rfl rfl) fun q hq =>
    let ⟨hdefinition, horg⟩ := hr q hq
    hp q hdefinition horg

/-- What is filed under the identifier that is deleted, and the runs that belong to it, go. -/
theorem delete (h : m.delete A = .ok m')
    (hd : ∀ d, (A, d) ∈ m.definitions → d.id = A ∧ d.org = org)
    (hr : ∀ r ∈ Assoc.values m.runs, r.definition = A → r.org = org) :
    Touches A org m m' where
  load id hid := by rw [load_delete h, if_neg hid]
  trail id hid := by rw [trail_delete h, if_neg hid]
  definitions p hp := by
    rw [delete_eq_ok h]
    show (Assoc.values (Assoc.drop A m.definitions)).filter p = _
    rw [Assoc.drop_eq_filter]
    refine Assoc.filter_values_filter fun e he hkey => ?_
    have hkey : A = e.1 := by simpa using hkey
    obtain ⟨hid, horg⟩ := hd e.2 (hkey ▸ he)
    exact hp e.2 hid horg
  runs p hp := by
    rw [delete_eq_ok h]
    refine Assoc.filter_values_filter fun e he hown => ?_
    have hown : e.2.definition = A := by simpa using hown
    exact hp e.2 hown (hr e.2 (List.mem_map_of_mem he) hown)

/-! ## Reading -/

/-- Another definition is shown as before. -/
theorem undisturbed (h : Touches A org m m') {id : Uuid} (hid : id ≠ A) :
    m.Undisturbed m' id := by
  have hruns : (Assoc.values m'.runs).filter (·.definition = id)
      = (Assoc.values m.runs).filter (·.definition = id) :=
    h.runs _ fun r hr _ => decide_eq_false fun he => hid (he.symm.trans hr)
  refine ⟨h.load id hid, h.trail id hid, fun limit => ?_, ?_⟩
  · unfold runsOf
    rw [hruns]
  · unfold summary
    rw [← RunSummary.ofRuns_filter, hruns, RunSummary.ofRuns_filter]

/-- Another organization is listed as before. -/
theorem orgUndisturbed (h : Touches A org m m') {P : Value} (hP : P ≠ .null)
    (hne : org.same P = false) : m.OrgUndisturbed m' P := by
  constructor
  · have hlist := h.definitions (fun d => P = .null || d.org.same P) fun d _ hd => by
      rw [hd, hne, Bool.or_false]
      exact decide_eq_false hP
    unfold list
    rw [hlist]
  · intro limit
    unfold runsOfOrg
    rw [h.runs (·.org.same P) fun r _ hr => by rw [hr, hne]]

end Touches

end Workflow.Store.Memory
