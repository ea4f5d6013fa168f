import Workflow.Proofs.Sorting
import Workflow.Proofs.Store.Registry

/-!
# Trails in tables

The events of a definition are rows that are written one after another, and its trail
has them by their times.

    the times never go back → by time is as they came          (byTime_of_ordered)
    the last is nowhere before another → it is last by time    (byTime_snoc)
-/

namespace Workflow

/-! ## Events -/

namespace ApprovalEvent

/-- The events of a definition. -/
def ofDefinition (id : Uuid) (es : List ApprovalEvent) : List ApprovalEvent :=
  es.filter (·.definition = id)

/-- Events by time; of equal times the one that came first. -/
def byTime (es : List ApprovalEvent) : List ApprovalEvent :=
  es.mergeSort fun a b => a.time.instant ≤ b.time.instant

variable {es : List ApprovalEvent} {e : ApprovalEvent} {id : Uuid}

/-- Events of one definition are added to the events of that one. -/
theorem ofDefinition_append {new : List ApprovalEvent} (hnew : ∀ e ∈ new, e.definition = id)
    (id' : Uuid) : ofDefinition id' (es ++ new)
      = if id' = id then ofDefinition id es ++ new else ofDefinition id' es := by
  unfold ofDefinition
  rw [List.filter_append]
  by_cases hid : id' = id
  · have hall : new.filter (·.definition = id) = new :=
      List.filter_eq_self.2 fun e he => by simp [hnew e he]
    rw [if_pos hid, hid, hall]
  · have hnone : new.filter (·.definition = id') = [] :=
      List.filter_eq_nil_iff.2 fun e he => by simpa [hnew e he] using Ne.symm hid
    rw [if_neg hid, hnone, List.append_nil]

theorem byTime_of_ordered (h : es.Pairwise fun a b => a.time.instant ≤ b.time.instant) :
    byTime es = es :=
  List.mergeSort_of_pairwise (h.imp fun h => decide_eq_true h)

theorem byTime_snoc (h : ∀ a ∈ es, a.time.instant ≤ e.time.instant) :
    byTime (es ++ [e]) = byTime es ++ [e] := by
  refine mergeSort_snoc ?_ ?_ fun a ha => decide_eq_true (h a ha)
  · intro a b c hab hbc
    simp only [decide_eq_true_eq] at hab hbc ⊢
    omega
  · intro a b
    simp only [Bool.or_eq_true, decide_eq_true_eq]
    omega

/-- Events lead to the same status by time, if the last of them is nowhere before another. -/
theorem status_byTime (h : ∀ e ∈ es.getLast?, ∀ a ∈ es, a.time.instant ≤ e.time.instant) :
    status (byTime es) = status es := by
  cases hl : es.getLast? with
  | none =>
    rw [List.getLast?_eq_none_iff.1 hl, byTime, List.mergeSort_nil]
  | some e =>
    obtain ⟨before, rfl⟩ := List.getLast?_eq_some_iff.1 hl
    rw [byTime_snoc fun a ha => h e hl a (List.mem_append_left _ ha), status_append, status_append]

end ApprovalEvent

/-! ## Tables -/

namespace Store.Tables

variable {t t' : Tables} {e : ApprovalEvent} {id : Uuid}

/-- The trail of a definition has its events by time. -/
theorem trail_eq (t : Tables) (id : Uuid) :
    t.trail id = ApprovalEvent.byTime (ApprovalEvent.ofDefinition id t.approvals) := rfl

/-- An event of declared types is its own row. -/
theorem approvals_of_append (htime : e.time.IsUniversal) (hactor : e.actor.IsTextOrNull)
    (hnotes : e.notes.IsTextOrNull) (h : t.appendApproval e = .ok t') :
    t'.approvals = t.approvals ++ [e] := by
  obtain ⟨row, hrow, rfl⟩ := appendApproval_eq_ok h
  obtain ⟨_, -, hrow⟩ := bind_eq_ok.1 hrow
  rw [hactor.column, hnotes.column, htime.toUniversal] at hrow
  obtain rfl := Except.ok.inj hrow
  rfl

theorem approvals_of_save {d : Definition} {v : Value} (h : t.save d v = .ok t') :
    t'.approvals = t.approvals := by
  obtain ⟨-, _, -, -, ⟨-, rfl⟩ | ⟨-, rfl⟩⟩ := save_eq_ok h
  · rfl
  · rfl

theorem approvals_of_appendRun {r : Run} (h : t.appendRun r = .ok t') :
    t'.approvals = t.approvals := by
  obtain ⟨_, -, -, rfl⟩ := appendRun_eq_ok h
  rfl

theorem approvals_of_updateRun {r : Run} (h : t.updateRun r = .ok t') :
    t'.approvals = t.approvals := by
  obtain ⟨_, _, -, -, -, rfl⟩ := updateRun_eq_ok h
  rfl

theorem ofDefinition_delete (h : t.delete id = .ok t') (id' : Uuid) :
    ApprovalEvent.ofDefinition id' t'.approvals
      = if id' = id then [] else ApprovalEvent.ofDefinition id' t.approvals := by
  obtain rfl := delete_eq_ok h
  unfold ApprovalEvent.ofDefinition
  rw [List.filter_filter]
  by_cases hid : id' = id
  · rw [if_pos hid, List.filter_eq_nil_iff]
    simp [hid]
  · rw [if_neg hid]
    refine List.filter_congr fun e _ => ?_
    by_cases he : e.definition = id'
    · simp [he, hid]
    · simp [he]

end Store.Tables

end Workflow
