import Workflow.Graph.Sketch
import Workflow.Proofs.Except

/-!
# Writing what is wrong

The messages about a sketch are written as they come up.  If the ends of its
transitions can be looked up, what is reported is all the texts, unless a message
shows a value that cannot be written: then nothing is reported at all.

    the texts are written ↔ each message can be                  (writeAll_eq)
    s is reported on ↔ its ends can be looked up, and each of its
      messages can be written; all texts are reported then       (validate_eq_ok_iff)
-/

namespace Workflow

/-! ## Messages -/

namespace Message

@[simp] theorem isWritable_append (m n : Message) :
    (m ++ n).isWritable = (m.isWritable && n.isWritable) := List.all_append

@[simp] theorem isWritable_coe (s : String) : (s : Message).isWritable = true := rfl

@[simp] theorem isWritable_message (v : Value) : v.message.isWritable = v.isWritable :=
  Bool.and_true _

theorem writeAll_eq (ms : List Message) : writeAll ms =
    if ms.all isWritable then .ok (ms.map text) else .error (.faulty .unwritable) := by
  induction ms with
  | nil => rfl
  | cons m rest ih =>
    have hcons : writeAll (m :: rest) = m.write >>= fun t => writeAll rest >>= fun ts =>
        pure (t :: ts) := List.mapM_cons
    rw [hcons, ih]
    unfold write
    cases hm : m.isWritable with
    | false => simp [hm, Bind.bind, Except.bind]
    | true =>
      by_cases hr : rest.all isWritable = true
      · simp [hm, hr, Bind.bind, Except.bind, pure, Except.pure]
      · simp [hm, hr, Bind.bind, Except.bind]

theorem writeAll_append (ms ns : List Message) :
    writeAll (ms ++ ns) = writeAll ms >>= fun xs => writeAll ns >>= fun ys => pure (xs ++ ys) :=
  List.mapM_append

/-- Messages that are written group by group are written one after the other. -/
theorem mapM_writeAll {α : Type} {l : List α} {f : α → Except Error (List String)}
    {g : α → List Message} (h : ∀ a ∈ l, f a = writeAll (g a)) :
    (l.mapM f).map List.flatten = writeAll (l.flatMap g) := by
  induction l with
  | nil => rfl
  | cons a rest ih =>
    obtain ⟨ha, hrest⟩ := List.forall_mem_cons.1 h
    rw [List.mapM_cons, List.flatMap_cons, writeAll_append, ← ih hrest, ha]
    cases writeAll (g a) with
    | error e => rfl
    | ok xs => cases rest.mapM f <;> rfl

/-- Two parts that are written group by group, and one after them. -/
theorem writeAll_parts {α β : Type} {as : List α} {bs : List β} {f : α → Except Error (List String)}
    {f' : β → Except Error (List String)} {g : α → List Message} {g' : β → List Message}
    (ha : ∀ a ∈ as, f a = writeAll (g a)) (hb : ∀ b ∈ bs, f' b = writeAll (g' b))
    (ms : List Message) :
    (as.mapM f >>= fun xs => bs.mapM f' >>= fun ys => writeAll ms >>= fun zs =>
      pure (xs.flatten ++ ys.flatten ++ zs)) = writeAll (as.flatMap g ++ bs.flatMap g' ++ ms) := by
  rw [writeAll_append, writeAll_append, ← mapM_writeAll ha, ← mapM_writeAll hb]
  cases as.mapM f with
  | error e => rfl
  | ok xs => cases bs.mapM f' <;> rfl

end Message

/-! ## Reports -/

namespace Sketch

open Message (writeAll)

variable {s : Sketch}

/-- The ends of transitions can be looked up. -/
def Searchable (s : Sketch) : Prop :=
  ∀ e ∈ s.edges, e.source.isKey = true ∧ e.target.isKey = true

theorem searchable_of_texts (h : ∀ e ∈ s.edges, ∃ p q, e.source = .text p ∧ e.target = .text q) :
    s.Searchable := by
  intro e he
  obtain ⟨p, q, hp, hq⟩ := h e he
  rw [hp, hq]
  exact ⟨rfl, rfl⟩

theorem reportEdge_eq {keys : List Value} {index : Nat} {e : SketchEdge}
    (hs : e.source.isKey = true) (ht : e.target.isKey = true) :
    reportEdge keys index e = writeAll (edgeViolations keys index e) := by
  unfold reportEdge reportEnd edgeViolations
  rw [if_pos hs, if_pos ht, Message.writeAll_append, Message.writeAll_append]
  simp only [bind_assoc, pure_bind]

theorem isKey_of_reportEdge {keys : List Value} {index : Nat} {e : SketchEdge} {said : List String}
    (h : reportEdge keys index e = .ok said) :
    e.source.isKey = true ∧ e.target.isKey = true := by
  have hend {part : String} {v : Value} {said : List String}
      (h : reportEnd keys index part v = .ok said) : v.isKey = true := by
    unfold reportEnd at h
    split at h
    next hv => exact hv
    next => cases h
  obtain ⟨_, hs, h⟩ := bind_eq_ok.1 h
  obtain ⟨_, ht, -⟩ := bind_eq_ok.1 h
  exact ⟨hend hs, hend ht⟩

/-- Where all ends can be looked up, only a message that cannot be written keeps a sketch from
being reported on. -/
theorem Searchable.validate_eq (h : s.Searchable) : s.validate =
    if s.messages.all Message.isWritable then .ok s.violations
    else .error (.faulty .unwritable) := by
  refine Eq.trans (Message.writeAll_parts (fun _ _ => rfl) (fun e he => ?_) s.entryViolations)
    (Message.writeAll_eq s.messages)
  obtain ⟨hs, ht⟩ := h e.1 (List.fst_mem_of_mem_zipIdx he)
  exact reportEdge_eq hs ht

/-- When a sketch is reported on, and what is reported then. -/
theorem validate_eq_ok_iff {said : List String} : s.validate = .ok said ↔
    s.Searchable ∧ (∀ m ∈ s.messages, m.isWritable = true) ∧ s.violations = said := by
  have hall : (∀ m ∈ s.messages, m.isWritable = true) ↔
      s.messages.all Message.isWritable = true := List.all_eq_true.symm
  constructor
  · intro h
    have hsearch : s.Searchable := by
      obtain ⟨_, -, h⟩ := bind_eq_ok.1 h
      obtain ⟨_, hedges, -⟩ := bind_eq_ok.1 h
      intro e he
      obtain ⟨i, hi, rfl⟩ := List.getElem_of_mem he
      have hmem : (s.edges[i], i) ∈ s.edges.zipIdx :=
        List.mem_zipIdx_iff_getElem?.2 (List.getElem?_eq_getElem hi)
      obtain ⟨_, hreport⟩ := exists_ok_of_mapM hedges _ hmem
      exact isKey_of_reportEdge hreport
    rw [hsearch.validate_eq] at h
    split at h
    next hw => exact ⟨hsearch, hall.2 hw, Except.ok.inj h⟩
    next => cases h
  · rintro ⟨hsearch, hw, rfl⟩
    rw [hsearch.validate_eq, if_pos (hall.1 hw)]

/-- What is accepted breaks no rule, and what breaks none has no message to be written. -/
theorem validate_eq_nil_iff : s.validate = .ok [] ↔ s.Searchable ∧ s.violations = [] := by
  rw [validate_eq_ok_iff]
  refine and_congr_right fun _ => and_iff_right_of_imp fun h m hm => ?_
  rw [List.map_eq_nil_iff.1 h] at hm
  cases hm

end Sketch

/-! ## Graphs -/

namespace Graph

variable {g : Graph}

theorem searchable (g : Graph) : g.sketch.Searchable := by
  refine Sketch.searchable_of_texts fun e he => ?_
  obtain ⟨t, -, rfl⟩ := List.mem_map.1 he
  exact ⟨t.source, t.target, rfl, rfl⟩

theorem validate_eq_nil_iff : g.validate = .ok [] ↔ g.violations = [] :=
  Sketch.validate_eq_nil_iff.trans (and_iff_right g.searchable)

end Graph

end Workflow
