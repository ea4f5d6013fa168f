import Workflow.Proofs.Graph.Completeness
import Workflow.Proofs.Value.Document

/-!
# What is reported of a sketch

A sketch whose transitions lead from and to texts is reported on, element by element, as long
as the messages can be written.  Each message shows keys, identifiers, kinds, durations and
ends of the sketch and no other values, so integers of too many digits among these are all
that can keep a sketch from being reported on.  A message that cannot be written is only
there where a rule is broken: what is sound is always accepted.

    what a message shows is shown of the sketch     (Breach.isWritable)
    the answer, and when there is one               (validate_decides)
    two ways to miss the mark                       (overlong_not_reported)
-/

namespace Workflow

namespace Value

variable {v : Value} {ms : Config}

/-- What can be written has entries that can be. -/
theorem isWritable_of_entries (h : v.entries? = some ms) (hv : v.isWritable = true) :
    ∀ e ∈ ms, e.2.isWritable = true := by
  cases v with
  | object ms' =>
    obtain rfl := Option.some.inj h
    exact (membersWritable_iff ms').1 hv
  | numbered key w =>
    obtain rfl := Option.some.inj h
    intro e he
    rw [List.mem_singleton.1 he]
    exact (Bool.and_eq_true_iff.1 hv).2
  | null | bool | int | float | text | list | foreign => cases h

/-- What can be written has keys that can be. -/
theorem isWritable_keyMessage (hv : v.isWritable = true) (key : String) :
    (v.keyMessage key).isWritable = true := by
  cases v with
  | numbered n w =>
    rw [keyMessage, Message.isWritable_message]
    exact (Bool.and_eq_true_iff.1 hv).1
  | null | bool | int | float | text | list | object | foreign => rfl

end Value

namespace Sketch

/-! ## Values that are shown -/

/-- What is shown of a sketch can be written. -/
structure Writable (s : Sketch) : Prop where
  keys : ∀ e ∈ s.nodes, e.1.isWritable = true
  ids : ∀ e ∈ s.nodes, e.2.id.isWritable = true
  kinds : ∀ e ∈ s.nodes, e.2.kind.isWritable = true
  configs : ∀ e ∈ s.nodes, e.2.config.isWritable = true
  ends : ∀ e ∈ s.edges, e.source.isWritable = true ∧ e.target.isWritable = true

variable {s : Sketch} {m : Message}

theorem ArmBreach.isWritable {id : Message} {earlier : List Value} {arm : Value} {r : ArmRule}
    (hid : id.isWritable = true) (h : ArmBreach id earlier arm r m) : m.isWritable = true := by
  cases h with
  | object | label | distinct | weight => simp [hid]

theorem SettingBreach.isWritable {id : Message} {shownKey : String → Message} {config : Config}
    {kind : NodeKind} {r : SettingRule} (hid : id.isWritable = true)
    (hkeys : ∀ key, (shownKey key).isWritable = true)
    (hvalues : ∀ e ∈ config, e.2.isWritable = true)
    (h : SettingBreach id shownKey config kind r m) : m.isWritable = true := by
  cases h with
  | actionKind | expr | duration | editorLabel | label | arms => simp [hid]
  | parameter => simp [hid, hkeys]
  | sign hn =>
    have hint := hvalues _ (Assoc.mem_of_find? hn)
    simp [hid, hint]
  | arm _ _ h => exact h.isWritable hid

/-- A message shows nothing but what is shown of the sketch. -/
theorem Breach.isWritable (h : s.Writable) {r : Rule} (hb : s.Breach r m) :
    m.isWritable = true := by
  cases hb with
  | @node place key n rule m hn hb =>
    have hmem := List.mem_of_getElem? hn
    have hkey : key.isWritable = true := h.keys _ hmem
    have hid : n.id.isWritable = true := h.ids _ hmem
    have hkind : n.kind.isWritable = true := h.kinds _ hmem
    cases hb with
    | identified => simp [hkey]
    | filed => simp [hkey, hid]
    | kind => simp [hid, hkind]
    | object => simp [hid]
    | setting _ hc hb =>
      have hconfig := h.configs _ hmem
      exact hb.isWritable (by simp [hid]) (Value.isWritable_keyMessage hconfig)
        (Value.isWritable_of_entries hc hconfig)
  | edge he hb =>
    obtain ⟨hsource, htarget⟩ := h.ends _ (List.mem_of_getElem? he)
    cases hb with
    | source => simp [hsource]
    | target => simp [htarget]
    | condition => simp
  | entry => rfl

theorem Writable.messages (h : s.Writable) : s.messages.all Message.isWritable = true := by
  obtain ⟨found, hsaid, -, hfound⟩ := tells_messages s
  rw [List.all_eq_true, ← hsaid]
  intro m hm
  obtain ⟨⟨r, m⟩, hp, rfl⟩ := List.mem_map.1 hm
  exact ((hfound r m).1 hp).1.isWritable h

/-! ## Verdicts -/

/-- Every sketch whose transitions lead from and to texts is reported on, if what is shown of it
can be written.  It is accepted just if it is sound; else each step and each transition that is
not sound is named, and no other.  A message that cannot be written ends the report. -/
theorem validate_decides (s : Sketch)
    (h : ∀ e ∈ s.edges, ∃ source target, e.source = .text source ∧ e.target = .text target) :
    ∃ nodes edges whole, Report s nodes edges whole ∧
      (s.validate = if (nodes.flatten ++ edges.flatten ++ whole).all Message.isWritable then
        .ok ((nodes.flatten ++ edges.flatten ++ whole).map Message.text)
        else .error (.faulty .unwritable)) ∧
      (s.Writable → s.validate = .ok ((nodes.flatten ++ edges.flatten ++ whole).map Message.text)) ∧
      (s.validate = .ok [] ↔ s.Sound) := by
  have hsearch := searchable_of_texts h
  have heq := hsearch.validate_eq
  refine ⟨_, _, _, report_violations s, ?_, fun hs => ?_, ?_⟩
  · rw [← List.flatMap_def, ← List.flatMap_def]
    exact heq
  · rw [← List.flatMap_def, ← List.flatMap_def]
    exact heq.trans (if_pos hs.messages)
  · rw [validate_eq_nil_iff, and_iff_right hsearch, violations_eq_nil_iff]

/-- A split whose arms share a label, with a transition to a step that is not there. -/
def sharedLabel : Sketch where
  nodes := [(.text "s", ⟨.text "s", .text "split", .text "", .object [("label", .text "test"),
    ("arms", .list [.object [("label", .text "a")],
      .object [("label", .text "a"), ("weight", .bool true)]])]⟩)]
  edges := [⟨.text "s", .text "t", .null⟩]

theorem validate_decides_sharedLabel :
    (∀ e ∈ sharedLabel.edges, ∃ source target, e.source = .text source ∧ e.target = .text target) ∧
    (∃ nodes edges whole, Report sharedLabel nodes edges whole ∧
      (sharedLabel.validate =
        if (nodes.flatten ++ edges.flatten ++ whole).all Message.isWritable then
          .ok ((nodes.flatten ++ edges.flatten ++ whole).map Message.text)
        else .error (.faulty .unwritable)) ∧
      (sharedLabel.Writable →
        sharedLabel.validate = .ok ((nodes.flatten ++ edges.flatten ++ whole).map Message.text)) ∧
      (sharedLabel.validate = .ok [] ↔ sharedLabel.Sound)) ∧
    sharedLabel.Writable ∧
    sharedLabel.validate = .ok ["Split node 's' has duplicate arm label 'a'",
      "Split node 's' arm 1 requires a positive 'weight'",
      "Edge 0: target node 't' not found"] := by
  have hedges : ∀ e ∈ sharedLabel.edges, ∃ source target,
      e.source = .text source ∧ e.target = .text target := by
    intro e he
    rw [List.mem_singleton.1 he]
    exact ⟨"s", "t", rfl, rfl⟩
  have hwritable : sharedLabel.Writable :=
    ⟨by decide, by decide, by decide, by decide, by decide⟩
  exact ⟨hedges, validate_decides sharedLabel hedges, hwritable, by decide⟩

/-- A delay, and a split with one arm, of the given duration and weight. -/
def measured (duration weight : Value) : Sketch where
  nodes := [
    (.text "d", ⟨.text "d", .text "delay", .text "", .object [("duration_ms", duration)]⟩),
    (.text "s", ⟨.text "s", .text "split", .text "", .object [("label", .text "test"),
      ("arms", .list [.object [("label", .text "a"), ("weight", weight)]])]⟩)]
  edges := []

/-- A negative duration of too many digits is not reported: the message cannot be written, so
nothing is.  A weight that is not a number is accepted, though it is not greater than zero. -/
theorem overlong_not_reported :
    (measured (.int (-(10 ^ 4300))) (.int 1)).validate = .error (.faulty .unwritable) ∧
    (measured (.int 0) (.float .nan)).validate = .ok [] := by
  decide +kernel

end Sketch

end Workflow
