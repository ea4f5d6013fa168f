import Mathlib.Data.List.Forall2
import Mathlib.Data.List.Nodup
import Workflow.Proofs.Graph.Rules
import Workflow.Proofs.Graph.Writing
import Workflow.Proofs.Value.Json

/-!
# Which graphs are accepted, and what is said of the others

The rules for steps, transitions and the whole are stated here on their own, without
the messages.  Each rule is broken just when its messages are there, and the messages
about an element name it.  The labels of the arms of a split are looked at one by one,
with the labels of earlier arms beside them; what that scan decides is that they are
pairwise distinct.

    a is an arm with a new label ↔ nothing is said of it     (armViolations_eq_iff)
    said of a step = [] ↔ the step is sound                  (nodeViolations_eq_nil_iff)
    said of a transition = [] ↔ it is sound                  (edgeViolations_eq_nil_iff)
    nothing is said of a sketch ↔ each element is sound      (violations_eq_nil_iff)
-/

namespace Workflow

/-! ## Values in settings -/

namespace Value

/-- A text with a character that is not white space. -/
def Filled (v : Option Value) : Prop :=
  ∃ s : String, v = some (.text s) ∧ ∃ c ∈ s.toList, Text.isBlankChar c = false

theorem isBlank_eq_false_iff {s : String} :
    Text.isBlank s = false ↔ ∃ c ∈ s.toList, Text.isBlankChar c = false := by
  unfold Text.isBlank
  exact List.all_eq_false.trans (by simp)

theorem isFilled_iff {v : Option Value} : isFilled v = true ↔ Filled v := by
  unfold isFilled Filled
  split
  next s => simp [isBlank_eq_false_iff]
  next h =>
    refine iff_of_false Bool.false_ne_true ?_
    rintro ⟨s, rfl, -⟩
    exact h s rfl

end Value

theorem Number.atMostZero_eq_false_iff {n : Number} :
    n.atMostZero = false ↔ n.isNaN = true ∨ 0 < n.ratio.1 := by
  cases n with
  | int n => simp [atMostZero, isNaN, ratio]
  | float x =>
    have hsize : 0 < x.ratio.1 ↔ x.isZero = false := by
      unfold Binary64.ratio Binary64.isZero
      by_cases he : 0 ≤ x.exponent
      · have hpow : Nat.pow 2 x.exponent.toNat ≠ 0 := Nat.ne_of_gt (Nat.pow_pos Nat.two_pos)
        rw [if_pos he, Nat.pos_iff_ne_zero, Nat.mul_ne_zero_iff, and_iff_left hpow]
        simp
      · rw [if_neg he, Nat.pos_iff_ne_zero]
        simp
    unfold atMostZero isNaN ratio Binary64.atMostZero
    cases hn : x.negative with
    | true =>
      have hneg : ¬ (x.ratio.1 : Int) < 0 := Int.not_lt.2 (Int.natCast_nonneg _)
      simp [hn, hneg]
    | false => simp [hn, ← hsize, or_iff_not_imp_left]

namespace Sketch

/-! ## Sound elements -/

structure ActionSound (config : Config) : Prop where
  kind : Value.Filled (Assoc.find? "action_kind" config)
  documents : ∀ e ∈ config, e.2.IsJson

structure DelaySound (config : Config) : Prop where
  duration : ∃ ms : Nat, Assoc.find? "duration_ms" config = some (.int ms)
  unlabelled : "duration" ∉ Assoc.keys config

/-- A number that is not zero or less, as a positive one is not, nor one that is not a number. -/
def IsWeight (w : Value) : Prop :=
  ∃ n, w.number? = some n ∧ (n.isNaN = true ∨ 0 < n.ratio.1)

/-- A mapping with a label that is not blank and, if it has one, a weight. -/
def IsArm (arm : Value) (label : String) : Prop :=
  ∃ ms, arm.entries? = some ms ∧
    Assoc.find? "label" ms = some (.text label) ∧ Text.isBlank label = false ∧
    ∀ w, Assoc.find? "weight" ms = some w → IsWeight w

/-- There are no arms, or a list of arms with pairwise distinct labels. -/
inductive ArmsSound : Option Value → Prop where
  | missing : ArmsSound none
  | null : ArmsSound (some .null)
  | list {arms : List Value} {labels : List String} (harms : List.Forall₂ IsArm arms labels)
    (hlabels : labels.Nodup) : ArmsSound (some (.list arms))

structure SplitSound (config : Config) : Prop where
  label : Value.Filled (Assoc.find? "label" config)
  arms : ArmsSound (Assoc.find? "arms" config)

def SettingsSound : NodeKind → Config → Prop
  | .action, config => ActionSound config
  | .condition, config => Value.Filled (Assoc.find? "expr" config)
  | .delay, config => DelaySound config
  | .split, config => SplitSound config

structure NodeSound (key : Value) (n : SketchNode) : Prop where
  filed : key.equals n.id = true
  identified : n.id.isTruthy = true
  settings : ∃ kind config, n.kind = .text (Named.name (α := NodeKind) kind) ∧
    n.config.entries? = some config ∧ SettingsSound kind config

structure EdgeSound (keys : List Value) (e : SketchEdge) : Prop where
  source : ∃ key ∈ keys, key.same e.source = true
  target : ∃ key ∈ keys, key.same e.target = true
  condition : e.condition = .null ∨ Value.Filled (some e.condition)

/-- There is no step at all, or one that no transition leads to. -/
def HasEntry (s : Sketch) : Prop :=
  s.nodes = [] ∨ ∃ key ∈ s.keys, ∀ e ∈ s.edges, key.same e.target = false

structure Sound (s : Sketch) : Prop where
  nodes : ∀ e ∈ s.nodes, NodeSound e.1 e.2
  edges : ∀ e ∈ s.edges, EdgeSound s.keys e
  entry : s.HasEntry

/-! ## Rules for settings -/

theorem isWeight_iff {w : Option Value} :
    isWeight w = true ↔ ∀ v, w = some v → IsWeight v := by
  unfold isWeight IsWeight
  cases w with
  | none => simp
  | some v => cases hv : v.number? <;> simp [hv, Number.atMostZero_eq_false_iff]

theorem actionViolations_eq_nil_iff {id : Message} {shownKey : String → Message}
    {config : Config} : actionViolations id shownKey config = [] ↔ ActionSound config := by
  have hvalues : (∀ e ∈ config, e.2.IsJson) ↔ ∀ e ∈ config, e.2.isDocument = true :=
    forall₂_congr fun e _ => e.2.isDocument_iff.symm
  constructor
  · intro h
    obtain ⟨hk, hv⟩ := List.append_eq_nil_iff.1 h
    refine ⟨Value.isFilled_iff.1 ?_, hvalues.2 ?_⟩
    · by_cases hf : Value.isFilled (Assoc.find? "action_kind" config) = true
      · exact hf
      · simp [hf] at hk
    · simpa using hv
  · rintro ⟨hk, hv⟩
    unfold actionViolations
    rw [if_pos (Value.isFilled_iff.2 hk), List.nil_append, List.map_eq_nil_iff]
    simpa using hvalues.1 hv

theorem conditionViolations_eq_nil_iff {id : Message} {config : Config} :
    conditionViolations id config = [] ↔ Value.Filled (Assoc.find? "expr" config) := by
  rw [← Value.isFilled_iff]
  exact ⟨conditionViolations_eq_nil, fun h => if_pos h⟩

theorem delayViolations_eq_nil_iff {id : Message} {config : Config} :
    delayViolations id config = [] ↔ DelaySound config := by
  constructor
  · intro h
    obtain ⟨hd, hl⟩ := delayViolations_eq_nil h
    exact ⟨hd, Assoc.find?_eq_none_iff.1 hl⟩
  · rintro ⟨⟨ms, hd⟩, hl⟩
    have hneg : ¬ (ms : Int) < 0 := by omega
    unfold delayViolations Assoc.contains
    rw [hd, Assoc.find?_eq_none_iff.2 hl]
    simp [hneg]

/-- Nothing is said of an arm, whose label is then remembered, just if it is an arm with a
label that no earlier one has. -/
theorem armViolations_eq_iff {id : Message} {index : Nat} {seen seen' : List String} {arm : Value} :
    armViolations id index seen arm = ([], seen') ↔
      ∃ label, IsArm arm label ∧ label ∉ seen ∧ label :: seen = seen' := by
  unfold armViolations IsArm
  cases he : arm.entries? with
  | none => simp
  | some ms =>
    simp only [Option.some.injEq, exists_eq_left', ← isWeight_iff]
    split
    next s hl =>
      simp only [hl, Option.some.injEq, Value.text.injEq, and_assoc, exists_eq_left']
      by_cases hb : Text.isBlank s = true
      · simp [hb]
      · by_cases hs : s ∈ seen
        · simp [hb, hs]
        · simp [hb, hs]
    next hl =>
      refine iff_of_false (by simp) ?_
      rintro ⟨label, ⟨h, -⟩, -⟩
      exact hl label h

/-- What the scan decides, with the labels in `seen` taken. -/
theorem armsViolations_eq_nil_iff {id : Message} {index : Nat} {seen : List String}
    {arms : List Value} :
    armsViolations id index seen arms = [] ↔
      ∃ labels, List.Forall₂ IsArm arms labels ∧ labels.Nodup ∧ ∀ l ∈ labels, l ∉ seen := by
  induction arms generalizing index seen with
  | nil => simp [armsViolations]
  | cons arm rest ih =>
    cases ha : armViolations id index seen arm with
    | mk said seen' =>
    rw [armsViolations, ha]
    dsimp only
    rw [List.append_eq_nil_iff]
    constructor
    · rintro ⟨rfl, hrest⟩
      obtain ⟨label, harm, hnew, rfl⟩ := armViolations_eq_iff.1 ha
      obtain ⟨labels, harms, hnodup, hnot⟩ := ih.1 hrest
      refine ⟨label :: labels, .cons harm harms, List.nodup_cons.2 ⟨?_, hnodup⟩, ?_⟩
      · exact fun hl => hnot label hl List.mem_cons_self
      · rw [List.forall_mem_cons]
        exact ⟨hnew, fun l hl hs => hnot l hl (List.mem_cons_of_mem _ hs)⟩
    · rintro ⟨_, hall, hnodup, hnot⟩
      cases hall with
      | cons harm harms =>
      obtain ⟨hlabel, hnodup⟩ := List.nodup_cons.1 hnodup
      obtain ⟨hnew, hnot⟩ := List.forall_mem_cons.1 hnot
      obtain ⟨rfl, rfl⟩ := Prod.mk.inj (ha.symm.trans (armViolations_eq_iff.2 ⟨_, harm, hnew, rfl⟩))
      refine ⟨rfl, ih.2 ⟨_, harms, hnodup, fun l hl hs => ?_⟩⟩
      rcases List.mem_cons.1 hs with rfl | hs
      · exact hlabel hl
      · exact hnot l hl hs

theorem splitViolations_eq_nil_iff {id : Message} {config : Config} :
    splitViolations id config = [] ↔ SplitSound config := by
  have hrule : (Value.Filled (Assoc.find? "label" config) ∧ ArmsSound (Assoc.find? "arms" config)) ↔
      SplitSound config := ⟨fun ⟨hl, ha⟩ => ⟨hl, ha⟩, fun ⟨hl, ha⟩ => ⟨hl, ha⟩⟩
  unfold splitViolations
  rw [List.append_eq_nil_iff, ← hrule, ← Value.isFilled_iff]
  refine and_congr (by simp) ?_
  split
  next h =>
    rw [h]
    exact iff_of_true rfl .missing
  next h =>
    rw [h]
    exact iff_of_true rfl .null
  next arms h =>
    rw [h, armsViolations_eq_nil_iff]
    constructor
    · rintro ⟨labels, harms, hnodup, -⟩
      exact .list harms hnodup
    · intro ha
      cases ha with
      | list harms hnodup => exact ⟨_, harms, hnodup, fun _ _ => List.not_mem_nil⟩
  next v hnull hlist h =>
    rw [h]
    refine iff_of_false (by simp) ?_
    intro ha
    cases ha with
    | null => exact hnull rfl
    | list => exact hlist _ rfl

theorem configViolations_eq_nil_iff {kind : NodeKind} {id : Message}
    {shownKey : String → Message} {config : Config} :
    configViolations kind id shownKey config = [] ↔ SettingsSound kind config := by
  cases kind with
  | action => exact actionViolations_eq_nil_iff
  | condition => exact conditionViolations_eq_nil_iff
  | delay => exact delayViolations_eq_nil_iff
  | split => exact splitViolations_eq_nil_iff

/-! ## Rules for steps, transitions and the whole -/

theorem keyViolations_eq_nil_iff {key id : Value} :
    keyViolations key id = [] ↔ key.equals id = true ∧ id.isTruthy = true := by
  unfold keyViolations
  by_cases hid : id.isTruthy = true
  · simp [hid]
  · simp [hid]

theorem nodeViolations_eq_nil_iff {key : Value} {n : SketchNode} :
    nodeViolations key n = [] ↔ NodeSound key n := by
  have hrule : ((key.equals n.id = true ∧ n.id.isTruthy = true) ∧
      ∃ kind config, n.kind = .text (Named.name (α := NodeKind) kind) ∧
        n.config.entries? = some config ∧ SettingsSound kind config) ↔ NodeSound key n :=
    ⟨fun ⟨⟨hf, hi⟩, hs⟩ => ⟨hf, hi, hs⟩, fun ⟨hf, hi, hs⟩ => ⟨⟨hf, hi⟩, hs⟩⟩
  unfold nodeViolations
  rw [List.append_eq_nil_iff, keyViolations_eq_nil_iff, ← hrule]
  refine and_congr_right fun _ => ?_
  split
  next hk =>
    refine iff_of_false (by simp) ?_
    rintro ⟨kind, config, hname, -⟩
    rw [hname, Named.ofValue?_name_nodeKind] at hk
    cases hk
  next kind hk =>
    obtain hname := Named.ofValue?_eq_some hk
    split
    next hc =>
      refine iff_of_false (by simp) ?_
      rintro ⟨-, config, -, hconfig, -⟩
      cases hc.symm.trans hconfig
    next config hc =>
      rw [configViolations_eq_nil_iff]
      constructor
      · exact fun hs => ⟨kind, config, hname, hc, hs⟩
      · rintro ⟨kind', config', hname', hconfig, hs⟩
        rw [hname', Named.ofValue?_name_nodeKind] at hk
        obtain rfl := Option.some.inj hk
        obtain rfl := Option.some.inj (hc.symm.trans hconfig)
        exact hs

theorem edgeViolations_eq_nil_iff {keys : List Value} {index : Nat} {e : SketchEdge} :
    edgeViolations keys index e = [] ↔ EdgeSound keys e := by
  constructor
  · intro h
    obtain ⟨hs, ht, hc⟩ := edgeViolations_eq_nil h
    exact ⟨List.any_eq_true.1 hs, List.any_eq_true.1 ht, hc.imp_right Value.isFilled_iff.1⟩
  · rintro ⟨hs, ht, hc⟩
    unfold edgeViolations
    rw [endViolations_eq_nil_iff.2 (List.any_eq_true.2 hs),
      endViolations_eq_nil_iff.2 (List.any_eq_true.2 ht),
      guardViolations_eq_nil_iff.2 (hc.imp_right Value.isFilled_iff.2)]
    rfl

theorem entryPoints_ne_nil_iff {s : Sketch} :
    s.entryPoints ≠ [] ↔ ∃ key ∈ s.keys, ∀ e ∈ s.edges, key.same e.target = false := by
  unfold entryPoints
  rw [Ne, List.filter_eq_nil_iff]
  simp

/-! ## Who is named -/

/-- The message holds a part in quotes. -/
def Quotes (m part : Message) : Prop :=
  ∃ before after : String, m.text = before ++ "'" ++ part.text ++ "'" ++ after

theorem quotes_mk (before : String) (part : Message) (after : String) :
    Quotes (before ++ "'" ++ part ++ ("'" ++ after)) part :=
  ⟨before, after, String.append_assoc.symm⟩

theorem Quotes.append {m part : Message} (h : Quotes m part) (rest : Message) :
    Quotes (m ++ rest) part := by
  obtain ⟨before, after, hm⟩ := h
  refine ⟨before, after ++ rest.text, ?_⟩
  show m.text ++ rest.text = _
  rw [hm, String.append_assoc]

variable {id : Message} {shownKey : String → Message} {config : Config}

theorem quotes_of_mem_actionViolations {m : Message} (hm : m ∈ actionViolations id shownKey config) :
    Quotes m id := by
  rcases List.mem_append.1 hm with hm | hm
  · simp only [List.mem_ite_nil_left, List.mem_singleton] at hm
    rw [hm.2]
    exact quotes_mk "Action node " id " requires a non-empty 'action_kind'"
  · obtain ⟨e, -, rfl⟩ := List.mem_map.1 hm
    exact ((quotes_mk "Action node " id " parameter '").append (shownKey e.1)).append _

theorem quotes_of_mem_conditionViolations {m : Message} (hm : m ∈ conditionViolations id config) :
    Quotes m id := by
  simp only [conditionViolations, List.mem_ite_nil_left, List.mem_singleton] at hm
  rw [hm.2]
  exact quotes_mk "Condition node " id " requires a non-empty 'expr'"

theorem quotes_of_mem_delayViolations {m : Message} (hm : m ∈ delayViolations id config) :
    Quotes m id := by
  unfold delayViolations at hm
  split at hm
  next n _ =>
    split at hm
    · rw [List.mem_singleton.1 hm]
      exact ((quotes_mk "Delay node " id " has negative 'duration_ms' (").append _).append ")"
    · simp only [List.mem_ite_nil_right, List.mem_singleton] at hm
      rw [hm.2]
      exact quotes_mk "Delay node " id " config must not contain 'duration', the editor label key"
  · rw [List.mem_singleton.1 hm]
    exact quotes_mk "Delay node " id " requires an integer 'duration_ms'"

/-- Whatever is said of an arm names its split. -/
theorem quotes_of_mem_armViolations {index : Nat} {seen : List String} {arm : Value} {m : Message}
    (hm : m ∈ (armViolations id index seen arm).1) : Quotes m id := by
  have harm (rest : String) :
      Quotes ("Split node '" ++ id ++ "' arm " ++ Nat.repr index ++ rest) id :=
    ((quotes_mk "Split node " id " arm ").append _).append rest
  have hweight {w : Option Value} (h : m ∈ if isWeight w then [] else
      ["Split node '" ++ id ++ "' arm " ++ Nat.repr index ++ " requires a positive 'weight'"]) :
      Quotes m id := by
    simp only [List.mem_ite_nil_left, List.mem_singleton] at h
    rw [h.2]
    exact harm _
  unfold armViolations at hm
  cases he : arm.entries? with
  | none =>
    simp only [he, List.mem_singleton] at hm
    rw [hm]
    exact harm _
  | some ms =>
    simp only [he] at hm
    split at hm
    · split at hm
      · rcases List.mem_cons.1 hm with rfl | hm
        · exact harm _
        · exact hweight hm
      · split at hm
        · rcases List.mem_cons.1 hm with rfl | hm
          · exact ((quotes_mk "Split node " id " has duplicate arm label '").append _).append "'"
          · exact hweight hm
        · exact hweight hm
    · rcases List.mem_cons.1 hm with rfl | hm
      · exact harm _
      · exact hweight hm

theorem quotes_of_mem_armsViolations {index : Nat} {seen : List String} {arms : List Value}
    {m : Message} (hm : m ∈ armsViolations id index seen arms) : Quotes m id := by
  induction arms generalizing index seen with
  | nil => cases hm
  | cons arm rest ih =>
    rcases List.mem_append.1 hm with hm | hm
    · exact quotes_of_mem_armViolations hm
    · exact ih hm

theorem quotes_of_mem_splitViolations {m : Message} (hm : m ∈ splitViolations id config) :
    Quotes m id := by
  rcases List.mem_append.1 hm with hm | hm
  · simp only [List.mem_ite_nil_left, List.mem_singleton] at hm
    rw [hm.2]
    exact quotes_mk "Split node " id " requires a non-empty 'label'"
  · split at hm
    · cases hm
    · cases hm
    · exact quotes_of_mem_armsViolations hm
    · rw [List.mem_singleton.1 hm]
      exact quotes_mk "Split node " id " 'arms' must be a list"

/-- Whatever is said of settings names the step that has them. -/
theorem quotes_of_mem_configViolations {kind : NodeKind} {m : Message}
    (hm : m ∈ configViolations kind id shownKey config) : Quotes m id := by
  cases kind with
  | action => exact quotes_of_mem_actionViolations hm
  | condition => exact quotes_of_mem_conditionViolations hm
  | delay => exact quotes_of_mem_delayViolations hm
  | split => exact quotes_of_mem_splitViolations hm

/-- Whatever is said of a step names its key or its identifier. -/
theorem quotes_of_mem_nodeViolations {key : Value} {n : SketchNode} {m : Message}
    (hm : m ∈ nodeViolations key n) : Quotes m key.message ∨ Quotes m n.id.message := by
  rcases List.mem_append.1 hm with hm | hm
  · unfold keyViolations at hm
    split at hm
    · rw [List.mem_singleton.1 hm]
      exact .inl (quotes_mk "Node under key " _ " has an empty id")
    · simp only [List.mem_ite_nil_right, List.mem_singleton] at hm
      rw [hm.2]
      exact .inl (((quotes_mk "Node key " _ " does not match node id '").append _).append
        "' (duplicate node id)")
  · right
    split at hm
    · rw [List.mem_singleton.1 hm]
      exact ((quotes_mk "Node " _ " has unknown type '").append _).append "'"
    · split at hm
      · rw [List.mem_singleton.1 hm]
        exact quotes_mk "Node " _ " config must be an object"
      · exact quotes_of_mem_configViolations hm

/-- Whatever is said of a transition starts with its place. -/
theorem edge_of_mem_edgeViolations {keys : List Value} {index : Nat} {e : SketchEdge} {m : Message}
    (hm : m ∈ edgeViolations keys index e) :
    ∃ rest, m.text = "Edge " ++ Nat.repr index ++ ": " ++ rest := by
  have hend {part : String} {v : Value} (hm : m ∈ endViolations keys index part v) :
      ∃ rest, m.text = "Edge " ++ Nat.repr index ++ ": " ++ rest := by
    simp only [endViolations, List.mem_ite_nil_left, List.mem_singleton] at hm
    refine ⟨part ++ (" node '" ++ (v.bare ++ "' not found")), ?_⟩
    rw [hm.2]
    show "Edge " ++ Nat.repr index ++ ": " ++ part ++ " node '" ++ v.bare ++ "' not found" = _
    simp only [String.append_assoc]
  rcases List.mem_append.1 hm with hm | hm
  · rcases List.mem_append.1 hm with hm | hm
    · exact hend hm
    · exact hend hm
  · simp only [guardViolations, List.mem_ite_nil_left, List.mem_singleton] at hm
    refine ⟨"condition must be a non-empty string or null", ?_⟩
    rw [hm.2]
    show "Edge " ++ Nat.repr index ++ (": " ++ "condition must be a non-empty string or null") = _
    rw [String.append_assoc, String.append_assoc, String.append_assoc]

/-! ## Verdicts -/

/-- What is said of an element: nothing if it is sound, else messages that name it. -/
structure Blames (sound : Prop) (names : Message → Prop) (said : List Message) : Prop where
  nil_iff : said = [] ↔ sound
  named : ∀ m ∈ said, names m

/-- The message that a graph cannot be entered. -/
def noEntry : String := "Graph has no entry point (every node has an incoming edge)"

/-- What is said of the steps in turn, then of the transitions in turn, then of the whole. -/
structure Report (s : Sketch) (nodes edges : List (List Message)) (whole : List Message) :
    Prop where
  nodes : List.Forall₂
    (fun e => Blames (NodeSound e.1 e.2) fun m => Quotes m e.1.message ∨ Quotes m e.2.id.message)
    s.nodes nodes
  edges : List.Forall₂
    (fun e => Blames (EdgeSound s.keys e.1) fun m =>
      ∃ rest, m.text = "Edge " ++ Nat.repr e.2 ++ ": " ++ rest)
    s.edges.zipIdx edges
  whole : s.HasEntry ∧ whole = [] ∨ ¬ s.HasEntry ∧ whole = [(noEntry : Message)]

theorem entryViolations_cases (s : Sketch) :
    s.HasEntry ∧ s.entryViolations = [] ∨
      ¬ s.HasEntry ∧ s.entryViolations = [(noEntry : Message)] := by
  have hentry : s.HasEntry ↔ (s.nodes.isEmpty || !s.entryPoints.isEmpty) = true := by
    unfold HasEntry
    rw [← entryPoints_ne_nil_iff]
    simp
  unfold entryViolations
  by_cases h : s.HasEntry
  · exact .inl ⟨h, if_pos (hentry.1 h)⟩
  · exact .inr ⟨h, if_neg fun he => h (hentry.2 he)⟩

/-- What a sketch breaks is a report on it. -/
theorem report_violations (s : Sketch) :
    Report s (s.nodes.map fun (key, n) => nodeViolations key n)
      (s.edges.zipIdx.map fun (e, index) => edgeViolations s.keys index e) s.entryViolations where
  nodes := by
    rw [List.forall₂_map_right_iff]
    refine List.forall₂_same.2 fun e _ => ?_
    exact ⟨nodeViolations_eq_nil_iff, fun m => quotes_of_mem_nodeViolations⟩
  edges := by
    rw [List.forall₂_map_right_iff]
    refine List.forall₂_same.2 fun e _ => ?_
    exact ⟨edgeViolations_eq_nil_iff, fun m => edge_of_mem_edgeViolations⟩
  whole := entryViolations_cases s

theorem flatten_eq_nil_iff_of_blames {α : Type} {sound : α → Prop} {names : α → Message → Prop}
    {elements : List α} {said : List (List Message)}
    (h : List.Forall₂ (fun e => Blames (sound e) (names e)) elements said) :
    said.flatten = [] ↔ ∀ e ∈ elements, sound e := by
  induction h with
  | nil => simp
  | cons hfirst _ ih =>
    rw [List.flatten_cons, List.append_eq_nil_iff, hfirst.nil_iff, ih, List.forall_mem_cons]

/-- A report that says nothing is one on a sound sketch. -/
theorem Report.nil_iff {s : Sketch} {nodes edges : List (List Message)} {whole : List Message}
    (h : Report s nodes edges whole) :
    nodes.flatten ++ edges.flatten ++ whole = [] ↔ s.Sound := by
  have hedges : (∀ e ∈ s.edges.zipIdx, EdgeSound s.keys e.1) ↔ ∀ e ∈ s.edges, EdgeSound s.keys e := by
    rw [← List.forall_mem_map (f := Prod.fst), List.zipIdx_map_fst]
  have hwhole : whole = [] ↔ s.HasEntry := by
    rcases h.whole with ⟨he, rfl⟩ | ⟨he, rfl⟩
    · exact iff_of_true rfl he
    · exact iff_of_false (by simp) he
  rw [List.append_eq_nil_iff, List.append_eq_nil_iff, flatten_eq_nil_iff_of_blames h.nodes,
    flatten_eq_nil_iff_of_blames h.edges, hedges, hwhole]
  exact ⟨fun ⟨⟨hn, he⟩, hw⟩ => ⟨hn, he, hw⟩, fun ⟨hn, he, hw⟩ => ⟨⟨hn, he⟩, hw⟩⟩

/-- No rule is broken just if each element is sound. -/
theorem violations_eq_nil_iff {s : Sketch} : s.violations = [] ↔ s.Sound := by
  rw [← (report_violations s).nil_iff, ← List.flatMap_def, ← List.flatMap_def]
  exact List.map_eq_nil_iff

end Sketch

end Workflow
