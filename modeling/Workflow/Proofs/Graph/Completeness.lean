import Workflow.Proofs.Graph.Breach

/-!
# Every broken rule is told of, but for two

The rules for steps, for transitions and for the whole, each with the message that tells of
it.  A sketch that can be looked through is answered with one message for each rule that it
breaks, but for two that stand behind another rule: the editor label of a delay, while its
duration is no natural number, and the key of a step, while the identifier is empty.  A
repair of all that is told of is therefore accepted just if it mends the hidden rules too.

    s is sound ↔ s breaks no rule                              (sound_iff)
    said of s tells the broken rules that are not hidden       (tells_messages)  
    the same of the answer, and when a repair is accepted      (validate_tells)
    a delay with a label and no duration is repaired in vain   (repaired_in_vain)
-/

namespace Workflow.Sketch

/-! ## Rules for steps, transitions and the whole -/

inductive NodeRule where
  | identified
  | filed
  | kind
  | object
  | setting (rule : SettingRule)
  deriving DecidableEq, Repr

inductive EdgeRule where
  | source
  | target
  | condition
  deriving DecidableEq, Repr

/-- The rules for how a step is filed, and not for what it is. -/
def NodeRule.OfKey : NodeRule → Prop
  | .identified | .filed => True
  | .kind | .object | .setting _ => False

/-- Steps and transitions are known by their places. -/
inductive Rule where
  | node (place : Nat) (rule : NodeRule)
  | edge (place : Nat) (rule : EdgeRule)
  | entry
  deriving DecidableEq, Repr

/-- What is wrong with a step that is filed under `key`. -/
inductive NodeBreach (key : Value) (n : SketchNode) : NodeRule → Message → Prop
  | identified (h : n.id.isTruthy = false) :
    NodeBreach key n .identified ("Node under key '" ++ key.message ++ "' has an empty id")
  | filed (h : key.equals n.id = false) :
    NodeBreach key n .filed
      ("Node key '" ++ key.message ++ "' does not match node id '" ++ n.id.message ++
        "' (duplicate node id)")
  | kind (h : ∀ kind : NodeKind, n.kind ≠ .text (Named.name kind)) :
    NodeBreach key n .kind ("Node '" ++ n.id.message ++ "' has unknown type '" ++ n.kind.message ++ "'")
  | object {kind : NodeKind} (hk : n.kind = .text (Named.name kind))
    (h : n.config.entries? = none) :
    NodeBreach key n .object ("Node '" ++ n.id.message ++ "' config must be an object")
  | setting {kind : NodeKind} {config : Config} {rule : SettingRule} {m : Message}
    (hk : n.kind = .text (Named.name kind)) (hc : n.config.entries? = some config)
    (h : SettingBreach n.id.message n.config.keyMessage config kind rule m) :
    NodeBreach key n (.setting rule) m

/-- What is wrong with the transition at a place. -/
inductive EdgeBreach (keys : List Value) (place : Nat) (e : SketchEdge) : EdgeRule → Message → Prop
  | source (h : ¬ ∃ key ∈ keys, key.same e.source = true) :
    EdgeBreach keys place e .source
      ("Edge " ++ Nat.repr place ++ ": " ++ "source" ++ " node '" ++ e.source.message ++ "' not found")
  | target (h : ¬ ∃ key ∈ keys, key.same e.target = true) :
    EdgeBreach keys place e .target
      ("Edge " ++ Nat.repr place ++ ": " ++ "target" ++ " node '" ++ e.target.message ++ "' not found")
  | condition (h : ¬ (e.condition = .null ∨ Value.Filled (some e.condition))) :
    EdgeBreach keys place e .condition
      ("Edge " ++ Nat.repr place ++ ": condition must be a non-empty string or null")

/-- What is wrong with a sketch. -/
inductive Breach (s : Sketch) : Rule → Message → Prop
  | node {place : Nat} {key : Value} {n : SketchNode} {rule : NodeRule} {m : Message}
    (hn : s.nodes[place]? = some (key, n)) (h : NodeBreach key n rule m) :
    Breach s (.node place rule) m
  | edge {place : Nat} {e : SketchEdge} {rule : EdgeRule} {m : Message}
    (he : s.edges[place]? = some e) (h : EdgeBreach s.keys place e rule m) :
    Breach s (.edge place rule) m
  | entry (h : ¬ s.HasEntry) : Breach s .entry noEntry

def Broken (s : Sketch) (r : Rule) : Prop := ∃ m, s.Breach r m

/-- The key of a step is not compared with an empty identifier. -/
inductive NodeHidden (n : SketchNode) : NodeRule → Prop
  | filed (h : n.id.isTruthy = false) : NodeHidden n .filed
  | setting {kind : NodeKind} {config : Config} {rule : SettingRule}
    (hk : n.kind = .text (Named.name kind)) (hc : n.config.entries? = some config)
    (h : SettingHidden config kind rule) : NodeHidden n (.setting rule)

/-- The rules that a sketch is not told of, whether it breaks them or not. -/
inductive Hidden (s : Sketch) : Rule → Prop
  | node {place : Nat} {key : Value} {n : SketchNode} {rule : NodeRule}
    (hn : s.nodes[place]? = some (key, n)) (h : NodeHidden n rule) : Hidden s (.node place rule)

/-! ## What is told of steps and transitions -/

variable {s : Sketch} {key : Value} {n : SketchNode} {kind kind' : NodeKind}

theorem kind_unique (h : n.kind = .text (Named.name kind))
    (h' : n.kind = .text (Named.name kind')) : kind = kind' := by
  have hread : Named.ofValue? (α := NodeKind) n.kind = some kind := by
    rw [h, Named.ofValue?_name_nodeKind]
  rw [h', Named.ofValue?_name_nodeKind] at hread
  exact (Option.some.inj hread).symm

theorem tells_keyViolations :
    Tells (keyViolations key n.id) fun r m =>
      r.OfKey ∧ NodeBreach key n r m ∧ ¬ NodeHidden n r := by
  unfold keyViolations
  cases hid : n.id.isTruthy with
  | false =>
    refine (Tells.one NodeRule.identified _).congr fun r m => ⟨?_, ?_⟩
    · rintro ⟨rfl, rfl⟩
      exact ⟨trivial, .identified hid, nofun⟩
    · rintro ⟨hr, h, hhidden⟩
      cases h with
      | identified => exact ⟨rfl, rfl⟩
      | filed => exact absurd (.filed hid) hhidden
      | kind | object | setting => exact False.elim hr
  | true =>
    refine (Tells.flag _ NodeRule.filed _).congr fun r m => ⟨?_, ?_⟩
    · rintro ⟨h, rfl, rfl⟩
      refine ⟨trivial, .filed (by simpa using h), ?_⟩
      rintro ⟨hempty⟩
      cases hid.symm.trans hempty
    · rintro ⟨hr, h, -⟩
      cases h with
      | identified hempty => cases hid.symm.trans hempty
      | filed h => exact ⟨by simpa using h, rfl, rfl⟩
      | kind | object | setting => exact False.elim hr

/-- What is told of a kind that is unknown; which rules there are for settings is then unknown
as well. -/
theorem tells_unknown (hunknown : ∀ kind : NodeKind, n.kind ≠ .text (Named.name kind)) :
    Tells ["Node '" ++ n.id.message ++ "' has unknown type '" ++ n.kind.message ++ "'"] fun r m =>
      ¬ r.OfKey ∧ NodeBreach key n r m ∧ ¬ NodeHidden n r := by
  refine (Tells.one NodeRule.kind _).congr fun r m => ⟨?_, ?_⟩
  · rintro ⟨rfl, rfl⟩
    exact ⟨not_false, .kind hunknown, nofun⟩
  · rintro ⟨hr, h, -⟩
    cases h with
    | identified | filed => exact absurd trivial hr
    | kind => exact ⟨rfl, rfl⟩
    | object hk | setting hk => exact absurd hk (hunknown _)

/-- What is told of settings that are no mapping. -/
theorem tells_shapeless (hk : n.kind = .text (Named.name kind)) (hc : n.config.entries? = none) :
    Tells ["Node '" ++ n.id.message ++ "' config must be an object"] fun r m =>
      ¬ r.OfKey ∧ NodeBreach key n r m ∧ ¬ NodeHidden n r := by
  refine (Tells.one NodeRule.object _).congr fun r m => ⟨?_, ?_⟩
  · rintro ⟨rfl, rfl⟩
    exact ⟨not_false, .object hk hc, nofun⟩
  · rintro ⟨hr, h, -⟩
    cases h with
    | identified | filed => exact absurd trivial hr
    | kind h => exact absurd hk (h kind)
    | object => exact ⟨rfl, rfl⟩
    | setting _ hc' => cases hc.symm.trans hc'

theorem tells_settings {config : Config} (hk : n.kind = .text (Named.name kind))
    (hc : n.config.entries? = some config) :
    Tells (configViolations kind n.id.message n.config.keyMessage config) fun r m =>
      ¬ r.OfKey ∧ NodeBreach key n r m ∧ ¬ NodeHidden n r := by
  refine (tells_configViolations.map fun _ _ => NodeRule.setting.inj).congr fun r m => ⟨?_, ?_⟩
  · rintro ⟨rule, rfl, h, hhidden⟩
    refine ⟨not_false, .setting hk hc h, ?_⟩
    rintro (_ | ⟨hk', hc', h'⟩)
    obtain rfl := kind_unique hk hk'
    obtain rfl := Option.some.inj (hc.symm.trans hc')
    exact hhidden h'
  · rintro ⟨hr, h, hhidden⟩
    cases h with
    | identified | filed => exact absurd trivial hr
    | kind h => exact absurd hk (h kind)
    | object _ hc' => cases hc.symm.trans hc'
    | setting hk' hc' h =>
      obtain rfl := kind_unique hk hk'
      obtain rfl := Option.some.inj (hc.symm.trans hc')
      exact ⟨_, rfl, h, fun h' => hhidden (.setting hk hc h')⟩

theorem tells_nodeViolations :
    Tells (nodeViolations key n) fun r m => NodeBreach key n r m ∧ ¬ NodeHidden n r := by
  have hwhole {said : List Message} (h : Tells said fun r m =>
      ¬ r.OfKey ∧ NodeBreach key n r m ∧ ¬ NodeHidden n r) :
      Tells (keyViolations key n.id ++ said) fun r m =>
        NodeBreach key n r m ∧ ¬ NodeHidden n r := by
    refine (tells_keyViolations.append h fun r m m' h h' => h'.1 h.1).congr fun r m => ?_
    rw [← or_and_right, and_iff_right (Classical.em _)]
  unfold nodeViolations
  refine hwhole ?_
  split
  next hread =>
    refine tells_unknown fun kind hk => ?_
    rw [hk, Named.ofValue?_name_nodeKind] at hread
    cases hread
  next kind hread =>
    have hk : n.kind = .text (Named.name kind) := Named.ofValue?_eq_some hread
    split
    next hc => exact tells_shapeless hk hc
    next config hc => exact tells_settings hk hc

theorem tells_edgeViolations {keys : List Value} {place : Nat} {e : SketchEdge} :
    Tells (edgeViolations keys place e) (EdgeBreach keys place e) := by
  have hsource := Tells.check (keys.any_eq_true (p := (·.same e.source))) EdgeRule.source
    ("Edge " ++ Nat.repr place ++ ": " ++ "source" ++ " node '" ++ e.source.message ++ "' not found")
  have htarget := Tells.check (keys.any_eq_true (p := (·.same e.target))) EdgeRule.target
    ("Edge " ++ Nat.repr place ++ ": " ++ "target" ++ " node '" ++ e.target.message ++ "' not found")
  have hcondition := Tells.check
    (or_congr_right (a := e.condition = .null) (Value.isFilled_iff (v := some e.condition)))
    EdgeRule.condition
    ("Edge " ++ Nat.repr place ++ ": condition must be a non-empty string or null")
  refine ((hsource.append htarget ?_).append hcondition ?_).congr fun r m => ⟨?_, ?_⟩
  · rintro _ m m' ⟨-, rfl, -⟩ ⟨-, hr, -⟩
    cases hr
  · rintro _ m m' (⟨-, rfl, -⟩ | ⟨-, rfl, -⟩) ⟨-, hr, -⟩
    · cases hr
    · cases hr
  · rintro ((⟨h, rfl, rfl⟩ | ⟨h, rfl, rfl⟩) | ⟨h, rfl, rfl⟩)
    · exact .source h
    · exact .target h
    · exact .condition h
  · intro h
    cases h with
    | source h => exact .inl (.inl ⟨h, rfl, rfl⟩)
    | target h => exact .inl (.inr ⟨h, rfl, rfl⟩)
    | condition h => exact .inr ⟨h, rfl, rfl⟩

/-! ## What is told of a sketch -/

theorem tells_entryViolations (s : Sketch) :
    Tells s.entryViolations fun r m => ¬ s.HasEntry ∧ r = Rule.entry ∧ m = noEntry := by
  rcases entryViolations_cases s with ⟨h, hsaid⟩ | ⟨h, hsaid⟩
  · rw [hsaid]
    exact .nothing fun r m hr => hr.1 h
  · rw [hsaid]
    exact (Tells.one Rule.entry noEntry).congr fun r m => (and_iff_right h).symm

/-- All that is said of a sketch tells of broken rules, and of each that is not hidden. -/
theorem tells_messages (s : Sketch) :
    Tells s.messages fun r m => s.Breach r m ∧ ¬ s.Hidden r := by
  have hnode : (fun p : Nat × NodeRule => Rule.node p.1 p.2).Injective := fun p q h =>
    Prod.ext (Rule.node.inj h).1 (Rule.node.inj h).2
  have hedge : (fun p : Nat × EdgeRule => Rule.edge p.1 p.2).Injective := fun p q h =>
    Prod.ext (Rule.edge.inj h).1 (Rule.edge.inj h).2
  have hnodes := (Tells.flatMap (l := s.nodes) (f := fun e => nodeViolations e.1 e.2)
    fun e _ => tells_nodeViolations).map hnode
  have hedges := (Tells.flatMap (l := s.edges.zipIdx) (f := fun e => edgeViolations s.keys e.2 e.1)
    fun e _ => tells_edgeViolations).map hedge
  refine ((hnodes.append hedges ?_).append (tells_entryViolations s) ?_).congr fun r m => ⟨?_, ?_⟩
  · rintro _ m m' ⟨p, rfl, -⟩ ⟨q, hq, -⟩
    cases hq
  · rintro _ m m' (⟨p, rfl, -⟩ | ⟨p, rfl, -⟩) ⟨-, hr, -⟩
    · cases hr
    · cases hr
  · rintro ((⟨⟨place, rule⟩, rfl, ⟨key, n⟩, hn, h, hhidden⟩ | ⟨⟨place, rule⟩, rfl, ⟨e, i⟩, he, h⟩) |
      ⟨h, rfl, rfl⟩)
    · refine ⟨.node hn h, ?_⟩
      rintro ⟨hn', h'⟩
      obtain ⟨rfl, rfl⟩ := Prod.mk.inj (Option.some.inj (hn.symm.trans hn'))
      exact hhidden h'
    · rw [List.getElem?_zipIdx] at he
      obtain ⟨_, he', heq⟩ := Option.map_eq_some_iff.1 he
      obtain ⟨rfl, rfl⟩ := Prod.mk.inj heq
      rw [Nat.zero_add] at h
      exact ⟨.edge he' h, nofun⟩
    · exact ⟨.entry h, nofun⟩
  · rintro ⟨h, hhidden⟩
    cases h with
    | node hn h => exact .inl (.inl ⟨(_, _), rfl, _, hn, h, fun h' => hhidden (.node hn h')⟩)
    | @edge place e rule m he h =>
      refine .inl (.inr ⟨(place, rule), rfl, (e, place), ?_, h⟩)
      rw [List.getElem?_zipIdx, he, Nat.zero_add]
      rfl
    | entry h => exact .inr ⟨h, rfl, rfl⟩

/-- A rule stays hidden only while another one is broken and told of. -/
theorem exists_told {r : Rule} (h : s.Hidden r) : ∃ r', s.Broken r' ∧ ¬ s.Hidden r' := by
  obtain ⟨hn, h⟩ := h
  have hplace {place : Nat} {rule : NodeRule} (hrule : ∀ n, ¬ NodeHidden n rule) :
      ¬ s.Hidden (.node place rule) := by
    rintro ⟨-, h⟩
    exact hrule _ h
  cases h with
  | filed hid => exact ⟨_, ⟨_, .node hn (.identified hid)⟩, hplace nofun⟩
  | @setting kind config rule hk hc h =>
    obtain ⟨hnat⟩ := h
    have hsetting {rule : SettingRule} (hrule : ∀ config kind, ¬ SettingHidden config kind rule)
        (n : SketchNode) : ¬ NodeHidden n (.setting rule) := by
      rintro (_ | ⟨-, -, h⟩)
      exact hrule _ _ h
    by_cases hint : ∃ ms : Int, Assoc.find? "duration_ms" config = some (.int ms)
    · obtain ⟨ms, hms⟩ := hint
      have hsign : ms < 0 := by
        by_contra hpos
        refine hnat ms.toNat (hms.trans ?_)
        rw [Int.toNat_of_nonneg (Int.not_lt.1 hpos)]
      exact ⟨_, ⟨_, .node hn (.setting hk hc (.sign hms hsign))⟩, hplace (hsetting nofun)⟩
    · have hmissing (ms : Int) : Assoc.find? "duration_ms" config ≠ some (.int ms) :=
        fun hms => hint ⟨ms, hms⟩
      exact ⟨_, ⟨_, .node hn (.setting hk hc (.duration hmissing))⟩, hplace (hsetting nofun)⟩

/-- A sketch is sound just if it breaks no rule. -/
theorem sound_iff {s : Sketch} : s.Sound ↔ ∀ r, ¬ s.Broken r := by
  rw [← violations_eq_nil_iff, violations, List.map_eq_nil_iff, (tells_messages s).eq_nil_iff]
  constructor
  · rintro h r ⟨m, hm⟩
    by_cases hhidden : s.Hidden r
    · obtain ⟨r', ⟨m', hm'⟩, htold⟩ := exists_told hhidden
      exact h r' m' ⟨hm', htold⟩
    · exact h r m ⟨hm, hhidden⟩
  · intro h r m hm
    exact h r ⟨m, hm.1⟩

/-! ## Repairs -/

/-- Mends every broken rule of a sketch that is told of, and breaks no other. -/
structure Repair (s s' : Sketch) : Prop where
  searchable : s'.Searchable
  kept : ∀ r, s'.Broken r → s.Broken r
  mended : ∀ r, s.Broken r → ¬ s.Hidden r → ¬ s'.Broken r

theorem Repair.accepted_iff {s' : Sketch} (h : Repair s s') :
    s'.validate = .ok [] ↔ ∀ r, s.Hidden r → ¬ s'.Broken r := by
  rw [validate_eq_nil_iff, and_iff_right h.searchable, violations_eq_nil_iff, sound_iff]
  refine ⟨fun hs r _ => hs r, fun hhidden r hr => ?_⟩
  by_cases hs : s.Hidden r
  · exact hhidden r hs hr
  · exact h.mended r (h.kept r hr) hs hr

/-- A sketch that can be looked through is answered with a message for each rule that it breaks
and that is not hidden, and with no other; if one of these shows a value that cannot be written,
there is no answer.  A repair of what is told is accepted just if it mends the hidden rules as
well. -/
theorem validate_tells (s : Sketch) (h : s.Searchable) :
    ∃ told, Tells told (fun r m => s.Breach r m ∧ ¬ s.Hidden r) ∧
      s.validate = (if told.all Message.isWritable then .ok (told.map Message.text)
        else .error (.faulty .unwritable)) ∧
      ∀ s', Repair s s' → (s'.validate = .ok [] ↔ ∀ r, s.Hidden r → ¬ s'.Broken r) := by
  refine ⟨s.messages, tells_messages s, h.validate_eq, ?_⟩
  intro s' hs
  exact hs.accepted_iff

/-- An action, a delay and a split that break every rule of theirs that can be broken at once. -/
def crowded : Sketch where
  nodes := [
    (.text "mail", ⟨.text "mail", .text "action", .text "",
      .object [("to", .foreign), ("cc", .list [.foreign])]⟩),
    (.text "wait", ⟨.text "wait", .text "delay", .text "",
      .object [("duration_ms", .int (-5)), ("duration", .text "1 days")]⟩),
    (.text "test", ⟨.text "test", .text "split", .text "",
      .object [("label", .text " "), ("arms", .list [
        .object [("label", .text "A"), ("weight", .int 0)],
        .object [("label", .text "A"), ("weight", .bool true)],
        .object [("label", .int 1)], .null])]⟩)]
  edges := [⟨.text "mail", .int 7, .text ""⟩]

theorem validate_tells_crowded :
    crowded.Searchable ∧
    (∃ told, Tells told (fun r m => crowded.Breach r m ∧ ¬ crowded.Hidden r) ∧
      crowded.validate = (if told.all Message.isWritable then .ok (told.map Message.text)
        else .error (.faulty .unwritable)) ∧
      ∀ s', Repair crowded s' → (s'.validate = .ok [] ↔ ∀ r, crowded.Hidden r → ¬ s'.Broken r)) ∧
    crowded.validate = .ok [
      "Action node 'mail' requires a non-empty 'action_kind'",
      "Action node 'mail' parameter 'to' is not JSON-compatible",
      "Action node 'mail' parameter 'cc' is not JSON-compatible",
      "Delay node 'wait' has negative 'duration_ms' (-5)",
      "Split node 'test' requires a non-empty 'label'",
      "Split node 'test' arm 0 requires a positive 'weight'",
      "Split node 'test' has duplicate arm label 'A'",
      "Split node 'test' arm 1 requires a positive 'weight'",
      "Split node 'test' arm 2 requires a non-empty 'label'",
      "Split node 'test' arm 3 must be an object",
      "Edge 0: target node '7' not found",
      "Edge 0: condition must be a non-empty string or null"] := by
  have hsearch : crowded.Searchable := by
    intro e he
    rw [List.mem_singleton.1 he]
    decide
  exact ⟨hsearch, validate_tells crowded hsearch, by decide +kernel⟩

/-- A delay with an editor label beside its other settings. -/
def waiting (settings : Config) : Sketch where
  nodes := [(.text "wait", ⟨.text "wait", .text "delay", .text "",
    .object (("duration", .text "1 days") :: settings)⟩)]
  edges := []

/-- A delay with a label and no duration is told of the duration alone.  With the duration
added it is refused again, for the label. -/
theorem repaired_in_vain :
    (waiting []).validate = .ok ["Delay node 'wait' requires an integer 'duration_ms'"] ∧
    (∃ m, (waiting []).Breach (.node 0 (.setting .editorLabel)) m ∧
      m.text = "Delay node 'wait' config must not contain 'duration', the editor label key") ∧
    Repair (waiting []) (waiting [("duration_ms", .int 86400000)]) ∧
    (waiting [("duration_ms", .int 86400000)]).validate =
      .ok ["Delay node 'wait' config must not contain 'duration', the editor label key"] := by
  have hkind : Value.text "delay" = .text (Named.name NodeKind.delay) := rfl
  have hlabel : (waiting []).Breach (.node 0 (.setting .editorLabel)) _ :=
    .node rfl (.setting hkind rfl (.editorLabel List.mem_cons_self))
  have hhidden : (waiting []).Hidden (.node 0 (.setting .editorLabel)) :=
    .node rfl (.setting hkind rfl (.editorLabel nofun))
  have honly (r : Rule) (h : (waiting [("duration_ms", .int 86400000)]).Broken r) :
      r = .node 0 (.setting .editorLabel) := by
    obtain ⟨m, hm⟩ := h
    cases hm with
    | edge he => cases he
    | entry h => exact absurd (.inr ⟨.text "wait", List.mem_singleton_self _, nofun⟩) h
    | @node place key n rule m hn h =>
      cases place with
      | succ place => cases hn
      | zero =>
        obtain ⟨rfl, rfl⟩ := Prod.mk.inj (Option.some.inj hn)
        cases h with
        | identified h | filed h => exact absurd h (by decide)
        | kind h => exact absurd rfl (h .delay)
        | object _ h => cases h
        | setting hk hc h =>
          obtain rfl := kind_unique hkind hk
          obtain rfl := Option.some.inj hc
          cases h with
          | duration h => exact absurd rfl (h 86400000)
          | sign hn h =>
            obtain rfl := Value.int.inj (Option.some.inj hn)
            exact absurd h (by decide)
          | editorLabel => rfl
  refine ⟨by decide, ⟨_, hlabel, rfl⟩, ⟨nofun, fun r hr => ?_, fun r _ htold hr => ?_⟩, by decide⟩
  · exact honly r hr ▸ ⟨_, hlabel⟩
  · exact htold (honly r hr ▸ hhidden)

end Workflow.Sketch
