import Mathlib.Data.List.Nodup
import Workflow.Proofs.Graph.Verdict

/-!
# Broken rules, one by one

Each rule that the settings of a step can break, with the message that tells of it.  Whether
a rule is broken does not depend on the other rules.  A parameter, an arm, a step and a
transition is known by its place, so that rules about equal ones are different rules.

All that is said of settings tells of broken rules, each once and with a message of its own.
One rule can be broken and not be told of: the editor label of a delay whose duration is no
natural number.

    said of settings tells the broken rules that are not hidden   (tells_configViolations)
-/

namespace Workflow

/-! ## Messages of their own -/

variable {ρ σ α : Type} {B C : ρ → Message → Prop} {said rest : List Message}

/-- Each broken rule is told of once, with its message, and nothing else is told. -/
def Tells (said : List Message) (broken : ρ → Message → Prop) : Prop :=
  ∃ found : List (ρ × Message), found.map Prod.snd = said ∧ (found.map Prod.fst).Nodup ∧
    ∀ r m, (r, m) ∈ found ↔ broken r m

namespace Tells

theorem congr (h : Tells said B) (hiff : ∀ r m, B r m ↔ C r m) : Tells said C := by
  obtain ⟨found, hsaid, hrules, hmem⟩ := h
  exact ⟨found, hsaid, hrules, fun r m => (hmem r m).trans (hiff r m)⟩

theorem nothing (h : ∀ r m, ¬ B r m) : Tells [] B :=
  ⟨[], rfl, List.nodup_nil, fun r m => iff_of_false List.not_mem_nil (h r m)⟩

theorem one (r : ρ) (m : Message) : Tells [m] fun r' m' => r' = r ∧ m' = m :=
  ⟨[(r, m)], rfl, List.nodup_singleton r, by simp⟩

theorem flag (c : Prop) [Decidable c] (r : ρ) (m : Message) :
    Tells (if c then [m] else []) fun r' m' => c ∧ r' = r ∧ m' = m := by
  by_cases hc : c
  · rw [if_pos hc]
    exact (one r m).congr fun r' m' => (and_iff_right hc).symm
  · rw [if_neg hc]
    exact nothing fun r m h => hc h.1

theorem check {c sound : Prop} [Decidable c] (h : c ↔ sound) (r : ρ) (m : Message) :
    Tells (if c then [] else [m]) fun r' m' => ¬ sound ∧ r' = r ∧ m' = m := by
  rw [← ite_not, ← h]
  exact flag (¬ c) r m

theorem append (hB : Tells said B) (hC : Tells rest C) (hapart : ∀ r m m', B r m → ¬ C r m') :
    Tells (said ++ rest) fun r m => B r m ∨ C r m := by
  obtain ⟨found, rfl, hrules, hmem⟩ := hB
  obtain ⟨found', rfl, hrules', hmem'⟩ := hC
  refine ⟨found ++ found', List.map_append, ?_, fun r m => ?_⟩
  · rw [List.map_append]
    refine hrules.append hrules' fun r hr hr' => ?_
    obtain ⟨⟨_, m⟩, hm, rfl⟩ := List.mem_map.1 hr
    obtain ⟨⟨r, m'⟩, hm', rfl⟩ := List.mem_map.1 hr'
    exact hapart r m m' ((hmem r m).1 hm) ((hmem' r m').1 hm')
  · rw [List.mem_append, hmem, hmem']

/-- The rules of a part are rules of the whole. -/
theorem map {f : ρ → σ} (hf : f.Injective) (h : Tells said B) :
    Tells said fun r m => ∃ r', f r' = r ∧ B r' m := by
  obtain ⟨found, rfl, hrules, hmem⟩ := h
  refine ⟨found.map (Prod.map f id), ?_, ?_, fun r m => ?_⟩
  · rw [List.map_map]
    rfl
  · rw [List.map_map, show Prod.fst ∘ Prod.map f (id : Message → Message) = f ∘ Prod.fst from rfl,
      ← List.map_map]
    exact hrules.map hf
  · rw [List.mem_map]
    constructor
    · rintro ⟨⟨r', m'⟩, hm, heq⟩
      obtain ⟨rfl, rfl⟩ := Prod.mk.inj heq
      exact ⟨r', rfl, (hmem r' m').1 hm⟩
    · rintro ⟨r', rfl, hb⟩
      exact ⟨(r', m), (hmem r' m).2 hb, rfl⟩

/-- What is told of the first element, and then of the others. -/
theorem cons {B : Nat → ρ → Message → Prop} (hfirst : Tells said (B 0))
    (hrest : Tells rest fun (p : Nat × ρ) m => B (p.1 + 1) p.2 m) :
    Tells (said ++ rest) fun (p : Nat × ρ) m => B p.1 p.2 m := by
  have hhead : (fun r : ρ => (0, r)).Injective := fun _ _ h => (Prod.mk.inj h).2
  have htail : (fun p : Nat × ρ => (p.1 + 1, p.2)).Injective := by
    rintro ⟨i, r⟩ ⟨j, r'⟩ h
    obtain ⟨hi, hr⟩ := Prod.mk.inj h
    exact Prod.ext (Nat.succ.inj hi) hr
  refine ((hfirst.map hhead).append (hrest.map htail) ?_).congr ?_
  · rintro _ m m' ⟨r, rfl, -⟩ ⟨p, hp, -⟩
    cases hp
  · rintro ⟨i, r⟩ m
    cases i with
    | zero => simp
    | succ i => simp

/-- What is told of each element by its place. -/
theorem flatMap {l : List α} {f : α → List Message} {B : α → ρ → Message → Prop}
    (h : ∀ a ∈ l, Tells (f a) (B a)) :
    Tells (l.flatMap f) fun (p : Nat × ρ) m => ∃ a, l[p.1]? = some a ∧ B a p.2 m := by
  induction l with
  | nil => exact nothing fun p m hp => by simp at hp
  | cons a l ih =>
    obtain ⟨ha, hl⟩ := List.forall_mem_cons.1 h
    rw [List.flatMap_cons]
    refine cons (B := fun i r m => ∃ a', (a :: l)[i]? = some a' ∧ B a' r m) ?_ (ih hl)
    exact ha.congr fun r m => by simp

/-- What is told of the elements that are picked. -/
theorem map_filter (l : List α) (p : α → Bool) (f : α → Message) :
    Tells ((l.filter p).map f) fun (i : Nat) m => ∃ a, l[i]? = some a ∧ p a = true ∧ m = f a := by
  have hsaid : (l.filter p).map f = l.flatMap fun a => if p a = true then [f a] else [] := by
    induction l with
    | nil => rfl
    | cons a l ih =>
      rw [List.flatMap_cons, ← ih]
      by_cases ha : p a = true
      · simp [ha]
      · simp [ha]
  rw [hsaid]
  have hplace : (Prod.fst : Nat × Unit → Nat).Injective := fun p q h => Prod.ext h rfl
  exact ((flatMap fun a _ => flag (p a = true) () (f a)).map hplace).congr fun i m => by simp

/-- Nothing is said just if there is nothing to tell. -/
theorem eq_nil_iff (h : Tells said B) : said = [] ↔ ∀ r m, ¬ B r m := by
  obtain ⟨found, rfl, -, hmem⟩ := h
  rw [List.map_eq_nil_iff, List.eq_nil_iff_forall_not_mem]
  exact ⟨fun h r m hb => h (r, m) ((hmem r m).2 hb), fun h p hp => h p.1 p.2 ((hmem p.1 p.2).1 hp)⟩

end Tells

namespace Sketch

/-! ## Rules for settings -/

inductive ArmRule where
  | object
  | label
  | distinct
  | weight
  deriving DecidableEq, Repr

/-- The rules for settings, of which a kind of steps has its own. -/
inductive SettingRule where
  | actionKind
  | parameter (place : Nat)
  | expr
  | duration
  | sign
  | editorLabel
  | label
  | arms
  | arm (place : Nat) (rule : ArmRule)
  deriving DecidableEq, Repr

/-- An arm that has this label, which is not blank. -/
def Labelled (arm : Value) (label : String) : Prop :=
  ∃ ms, arm.entries? = some ms ∧ Assoc.find? "label" ms = some (.text label) ∧
    Text.isBlank label = false

/-- What is wrong with an arm of the split `id`, which stands after the `earlier` ones. -/
inductive ArmBreach (id : Message) (earlier : List Value) (arm : Value) :
    ArmRule → Message → Prop
  | object (h : arm.entries? = none) :
    ArmBreach id earlier arm .object
      ("Split node '" ++ id ++ "' arm " ++ Nat.repr earlier.length ++ " must be an object")
  | label {ms : Config} (hms : arm.entries? = some ms)
    (h : ¬ Value.Filled (Assoc.find? "label" ms)) :
    ArmBreach id earlier arm .label
      ("Split node '" ++ id ++ "' arm " ++ Nat.repr earlier.length ++
        " requires a non-empty 'label'")
  | distinct {label : String} (hlabel : Labelled arm label) (h : ∃ a ∈ earlier, Labelled a label) :
    ArmBreach id earlier arm .distinct
      ("Split node '" ++ id ++ "' has duplicate arm label '" ++ label ++ "'")
  | weight {ms : Config} {w : Value} (hms : arm.entries? = some ms)
    (hw : Assoc.find? "weight" ms = some w) (h : ¬ IsWeight w) :
    ArmBreach id earlier arm .weight
      ("Split node '" ++ id ++ "' arm " ++ Nat.repr earlier.length ++
        " requires a positive 'weight'")

/-- What is wrong with the settings of the step `id`. -/
inductive SettingBreach (id : Message) (shownKey : String → Message) (config : Config) :
    NodeKind → SettingRule → Message → Prop
  | actionKind (h : ¬ Value.Filled (Assoc.find? "action_kind" config)) :
    SettingBreach id shownKey config .action .actionKind
      ("Action node '" ++ id ++ "' requires a non-empty 'action_kind'")
  | parameter {place : Nat} {key : String} {v : Value} (hv : config[place]? = some (key, v))
    (h : ¬ v.IsJson) :
    SettingBreach id shownKey config .action (.parameter place)
      ("Action node '" ++ id ++ "' parameter '" ++ shownKey key ++ "' is not JSON-compatible")
  | expr (h : ¬ Value.Filled (Assoc.find? "expr" config)) :
    SettingBreach id shownKey config .condition .expr
      ("Condition node '" ++ id ++ "' requires a non-empty 'expr'")
  | duration (h : ∀ n, Assoc.find? "duration_ms" config ≠ some (.int n)) :
    SettingBreach id shownKey config .delay .duration
      ("Delay node '" ++ id ++ "' requires an integer 'duration_ms'")
  | sign {n : Int} (hn : Assoc.find? "duration_ms" config = some (.int n)) (h : n < 0) :
    SettingBreach id shownKey config .delay .sign
      ("Delay node '" ++ id ++ "' has negative 'duration_ms' (" ++ (Value.int n).message ++ ")")
  | editorLabel (h : "duration" ∈ Assoc.keys config) :
    SettingBreach id shownKey config .delay .editorLabel
      ("Delay node '" ++ id ++ "' config must not contain 'duration', the editor label key")
  | label (h : ¬ Value.Filled (Assoc.find? "label" config)) :
    SettingBreach id shownKey config .split .label
      ("Split node '" ++ id ++ "' requires a non-empty 'label'")
  | arms {v : Value} (hv : Assoc.find? "arms" config = some v) (hnull : v ≠ .null)
    (h : ∀ arms, v ≠ .list arms) :
    SettingBreach id shownKey config .split .arms ("Split node '" ++ id ++ "' 'arms' must be a list")
  | arm {arms : List Value} {place : Nat} {a : Value} {rule : ArmRule} {m : Message}
    (harms : Assoc.find? "arms" config = some (.list arms)) (ha : arms[place]? = some a)
    (h : ArmBreach id (arms.take place) a rule m) :
    SettingBreach id shownKey config .split (.arm place rule) m

/-- The label of a delay is not looked at before its duration is a natural number. -/
inductive SettingHidden (config : Config) : NodeKind → SettingRule → Prop
  | editorLabel (h : ∀ ms : Nat, Assoc.find? "duration_ms" config ≠ some (.int ms)) :
    SettingHidden config .delay .editorLabel

/-! ## What is told of settings -/

variable {id : Message} {shownKey : String → Message} {config : Config}

theorem tells_actionViolations :
    Tells (actionViolations id shownKey config) (SettingBreach id shownKey config .action) := by
  have hkind := Tells.check (Value.isFilled_iff (v := Assoc.find? "action_kind" config))
    SettingRule.actionKind ("Action node '" ++ id ++ "' requires a non-empty 'action_kind'")
  have hparameters := (Tells.map_filter config (!·.2.isDocument) fun e =>
    "Action node '" ++ id ++ "' parameter '" ++ shownKey e.1 ++ "' is not JSON-compatible").map
      (f := SettingRule.parameter) fun _ _ => SettingRule.parameter.inj
  refine (hkind.append hparameters ?_).congr fun r m => ⟨?_, ?_⟩
  · rintro _ m m' ⟨-, rfl, -⟩ ⟨place, hplace, -⟩
    cases hplace
  · rintro (⟨h, rfl, rfl⟩ | ⟨place, rfl, ⟨key, v⟩, hv, hjson, rfl⟩)
    · exact .actionKind h
    · refine .parameter hv fun hdoc => ?_
      simp [v.isDocument_iff.2 hdoc] at hjson
  · intro h
    cases h with
    | actionKind h => exact .inl ⟨h, rfl, rfl⟩
    | @parameter place key v hv h =>
      refine .inr ⟨place, rfl, (key, v), hv, ?_, rfl⟩
      simpa [← v.isDocument_iff] using h

theorem tells_conditionViolations :
    Tells (conditionViolations id config) (SettingBreach id shownKey config .condition) := by
  refine (Tells.check Value.isFilled_iff SettingRule.expr _).congr fun r m => ⟨?_, ?_⟩
  · rintro ⟨h, rfl, rfl⟩
    exact .expr h
  · intro h
    cases h with
    | expr h => exact ⟨h, rfl, rfl⟩

/-- The first broken rule of a delay is told of, and no other. -/
theorem tells_delayViolations :
    Tells (delayViolations id config) fun r m =>
      SettingBreach id shownKey config .delay r m ∧ ¬ SettingHidden config .delay r := by
  unfold delayViolations
  split
  next n hn =>
    have honly {n' : Int} (hn' : Assoc.find? "duration_ms" config = some (.int n')) : n = n' :=
      Value.int.inj (Option.some.inj (hn.symm.trans hn'))
    by_cases hsign : n < 0
    · rw [if_pos hsign]
      refine (Tells.one SettingRule.sign _).congr fun r m => ⟨?_, ?_⟩
      · rintro ⟨rfl, rfl⟩
        exact ⟨.sign hn hsign, nofun⟩
      · rintro ⟨h, hhidden⟩
        cases h with
        | duration h => exact absurd hn (h n)
        | sign hn' h =>
          obtain rfl := honly hn'
          exact ⟨rfl, rfl⟩
        | editorLabel h =>
          refine absurd (.editorLabel fun ms hms => ?_) hhidden
          have := honly hms
          omega
    · -- The duration is a natural number here, so the label is looked at.
      rw [if_neg hsign]
      refine (Tells.flag _ SettingRule.editorLabel _).congr fun r m => ?_
      rw [Assoc.contains_iff]
      constructor
      · rintro ⟨h, rfl, rfl⟩
        refine ⟨.editorLabel h, ?_⟩
        rintro ⟨hnat⟩
        refine hnat n.toNat (hn.trans ?_)
        rw [Int.toNat_of_nonneg (Int.not_lt.1 hsign)]
      · rintro ⟨h, -⟩
        cases h with
        | duration h => exact absurd hn (h n)
        | sign hn' h => exact absurd (honly hn' ▸ h) hsign
        | editorLabel h => exact ⟨h, rfl, rfl⟩
  next hn =>
    refine (Tells.one SettingRule.duration _).congr fun r m => ⟨?_, ?_⟩
    · rintro ⟨rfl, rfl⟩
      exact ⟨.duration hn, nofun⟩
    · rintro ⟨h, hhidden⟩
      cases h with
      | duration h => exact ⟨rfl, rfl⟩
      | sign hn' h => exact absurd hn' (hn _)
      | editorLabel h => exact absurd (.editorLabel fun ms => hn ms) hhidden

section Arms

variable {earlier : List Value} {seen : List String} {arm : Value} {ms : Config}

theorem labelled_iff (hms : arm.entries? = some ms) {l : String} :
    Labelled arm l ↔ Assoc.find? "label" ms = some (.text l) ∧ Text.isBlank l = false := by
  simp [Labelled, hms]

theorem Labelled.unique {l l' : String} (h : Labelled arm l) (h' : Labelled arm l') : l = l' := by
  obtain ⟨ms, hms, hl, -⟩ := h
  exact Value.text.inj (Option.some.inj (hl.symm.trans ((labelled_iff hms).1 h').1))

theorem filled_label_iff (hms : arm.entries? = some ms) :
    Value.Filled (Assoc.find? "label" ms) ↔ ∃ l, Labelled arm l := by
  simp only [labelled_iff hms, Value.isBlank_eq_false_iff]
  rfl

theorem tells_weight (hms : arm.entries? = some ms) :
    Tells (if isWeight (Assoc.find? "weight" ms) = true then [] else
      ["Split node '" ++ id ++ "' arm " ++ Nat.repr earlier.length ++
        " requires a positive 'weight'"]) fun r m =>
      r = .weight ∧ ArmBreach id earlier arm r m := by
  refine (Tells.check isWeight_iff ArmRule.weight _).congr fun r m => ⟨?_, ?_⟩
  · rintro ⟨hw, rfl, rfl⟩
    obtain ⟨w, hw⟩ := Classical.not_forall.1 hw
    obtain ⟨hw, h⟩ := Classical.not_imp.1 hw
    exact ⟨rfl, .weight hms hw h⟩
  · rintro ⟨rfl, h⟩
    cases h with
    | weight hms' hw h =>
      obtain rfl := Option.some.inj (hms.symm.trans hms')
      exact ⟨fun hweight => h (hweight _ hw), rfl, rfl⟩

/-- What can be wrong with a mapping as an arm, apart from its weight. -/
theorem labelBreach_iff (hms : arm.entries? = some ms) {r : ArmRule} {m : Message} :
    r ≠ .weight ∧ ArmBreach id earlier arm r m ↔
      (∀ l, ¬ Labelled arm l) ∧ r = .label ∧ m = "Split node '" ++ id ++ "' arm " ++
        Nat.repr earlier.length ++ " requires a non-empty 'label'" ∨
      ∃ l, Labelled arm l ∧ (∃ a ∈ earlier, Labelled a l) ∧ r = .distinct ∧
        m = "Split node '" ++ id ++ "' has duplicate arm label '" ++ l ++ "'" := by
  constructor
  · rintro ⟨hr, h⟩
    cases h with
    | object hms' => cases hms.symm.trans hms'
    | label hms' h =>
      obtain rfl := Option.some.inj (hms.symm.trans hms')
      exact .inl ⟨fun l hl => h ((filled_label_iff hms).2 ⟨l, hl⟩), rfl, rfl⟩
    | distinct hl h => exact .inr ⟨_, hl, h, rfl, rfl⟩
    | weight => exact absurd rfl hr
  · rintro (⟨h, rfl, rfl⟩ | ⟨l, hl, h, rfl, rfl⟩)
    · exact ⟨nofun, .label hms fun hf => ((filled_label_iff hms).1 hf).elim h⟩
    · exact ⟨nofun, .distinct hl h⟩

/-- What is told of a label that is missing or blank. -/
theorem tells_unlabelled (hms : arm.entries? = some ms) (h : ∀ l, ¬ Labelled arm l) :
    Tells ["Split node '" ++ id ++ "' arm " ++ Nat.repr earlier.length ++
      " requires a non-empty 'label'"] fun r m => r ≠ .weight ∧ ArmBreach id earlier arm r m := by
  refine (Tells.one ArmRule.label _).congr fun r m => ?_
  rw [labelBreach_iff hms]
  constructor
  · rintro ⟨rfl, rfl⟩
    exact .inl ⟨h, rfl, rfl⟩
  · rintro (⟨-, rfl, rfl⟩ | ⟨l, hl, -⟩)
    · exact ⟨rfl, rfl⟩
    · exact absurd hl (h l)

/-- What is told of a label that an earlier arm has. -/
theorem tells_repeated (hms : arm.entries? = some ms) {l : String} (hl : Labelled arm l)
    (h : ∃ a ∈ earlier, Labelled a l) :
    Tells ["Split node '" ++ id ++ "' has duplicate arm label '" ++ l ++ "'"] fun r m =>
      r ≠ .weight ∧ ArmBreach id earlier arm r m := by
  refine (Tells.one ArmRule.distinct _).congr fun r m => ?_
  rw [labelBreach_iff hms]
  constructor
  · rintro ⟨rfl, rfl⟩
    exact .inr ⟨l, hl, h, rfl, rfl⟩
  · rintro (⟨hnone, -⟩ | ⟨l', hl', -, rfl, rfl⟩)
    · exact absurd hl (hnone l)
    · exact ⟨rfl, by rw [hl.unique hl']⟩

/-- Nothing is told of a label that is new. -/
theorem tells_new (hms : arm.entries? = some ms) {l : String} (hl : Labelled arm l)
    (h : ¬ ∃ a ∈ earlier, Labelled a l) :
    Tells [] fun r m => r ≠ .weight ∧ ArmBreach id earlier arm r m := by
  refine .nothing fun r m => ?_
  rw [labelBreach_iff hms]
  rintro (⟨hnone, -⟩ | ⟨l', hl', h', -⟩)
  · exact hnone l hl
  · exact h (hl.unique hl' ▸ h')

/-- What is told of a mapping as an arm: first of its label and then of its weight. -/
theorem tells_mapping (hms : arm.entries? = some ms) {said : List Message}
    (h : Tells said fun r m => r ≠ .weight ∧ ArmBreach id earlier arm r m) :
    Tells (said ++ if isWeight (Assoc.find? "weight" ms) = true then [] else
      ["Split node '" ++ id ++ "' arm " ++ Nat.repr earlier.length ++
        " requires a positive 'weight'"]) (ArmBreach id earlier arm) := by
  refine (h.append (tells_weight hms) fun r m m' h h' => h.1 h'.1).congr fun r m => ?_
  by_cases hr : r = .weight
  · simp [hr]
  · simp [hr]

/-- What is told of an arm that is no mapping. -/
theorem tells_noMapping (hms : arm.entries? = none) :
    Tells ["Split node '" ++ id ++ "' arm " ++ Nat.repr earlier.length ++ " must be an object"]
      (ArmBreach id earlier arm) := by
  refine (Tells.one ArmRule.object _).congr fun r m => ⟨?_, fun h => ?_⟩
  · rintro ⟨rfl, rfl⟩
    exact .object hms
  · cases h with
    | object => exact ⟨rfl, rfl⟩
    | label hms' | weight hms' => cases hms.symm.trans hms'
    | distinct hl =>
      obtain ⟨ms, hms', -⟩ := hl
      cases hms.symm.trans hms'

/-- What is told of one arm; its label counts as taken from then on. -/
theorem tells_armViolations (id : Message) (arm : Value)
    (hseen : ∀ l, l ∈ seen ↔ ∃ a ∈ earlier, Labelled a l) :
    Tells (armViolations id earlier.length seen arm).1 (ArmBreach id earlier arm) ∧
      ∀ l, l ∈ (armViolations id earlier.length seen arm).2 ↔
        ∃ a ∈ earlier ++ [arm], Labelled a l := by
  have hlater (l : String) :
      (∃ a ∈ earlier ++ [arm], Labelled a l) ↔ l ∈ seen ∨ Labelled arm l := by
    rw [hseen]
    simp [or_and_right, exists_or]
  have hmissing (h : ∀ l, ¬ Labelled arm l) (l : String) : l ∈ seen ↔ l ∈ seen ∨ Labelled arm l :=
    (or_iff_left (h l)).symm
  simp only [hlater]
  unfold armViolations
  cases hms : arm.entries? with
  | none =>
    refine ⟨tells_noMapping hms, hmissing ?_⟩
    rintro l ⟨ms, hms', -⟩
    cases hms.symm.trans hms'
  | some ms =>
    dsimp only
    split
    next l hl =>
      by_cases hb : Text.isBlank l = true
      · rw [if_pos hb]
        have hnone (l' : String) : ¬ Labelled arm l' := by
          rw [labelled_iff hms, hl]
          rintro ⟨⟨⟩, hb'⟩
          exact absurd (hb.symm.trans hb') (by decide)
        exact ⟨tells_mapping hms (tells_unlabelled hms hnone), hmissing hnone⟩
      · rw [if_neg hb]
        have hlabel : Labelled arm l := (labelled_iff hms).2 ⟨hl, by simpa using hb⟩
        have honly (l' : String) : Labelled arm l' ↔ l' = l :=
          ⟨fun h => h.unique hlabel, fun h => h ▸ hlabel⟩
        simp only [List.contains_iff_mem, honly]
        by_cases hs : l ∈ seen
        · rw [if_pos hs]
          refine ⟨tells_mapping hms (tells_repeated hms hlabel ((hseen l).1 hs)), fun l' => ?_⟩
          rw [or_iff_left_of_imp]
          rintro rfl
          exact hs
        · rw [if_neg hs]
          have hnew : ¬ ∃ a ∈ earlier, Labelled a l := fun h => hs ((hseen l).2 h)
          refine ⟨tells_mapping hms (tells_new hms hlabel hnew), fun l' => ?_⟩
          rw [List.mem_cons, or_comm]
    next hl =>
      have hnone (l : String) : ¬ Labelled arm l := fun h => hl l ((labelled_iff hms).1 h).1
      exact ⟨tells_mapping hms (tells_unlabelled hms hnone), hmissing hnone⟩

/-- What is told of arms in turn, after some earlier ones. -/
theorem tells_armsViolations (id : Message) (arms : List Value)
    (hseen : ∀ l, l ∈ seen ↔ ∃ a ∈ earlier, Labelled a l) :
    Tells (armsViolations id earlier.length seen arms) fun (p : Nat × ArmRule) m =>
      ∃ a, arms[p.1]? = some a ∧ ArmBreach id (earlier ++ arms.take p.1) a p.2 m := by
  -- The first arm is an earlier one for the rest, whatever was said of it.
  induction arms generalizing earlier seen with
  | nil => exact .nothing fun p m h => by simp at h
  | cons arm rest ih =>
    obtain ⟨hfirst, hseen⟩ := tells_armViolations id arm hseen
    have hrest := ih hseen
    rw [List.length_append, List.length_singleton] at hrest
    rw [armsViolations]
    refine Tells.cons (B := fun place r m => ∃ a, (arm :: rest)[place]? = some a ∧
      ArmBreach id (earlier ++ (arm :: rest).take place) a r m) ?_ ?_
    · exact hfirst.congr fun r m => by simp
    · exact hrest.congr fun p m => by simp

end Arms

theorem tells_splitViolations :
    Tells (splitViolations id config) (SettingBreach id shownKey config .split) := by
  have hlabel := Tells.check (Value.isFilled_iff (v := Assoc.find? "label" config))
    SettingRule.label ("Split node '" ++ id ++ "' requires a non-empty 'label'")
  have hwhole {said : List Message} (h : Tells said fun r m =>
      r ≠ .label ∧ SettingBreach id shownKey config .split r m) :
      Tells ((if Value.isFilled (Assoc.find? "label" config) = true then [] else
        ["Split node '" ++ id ++ "' requires a non-empty 'label'"]) ++ said)
        (SettingBreach id shownKey config .split) := by
    refine (hlabel.append h fun r m m' h h' => h'.1 h.2.1).congr fun r m => ⟨?_, fun h => ?_⟩
    · rintro (⟨h, rfl, rfl⟩ | ⟨-, h⟩)
      · exact .label h
      · exact h
    · cases h with
      | label h => exact .inl ⟨h, rfl, rfl⟩
      | arms hv hnull h => exact .inr ⟨nofun, .arms hv hnull h⟩
      | arm harms ha h => exact .inr ⟨nofun, .arm harms ha h⟩
  unfold splitViolations
  refine hwhole ?_
  split
  next hnone =>
    refine .nothing ?_
    rintro r m ⟨hr, h⟩
    cases h with
    | label => exact hr rfl
    | arms hv | arm hv => cases hnone.symm.trans hv
  next hnull =>
    refine .nothing ?_
    rintro r m ⟨hr, h⟩
    cases h with
    | label => exact hr rfl
    | arms hv hv' => exact hv' (Option.some.inj (hnull.symm.trans hv)).symm
    | arm harms => cases hnull.symm.trans harms
  next arms harms =>
    have hplace : (fun p : Nat × ArmRule => SettingRule.arm p.1 p.2).Injective := by
      rintro ⟨i, r⟩ ⟨j, r'⟩ h
      obtain ⟨rfl, rfl⟩ := SettingRule.arm.inj h
      rfl
    have hseen (l : String) : l ∈ [] ↔ ∃ a ∈ [], Labelled a l := by simp
    refine ((tells_armsViolations id arms hseen).map hplace).congr fun r m => ⟨?_, ?_⟩
    · rintro ⟨⟨place, rule⟩, rfl, a, ha, h⟩
      exact ⟨nofun, .arm harms ha h⟩
    · rintro ⟨hr, h⟩
      cases h with
      | label => exact absurd rfl hr
      | arms hv _ h => exact absurd (Option.some.inj (hv.symm.trans harms)) (h arms)
      | arm harms' ha h =>
        obtain rfl := Value.list.inj (Option.some.inj (harms'.symm.trans harms))
        exact ⟨(_, _), rfl, _, ha, h⟩
  next v hnull hlist hv =>
    refine (Tells.one SettingRule.arms _).congr fun r m => ⟨?_, ?_⟩
    · rintro ⟨rfl, rfl⟩
      exact ⟨nofun, .arms hv hnull hlist⟩
    · rintro ⟨hr, h⟩
      cases h with
      | label => exact absurd rfl hr
      | arms => exact ⟨rfl, rfl⟩
      | arm harms => exact absurd (Option.some.inj (hv.symm.trans harms)) (hlist _)

/-- All that is said of settings tells of broken rules, and of each that is not hidden. -/
theorem tells_configViolations {kind : NodeKind} :
    Tells (configViolations kind id shownKey config) fun r m =>
      SettingBreach id shownKey config kind r m ∧ ¬ SettingHidden config kind r := by
  cases kind with
  | action => exact tells_actionViolations.congr fun r m => (and_iff_left nofun).symm
  | condition => exact tells_conditionViolations.congr fun r m => (and_iff_left nofun).symm
  | delay => exact tells_delayViolations
  | split => exact tells_splitViolations.congr fun r m => (and_iff_left nofun).symm

end Sketch

end Workflow
