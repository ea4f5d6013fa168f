import Workflow.Proofs.Definition.Governance
import Workflow.Proofs.Definition.Progress
import Workflow.Proofs.Identifier
import Workflow.Proofs.Time.Iso
import Workflow.Template.Basic

/-!
# Records are read back

What is written of a definition, of an event of its history or of a template is read
back as it was.  Reading takes what counts as absent for a default, so a definition
has to be described by a text, and a graph must have steps that can be told apart:
that is so of all definitions that operations lead to, and of all templates that have
been read.

    d readable, its places doubles → ofValue d.toValue = .ok d       (ofValue_toValue)
    creation and operations lead to readable definitions        (Reached.readable)
-/

namespace Workflow

/-! ## Fields -/

theorem Named.read_eq_ok {α : Type} [Named α] {a : α} (h : Named.ofName? (Named.name a) = some a) :
    Named.read (.text (Named.name a)) = .ok a := by
  unfold Named.read Named.ofValue?
  dsimp only
  rw [h]

theorem Uuid.ofValue_text (u : Uuid) : Uuid.ofValue (.text u.text) = .ok u := by
  unfold Uuid.ofValue
  rw [show (Value.text u.text).bare = u.text from rfl, Uuid.ofText_text]

/-- What is read is not the empty text. -/
theorem Uuid.isTruthy_text (u : Uuid) : (Value.text u.text).isTruthy = true := by
  have hne : u.text ≠ "" := fun he => by
    have hread := Uuid.ofText_text u
    rw [he] at hread
    cases hread
  simpa [Value.isTruthy] using hne

section

variable {t : Timestamp}

theorem Timestamp.ofValue_text (h : t.IsDatetime) : Timestamp.ofValue (.text t.text) = .ok t := by
  unfold Timestamp.ofValue
  dsimp only
  rw [Timestamp.ofText_text h]

theorem Definition.timeOf_text (h : t.IsDatetime) (now : Timestamp) :
    Definition.timeOf (.text t.text) now = .ok t := by
  have hne : t.text ≠ "" := fun he => by
    have hread := Timestamp.ofText_text h
    rw [he] at hread
    cases hread
  unfold Definition.timeOf
  rw [if_pos (by simpa [Value.isTruthy] using hne)]
  exact Timestamp.ofValue_text h

end

theorem Definition.templateOf_ofText? (template : Option Uuid) :
    Definition.templateOf (.ofText? (template.map Uuid.text)) = .ok template := by
  cases template with
  | none => rfl
  | some u =>
    show (if (Value.text u.text).isTruthy then (Uuid.ofValue (.text u.text)).map some else _) = _
    rw [if_pos u.isTruthy_text, Uuid.ofValue_text]
    rfl

theorem Value.orElse_orElse (v w : Value) : (v.orElse w).orElse w = v.orElse w := by
  unfold orElse
  by_cases hv : v.isTruthy = true
  · rw [if_pos hv, if_pos hv]
  · rw [if_neg hv]
    split
    · rfl
    · rfl

/-! ## Events -/

namespace ApprovalEvent

theorem ofValue_toValue {e : ApprovalEvent} (h : e.time.IsDatetime) : ofValue e.toValue = .ok e := by
  refine bind_eq_ok.2 ⟨_, rfl, bind_eq_ok.2 ⟨e.definition, Uuid.ofValue_text _, ?_⟩⟩
  refine bind_eq_ok.2 ⟨_, rfl, bind_eq_ok.2 ⟨e.action, Named.read_eq_ok ?_, ?_⟩⟩
  · exact e.action.ofName?_name
  refine bind_eq_ok.2 ⟨_, rfl, bind_eq_ok.2 ⟨e.source, Named.read_eq_ok ?_, ?_⟩⟩
  · exact e.source.ofName?_name
  refine bind_eq_ok.2 ⟨_, rfl, bind_eq_ok.2 ⟨e.target, Named.read_eq_ok ?_, ?_⟩⟩
  · exact e.target.ofName?_name
  refine bind_eq_ok.2 ⟨_, rfl, bind_eq_ok.2 ⟨e.time, Timestamp.ofValue_text h, ?_⟩⟩
  rfl

theorem historyOf_toValue {history : List ApprovalEvent} (h : ∀ e ∈ history, e.time.IsDatetime) :
    historyOf (.list (history.map toValue)) = .ok history := by
  have hm : (history.map toValue).mapM ofValue = (.ok history : Except Error _) :=
    mapM_map_eq_ok fun e he => ofValue_toValue (h e he)
  cases history with
  | nil => rfl
  | cons e rest => exact hm

end ApprovalEvent

/-! ## Definitions -/

namespace Definition

/-- What reading asks of a definition, but for its places. -/
structure Readable (d : Definition) : Prop where
  description : d.description.IsText
  graph : d.graph.Readable
  history : ∀ e ∈ d.history, e.time.IsDatetime
  createdAt : d.createdAt.IsDatetime
  updatedAt : d.updatedAt.IsDatetime

variable {d d' : Definition} {now : Timestamp}

/-- Fields are read in the order in which faults are reported. -/
theorem ofValue_toValue (hd : d.Readable) (hl : d.layout.IsReal) (now : Timestamp) :
    ofValue d.toValue now = .ok d := by
  refine bind_eq_ok.2 ⟨_, rfl, bind_eq_ok.2 ⟨d.id, Uuid.ofValue_text _, ?_⟩⟩
  refine bind_eq_ok.2 ⟨d.org, rfl, bind_eq_ok.2 ⟨d.name, rfl, ?_⟩⟩
  refine bind_eq_ok.2 ⟨d.lifecycle, Named.read_eq_ok d.lifecycle.ofName?_name, ?_⟩
  refine bind_eq_ok.2 ⟨d.approval, Named.read_eq_ok d.approval.ofName?_name, ?_⟩
  refine bind_eq_ok.2 ⟨_, rfl, bind_eq_ok.2 ⟨d.trigger, Trigger.ofValue_toValue _, ?_⟩⟩
  refine bind_eq_ok.2 ⟨d.graph, Graph.ofValue_toValue hd.graph [], ?_⟩
  refine bind_eq_ok.2 ⟨d.layout, Layout.ofValue_toValue hl, ?_⟩
  refine bind_eq_ok.2 ⟨d.history, ApprovalEvent.historyOf_toValue hd.history, ?_⟩
  refine bind_eq_ok.2 ⟨d.version, rfl, ?_⟩
  refine bind_eq_ok.2 ⟨d.createdAt, timeOf_text hd.createdAt now, ?_⟩
  refine bind_eq_ok.2 ⟨d.updatedAt, timeOf_text hd.updatedAt now, ?_⟩
  refine bind_eq_ok.2 ⟨d.template, templateOf_ofText? _, ?_⟩
  exact congrArg Except.ok (congrArg (fun description => { d with description })
    hd.description.orElse_empty)

/-- The arguments of an operation are of their declared types, but for its places. -/
def Operation.Declared : Operation → Prop
  | .rename _ description => description.IsTextOrNull
  | .updateGraph graph _ => graph.ids.Nodup
  | .applyEdited _ | .updateTrigger _ | .govern .. | .activate | .pause => True

theorem Readable.touch (hd : d.Readable) (hn : now.IsDatetime) : (d.touch now).Readable :=
  { hd with updatedAt := hn }

theorem Readable.updateGraph (hd : d.Readable) (hn : now.IsDatetime) {graph : Graph}
    {places : Option Places} (hg : graph.ids.Nodup)
    (h : d.updateGraph graph places now = .ok d') : d'.Readable := by
  obtain ⟨hv, -, _, -, rfl⟩ := updateGraph_eq_ok h
  exact Readable.touch
    { hd with graph := ⟨fun n hn => Graph.id_ne_empty hv hn, hg⟩ } hn

/-- An operation leads to a definition that can be read. -/
theorem Readable.apply {op : Operation} (hd : d.Readable) (hop : op.Declared)
    (hn : now.IsDatetime) (h : op.apply d now = .ok d') : d'.Readable := by
  cases op with
  | rename name description =>
    obtain ⟨t, -, -, rfl⟩ := rename_eq_ok h
    exact Readable.touch { hd with description := hd.description.ite_null hop } hn
  | updateTrigger trigger =>
    obtain ⟨-, rfl⟩ := updateTrigger_eq_ok h
    exact Readable.touch { hd with } hn
  | updateGraph graph places => exact hd.updateGraph hn hop h
  | applyEdited edited =>
    obtain ⟨graph, hc, h⟩ := applyEdited_eq_ok h
    exact hd.updateGraph hn (Editor.Graph.readable_of_compileBounded hc).ids_nodup h
  | govern action actor notes =>
    obtain ⟨⟨d₁, e⟩, hg, rfl⟩ := map_eq_ok.1 h
    obtain ⟨target, -, -, rfl, rfl⟩ := govern_eq_ok hg
    have hs : (d.suspend action).Readable := by
      unfold suspend
      split
      · exact { hd with }
      · exact hd
    refine Readable.touch { hs with history := fun f hf => ?_ } hn
    rcases List.mem_append.1 hf with hf | hf
    · exact hs.history f hf
    · rw [List.mem_singleton.1 hf]
      exact hn
  | activate =>
    obtain ⟨-, ⟨-, rfl⟩ | ⟨-, -, -, rfl⟩⟩ := activate_eq_ok h
    · exact hd
    · exact Readable.touch { hd with } hn
  | pause =>
    obtain ⟨-, rfl⟩ := pause_eq_ok h
    exact Readable.touch { hd with } hn

/-- What a failure leaves can be read too. -/
theorem Readable.left {op : Operation} (hd : d.Readable) (hop : op.Declared) :
    (op.left d).Readable := by
  rcases op.left_cases d with hl | ⟨graph, places, rfl, ⟨hv, -⟩, hl⟩
  · rw [hl]
    exact hd
  · rw [hl]
    exact { hd with graph := ⟨fun n hn => Graph.id_ne_empty hv hn, hop⟩ }

theorem Readable.attempt {op : Operation} (hd : d.Readable) (hop : op.Declared)
    (hn : now.IsDatetime) : (d.attempt op now).Readable := by
  cases h : op.apply d now with
  | ok d' =>
    rw [attempt_of_ok h]
    exact hd.apply hop hn h
  | error e =>
    rw [attempt_of_error h]
    exact hd.left hop

/-- What creation and operations lead to, whatever comes of them, their arguments being of their
declared types. -/
inductive Reached : Definition → Prop where
  | created {p : Proposal} {id : Uuid} {now : Timestamp} {d : Definition}
      (h : create p id now = .ok d) (described : p.description.IsText)
      (distinct : p.graph.ids.Nodup) (timed : now.IsDatetime) : Reached d
  | changed {d : Definition} {op : Operation} {now : Timestamp} (reached : Reached d)
      (declared : op.Declared) (timed : now.IsDatetime) : Reached (d.attempt op now)

/-- Operations lead on from what has been reached. -/
theorem Reached.after (hd : d.Reached) {ops : List (Timestamp × Operation)}
    (hops : ∀ c ∈ ops, c.1.IsDatetime ∧ c.2.Declared) : (d.after ops).Reached := by
  induction ops generalizing d with
  | nil => exact hd
  | cons c rest ih =>
    obtain ⟨hn, hop⟩ := hops c List.mem_cons_self
    exact ih (.changed hd hop hn) fun c' hc' => hops c' (List.mem_cons_of_mem c hc')

/-- Whatever is reached can be read. -/
theorem Reached.readable (h : d.Reached) : d.Readable := by
  induction h with
  | created h described distinct hn =>
    obtain ⟨_, -, -, -, hv, rfl⟩ := create_eq_ok h
    exact ⟨described, ⟨fun n hn => Graph.id_ne_empty hv hn, distinct⟩, nofun, hn, hn⟩
  | changed reached declared hn ih => exact ih.attempt declared hn

end Definition

/-! ## Templates -/

namespace Template

/-- What is read of a template once its identifier is known. -/
def ofMembers (ms : Config) (id : Uuid) : Except Error Template := do
  let slug ← requireField "slug" ms
  let name ← requireField "name" ms
  let trigger ← Trigger.ofValue (← requireField "trigger" ms)
  let graph ← Graph.ofValue (← requireField "graph" ms)
  pure ⟨id, slug, name, (Value.at ms "description").orElse (.text ""),
    (Value.at ms "category").orElse (.text "general"), (Value.at ms "recommended").isTruthy,
    trigger, graph⟩

theorem ofValue_object (ms : Config) (fresh : Uuid) : ofValue (.object ms) fresh =
    if needsId (.object ms) then ofMembers ms fresh
    else Uuid.ofValue (Value.at ms "id") >>= ofMembers ms := by
  unfold ofValue
  dsimp only
  split
  · rfl
  · rfl

/-- What reading guarantees of a template. -/
structure Readable (t : Template) : Prop where
  graph : t.graph.Readable
  description : t.description.orElse (.text "") = t.description
  category : t.category.orElse (.text "general") = t.category

variable {t : Template}

theorem readable_of_ofMembers {ms : Config} {id : Uuid} (h : ofMembers ms id = .ok t) :
    t.Readable := by
  obtain ⟨_, -, h⟩ := bind_eq_ok.1 h
  obtain ⟨_, -, h⟩ := bind_eq_ok.1 h
  obtain ⟨_, -, h⟩ := bind_eq_ok.1 h
  obtain ⟨_, -, h⟩ := bind_eq_ok.1 h
  obtain ⟨_, -, h⟩ := bind_eq_ok.1 h
  obtain ⟨graph, hg, h⟩ := bind_eq_ok.1 h
  obtain rfl := pure_eq_ok.1 h
  exact ⟨Graph.readable_of_ofValue hg, Value.orElse_orElse _ _, Value.orElse_orElse _ _⟩

theorem readable_of_ofValue {raw : Value} {fresh : Uuid} (h : ofValue raw fresh = .ok t) :
    t.Readable := by
  cases raw with
  | object ms =>
    rw [ofValue_object] at h
    split at h
    · exact readable_of_ofMembers h
    · obtain ⟨_, -, h⟩ := bind_eq_ok.1 h
      exact readable_of_ofMembers h
  | _ => cases h

theorem ofValue_toValue (ht : t.Readable) (fresh : Uuid) : ofValue t.toValue fresh = .ok t := by
  have hneeds : needsId t.toValue = false := by
    show (!(Value.text t.id.text).isTruthy) = false
    rw [t.id.isTruthy_text]
    rfl
  unfold toValue at hneeds ⊢
  rw [ofValue_object, hneeds, if_neg Bool.false_ne_true]
  refine bind_eq_ok.2 ⟨t.id, t.id.ofValue_text, ?_⟩
  refine bind_eq_ok.2 ⟨t.slug, rfl, bind_eq_ok.2 ⟨t.name, rfl, ?_⟩⟩
  refine bind_eq_ok.2 ⟨_, rfl, bind_eq_ok.2 ⟨t.trigger, Trigger.ofValue_toValue _, ?_⟩⟩
  refine bind_eq_ok.2 ⟨_, rfl, bind_eq_ok.2 ⟨t.graph, Graph.ofValue_toValue ht.graph [], ?_⟩⟩
  show Except.ok { t with
    description := t.description.orElse (.text "")
    category := t.category.orElse (.text "general") } = _
  rw [ht.description, ht.category]

end Template

/-! ## Theorem -/

open Definition (Operation)

/-- A definition that was reached is read back as it was if its places are doubles; so is every
event, and every template that can be read. -/
theorem records_read_back :
    (∀ d : Definition, d.Reached → d.layout.IsReal →
      ∀ now, Definition.ofValue d.toValue now = .ok d) ∧
    (∀ e : ApprovalEvent, e.time.IsDatetime → ApprovalEvent.ofValue e.toValue = .ok e) ∧
    ∀ raw fresh t, Template.ofValue raw fresh = .ok t →
      ∀ fresh', Template.ofValue t.toValue fresh' = .ok t :=
  ⟨fun _ hd hl => Definition.ofValue_toValue hd.readable hl,
    fun _ => ApprovalEvent.ofValue_toValue,
    fun _ _ _ h => Template.ofValue_toValue (Template.readable_of_ofValue h)⟩

/-- Described anew, requested with notes, approved, and its step placed, at odd times. -/
def Definition.revisions : List (Timestamp × Operation) :=
  [(⟨63839577600000001, some 0⟩, .rename (.text " Hello ") (.text "a greeting")),
    (⟨63839577601500000, some 0⟩, .govern .request .null (.text "please")),
    (⟨63839577602000000, some 0⟩, .govern .approve (.text "bob") .null),
    (⟨63839577603000000, some 0⟩, .updateGraph Definition.welcomeProposal.graph
      (some (.ofLayout [("n1", ⟨.float (.zero false), .float (.zero true)⟩)])))]

theorem records_read_back_revised :
    let d := Definition.welcome.after Definition.revisions
    (d.version = 5 ∧ d.history.length = 2 ∧ d.layout.length = 1) ∧
      Definition.ofValue d.toValue ⟨0, none⟩ = .ok d := by
  intro d
  have distinct : Definition.welcomeProposal.graph.ids.Nodup := by decide
  have begun : Definition.welcome.Reached :=
    .created (p := Definition.welcomeProposal) rfl ⟨_, rfl⟩ distinct
      (.universal (by decide) (by decide))
  have declared : ∀ c ∈ Definition.revisions, c.1.IsDatetime ∧ c.2.Declared := by
    have huniversal : ∀ clock : Int, 0 ≤ clock → clock < 64000000000000000 →
        Timestamp.IsDatetime ⟨clock, some 0⟩ := fun clock h₀ h =>
      .universal h₀ (Int.lt_trans h (by decide))
    intro c hc
    simp only [Definition.revisions, List.mem_cons, List.not_mem_nil, or_false] at hc
    rcases hc with rfl | rfl | rfl | rfl
    · exact ⟨huniversal _ (by decide) (by decide), .inr ⟨_, rfl⟩⟩
    · exact ⟨huniversal _ (by decide) (by decide), trivial⟩
    · exact ⟨huniversal _ (by decide) (by decide), trivial⟩
    · exact ⟨huniversal _ (by decide) (by decide), distinct⟩
  have placed : d.layout.IsReal := by
    intro e he
    have hlayout : d.layout = [("n1", ⟨.float (.zero false), .float (.zero true)⟩)] := rfl
    rw [hlayout] at he
    rw [List.mem_singleton.1 he]
    exact ⟨_, _, rfl⟩
  exact ⟨by decide, records_read_back.1 d (begun.after declared) placed _⟩

end Workflow
