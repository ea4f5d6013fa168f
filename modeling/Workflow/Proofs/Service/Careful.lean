import Workflow.Proofs.Service.Shelving

/-!
# Programs that write with care

A program writes with care if it saves nothing but a new definition under an
identifier that it was given, or what its call makes of the definition that it
has loaded, over the version that it has loaded.  Every call of the service is
carried out by such a program.

    each call → its program writes with care          (careful_program)
-/

namespace Workflow.Service

open Store (Backend Step)

section

variable {σ : Type} [Backend σ] (S : Shelving σ) (change : Definition → Except Error Definition)

/-! ## Discipline -/

/-- The steps that are taken with care. -/
def Allows (loaded : Option Definition) (given : Option Uuid) : Step → Prop
  | .save d expected =>
    (expected = .null ∧ given = some d.id ∧ S.Typed d) ∨
      ∃ h, loaded = some h ∧ expected = .int h.version ∧ change h = .ok d
  | .load _ | .delete _ | .definitions _ | .appendApproval _ | .approvals _ | .appendRun _
  | .updateRun _ | .run _ | .runs .. | .orgRuns .. | .summary _ | .templates | .template _ =>
    True

/-- What can be said of the answer to a step. -/
def Answers : (s : Step) → s.Answer → Prop
  | .load id, d => d.id = id ∧ S.Typed d
  | .template _, t => S.TypedTemplate t
  | .save .., _ | .delete _, _ | .definitions _, _ | .appendApproval _, _ | .approvals _, _
  | .appendRun _, _ | .updateRun _, _ | .run _, _ | .runs .., _ | .orgRuns .., _ | .summary _, _
  | .templates, _ => True

/-- All that a program writes it writes with care. -/
def Careful {α : Type} : Option Definition → Option Uuid → Program α → Prop
  | _, _, .done _ => True
  | _, _, .fail _ => True
  | loaded, given, .take s next =>
    Allows S change loaded given s ∧
      ∀ a, Answers S s a → Careful (loadedAfter loaded s a) (givenAfter given s) (next a)
  | loaded, given, .announce _ next => Careful loaded given next
  | loaded, _, .fresh next => ∀ id, Careful loaded (some id) (next id)
  | loaded, given, .draw _ next => ∀ draws, Careful loaded given (next draws)

variable {α β : Type}

/-- With care, whatever was loaded and given before. -/
def Prudent (p : Program α) : Prop := ∀ loaded given, Careful S change loaded given p

variable {S change}

/-! ## Composition -/

theorem careful_bind {p : Program α} {f : α → Program β} {loaded : Option Definition}
    {given : Option Uuid} (hp : Careful S change loaded given p)
    (hf : ∀ a, Prudent S change (f a)) : Careful S change loaded given (p.bind f) := by
  induction p generalizing loaded given with
  | done a => exact hf a loaded given
  | fail e => trivial
  | take s next ih => exact ⟨hp.1, fun a ha => ih a (hp.2 a ha)⟩
  | announce e next ih => exact ih hp
  | fresh next ih => exact fun id => ih id (hp id)
  | draw count next ih => exact fun draws => ih draws (hp draws)

theorem prudent_bind {p : Program α} {f : α → Program β} (hp : Prudent S change p)
    (hf : ∀ a, Prudent S change (f a)) : Prudent S change (p >>= f) :=
  fun loaded given => careful_bind (hp loaded given) hf

theorem prudent_pure (a : α) : Prudent S change (pure a) := fun _ _ => trivial

theorem prudent_fail (e : Error) : Prudent S change (.fail e : Program α) := fun _ _ => trivial

theorem prudent_lift (r : Except Error α) : Prudent S change (Program.lift r) := by
  intro loaded given
  cases r <;> trivial

theorem prudent_tell (id : Uuid) (now : Timestamp) (h : Happening) :
    Prudent S change (Program.tell id now h) := fun _ _ => trivial

theorem prudent_step {s : Step} (h : ∀ loaded given, Allows S change loaded given s) :
    Prudent S change (Program.step s) :=
  fun loaded given => ⟨h loaded given, fun _ _ => trivial⟩

theorem prudent_newId : Prudent S change Program.newId := fun _ _ _ => trivial

/-! ## Programs of the service -/

theorem prudent_mutate {id : Uuid} {expected : Value}
    {c : Definition → Except Error (Definition × α)}
    (hc : ∀ d d' a, c d = .ok (d', a) → change d = .ok d') :
    Prudent S change (mutate id expected c) := by
  intro loaded given
  refine ⟨trivial, fun d _ => ?_⟩
  show Careful S change (some d) given
    (if expected ≠ .null ∧ !expected.same (.int d.version) then .fail _ else _)
  split
  · trivial
  · cases h : c d with
    | error e => trivial
    | ok r =>
      obtain ⟨d', a⟩ := r
      exact ⟨Or.inr ⟨d, rfl, rfl, hc d d' a h⟩, fun _ _ => trivial⟩

theorem prudent_modify {id : Uuid} {expected : Value}
    {c : Definition → Except Error Definition} (hc : ∀ d d', c d = .ok d' → change d = .ok d') :
    Prudent S change (modify id expected c) := by
  unfold modify
  refine prudent_bind (prudent_mutate ?_) fun r => prudent_pure r.1
  intro d d' a h
  obtain ⟨d₁, h₁, he⟩ := map_eq_ok.1 h
  obtain rfl := (Prod.mk.inj he).1
  exact hc d d₁ h₁

theorem prudent_found {p : Definition.Proposal} {now : Timestamp}
    (hp : ∀ name id, p.accept = .ok name → S.Typed (p.define name id now)) :
    Prudent S change (found p now) := by
  intro loaded given
  unfold found
  cases h : p.accept with
  | error e => trivial
  | ok name =>
    intro id
    exact ⟨Or.inl ⟨rfl, rfl, hp name id h⟩, fun _ _ => trivial⟩

theorem prudent_recordRun (definition : Uuid) (org context : Value) (now : Timestamp) :
    Prudent S change (recordRun definition org context now) := by
  unfold recordRun
  refine prudent_bind (prudent_lift _) fun ms => ?_
  refine prudent_bind prudent_newId fun id => ?_
  refine prudent_bind (prudent_step fun _ _ => trivial) fun _ => ?_
  exact prudent_bind (prudent_tell _ _ _) fun _ => prudent_pure _

theorem prudent_finishRun (id : Uuid) (now : Timestamp) (finish : Run → Except Error Run)
    (happening : Run → Happening) : Prudent S change (finishRun id now finish happening) := by
  unfold finishRun
  refine prudent_bind (prudent_step fun _ _ => trivial) fun r => ?_
  refine prudent_bind (prudent_lift _) fun finished => ?_
  refine prudent_bind (prudent_step fun _ _ => trivial) fun _ => ?_
  exact prudent_bind (prudent_tell _ _ _) fun _ => prudent_pure _

end

/-! ## Calls -/

section

variable {σ : Type} [Backend σ]

/-- Changes and creations of a call are of the kind that a store keeps. -/
structure Shelving.Admits (S : Shelving σ) (now : Timestamp) (call : Call) : Prop where
  change : ∀ d d', S.Typed d → call.change now d = .ok d' → S.Typed d'
  create : ∀ p, call = .create p → ∀ name id, p.accept = .ok name →
    S.Typed (p.define name id now)
  install : ∀ key context name, call = .install key context name → ∀ t, S.TypedTemplate t →
    ∀ name' id, (t.proposal context name).accept = .ok name' →
      S.Typed ((t.proposal context name).define name' id now)

variable {S : Shelving σ} {call : Call} {now : Timestamp}

theorem prudent_govern {action : ApprovalAction} {id : Uuid} {actor notes : Value} :
    Prudent S (fun d => (Call.govern action id actor notes).change now d)
      (govern action id actor notes now) := by
  unfold govern
  refine prudent_bind (prudent_mutate ?_) ?_
  · intro d d' r h
    obtain ⟨⟨d₁, e⟩, h₁, h⟩ := bind_eq_ok.1 h
    obtain rfl := (Prod.mk.inj (pure_eq_ok.1 h)).1
    exact map_eq_ok.2 ⟨_, h₁, rfl⟩
  · rintro ⟨d, wasActive, e⟩
    refine prudent_bind (prudent_step fun _ _ => trivial) fun _ => ?_
    show Prudent S _ (if action = .request ∧ wasActive then _ else _)
    split
    · refine prudent_bind (prudent_tell _ _ _) fun _ => ?_
      exact prudent_bind (prudent_tell _ _ _) fun _ => prudent_pure _
    · exact prudent_bind (prudent_tell _ _ _) fun _ => prudent_pure _

theorem prudent_activate {id : Uuid} :
    Prudent S (fun d => (Call.activate id).change now d) (activate id now) := by
  unfold activate
  refine prudent_bind (prudent_mutate ?_) ?_
  · intro d d' r h
    obtain ⟨d₁, h₁, h⟩ := map_eq_ok.1 h
    obtain rfl := (Prod.mk.inj h).1
    exact h₁
  · rintro ⟨d, wasActive⟩
    cases wasActive with
    | true => exact prudent_pure d
    | false => exact prudent_bind (prudent_tell _ _ _) fun _ => prudent_pure d

theorem prudent_install {key : TemplateKey} {context : Context} {name : Value}
    (hc : S.Admits now (.install key context name)) :
    Prudent S (fun d => (Call.install key context name).change now d)
      (install key context name now) := by
  intro loaded given
  unfold install
  refine ⟨trivial, fun t ht => ?_⟩
  have hf : Prudent S (fun d => (Call.install key context name).change now d)
      (found (t.proposal context name) now) :=
    prudent_found (hc.install key context name rfl t ht)
  exact prudent_bind hf (fun d => prudent_bind (prudent_tell _ _ _) fun _ => prudent_pure d)
    loaded given

/-- The program of a call writes with care what the call makes of what it has loaded. -/
theorem careful_program (canvas : Editor.Canvas) (hc : S.Admits now call) :
    Careful S (fun d => call.change now d) none none (call.program canvas now) := by
  have hp : Prudent S (fun d => call.change now d) (call.program canvas now) := by
    cases call with
    | create p => exact prudent_bind (prudent_found (hc.create p rfl)) fun d => prudent_pure _
    | get id => exact prudent_bind (prudent_step fun _ _ => trivial) fun d => prudent_pure _
    | list org => exact prudent_bind (prudent_step fun _ _ => trivial) fun ds => prudent_pure _
    | update id r expected =>
      exact prudent_bind (prudent_modify fun d d' h => h) fun d => prudent_pure _
    | editorView id =>
      refine prudent_bind (prudent_bind (prudent_step fun _ _ => trivial) fun d => ?_) fun g => prudent_pure _
      exact fun loaded given draws => prudent_lift _ loaded given
    | saveEdited id edited expected =>
      exact prudent_bind (prudent_modify fun d d' h => h) fun d => prudent_pure _
    | delete id =>
      refine prudent_bind (prudent_bind (prudent_step fun _ _ => trivial) fun d => ?_) fun _ => prudent_pure _
      exact prudent_bind (prudent_step fun _ _ => trivial) fun _ => prudent_tell _ _ _
    | govern action id actor notes => exact prudent_bind prudent_govern fun e => prudent_pure _
    | approvals id =>
      refine prudent_bind (prudent_bind (prudent_step fun _ _ => trivial) fun d => ?_) fun es => prudent_pure _
      exact prudent_step fun _ _ => trivial
    | activate id => exact prudent_bind prudent_activate fun d => prudent_pure _
    | pause id =>
      refine prudent_bind (prudent_bind (prudent_modify fun d d' h => h) fun d => ?_)
        fun d => prudent_pure _
      exact prudent_bind (prudent_tell _ _ _) fun _ => prudent_pure d
    | templates => exact prudent_bind (prudent_step fun _ _ => trivial) fun ts => prudent_pure _
    | install key context name => exact prudent_bind (prudent_install hc) fun d => prudent_pure _
    | startRun id context =>
      refine prudent_bind (prudent_bind (prudent_step fun _ _ => trivial) fun d => ?_) fun r => prudent_pure _
      cases d.isActive with
      | true => exact prudent_recordRun _ _ _ _
      | false => exact prudent_fail _
    | completeRun id outcome error =>
      exact prudent_bind (prudent_finishRun _ _ _ _) fun r => prudent_pure _
    | cancelRun id => exact prudent_bind (prudent_finishRun _ _ _ _) fun r => prudent_pure _
    | getRun id => exact prudent_bind (prudent_step fun _ _ => trivial) fun r => prudent_pure _
    | listRuns id limit => exact prudent_bind (prudent_step fun _ _ => trivial) fun rs => prudent_pure _
    | listOrgRuns org limit => exact prudent_bind (prudent_step fun _ _ => trivial) fun rs => prudent_pure _
    | summary id =>
      refine prudent_bind (prudent_bind (prudent_step fun _ _ => trivial) fun d => ?_) fun s => prudent_pure _
      exact prudent_step fun _ _ => trivial
  exact hp none none

end

end Workflow.Service
