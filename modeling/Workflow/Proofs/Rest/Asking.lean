import Workflow.Proofs.Assoc
import Workflow.Proofs.Graph.Reading
import Workflow.Proofs.Rest.Refusal
import Workflow.Proofs.Rest.View

/-!
# What a request asks of the service

Each endpoint is reached by one method.  An endpoint that is reached by `GET` only
reads; every other endpoint reads its parts first, and then makes one call of the
service, whose arguments stand in the path and in the body.

    the endpoint of a request is one of its method            (Route.resolve_eq_ok)
    its plan fails at once, or makes the call that is asked   (Endpoint.plan_asks)
-/

namespace Workflow

namespace Rest

open Service (Call Reply)

/-! ## Methods -/

/-- The method that leads to an endpoint. -/
def Endpoint.method : Endpoint → String
  | .listDefinitions | .getDefinition _ | .getEditable _ | .getGraph _ | .listApprovals _
  | .listRuns _ | .summarizeRuns _ | .listOrgRuns | .getRun _ | .listTemplates => "GET"
  | .createDefinition | .govern _ | .activate _ | .pause _ | .startRun _ | .completeRun _
  | .cancelRun _ | .installTemplate _ => "POST"
  | .updateDefinition _ => "PATCH"
  | .saveEditable _ => "PUT"
  | .deleteDefinition _ => "DELETE"

/-- The methods by which something may be changed. -/
def mutating : List String := ["POST", "PATCH", "PUT", "DELETE"]

namespace Route

/-- A resource files each of its endpoints under the method that leads to it. -/
def Resource.Declares : Resource → Prop
  | .fixed methods => ∀ e ∈ methods, e.2.method = e.1
  | .identified _ methods => ∀ e ∈ methods, ∀ id, (e.2 id).method = e.1

theorem definitionPart_declares {segment : String} {path : List String} {resource : Resource}
    (h : definitionPart segment path = some resource) : resource.Declares := by
  unfold definitionPart at h
  split at h <;> cases h <;> simp [Resource.Declares, Endpoint.method]

theorem runPart_declares {segment : String} {path : List String} {resource : Resource}
    (h : runPart segment path = some resource) : resource.Declares := by
  unfold runPart at h
  split at h <;> cases h <;> simp [Resource.Declares, Endpoint.method]

theorem resource?_declares {path : List String} {resource : Resource}
    (h : resource? path = some resource) : resource.Declares := by
  unfold resource? at h
  split at h
  next =>
    obtain rfl := Option.some.inj h
    simp [Resource.Declares, Endpoint.method]
  next => exact definitionPart_declares h
  next =>
    obtain rfl := Option.some.inj h
    simp [Resource.Declares, Endpoint.method]
  next => exact runPart_declares h
  next =>
    obtain rfl := Option.some.inj h
    simp [Resource.Declares, Endpoint.method]
  next =>
    obtain rfl := Option.some.inj h
    simp [Resource.Declares, Endpoint.method]
  next => cases h

theorem mem_of_choose {α : Type} {method : String} {methods : List (String × α)} {a : α}
    (h : choose method methods = .ok a) : (method, a) ∈ methods := by
  unfold choose at h
  split at h
  next hf =>
    obtain rfl := Except.ok.inj h
    exact Assoc.mem_of_find? hf
  · cases h

/-- An endpoint is reached by its own method. -/
theorem resolve_eq_ok {method : String} {path : List String} {endpoint : Endpoint}
    (h : resolve method path = .ok endpoint) : endpoint.method = method := by
  unfold resolve at h
  split at h
  · cases h
  next methods hr => exact resource?_declares hr _ (mem_of_choose h)
  next segment methods hr =>
    split at h
    next hc =>
      obtain rfl := Except.ok.inj h
      exact resource?_declares hr _ (mem_of_choose hc) _
    · cases h
    · cases h

/-- Only to `OPTIONS` a path answers with its methods. -/
theorem eq_options_of_choose {α : Type} {method : String} {methods : List (String × α)}
    (h : choose method methods = .error .methodsOnly) : method = "OPTIONS" := by
  unfold choose at h
  split at h
  · cases h
  · by_cases hm : method = "OPTIONS"
    · exact hm
    · rw [if_neg hm] at h
      cases h

theorem unreadable_ne_methodsOnly {α : Type} (x : Except Detour α) :
    unreadable x ≠ .methodsOnly := by
  unfold unreadable
  split <;> nofun

theorem eq_options_of_resolve {method : String} {path : List String}
    (h : resolve method path = .error .methodsOnly) : method = "OPTIONS" := by
  unfold resolve at h
  split at h
  · cases h
  · exact eq_options_of_choose h
  · split at h
    · cases h
    next hc => exact eq_options_of_choose (Except.error.inj h ▸ hc)
    · exact absurd (Except.error.inj h) (unreadable_ne_methodsOnly _)

end Route

/-! ## Calls -/

/-- The call of the service that an endpoint makes for a request.  Documents and vocabularies
are read; all else is handed on as it stands in the path or in the body, null if it is missing. -/
inductive Asks (r : Request) : Endpoint → Call → Prop where
  | create {ms : Config} {trigger : Trigger} (body : r.members? = some ms)
      (trigger_read : Trigger.ofValue (Value.at ms "trigger") = .ok trigger)
      (bare : document? ms "graph" = none) :
      Asks r .createDefinition (.create ⟨Value.at ms "name", trigger,
        ⟨Value.at ms "org_id", Value.at ms "created_by"⟩, Graph.empty,
        (Assoc.find? "description" ms).getD (.text ""), [], none⟩)
  | createWith {ms : Config} {trigger : Trigger} {document : Value} {graph : Graph}
      {layout : Layout} (body : r.members? = some ms)
      (trigger_read : Trigger.ofValue (Value.at ms "trigger") = .ok trigger)
      (drawn : document? ms "graph" = some document) (graph_read : Graph.ofValue document = .ok graph)
      (layout_read : Layout.ofGraphValue document = .ok layout) :
      Asks r .createDefinition (.create ⟨Value.at ms "name", trigger,
        ⟨Value.at ms "org_id", Value.at ms "created_by"⟩, graph,
        (Assoc.find? "description" ms).getD (.text ""), layout, none⟩)
  | update {ms : Config} {id : Uuid} {trigger : Option Trigger} {graph : Option Graph}
      {expected : Value} (body : r.members? = some ms)
      (trigger_read : (document? ms "trigger").mapM Trigger.ofValue = .ok trigger)
      (graph_read : (document? ms "graph").mapM Graph.ofValue = .ok graph)
      (version : Reader.optionalInteger (Value.at ms "expected_version") = some expected) :
      Asks r (.updateDefinition id)
        (.update id ⟨Value.at ms "name", Value.at ms "description", trigger, graph⟩ expected)
  | delete {id : Uuid} : Asks r (.deleteDefinition id) (.delete id)
  | saveEdited {ms : Config} {id : Uuid} {edited : Editor.Graph} {expected : Value}
      (body : r.members? = some ms)
      (edited_read : Editor.Graph.ofValue (.object ms) = .ok edited)
      (version : Reader.optionalInteger (Value.at ms "expected_version") = some expected) :
      Asks r (.saveEditable id) (.saveEdited id edited expected)
  | govern {ms : Config} {id : Uuid} {action : ApprovalAction} (body : r.members? = some ms)
      (named : Value.at ms "action" = .text (Named.name action)) :
      Asks r (.govern id) (.govern action id (Value.at ms "actor_id") (Value.at ms "notes"))
  | activate {id : Uuid} : Asks r (.activate id) (.activate id)
  | pause {id : Uuid} : Asks r (.pause id) (.pause id)
  | startRun {id : Uuid} :
      Asks r (.startRun id)
        (.startRun id ((document? (r.members?.getD []) "context").getD .null))
  | completeRun {ms : Config} {id : Uuid} (body : r.members? = some ms) :
      Asks r (.completeRun id)
        (.completeRun id (Value.at ms "outcome") (Value.at ms "error"))
  | cancelRun {id : Uuid} : Asks r (.cancelRun id) (.cancelRun id)
  | install {ms : Config} {key : String} (body : r.members? = some ms) :
      Asks r (.installTemplate key)
        (.install (.text key) ⟨Value.at ms "org_id", Value.at ms "user_id"⟩ (Value.at ms "name"))

/-- A request asks an endpoint for one call at most. -/
theorem Asks.unique {r : Request} {endpoint : Endpoint} {call call' : Call}
    (h : Asks r endpoint call) (h' : Asks r endpoint call') : call = call' := by
  have hbody {ms ms' : Config} (hm : r.members? = some ms) (hm' : r.members? = some ms') :
      ms = ms' := Option.some.inj (hm.symm.trans hm')
  cases h with
  | create body trigger bare =>
    cases h' with
    | create body' trigger' _ =>
      obtain rfl := hbody body body'
      obtain rfl := Except.ok.inj (trigger.symm.trans trigger')
      rfl
    | createWith body' _ drawn =>
      obtain rfl := hbody body body'
      cases bare.symm.trans drawn
  | createWith body trigger drawn graph layout =>
    cases h' with
    | create body' _ bare =>
      obtain rfl := hbody body body'
      cases bare.symm.trans drawn
    | createWith body' trigger' drawn' graph' layout' =>
      obtain rfl := hbody body body'
      obtain rfl := Option.some.inj (drawn.symm.trans drawn')
      obtain rfl := Except.ok.inj (trigger.symm.trans trigger')
      obtain rfl := Except.ok.inj (graph.symm.trans graph')
      obtain rfl := Except.ok.inj (layout.symm.trans layout')
      rfl
  | update body trigger graph version =>
    cases h' with
    | update body' trigger' graph' version' =>
      obtain rfl := hbody body body'
      obtain rfl := Except.ok.inj (trigger.symm.trans trigger')
      obtain rfl := Except.ok.inj (graph.symm.trans graph')
      obtain rfl := Option.some.inj (version.symm.trans version')
      rfl
  | saveEdited body edited version =>
    cases h' with
    | saveEdited body' edited' version' =>
      obtain rfl := hbody body body'
      obtain rfl := Except.ok.inj (edited.symm.trans edited')
      obtain rfl := Option.some.inj (version.symm.trans version')
      rfl
  | govern body named =>
    cases h' with
    | govern body' named' =>
      obtain rfl := hbody body body'
      have hname := congrArg (Named.ofName? (α := ApprovalAction))
        (Value.text.inj (named.symm.trans named'))
      rw [ApprovalAction.ofName?_name, ApprovalAction.ofName?_name] at hname
      obtain rfl := Option.some.inj hname
      rfl
  | completeRun body =>
    cases h' with
    | completeRun body' =>
      obtain rfl := hbody body body'
      rfl
  | install body =>
    cases h' with
    | install body' =>
      obtain rfl := hbody body body'
      rfl
  | _ =>
    cases h'
    rfl

/-! ## Readers -/

section

variable {ms : Config} {key : String}

theorem required_text {t : String} (h : Reader.required ms key Reader.text = some t) :
    Value.at ms key = .text t := by
  obtain ⟨v, hv, ht⟩ := Option.bind_eq_some_iff.1 h
  unfold Value.at
  rw [hv]
  cases v with
  | text s => exact congrArg Value.text (Option.some.inj ht)
  | _ => cases ht

theorem required_named {α : Type} [Named α] [DecidableEq α] {admitted : List α} {a : α}
    (h : Reader.required ms key (Reader.named admitted) = some a) :
    Value.at ms key = .text (Named.name a) := by
  obtain ⟨v, hv, ha⟩ := Option.bind_eq_some_iff.1 h
  unfold Value.at
  rw [hv]
  exact Named.ofValue?_eq_some (Option.filter_eq_some_iff.1 ha).1

theorem default_text {absent t : String} (h : Reader.default ms key Reader.text absent = some t) :
    (Assoc.find? key ms).getD (.text absent) = .text t := by
  unfold Reader.default at h
  split at h
  next v hv =>
    rw [hv]
    cases v with
    | text s => exact congrArg Value.text (Option.some.inj h)
    | _ => cases h
  next hv =>
    rw [hv]
    exact congrArg Value.text (Option.some.inj h)

/-- What is read as null if it is missing is read from null. -/
theorem default_null {v : Value} (read : Reader Value) (hnull : read .null = some .null)
    (h : Reader.default ms key read .null = some v) : read (Value.at ms key) = some v := by
  unfold Value.at
  unfold Reader.default at h
  split at h
  next w hw =>
    rw [hw]
    exact h
  next hw =>
    rw [hw]
    exact hnull.trans h

theorem default_optionalText {v : Value}
    (h : Reader.default ms key Reader.optionalText .null = some v) : Value.at ms key = v := by
  have hread := default_null Reader.optionalText rfl h
  unfold Reader.optionalText at hread
  split at hread
  next hnull => exact hnull.trans (Option.some.inj hread)
  next htext => exact htext.trans (Option.some.inj hread)
  next => cases hread

end

theorem members?_of_isNull {v : Value} (h : Reader.isNull v = true) : v.members? = none := by
  cases v with
  | null => rfl
  | text s => rfl
  | _ => cases h

/-! ## Plans -/

/-- A plan whose program makes a call and shows its reply, with a status of success. -/
structure Plan.Makes (plan : Plan) (canvas : Editor.Canvas) (now : Timestamp) (call : Call) :
    Prop where
  status_mem : plan.status ∈ [200, 201, 204]
  program_eq : plan.program = call.program canvas now >>= fun reply => pure reply.view

/-- To show what an operation leads to is to show the reply to its call. -/
theorem viewed_eq {α : Type} {p : Program α} {view : α → Value} {call : Call}
    {canvas : Editor.Canvas} {now : Timestamp} (wrap : α → Reply)
    (hcall : call.program canvas now = p >>= fun a => pure (wrap a))
    (hview : ∀ a, (wrap a).view = view a) :
    p >>= (fun a => pure (view a)) = call.program canvas now >>= fun reply => pure reply.view := by
  rw [hcall]
  refine Eq.trans ?_ (Program.bind_assoc _ _ _).symm
  refine congrArg (Program.bind p) (funext fun a => ?_)
  rw [← hview]
  rfl

section

variable {r : Request} {ms : Config} {id : Uuid} {canvas : Editor.Canvas} {now : Timestamp}
  {plan : Plan}

theorem createPlan_asks (hm : r.members? = some ms) (hp : createPlan ms now = some plan)
    (h : Endpoint.createDefinition.documents ms = .ok ()) :
    ∃ call, Asks r .createDefinition call ∧ plan.Makes canvas now call := by
  obtain ⟨name, hname, hp⟩ := Option.bind_eq_some_iff.1 hp
  obtain ⟨org, horg, hp⟩ := Option.bind_eq_some_iff.1 hp
  obtain ⟨trigger, htrigger, hp⟩ := Option.bind_eq_some_iff.1 hp
  obtain ⟨graph, hgraph, hp⟩ := Option.bind_eq_some_iff.1 hp
  obtain ⟨description, hdescription, hp⟩ := Option.bind_eq_some_iff.1 hp
  obtain ⟨createdBy, hcreatedBy, hp⟩ := Option.bind_eq_some_iff.1 hp
  obtain rfl := Option.some.inj hp
  have hgraph := default_optional_object hgraph
  obtain ⟨t, ht, h⟩ := bind_eq_ok.1 h
  cases graph with
  | none =>
    refine ⟨_, .create hm ht hgraph.symm, by simp, ?_⟩
    rw [required_object htrigger] at ht
    rw [required_text hname, required_text horg, default_text hdescription,
      default_optionalText hcreatedBy]
    exact (lift_bind_of_ok ht).trans (viewed_eq .definition rfl fun _ => rfl)
  | some g =>
    simp only [← hgraph] at h
    obtain ⟨graph, hg, h⟩ := bind_eq_ok.1 h
    obtain ⟨layout, hl, -⟩ := bind_eq_ok.1 h
    refine ⟨_, .createWith hm ht hgraph.symm hg hl, by simp, ?_⟩
    rw [required_object htrigger] at ht
    rw [required_text hname, required_text horg, default_text hdescription,
      default_optionalText hcreatedBy]
    refine (lift_bind_of_ok ht).trans ((lift_bind_of_ok hg).trans ((lift_bind_of_ok hl).trans ?_))
    exact viewed_eq .definition rfl fun _ => rfl

theorem updatePlan_asks (hm : r.members? = some ms) (hp : updatePlan id ms now = some plan)
    (h : (Endpoint.updateDefinition id).documents ms = .ok ()) :
    ∃ call, Asks r (.updateDefinition id) call ∧ plan.Makes canvas now call := by
  obtain ⟨name, hname, hp⟩ := Option.bind_eq_some_iff.1 hp
  obtain ⟨description, hdescription, hp⟩ := Option.bind_eq_some_iff.1 hp
  obtain ⟨trigger, htrigger, hp⟩ := Option.bind_eq_some_iff.1 hp
  obtain ⟨graph, hgraph, hp⟩ := Option.bind_eq_some_iff.1 hp
  obtain ⟨expected, hexpected, hp⟩ := Option.bind_eq_some_iff.1 hp
  obtain rfl := Option.some.inj hp
  obtain ⟨t, ht, h⟩ := bind_eq_ok.1 h
  obtain ⟨g, hg, -⟩ := bind_eq_ok.1 h
  have hversion := default_null Reader.optionalInteger rfl hexpected
  refine ⟨_, .update hm ht hg hversion, by simp, ?_⟩
  rw [← default_optional_object htrigger, mapM_map_object] at ht
  rw [← default_optional_object hgraph, mapM_map_object] at hg
  rw [default_optionalText hname, default_optionalText hdescription]
  refine (lift_bind_of_ok ht).trans ((lift_bind_of_ok hg).trans ?_)
  exact viewed_eq .definition rfl fun _ => rfl

theorem saveEditablePlan_asks (hm : r.members? = some ms)
    (hp : saveEditablePlan id ms now = some plan)
    (h : (Endpoint.saveEditable id).documents ms = .ok ()) :
    ∃ call, Asks r (.saveEditable id) call ∧ plan.Makes canvas now call := by
  obtain ⟨nodes, hnodes, hp⟩ := Option.bind_eq_some_iff.1 hp
  obtain ⟨edges, hedges, hp⟩ := Option.bind_eq_some_iff.1 hp
  obtain ⟨expected, hexpected, hp⟩ := Option.bind_eq_some_iff.1 hp
  obtain rfl := Option.some.inj hp
  obtain ⟨edited, he, -⟩ := bind_eq_ok.1 h
  have hversion := default_null Reader.optionalInteger rfl hexpected
  refine ⟨_, .saveEdited hm he hversion, by simp, ?_⟩
  rw [editable_eq hnodes hedges] at he
  exact (lift_bind_of_ok he).trans (viewed_eq .definition rfl fun _ => rfl)

theorem governPlan_asks (hm : r.members? = some ms) (hp : governPlan id ms now = some plan) :
    ∃ call, Asks r (.govern id) call ∧ plan.Makes canvas now call := by
  obtain ⟨action, haction, hp⟩ := Option.bind_eq_some_iff.1 hp
  obtain ⟨actor, hactor, hp⟩ := Option.bind_eq_some_iff.1 hp
  obtain ⟨notes, hnotes, hp⟩ := Option.bind_eq_some_iff.1 hp
  obtain rfl := Option.some.inj hp
  refine ⟨_, .govern hm (required_named haction), by simp, ?_⟩
  rw [default_optionalText hactor, default_optionalText hnotes]
  exact viewed_eq .event rfl fun _ => rfl

theorem completeRunPlan_asks (hm : r.members? = some ms)
    (hp : completeRunPlan id ms now = some plan) :
    ∃ call, Asks r (.completeRun id) call ∧ plan.Makes canvas now call := by
  obtain ⟨outcome, houtcome, hp⟩ := Option.bind_eq_some_iff.1 hp
  obtain ⟨error, herror, hp⟩ := Option.bind_eq_some_iff.1 hp
  obtain rfl := Option.some.inj hp
  refine ⟨_, .completeRun hm, by simp, ?_⟩
  rw [required_named houtcome, default_optionalText herror]
  exact viewed_eq .run rfl fun _ => rfl

theorem installPlan_asks {key : String} (hm : r.members? = some ms)
    (hp : installPlan key ms now = some plan) :
    ∃ call, Asks r (.installTemplate key) call ∧ plan.Makes canvas now call := by
  obtain ⟨org, horg, hp⟩ := Option.bind_eq_some_iff.1 hp
  obtain ⟨user, huser, hp⟩ := Option.bind_eq_some_iff.1 hp
  obtain ⟨name, hname, hp⟩ := Option.bind_eq_some_iff.1 hp
  obtain rfl := Option.some.inj hp
  refine ⟨_, .install hm, by simp, ?_⟩
  rw [required_text horg, default_optionalText huser, default_optionalText hname]
  exact viewed_eq .definition rfl fun _ => rfl

/-- A body that counts as null has no context. -/
theorem startRunPlan_asks {body : Value} (hb : r.body.value? = some body)
    (hp : startRunPlan id body now = some plan) :
    ∃ call, Asks r (.startRun id) call ∧ plan.Makes canvas now call := by
  obtain ⟨context, hcontext, hplan⟩ : ∃ context : Option Config,
      document? (r.members?.getD []) "context" = context.map Value.object ∧
      plan = ⟨201, Service.startRun id ((context.map Value.object).getD .null) now >>=
        fun r => pure r.view⟩ := by
    have hm : r.members? = body.members? := by
      unfold Request.members?
      rw [hb]
      rfl
    unfold startRunPlan at hp
    by_cases hnull : Reader.isNull body = true
    · rw [if_pos hnull] at hp
      refine ⟨none, ?_, (Option.some.inj hp).symm⟩
      rw [hm, members?_of_isNull hnull]
      rfl
    · rw [if_neg hnull] at hp
      obtain ⟨ms, hms, hp⟩ := Option.bind_eq_some_iff.1 hp
      obtain ⟨context, hcontext, hp⟩ := Option.bind_eq_some_iff.1 hp
      refine ⟨context, ?_, (Option.some.inj hp).symm⟩
      rw [hm, hms, Option.getD_some, default_optional_object hcontext]
  subst hplan
  refine ⟨_, .startRun, by simp, ?_⟩
  rw [hcontext]
  exact viewed_eq .run rfl fun _ => rfl

/-- What is reached by another method than `GET` fails before it has taken a step, or makes the
call that the request asks for and does nothing else. -/
theorem Endpoint.plan_asks {endpoint : Endpoint} (hw : endpoint.method ≠ "GET")
    (hp : endpoint.plan? r canvas now = some plan) :
    (∃ e, plan.program = .fail e) ∨
      ∃ call, Asks r endpoint call ∧ plan.Makes canvas now call := by
  have hread {ms : Config} (hm : r.members? = some ms)
      (h : endpoint.documents ms = .ok () →
        ∃ call, Asks r endpoint call ∧ plan.Makes canvas now call) :
      (∃ e, plan.program = .fail e) ∨
        ∃ call, Asks r endpoint call ∧ plan.Makes canvas now call := by
    cases hd : endpoint.documents ms with
    | error e => exact .inl ⟨e, Endpoint.plan_fails hp hm hd⟩
    | ok _ => exact .inr (h hd)
  cases endpoint with
  | createDefinition =>
    obtain ⟨ms, hm, hplan⟩ := Option.bind_eq_some_iff.1 hp
    exact hread hm (createPlan_asks hm hplan)
  | updateDefinition id =>
    obtain ⟨ms, hm, hplan⟩ := Option.bind_eq_some_iff.1 hp
    exact hread hm (updatePlan_asks hm hplan)
  | saveEditable id =>
    obtain ⟨ms, hm, hplan⟩ := Option.bind_eq_some_iff.1 hp
    exact hread hm (saveEditablePlan_asks hm hplan)
  | govern id =>
    obtain ⟨ms, hm, hplan⟩ := Option.bind_eq_some_iff.1 hp
    exact .inr (governPlan_asks hm hplan)
  | completeRun id =>
    obtain ⟨ms, hm, hplan⟩ := Option.bind_eq_some_iff.1 hp
    exact .inr (completeRunPlan_asks hm hplan)
  | installTemplate key =>
    obtain ⟨ms, hm, hplan⟩ := Option.bind_eq_some_iff.1 hp
    exact .inr (installPlan_asks hm hplan)
  | startRun id =>
    obtain ⟨body, hb, hplan⟩ := Option.bind_eq_some_iff.1 hp
    exact .inr (startRunPlan_asks hb hplan)
  | deleteDefinition id =>
    obtain rfl := Option.some.inj hp
    exact .inr ⟨_, .delete, by simp, viewed_eq (fun _ => .nothing) rfl fun _ => rfl⟩
  | activate id =>
    obtain rfl := Option.some.inj hp
    exact .inr ⟨_, .activate, by simp, viewed_eq .definition rfl fun _ => rfl⟩
  | pause id =>
    obtain rfl := Option.some.inj hp
    exact .inr ⟨_, .pause, by simp, viewed_eq .definition rfl fun _ => rfl⟩
  | cancelRun id =>
    obtain rfl := Option.some.inj hp
    exact .inr ⟨_, .cancelRun, by simp, viewed_eq .run rfl fun _ => rfl⟩
  | _ => exact absurd rfl hw

end

end Rest

end Workflow
