import Workflow.Proofs.Editor.Refusal
import Workflow.Proofs.Service.Orderly
import Workflow.Rest.Api

/-!
# Requests with documents that are refused

Some requests carry a trigger, a graph or an editor graph.  These are read before a
step is taken on the store, so a request of which a document is refused is answered
by 400 and changes nothing; of a place beyond the doubles the answer is 500.

    decoders fail by refusing, or stop at a place beyond the doubles    (documents_refused)
-/

namespace Workflow.Rest

/-! ## Readers -/

/-- A document in the body of a request; null stands for none. -/
def document? (ms : Config) (key : String) : Option Value :=
  (Assoc.find? key ms).filter (!Reader.isNull ·)

theorem required_object {ms : Config} {key : String} {d : Config}
    (h : Reader.required ms key Reader.object = some d) : Value.at ms key = .object d := by
  obtain ⟨v, hv, hd⟩ := Option.bind_eq_some_iff.1 h
  unfold Value.at
  rw [hv]
  cases v with
  | object ms => exact congrArg Value.object (Option.some.inj hd)
  | _ => cases hd

theorem default_optional_object {ms : Config} {key : String} {d : Option Config}
    (h : Reader.default ms key (Reader.optional Reader.object) none = some d) :
    d.map Value.object = document? ms key := by
  unfold Reader.default at h
  unfold document?
  split at h
  next v hv =>
    rw [hv]
    unfold Reader.optional at h
    split at h
    next hnull =>
      cases h
      rw [Option.filter_some, if_neg (by simp [hnull])]
      rfl
    next hnull =>
      obtain ⟨c, hc, rfl⟩ := Option.map_eq_some_iff.1 h
      rw [Option.filter_some, if_pos (by simp [hnull])]
      cases v with
      | object ms => exact congrArg (fun c => some (Value.object c)) (Option.some.inj hc).symm
      | _ => cases hc
  next hv =>
    cases h
    rw [hv]
    rfl

theorem mapM_object {items : List Value} {ds : List Config}
    (h : items.mapM Reader.object = some ds) : items = ds.map Value.object := by
  induction items generalizing ds with
  | nil =>
    cases h
    rfl
  | cons item rest ih =>
    rw [List.mapM_cons] at h
    obtain ⟨d, hd, h⟩ := Option.bind_eq_some_iff.1 h
    obtain ⟨later, hlater, h⟩ := Option.bind_eq_some_iff.1 h
    cases h
    cases item with
    | object ms =>
      cases hd
      rw [List.map_cons, ← ih hlater]
    | _ => cases hd

theorem default_listOf_object {ms : Config} {key : String} {ds : List Config}
    (h : Reader.default ms key (Reader.listOf Reader.object) [] = some ds) :
    (Assoc.find? key ms).getD (.list []) = .list (ds.map Value.object) := by
  unfold Reader.default at h
  split at h
  next v hv =>
    rw [hv]
    cases v with
    | list items => exact congrArg Value.list (mapM_object h)
    | _ => cases h
  next hv =>
    cases h
    rw [hv]
    rfl

/-! ## What an endpoint reads -/

/-- The documents in the body of a request, as an endpoint reads them one after the other. -/
def Endpoint.documents (endpoint : Endpoint) (ms : Config) : Except Error Unit :=
  match endpoint with
  | .createDefinition => do
    let _ ← Trigger.ofValue (Value.at ms "trigger")
    match document? ms "graph" with
    | none => pure ()
    | some g => do
      let _ ← Graph.ofValue g
      let _ ← Layout.ofGraphValue g
      pure ()
  | .updateDefinition _ => do
    let _ ← (document? ms "trigger").mapM Trigger.ofValue
    let _ ← (document? ms "graph").mapM Graph.ofValue
    pure ()
  | .saveEditable _ => do
    let _ ← Editor.Graph.ofValue (.object ms)
    pure ()
  | _ => pure ()

/-- An endpoint gets as far as a place that is beyond the doubles. -/
def Endpoint.Unplaceable (endpoint : Endpoint) (ms : Config) : Prop :=
  match endpoint with
  | .createDefinition =>
    ∃ t, Trigger.ofValue (Value.at ms "trigger") = .ok t ∧ ∃ g, document? ms "graph" = some g ∧
      ∃ graph, Graph.ofValue g = .ok graph ∧ Layout.Unplaceable g
  | .saveEditable _ => Editor.Graph.Unplaceable (.object ms)
  | _ => False

theorem mapM_refuses {α β : Type} (d : Option α) {f : α → Except Error β} (hf : ∀ a, Refuses (f a)) :
    Refuses (d.mapM f) := by
  cases d with
  | none => exact .ok _
  | some a => exact (hf a).bind fun b _ => .ok _

theorem Endpoint.documents_refusesUnless (endpoint : Endpoint) (ms : Config) :
    RefusesUnless (endpoint.Unplaceable ms) (endpoint.documents ms) := by
  cases endpoint with
  | createDefinition =>
    refine (Trigger.ofValue_refuses _).bindUnless fun t _ => ?_
    cases document? ms "graph" with
    | none => exact (Refuses.ok _).notFar nofun
    | some g =>
      refine RefusesUnless.congr (Refuses.bindUnless (Graph.ofValue_refuses g) fun graph _ =>
        (Layout.ofGraphValue_refusesUnless g).bindRefuses fun layout _ => .ok _) ?_
      exact ⟨fun ⟨g', hg, h⟩ => Option.some.inj hg ▸ h, fun h => ⟨g, rfl, h⟩⟩
  | updateDefinition id =>
    refine Refuses.notFar ?_ nofun
    refine (mapM_refuses _ Trigger.ofValue_refuses).bind fun trigger _ => ?_
    exact (mapM_refuses _ Graph.ofValue_refuses).bind fun graph _ => .ok _
  | saveEditable id =>
    exact (Editor.Graph.ofValue_refusesUnless (.object ms)).bindRefuses fun g _ => .ok _
  | _ => exact (Refuses.ok _).notFar nofun

/-! ## What is answered -/

theorem lift_bind_of_error {α β : Type} {x : Except Error α} {f : α → Program β} {e : Error}
    (h : x = .error e) : Program.lift x >>= f = .fail e := by
  subst h
  rfl

theorem lift_bind_of_ok {α β : Type} {x : Except Error α} {f : α → Program β} {a : α}
    (h : x = .ok a) : Program.lift x >>= f = f a := by
  subst h
  rfl

theorem mapM_map_object {α : Type} (d : Option Config) (f : Value → Except Error α) :
    (d.map Value.object).mapM f = d.mapM fun c => f (.object c) := by
  cases d <;> rfl

section

variable {ms : Config} {now : Timestamp} {plan : Plan} {e : Error}

theorem createPlan_fails (hp : createPlan ms now = some plan)
    (h : Endpoint.createDefinition.documents ms = .error e) : plan.program = .fail e := by
  obtain ⟨name, -, hp⟩ := Option.bind_eq_some_iff.1 hp
  obtain ⟨org, -, hp⟩ := Option.bind_eq_some_iff.1 hp
  obtain ⟨trigger, htrigger, hp⟩ := Option.bind_eq_some_iff.1 hp
  obtain ⟨graph, hgraph, hp⟩ := Option.bind_eq_some_iff.1 hp
  obtain ⟨description, -, hp⟩ := Option.bind_eq_some_iff.1 hp
  obtain ⟨createdBy, -, hp⟩ := Option.bind_eq_some_iff.1 hp
  obtain rfl := Option.some.inj hp
  unfold Endpoint.documents at h
  simp only [required_object htrigger, ← default_optional_object hgraph] at h
  rcases bind_eq_error.1 h with ht | ⟨t, ht, h⟩
  · exact lift_bind_of_error ht
  · refine (lift_bind_of_ok ht).trans ?_
    cases graph with
    | none => cases h
    | some g =>
      rcases bind_eq_error.1 h with hg | ⟨graph, hg, h⟩
      · exact lift_bind_of_error hg
      · refine (lift_bind_of_ok hg).trans ?_
        rcases bind_eq_error.1 h with hl | ⟨layout, -, h⟩
        · exact lift_bind_of_error hl
        · cases h

theorem updatePlan_fails {id : Uuid} (hp : updatePlan id ms now = some plan)
    (h : (Endpoint.updateDefinition id).documents ms = .error e) : plan.program = .fail e := by
  obtain ⟨name, -, hp⟩ := Option.bind_eq_some_iff.1 hp
  obtain ⟨description, -, hp⟩ := Option.bind_eq_some_iff.1 hp
  obtain ⟨trigger, htrigger, hp⟩ := Option.bind_eq_some_iff.1 hp
  obtain ⟨graph, hgraph, hp⟩ := Option.bind_eq_some_iff.1 hp
  obtain ⟨expected, -, hp⟩ := Option.bind_eq_some_iff.1 hp
  obtain rfl := Option.some.inj hp
  unfold Endpoint.documents at h
  simp only [← default_optional_object htrigger, ← default_optional_object hgraph,
    mapM_map_object] at h
  rcases bind_eq_error.1 h with ht | ⟨t, ht, h⟩
  · exact lift_bind_of_error ht
  · refine (lift_bind_of_ok ht).trans ?_
    rcases bind_eq_error.1 h with hg | ⟨g, -, h⟩
    · exact lift_bind_of_error hg
    · cases h

/-- Of the body of an editor graph only its lists are read. -/
theorem editable_eq {nodes edges : List Config}
    (hnodes : Reader.default ms "nodes" (Reader.listOf Reader.object) [] = some nodes)
    (hedges : Reader.default ms "edges" (Reader.listOf Reader.object) [] = some edges) :
    Editor.Graph.ofValue (.object ms) = Editor.Graph.ofValue
      (.object [("nodes", .list (nodes.map .object)), ("edges", .list (edges.map .object))]) := by
  have hlists : requireLists "Editable graph" (.object ms) = requireLists "Editable graph"
      (.object [("nodes", .list (nodes.map .object)), ("edges", .list (edges.map .object))]) := by
    simp only [requireLists, default_listOf_object hnodes, default_listOf_object hedges]
    rfl
  unfold Editor.Graph.ofValue
  rw [hlists]

theorem saveEditablePlan_fails {id : Uuid} (hp : saveEditablePlan id ms now = some plan)
    (h : (Endpoint.saveEditable id).documents ms = .error e) : plan.program = .fail e := by
  obtain ⟨nodes, hnodes, hp⟩ := Option.bind_eq_some_iff.1 hp
  obtain ⟨edges, hedges, hp⟩ := Option.bind_eq_some_iff.1 hp
  obtain ⟨expected, -, hp⟩ := Option.bind_eq_some_iff.1 hp
  obtain rfl := Option.some.inj hp
  rcases bind_eq_error.1 h with hg | ⟨g, -, h⟩
  · rw [editable_eq hnodes hedges] at hg
    exact lift_bind_of_error hg
  · cases h

end

/-- What carries a document that is not read fails before it has taken a step. -/
theorem Endpoint.plan_fails {endpoint : Endpoint} {r : Request} {canvas : Editor.Canvas}
    {now : Timestamp} {plan : Plan} {ms : Config} {e : Error}
    (hp : endpoint.plan? r canvas now = some plan) (hm : r.members? = some ms)
    (h : endpoint.documents ms = .error e) : plan.program = .fail e := by
  cases endpoint with
  | createDefinition =>
    obtain ⟨ms', hm', hp⟩ := Option.bind_eq_some_iff.1 hp
    obtain rfl := Option.some.inj (hm.symm.trans hm')
    exact createPlan_fails hp h
  | updateDefinition id =>
    obtain ⟨ms', hm', hp⟩ := Option.bind_eq_some_iff.1 hp
    obtain rfl := Option.some.inj (hm.symm.trans hm')
    exact updatePlan_fails hp h
  | saveEditable id =>
    obtain ⟨ms', hm', hp⟩ := Option.bind_eq_some_iff.1 hp
    obtain rfl := Option.some.inj (hm.symm.trans hm')
    exact saveEditablePlan_fails hp h
  | _ => cases h

theorem Request.serve_fails {σ : Type} [Store.Backend σ] {endpoint : Endpoint} {r : Request}
    {canvas : Editor.Canvas} {now : Timestamp} {plan : Plan} {ms : Config} {e : Error}
    (hr : Route.resolve r.method r.path = .ok endpoint)
    (hp : endpoint.plan? r canvas now = some plan) (hm : r.members? = some ms)
    (h : endpoint.documents ms = .error e) (sources : Program.Sources) (s : Program.Session σ) :
    r.serve canvas now sources s = (Response.ofError e, [], s) := by
  have hfails := Endpoint.plan_fails hp hm h
  simp only [Request.serve, Request.plan, hr, hp, hfails]
  rfl

/-- Every decoder fails only by refusing an element of the document, and the answer to a
request with such a document is 400.  Reading places stops at the first one that is beyond
the doubles, and that alone is another error, and answered by 500. -/
theorem documents_refused (raw : Value) {σ : Type} [Store.Backend σ] (r : Request)
    (canvas : Editor.Canvas) (now : Timestamp) (sources : Program.Sources)
    (s : Program.Session σ) :
    Refuses (Graph.ofValue raw) ∧ Refuses (Trigger.ofValue raw) ∧
      RefusesUnless (Layout.Unplaceable raw) (Layout.ofGraphValue raw) ∧
      RefusesUnless (Editor.Graph.Unplaceable raw) (Editor.Graph.ofValue raw) ∧
      RefusesUnless (Editor.Graph.Unplaceable raw)
        (Editor.Graph.ofValue raw >>= Editor.Graph.compile) ∧
      ∀ endpoint ms plan e, Route.resolve r.method r.path = .ok endpoint → r.members? = some ms →
        endpoint.plan? r canvas now = some plan → endpoint.documents ms = .error e →
        r.serve canvas now sources s = (Response.ofError e, [], s) ∧
          (¬ endpoint.Unplaceable ms → (Response.ofError e).status = 400) ∧
          (endpoint.Unplaceable ms → (Response.ofError e).status = 500) := by
  have hread := Editor.Graph.ofValue_refusesUnless raw
  refine ⟨Graph.ofValue_refuses raw, Trigger.ofValue_refuses raw,
    Layout.ofGraphValue_refusesUnless raw, hread,
    hread.bindRefuses fun edited _ => edited.draft.compile_refuses, ?_⟩
  intro endpoint ms plan e hr hm hp h
  have hdocuments := endpoint.documents_refusesUnless ms
  refine ⟨Request.serve_fails hr hp hm h sources s, fun hnear => ?_, fun hfar => ?_⟩
  · obtain ⟨element, cause, rfl⟩ := (hdocuments.refuses hnear).isRefusal e h
    rfl
  · obtain rfl := Except.error.inj (h.symm.trans (hdocuments.overflows hfar))
    rfl

/-- A graph whose only step is placed there on a line. -/
def placed (x : Value) : Value :=
  .object [("nodes", .list [.object [("id", .text "a"), ("type", .text "action"),
    ("position", .object [("x", x), ("y", .int 0)])]])]

/-- A step whose place is beyond the doubles. -/
def farAway : Value := placed (.int (10 ^ 400))

theorem tooLarge_farAway :
    Position.TooLarge (.object [("x", .int (10 ^ 400)), ("y", .int 0)]) := by
  refine ⟨_, .int (10 ^ 400), .int 0, rfl, rfl, rfl, .inl ?_⟩
  rw [← Number.toFloat?_eq_none_iff]
  decide +kernel

theorem unplaceable_farAway : Layout.Unplaceable farAway :=
  ⟨_, rfl, [], _, [], [], rfl, rfl, "a", _, rfl, rfl, tooLarge_farAway⟩

/-- What an automation is to be made of. -/
def welcome (graph : Value) : Config :=
  [("name", .text "Welcome"), ("org_id", .text "acme"),
    ("trigger", .object [("kind", .text "event"), ("event_type", .text "lead.created")]),
    ("graph", graph)]

def making (graph : Value) : Request :=
  ⟨"POST", ["definitions"], [], .value (.object (welcome graph))⟩

/-- Of two requests, one has a place beyond the doubles, the other one that is no place. -/
theorem documents_refused_making :
    let now : Timestamp := ⟨0, some 0⟩
    let s := Service.newSession (Store.Memory.empty .empty)
    Route.resolve "POST" ["definitions"] = .ok .createDefinition ∧
    (Endpoint.createDefinition.Unplaceable (welcome farAway) ∧
      ∃ plan e, (making farAway).members? = some (welcome farAway) ∧
        Endpoint.createDefinition.plan? (making farAway) .standard now = some plan ∧
        Endpoint.createDefinition.documents (welcome farAway) = .error e ∧
        (making farAway).serve .standard now Service.counting s = (.ofError e, [], s) ∧
        (Response.ofError e).status = 500) ∧
    ¬ Endpoint.createDefinition.Unplaceable (welcome (placed (.text "0"))) ∧
      ∃ plan e, (making (placed (.text "0"))).members? = some (welcome (placed (.text "0"))) ∧
        Endpoint.createDefinition.plan? (making (placed (.text "0"))) .standard now = some plan ∧
        Endpoint.createDefinition.documents (welcome (placed (.text "0"))) = .error e ∧
        (making (placed (.text "0"))).serve .standard now Service.counting s
          = (.ofError e, [], s) ∧
        (Response.ofError e).status = 400 := by
  intro now s
  have hroute : Route.resolve "POST" ["definitions"] = .ok .createDefinition := rfl
  have hfar : Endpoint.createDefinition.Unplaceable (welcome farAway) :=
    ⟨_, rfl, _, rfl, _, rfl, unplaceable_farAway⟩
  have hoverflow : Endpoint.createDefinition.documents (welcome farAway)
      = .error (.faulty .integerTooLarge) :=
    (Endpoint.documents_refusesUnless .createDefinition _).overflows hfar
  have hmalformed : ∃ element cause,
      Endpoint.createDefinition.documents (welcome (placed (.text "0")))
        = .error (.malformed element cause) := ⟨_, _, rfl⟩
  obtain ⟨element, cause, hmalformed⟩ := hmalformed
  have hnear : ¬ Endpoint.createDefinition.Unplaceable (welcome (placed (.text "0"))) := by
    intro h
    cases hmalformed.symm.trans ((Endpoint.documents_refusesUnless .createDefinition _).overflows h)
  have hanswer (graph : Value) :=
    (documents_refused graph (making graph) .standard now Service.counting s).2.2.2.2.2
      .createDefinition (welcome graph)
  refine ⟨hroute, ⟨hfar, _, _, rfl, rfl, hoverflow, ?_⟩, hnear, _, _, rfl, rfl, hmalformed, ?_⟩
  · obtain ⟨hserve, -, hstatus⟩ := hanswer farAway _ _ hroute rfl rfl hoverflow
    exact ⟨hserve, hstatus hfar⟩
  · obtain ⟨hserve, hstatus, -⟩ := hanswer (placed (.text "0")) _ _ hroute rfl rfl hmalformed
    exact ⟨hserve, hstatus hnear⟩

theorem farAway_not_refused :
    ¬ Refuses (Layout.ofGraphValue farAway) ∧ ¬ Refuses (Editor.Graph.ofValue farAway) := by
  have hlayout : Layout.ofGraphValue farAway = .error (.faulty .integerTooLarge) :=
    (Layout.ofGraphValue_refusesUnless farAway).overflows unplaceable_farAway
  have hedited : Editor.Graph.ofValue farAway = .error (.faulty .integerTooLarge) := by
    apply (Editor.Graph.ofValue_refusesUnless farAway).overflows
    exact ⟨(_, []), rfl, [], _, [], [], rfl, rfl, _, _, _, rfl, rfl, tooLarge_farAway, rfl⟩
  constructor
  · rintro ⟨h⟩
    obtain ⟨element, cause, he⟩ := h _ hlayout
    cases he
  · rintro ⟨h⟩
    obtain ⟨element, cause, he⟩ := h _ hedited
    cases he

end Workflow.Rest
