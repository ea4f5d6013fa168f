import Workflow.Proofs.Program.Alike
import Workflow.Proofs.Rest.Asking
import Workflow.Proofs.Service.Traceless
import Workflow.Rest.App

/-!
# What is answered, and what has happened then

A request that is refused, or of which nothing is found, or that is in conflict with
what is stored, has changed nothing in memory and announced nothing.  Each error of
the domain has a status and is shown with its cause.  A request that may change
something and succeeds is one call of the service: the call alone would have had the
same reply, and would have announced the same and left the same behind.  The body of
the answer shows what was replied.

    only reads → announces nothing, leaves the store as it was     (Program.OnlyReads.run)
    each error is shown as it is to be                             (reports_ofError)
    requests are what they ask of the service                      (answers_faithful)
-/

namespace Workflow

open Store (Backend Memory)

/-! ## Programs that only read -/

namespace Program

variable {α β : Type}

/-- Every step that is taken only reads, nothing is announced and no identifier is used. -/
def OnlyReads : Program α → Prop
  | done _ | fail _ => True
  | take step next => Service.reads step = true ∧ ∀ a, (next a).OnlyReads
  | announce _ _ | fresh _ => False
  | draw _ next => ∀ draws, (next draws).OnlyReads

namespace OnlyReads

theorem bind {p : Program α} {f : α → Program β} (hp : p.OnlyReads) (hf : ∀ a, (f a).OnlyReads) :
    (p >>= f).OnlyReads := by
  show (p.bind f).OnlyReads
  induction p with
  | done a => exact hf a
  | fail e => trivial
  | take step next ih => exact ⟨hp.1, fun a => ih a (hp.2 a)⟩
  | announce e next ih => exact hp.elim
  | fresh next ih => exact hp.elim
  | draw count next ih => exact fun draws => ih draws (hp draws)

theorem lift (x : Except Error α) : (Program.lift x).OnlyReads := by
  cases x <;> trivial

theorem step {step : Store.Step} (h : Service.reads step = true) : (Program.step step).OnlyReads :=
  ⟨h, fun _ => trivial⟩

/-- Carried out, it announces nothing and leaves the store as it was, also if it fails. -/
theorem run {σ : Type} [Backend σ] (ha : Service.Atomic σ) {sources : Sources} {p : Program α}
    (h : p.OnlyReads) (s : Session σ) :
    (p.run sources s).session.store = s.store ∧ (p.run sources s).events = [] := by
  induction p generalizing s with
  | done a => exact ⟨rfl, rfl⟩
  | fail e => exact ⟨rfl, rfl⟩
  | take step next ih =>
    rcases ha.run_read s step h.1 next with ⟨e, hfailed⟩ | ⟨a, -, hrun⟩
    · rw [hfailed]
      exact ⟨rfl, rfl⟩
    · rw [hrun]
      exact ih a (h.2 a) s
  | announce e next ih => exact h.elim
  | fresh next ih => exact h.elim
  | draw count next ih => exact ih _ (h _) _

end OnlyReads

/-- Showing the result of a program changes nothing else. -/
theorem run_shown {σ : Type} [Backend σ] (sources : Sources) (p : Program α) (f : α → β)
    (s : Session σ) : (p >>= fun a => pure (f a)).run sources s
      = ⟨(p.run sources s).result.map f, (p.run sources s).events, (p.run sources s).session⟩ := by
  show (p.bind _).run sources s = _
  rw [run_bind]
  unfold Outcome.andThen
  cases (p.run sources s).result with
  | error e => rfl
  | ok a =>
    show Outcome.mk _ (_ ++ []) _ = _
    rw [List.append_nil]
    rfl

end Program

/-- In memory a call that fails leaves everything as it was. -/
theorem Service.traceless_memory (sources : Program.Sources) (canvas : Editor.Canvas)
    (now : Timestamp) (s : Program.Session Memory) (call : Service.Call) :
    Service.Traceless s ((call.program canvas now).run sources s) := by
  intro e he
  have ho := Service.atomic_memory.effect_program sources canvas now s call
  refine ⟨ho.store_of_error (fun m event failure m' hrefused => ?_) he, ho.events_of_error he⟩
  cases hrefused

/-- The reply to a call that may change something is shown whole. -/
theorem Service.Call.carriedBy_view {σ : Type} [Backend σ] {call : Service.Call}
    (h : call.reading = false) {canvas : Editor.Canvas} {now : Timestamp}
    {sources : Program.Sources} {s : Program.Session σ} {reply : Service.Reply}
    (hr : ((call.program canvas now).run sources s).result = .ok reply) :
    reply.CarriedBy reply.view := by
  -- every program ends by wrapping what the operation has led to
  have hwrapped {α : Type} {p : Program α} (wrap : α → Service.Reply)
      (hp : call.program canvas now = p >>= fun a => pure (wrap a)) : ∃ a, reply = wrap a := by
    rw [hp, Program.run_shown] at hr
    obtain ⟨a, -, ha⟩ := map_eq_ok.1 hr
    exact ⟨a, ha.symm⟩
  have hdefinition {p : Program Definition}
      (hp : call.program canvas now = p >>= fun d => pure (.definition d)) :
      reply.CarriedBy reply.view := by
    obtain ⟨d, rfl⟩ := hwrapped .definition hp
    exact .definition d.shownBy_view
  have hrun {p : Program Run} (hp : call.program canvas now = p >>= fun r => pure (.run r)) :
      reply.CarriedBy reply.view := by
    obtain ⟨r, rfl⟩ := hwrapped .run hp
    exact .run r.shownBy_view
  cases call with
  | create p => exact hdefinition rfl
  | update id r expected => exact hdefinition rfl
  | saveEdited id edited expected => exact hdefinition rfl
  | activate id => exact hdefinition rfl
  | pause id => exact hdefinition rfl
  | install key context name => exact hdefinition rfl
  | govern action id actor notes =>
    obtain ⟨e, rfl⟩ := hwrapped .event rfl
    exact .event e.shownBy_view
  | delete id =>
    obtain ⟨_, rfl⟩ := hwrapped (fun _ => .nothing) rfl
    exact .nothing
  | startRun id context => exact hrun rfl
  | completeRun id outcome error => exact hrun rfl
  | cancelRun id => exact hrun rfl
  | _ => cases h

namespace Rest

open Service (Call Reply)

/-! ## Endpoints that read -/

theorem listed_onlyReads {α : Type} {p : Program (List α)} (hp : p.OnlyReads) (view : α → Value) :
    (listed view p).OnlyReads := hp.bind fun _ => trivial

theorem viewed_onlyReads {α : Type} {p : Program α} (hp : p.OnlyReads) (view : α → Value) :
    (viewed view p).OnlyReads := hp.bind fun _ => trivial

/-- What is reached by `GET` only reads. -/
theorem Endpoint.plan_onlyReads {endpoint : Endpoint} {r : Request} {canvas : Editor.Canvas}
    {now : Timestamp} {plan : Plan} (hg : endpoint.method = "GET")
    (hp : endpoint.plan? r canvas now = some plan) : plan.program.OnlyReads := by
  have hstep {step : Store.Step} (h : Service.reads step = true) : (Program.step step).OnlyReads :=
    .step h
  cases endpoint with
  | listDefinitions =>
    obtain rfl := Option.some.inj hp
    exact listed_onlyReads (hstep rfl) _
  | getDefinition id =>
    obtain rfl := Option.some.inj hp
    exact viewed_onlyReads (hstep rfl) _
  | getEditable id =>
    obtain rfl := Option.some.inj hp
    exact (hstep rfl).bind fun d draws => (Program.OnlyReads.lift _).bind fun _ => trivial
  | getGraph id =>
    obtain rfl := Option.some.inj hp
    exact (hstep rfl).bind fun d => .lift _
  | listApprovals id =>
    obtain rfl := Option.some.inj hp
    exact listed_onlyReads ((hstep rfl).bind fun _ => hstep rfl) _
  | listRuns id =>
    obtain ⟨limit, -, hp⟩ := Option.bind_eq_some_iff.1 hp
    obtain rfl := Option.some.inj hp
    exact (hstep rfl).bind fun _ => listed_onlyReads (hstep rfl) _
  | summarizeRuns id =>
    obtain rfl := Option.some.inj hp
    exact viewed_onlyReads ((hstep rfl).bind fun _ => hstep rfl) _
  | listOrgRuns =>
    obtain ⟨org, -, hp⟩ := Option.bind_eq_some_iff.1 hp
    obtain ⟨limit, -, hp⟩ := Option.bind_eq_some_iff.1 hp
    obtain rfl := Option.some.inj hp
    exact listed_onlyReads (hstep rfl) _
  | getRun id =>
    obtain rfl := Option.some.inj hp
    exact viewed_onlyReads (hstep rfl) _
  | listTemplates =>
    obtain rfl := Option.some.inj hp
    exact listed_onlyReads (hstep rfl) _
  | _ => simp [Endpoint.method] at hg

/-! ## Errors -/

/-- The body of a response is an object with this member. -/
def Response.Shows (response : Response) (key : String) (v : Value) : Prop :=
  ∃ ms, response.body = some (.object ms) ∧ Assoc.find? key ms = some v

/-- How an error is to be answered: what is wrong with a request by 400, what is missing by 404,
and a conflict with what is stored by 409. -/
def Reports (response : Response) : Error → Prop
  | .invalid violations =>
    response.status = 400 ∧ response.Shows "violations" (.list (violations.map .text))
  | .malformed element cause =>
    response.status = 400 ∧ ∃ message, (Error.malformed element cause).message? = some message ∧
      response.Shows "violations" (.list [.text message])
  | .definitionMissing _ | .runMissing _ | .templateMissing _ => response.status = 404
  | .unapproved .. | .unsigned .. | .inactive .. | .refusedAction .. | .refusedPause ..
  | .runFinished .. => response.status = 409
  | .stale _ expected actual =>
    response.status = 409 ∧ response.Shows "expected_version" expected ∧
      response.Shows "actual_version" (.int actual)
  | .faulty _ => response.status = 500

theorem reports_ofError (e : Error) : Reports (Response.ofError e) e := by
  cases e with
  | invalid violations => exact ⟨rfl, _, rfl, rfl⟩
  | malformed element cause => exact ⟨rfl, _, rfl, _, rfl, rfl⟩
  | stale id expected actual => exact ⟨rfl, ⟨_, rfl, rfl⟩, _, rfl, rfl⟩
  | _ => rfl

theorem Reports.le_status {response : Response} {e : Error} (h : Reports response e) :
    400 ≤ response.status := by
  cases e with
  | invalid violations => exact Nat.le_of_eq h.1.symm
  | malformed element cause => exact Nat.le_of_eq h.1.symm
  | stale id expected actual => exact Nat.le_trans (by decide) (Nat.le_of_eq h.1.symm)
  | _ => exact Nat.le_trans (by decide) (Nat.le_of_eq (Eq.symm h))

/-! ## Requests -/

/-- A request that reaches the interface and is read, and whose handling then fails with an
error, be it of a decoder or of the service. -/
def App.Raises (app : App) (r : Request) (now : Timestamp) (sources : Program.Sources)
    (s : Program.Session Memory) (e : Error) : Prop :=
  app.enabled = true ∧ App.meets? app.parts r.path = some true ∧
    ∃ plan, (app.localize r).plan app.canvas now = .ok plan ∧
      (plan.program.run sources s).result = .error e

/-- The answer to a request that is not carried out. -/
theorem Request.plan_eq_error {r : Request} {canvas : Editor.Canvas} {now : Timestamp}
    {response : Response} (h : r.plan canvas now = .error response) :
    400 ≤ response.status ∨ r.method = "OPTIONS" := by
  unfold Request.plan at h
  split at h
  next detour hr =>
    obtain rfl := Except.error.inj h
    cases detour with
    | notFound => exact .inl (by decide)
    | methodNotAllowed => exact .inl (by decide)
    | methodsOnly => exact .inr (Route.eq_options_of_resolve hr)
  next endpoint hr =>
    split at h
    · cases h
    · obtain rfl := Except.error.inj h
      exact .inl (by decide)

theorem Request.plan_eq_ok {r : Request} {canvas : Editor.Canvas} {now : Timestamp} {plan : Plan}
    (h : r.plan canvas now = .ok plan) :
    ∃ endpoint, Route.resolve r.method r.path = .ok endpoint ∧
      endpoint.plan? r canvas now = some plan := by
  unfold Request.plan at h
  split at h
  · cases h
  next endpoint hr =>
    split at h
    next hp =>
      obtain rfl := Except.ok.inj h
      exact ⟨endpoint, hr, hp⟩
    · cases h

/-- A request is handled by the interface or turned away before, with nothing done. -/
theorem App.serve_cases (app : App) (r : Request) (now : Timestamp) (sources : Program.Sources)
    (s : Program.Session Memory) :
    app.serve r now sources s = (app.localize r).serve app.canvas now sources s ∨
      (∀ e, ¬ app.Raises r now sources s e) ∧
        ∃ response, 400 ≤ response.status ∧ app.serve r now sources s = (response, [], s) := by
  unfold App.serve
  split
  next h =>
    refine .inr ⟨?_, _, by decide, rfl⟩
    rintro e ⟨henabled, hmeets, -⟩
    rw [if_pos henabled, hmeets] at h
    cases h
  next => exact .inl rfl
  next h =>
    refine .inr ⟨?_, _, ?_, rfl⟩
    · rintro e ⟨henabled, hmeets, -⟩
      rw [if_pos henabled, hmeets] at h
      cases h
    · cases hd : Route.unreadable (Route.resolve (app.localize r).method (app.localize r).path) with
      | notFound => decide
      | methodNotAllowed => decide
      | methodsOnly => exact absurd hd (Route.unreadable_ne_methodsOnly _)

section

variable {endpoint : Endpoint} {r : Request} {canvas : Editor.Canvas} {now : Timestamp}
  {plan : Plan} {call : Call} {sources : Program.Sources} {s : Program.Session Memory}

theorem Plan.Makes.run (h : plan.Makes canvas now call) (sources : Program.Sources)
    (s : Program.Session Memory) : plan.program.run sources s
      = ⟨((call.program canvas now).run sources s).result.map Reply.view,
        ((call.program canvas now).run sources s).events,
        ((call.program canvas now).run sources s).session⟩ := by
  rw [h.program_eq, Program.run_shown]

theorem Asks.reading (h : Asks r endpoint call) : call.reading = false := by
  cases h <;> rfl

/-- Whatever the answer to a plan is, if it is no success then nothing has happened. -/
theorem Endpoint.plan_traceless (hp : endpoint.plan? r canvas now = some plan)
    (h : (Response.ofResult plan.status (plan.program.run sources s).result).status
      ∈ [400, 404, 409]) :
    (plan.program.run sources s).session.store = s.store ∧
      (plan.program.run sources s).events = [] := by
  by_cases hg : endpoint.method = "GET"
  · exact (Endpoint.plan_onlyReads hg hp).run Service.atomic_memory s
  · rcases Endpoint.plan_asks hg hp with ⟨e, hfails⟩ | ⟨call, -, hmakes⟩
    · rw [hfails]
      exact ⟨rfl, rfl⟩
    · rw [hmakes.run] at h ⊢
      have htraceless := Service.traceless_memory sources canvas now s call
      cases hr : ((call.program canvas now).run sources s).result with
      | error e => exact htraceless e hr
      | ok reply =>
        rw [hr] at h
        have hstatus := hmakes.status_mem
        simp only [Except.map, Response.ofResult, List.mem_cons, List.not_mem_nil,
          or_false] at h hstatus
        split at h
        · dsimp only at h
          omega
        · exact absurd h (by decide)

/-- A request that may change something and is answered by success has made one call. -/
theorem Endpoint.plan_makes (hw : endpoint.method ≠ "GET")
    (hp : endpoint.plan? r canvas now = some plan)
    (h : (Response.ofResult plan.status (plan.program.run sources s).result).status < 300) :
    ∃! call, Asks r endpoint call ∧ call.reading = false ∧
      ∃ reply, (call.program canvas now).run sources s
          = ⟨.ok reply, (plan.program.run sources s).events, (plan.program.run sources s).session⟩ ∧
        (Response.ofResult plan.status (plan.program.run sources s).result).body
          = some reply.view ∧ reply.CarriedBy reply.view := by
  have hfailed (e : Error) : ¬ (Response.ofError e).status < 300 :=
    fun hlt => absurd (reports_ofError e).le_status (by omega)
  rcases Endpoint.plan_asks hw hp with ⟨e, hfails⟩ | ⟨call, hasks, hmakes⟩
  · rw [hfails] at h
    exact absurd h (hfailed e)
  · rw [hmakes.run] at h ⊢
    cases hr : ((call.program canvas now).run sources s).result with
    | error e =>
      rw [hr] at h
      exact absurd h (hfailed e)
    | ok reply =>
      rw [hr] at h
      refine ⟨call, ⟨hasks, hasks.reading, reply, ?_, ?_, Call.carriedBy_view hasks.reading hr⟩,
        fun call' h' => h'.1.unique hasks⟩
      · rw [← hr]
      · simp only [Except.map, Response.ofResult] at h ⊢
        split at h
        next hwritable => rw [if_pos hwritable]
        · exact absurd h (by decide)

end

/-- Requests to an application with a store in memory.  What is refused, missing or in conflict
leaves no trace; errors are answered as they are to be; and a request that may change something
and succeeds is one call of the service and nothing else, whose reply the body of the answer
shows. -/
theorem answers_faithful (app : App) (r : Request) (now : Timestamp) (sources : Program.Sources)
    (s : Program.Session Memory) :
    ∃ response events s', app.serve r now sources s = (response, events, s') ∧
      (response.status ∈ [400, 404, 409] → s'.store = s.store ∧ events = []) ∧
      (∀ e, app.Raises r now sources s e → Reports response e) ∧
      (r.method ∈ mutating → 200 ≤ response.status → response.status < 300 →
        ∃ endpoint, Route.resolve r.method (app.localize r).path = .ok endpoint ∧
          ∃! call, Asks (app.localize r) endpoint call ∧ call.reading = false ∧
            ∃ reply, (call.program app.canvas now).run sources s = ⟨.ok reply, events, s'⟩ ∧
              response.body = some reply.view ∧ reply.CarriedBy reply.view) := by
  rcases app.serve_cases r now sources s with hserve | ⟨hraises, response, hstatus, hserve⟩
  · cases hplan : (app.localize r).plan app.canvas now with
    | error response =>
      refine ⟨response, [], s, ?_, fun _ => ⟨rfl, rfl⟩, ?_, fun hm _ hlt => ?_⟩
      · rw [hserve]
        unfold Request.serve
        rw [hplan]
      · rintro e ⟨-, -, plan, hp, -⟩
        cases hplan.symm.trans hp
      · rcases Request.plan_eq_error hplan with hstatus | hoptions
        · omega
        · rw [show r.method = "OPTIONS" from hoptions] at hm
          exact absurd hm (by decide)
    | ok plan =>
      obtain ⟨endpoint, hr, hp⟩ := Request.plan_eq_ok hplan
      refine ⟨.ofResult plan.status (plan.program.run sources s).result, _, _, ?_,
        Endpoint.plan_traceless hp, ?_, fun hm _ hlt => ?_⟩
      · rw [hserve]
        unfold Request.serve
        rw [hplan]
      · rintro e ⟨-, -, plan', hp', he⟩
        obtain rfl := Except.ok.inj (hplan.symm.trans hp')
        rw [he]
        exact reports_ofError e
      · have hw : endpoint.method ≠ "GET" := by
          rw [Route.resolve_eq_ok hr]
          intro hget
          rw [show r.method = "GET" from hget] at hm
          exact absurd hm (by decide)
        exact ⟨endpoint, hr, Endpoint.plan_makes hw hp hlt⟩
  · refine ⟨response, [], s, hserve, fun _ => ⟨rfl, rfl⟩, fun e he => absurd he (hraises e),
      fun _ _ hlt => ?_⟩
    omega

/-- An automation is to be created, with a graph of one step. -/
def creation : Request where
  method := "POST"
  path := ["definitions"]
  query := []
  body := .value (.object [("name", .text " Welcome "), ("org_id", .text "acme"),
    ("trigger", .object [("kind", .text "event"), ("event_type", .text "lead.created")]),
    ("graph", .object [("nodes", .list [.object [("id", .text "a"), ("type", .text "action"),
      ("config", .object [("action_kind", .text "email.send")])]]), ("edges", .list [])])])

/-- The interface at the root of a server. -/
def rootApp : App := ⟨"", true, .standard⟩

theorem serve_rootApp (r : Request) (now : Timestamp) (sources : Program.Sources)
    (s : Program.Session Memory) :
    rootApp.serve r now sources s = r.serve .standard now sources s ∧ rootApp.localize r = r := by
  have hsplit : "".splitOn "/" = [""] := by
    unfold String.splitOn String.splitOnAux
    rfl
  have hsegments : Route.segments "" = [] := by
    unfold Route.segments
    rw [hsplit]
    rfl
  have hparts : rootApp.parts = [] := by
    show (Route.segments "").map App.Part.ofText = []
    rw [hsegments]
    rfl
  have hlocal : rootApp.localize r = r := by
    unfold App.localize
    rw [hparts]
    rfl
  refine ⟨?_, hlocal⟩
  unfold App.serve
  rw [hlocal, hparts]
  rfl

theorem answers_faithful_creation :
    ∃ response events s', rootApp.serve creation ⟨0, some 0⟩ Service.counting
        (Service.newSession (Memory.empty .empty)) = (response, events, s') ∧
      creation.method ∈ mutating ∧ response.status = 201 ∧ s'.store.definitions.length = 1 ∧
      ∃ endpoint, Route.resolve creation.method (rootApp.localize creation).path = .ok endpoint ∧
        ∃! call, Asks (rootApp.localize creation) endpoint call ∧ call.reading = false ∧
          ∃ reply, (call.program .standard ⟨0, some 0⟩).run Service.counting
              (Service.newSession (Memory.empty .empty)) = ⟨.ok reply, events, s'⟩ ∧
            response.body = some reply.view ∧ reply.CarriedBy reply.view := by
  obtain ⟨response, events, s', hserve, -, -, hmakes⟩ := answers_faithful rootApp creation
    ⟨0, some 0⟩ Service.counting (Service.newSession (Memory.empty .empty))
  have hanswer : (creation.serve .standard ⟨0, some 0⟩ Service.counting
        (Service.newSession (Memory.empty .empty))).1.status = 201 ∧
      (creation.serve .standard ⟨0, some 0⟩ Service.counting
        (Service.newSession (Memory.empty .empty))).2.2.store.definitions.length = 1 := by
    decide +kernel
  rw [← (serve_rootApp creation _ _ _).1, hserve] at hanswer
  obtain ⟨hstatus, hstored⟩ := hanswer
  have hm : creation.method ∈ mutating := by decide
  refine ⟨response, events, s', hserve, hm, hstatus, hstored, hmakes hm ?_ ?_⟩
  · rw [hstatus]
    decide
  · rw [hstatus]
    decide

end Rest

end Workflow
