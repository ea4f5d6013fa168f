import Workflow.Proofs.Service.Lockstep
import Workflow.Proofs.Template.Seeding

/-!
# One service on two stores

A client cannot tell which store is behind the service.  Whatever is asked, one call
after another, is answered from memory and from the tables alike: the same results
and errors, and the same announcements in the same order.

    calls in order that fit, the same templates → the same answers   (serve_alike)
    what does not fit is answered from memory only                   (serve_apart)
-/

namespace Workflow.Service

open Store (Memory Tables Agree TemplatesAgree)
open Program (Session)

/-! ## Sequences of calls -/

/-- Calls whose arguments are of their types and fit the tables, each of them later than those
before it. -/
structure InOrder (calls : List (Timestamp × Call)) : Prop where
  universal : ∀ c ∈ calls, c.1.IsUniversal
  storable : ∀ c ∈ calls, c.1.isStorable = true
  typed : ∀ c ∈ calls, c.2.Typed
  fits : ∀ c ∈ calls, c.2.Fits
  increasing : calls.Pairwise fun c c' => c.1.instant < c'.1.instant

theorem InOrder.tail {c : Timestamp × Call} {calls : List (Timestamp × Call)}
    (h : InOrder (c :: calls)) : InOrder calls where
  universal c' hc' := h.universal c' (List.mem_cons_of_mem c hc')
  storable c' hc' := h.storable c' (List.mem_cons_of_mem c hc')
  typed c' hc' := h.typed c' (List.mem_cons_of_mem c hc')
  fits c' hc' := h.fits c' (List.mem_cons_of_mem c hc')
  increasing := (List.pairwise_cons.1 h.increasing).2

variable {sources : Program.Sources} {bound : Nat} {st : Stage} {s : Session Memory}
  {t : Session Tables} {calls : List (Timestamp × Call)}

/-- One call is answered alike, and leaves sessions that are linked at the next stage. -/
theorem serve_of_linked (canvas : Editor.Canvas) (hd : sources.Distinct bound)
    (hc : InOrder calls) (hl : Linked sources bound st [] s t)
    (hroom : st.used + calls.length ≤ bound) (hpositive : 1 ≤ st.limit)
    (hlimit : st.limit + 3 * calls.length < 2 ^ 63)
    (hlater : ∀ c ∈ calls, st.clock < c.1.instant) :
    serve sources canvas s calls = serve sources canvas t calls := by
  induction calls generalizing st s t with
  | nil => rfl
  | cons c rest ih =>
    obtain ⟨now, call⟩ := c
    rw [List.length_cons] at hroom hlimit
    have hmem : (now, call) ∈ (now, call) :: rest := List.mem_cons_self
    have hr : Ready sources bound st now := {
      distinct := hd
      room := by omega
      positive := hpositive
      limit := by omega
      universal := hc.universal _ hmem
      storable := hc.storable _ hmem
      later := hlater _ hmem }
    obtain ⟨hevents, hresult⟩ :=
      alike_program hr canvas (hc.typed _ hmem) (hc.fits _ hmem) s t hl
    have hsession : Linked sources bound (st.next now) []
        ((call.program canvas now).run sources s).session
        ((call.program canvas now).run sources t).session := by
      rcases hresult with ⟨_, -, -, hl⟩ | ⟨_, -, -, hl⟩
      · exact hl
      · exact hl
    have hsame : ((call.program canvas now).run sources s).result
        = ((call.program canvas now).run sources t).result := by
      rcases hresult with ⟨_, ha, hb, -⟩ | ⟨_, ha, hb, -⟩
      · rw [ha, hb]
      · rw [ha, hb]
    have hrest := ih hc.tail hsession (by show st.used + 1 + rest.length ≤ bound; omega)
      (by show 1 ≤ st.limit + 3; omega)
      (by show st.limit + 3 + 3 * (rest.length : Int) < 2 ^ 63; omega)
      (List.pairwise_cons.1 hc.increasing).1
    rw [serve, serve, hsame, hevents, hrest]

/-! ## From the beginning -/

/-- Stores to which nothing but the same templates has been given agree. -/
theorem agree_empty {catalog : Catalog} {listed : List Template}
    (h : TemplatesAgree catalog (Tables.ofTemplates listed)) (clock : Int) :
    Agree 1 clock [] (Memory.empty catalog) (Tables.ofTemplates listed) where
  definitions := Store.DefinitionsAgree.nil 1
  trails := Store.TrailsAgree.nil clock
  runs := Store.RunsAgree.nil clock
  templates := h
  histories _ _ hf := by cases hf
  orphans _ _ := rfl

/-- From memory with the templates and from tables that are seeded with them, any sequence of
calls is answered by the same results and the same announcements. -/
theorem serve_alike {ts : List Template} (ht : Template.Distinct ts) (canvas : Editor.Canvas)
    (hd : sources.Distinct calls.length) (hc : InOrder calls)
    (hlength : 3 * calls.length + 1 < 2 ^ 63) :
    ∃ catalog listed tables, Catalog.ofList ts = .ok catalog ∧
      catalog.list .null = .ok listed ∧ Tables.empty.seed listed = .ok tables ∧
      serve sources canvas (newSession (Memory.empty catalog)) calls
        = serve sources canvas (newSession tables) calls := by
  obtain ⟨catalog, listed, tables, hcatalog, hlisted, hseed, rfl, hagree⟩ := Store.seed_agree ht
  refine ⟨catalog, listed, _, hcatalog, hlisted, hseed, ?_⟩
  -- the stores agree at any time before the first call
  obtain ⟨clock, hlater⟩ : ∃ clock : Int, ∀ c ∈ calls, clock < c.1.instant := by
    cases calls with
    | nil => exact ⟨0, by simp⟩
    | cons c rest =>
      refine ⟨c.1.instant - 1, fun c' hc' => ?_⟩
      rcases List.mem_cons.1 hc' with rfl | hrest
      · omega
      · have := (List.pairwise_cons.1 hc.increasing).1 c' hrest
        omega
  have hl : Linked sources calls.length ⟨0, 1, clock⟩ [] (newSession (Memory.empty catalog))
      (newSession (Tables.ofTemplates listed)) := {
    store := agree_empty hagree clock
    ids := rfl
    draws := rfl
    used := Nat.le_refl 0
    newDefinitions _ _ _ := rfl
    newRuns _ _ _ := rfl }
  exact serve_of_linked canvas hd hc hl (by show 0 + calls.length ≤ calls.length; omega)
    (Int.le_refl 1) (by show (1 : Int) + 3 * (calls.length : Int) < 2 ^ 63; omega) hlater

/-! ## A visit -/

/-- A client looks at the templates, installs one, asks for its approval and looks at the
trail. -/
def visit : List (Timestamp × Call) :=
  [(⟨0, some 0⟩, .templates),
    (⟨1, some 0⟩, .install (.text "order-confirmation") ⟨.text "acme", .null⟩ .null),
    (⟨2, some 0⟩, .govern .request (Uuid.ofNat 0) (.text "ann") .null),
    (⟨3, some 0⟩, .approvals (Uuid.ofNat 0)),
    (⟨4, some 0⟩, .listRuns (Uuid.ofNat 0) (.int 50))]

def visitSources : Program.Sources := ⟨Uuid.ofNat, fun _ => .int 0⟩

theorem distinct_visitSources {bound : Nat} (h : bound ≤ 2 ^ 128) :
    visitSources.Distinct bound := by
  intro j k hj hk he
  have hvalue : j % 2 ^ 128 = k % 2 ^ 128 := congrArg Uuid.value he
  rwa [Nat.mod_eq_of_lt (by omega), Nat.mod_eq_of_lt (by omega)] at hvalue

theorem serve_alike_visit :
    Template.Distinct Template.builtin ∧ visitSources.Distinct visit.length ∧ InOrder visit ∧
    ∃ catalog listed tables, Catalog.ofList Template.builtin = .ok catalog ∧
      catalog.list .null = .ok listed ∧ Tables.empty.seed listed = .ok tables ∧
      serve visitSources .standard (newSession (Memory.empty catalog)) visit
        = serve visitSources .standard (newSession tables) visit := by
  have hd : visitSources.Distinct visit.length := distinct_visitSources (by decide)
  have hc : InOrder visit := {
    universal := by simp [visit, Timestamp.IsUniversal]
    storable := by decide +kernel
    typed := by
      simp [visit, Call.Typed, Value.IsText, Value.IsTextOrNull]
    fits := by
      simp [visit, Call.Fits]
    increasing := by decide +kernel }
  refine ⟨Template.distinct_builtin, hd, hc, ?_⟩
  exact serve_alike Template.distinct_builtin .standard hd hc (by decide)

/-! ## What does not fit -/

/-- A step whose configuration has an integer of more digits than are written down. -/
def vast : Definition.Proposal where
  name := .text "Vast"
  trigger := .event "lead.created"
  context := ⟨.text "acme", .null⟩
  graph := ⟨[⟨"n1", .action, "", [("action_kind", .text "email.send"), ("n", .int (10 ^ 4300))]⟩],
    []⟩
  description := .text ""
  layout := []
  template := none

/-- A template with a step that has no identifier. -/
def nameless : Template where
  id := Uuid.ofNat 1
  slug := .text "nameless"
  name := .text "Nameless"
  description := .text ""
  category := .text "general"
  recommended := false
  trigger := .event "lead.created"
  graph := ⟨[⟨"", .action, "", []⟩], []⟩

/-- Whether each of the calls succeeds. -/
def successes (answers : List Answer) : List Bool := answers.map fun a => a.result.toBool

/-- A limit of runs beyond 64 bits, an integer with too many digits and a template with a
nameless step are taken by memory and refused by the tables. -/
theorem serve_apart :
    ((Call.listRuns (Uuid.ofNat 0) (.int (2 ^ 63))).Typed ∧
      serve visitSources .standard (newSession (Memory.empty .empty))
          [(⟨0, some 0⟩, .listRuns (Uuid.ofNat 0) (.int (2 ^ 63)))]
        ≠ serve visitSources .standard (newSession Tables.empty)
          [(⟨0, some 0⟩, .listRuns (Uuid.ofNat 0) (.int (2 ^ 63)))]) ∧
    ((Call.create vast).Typed ∧
      serve visitSources .standard (newSession (Memory.empty .empty)) [(⟨0, some 0⟩, .create vast)]
        ≠ serve visitSources .standard (newSession Tables.empty)
          [(⟨0, some 0⟩, .create vast)]) ∧
    ∃ catalog tables, Catalog.ofList [nameless] = .ok catalog ∧
      catalog.list .null = .ok [nameless] ∧ Tables.empty.seed [nameless] = .ok tables ∧
      serve visitSources .standard (newSession (Memory.empty catalog)) [(⟨0, some 0⟩, .templates)]
        ≠ serve visitSources .standard (newSession tables) [(⟨0, some 0⟩, .templates)] := by
  have hne : ∀ {a b : List Answer}, successes a ≠ successes b → a ≠ b :=
    fun h he => h (congrArg successes he)
  have hvast : vast.Typed := {
    org := ⟨_, rfl⟩
    user := Or.inl rfl
    description := ⟨_, rfl⟩
    graph := by decide
    layout := fun _ h => absurd h List.not_mem_nil }
  refine ⟨⟨⟨_, rfl⟩, hne (by decide +kernel)⟩, ⟨hvast, hne (by decide +kernel)⟩, _, _, rfl, ?_, rfl,
    hne ?_⟩
  · show Except.ok ([nameless].mergeSort _) = _
    rw [List.mergeSort_singleton]
  · decide +kernel

end Workflow.Service
