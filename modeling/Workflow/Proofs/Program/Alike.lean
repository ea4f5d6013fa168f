import Workflow.Program

/-!
# Programs on two stores

One program is carried out on two stores.  If their sessions are linked and each
step that is taken answers alike and keeps them linked, then the program announces
the same on both and leads to the same result.  The link may change on the way:
it is stated before a program, after it, and for when it fails.

    p alike, then f alike → p >>= f alike                       (Alike.bind)
-/

namespace Workflow.Program

open Store (Backend Step)

variable {σ τ α β : Type} [Backend σ] [Backend τ]

/-! ## Carrying out one program after another -/

/-- Goes on from an outcome with what depends on its result. -/
def Outcome.andThen (o : Outcome σ α) (next : α → Session σ → Outcome σ β) : Outcome σ β :=
  match o.result with
  | .ok a =>
    let out := next a o.session
    { out with events := o.events ++ out.events }
  | .error e => ⟨.error e, o.events, o.session⟩

theorem run_bind (sources : Sources) (p : Program α) (f : α → Program β) (s : Session σ) :
    (p.bind f).run sources s
      = (p.run sources s).andThen fun a s => (f a).run sources s := by
  induction p generalizing s with
  | done a => rfl
  | fail e => rfl
  | take step next ih =>
    simp only [bind, run]
    cases hr : Backend.take step s.store with
    | mk r store =>
      cases r with
      | error e => rfl
      | ok a => exact ih a { s with store := store }
  | announce e next ih =>
    simp only [bind, run]
    rw [ih s]
    unfold Outcome.andThen
    cases (next.run sources s).result <;> rfl
  | fresh next ih => exact ih _ _
  | draw count next ih => exact ih _ _

/-! ## Outcomes -/

/-- A relation between sessions with two stores. -/
abbrev Link (σ τ : Type) := Session σ → Session τ → Prop

/-- Two outcomes announce the same and have the same result, and their sessions are linked. -/
def Outcome.Alike (after : α → Link σ τ) (failed : Link σ τ) (a : Outcome σ α)
    (b : Outcome τ α) : Prop :=
  a.events = b.events ∧
    ((∃ x, a.result = .ok x ∧ b.result = .ok x ∧ after x a.session b.session) ∨
      ∃ e, a.result = .error e ∧ b.result = .error e ∧ failed a.session b.session)

/-- From linked sessions a program leads to outcomes that are alike. -/
def Alike (sources : Sources) (before : Link σ τ) (p : Program α) (after : α → Link σ τ)
    (failed : Link σ τ) : Prop :=
  ∀ s t, before s t → Outcome.Alike after failed (p.run sources s) (p.run sources t)

/-! ## Composition -/

variable {sources : Sources} {before failed : Link σ τ} {after : α → Link σ τ}

namespace Alike

theorem bind {p : Program α} {f : α → Program β} {middle : α → Link σ τ} {after : β → Link σ τ}
    (hp : Alike sources before p middle failed)
    (hf : ∀ a, Alike sources (middle a) (f a) after failed) :
    Alike sources before (p >>= f) after failed := by
  intro s t hst
  show Outcome.Alike after failed ((p.bind f).run sources s) ((p.bind f).run sources t)
  rw [run_bind, run_bind]
  obtain ⟨hevents, ⟨a, ha, hb, hmiddle⟩ | ⟨e, ha, hb, hfailed⟩⟩ := hp s t hst
  · obtain ⟨hevents', hresult⟩ := hf a _ _ hmiddle
    unfold Outcome.andThen
    rw [ha, hb]
    refine ⟨?_, hresult⟩
    show _ ++ _ = _ ++ _
    rw [hevents, hevents']
  · unfold Outcome.andThen
    rw [ha, hb]
    exact ⟨hevents, Or.inr ⟨e, rfl, rfl, hfailed⟩⟩

theorem pure (a : α) (h : ∀ s t, before s t → after a s t) :
    Alike sources before (Pure.pure a) after failed :=
  fun s t hst => ⟨rfl, Or.inl ⟨a, rfl, rfl, h s t hst⟩⟩

theorem fail (e : Error) (h : ∀ s t, before s t → failed s t) :
    Alike sources before (.fail e) after failed :=
  fun s t hst => ⟨rfl, Or.inr ⟨e, rfl, rfl, h s t hst⟩⟩

theorem lift {r : Except Error α} (h : ∀ s t, before s t → failed s t) :
    Alike sources before (Program.lift r) (fun a s t => r = .ok a ∧ before s t) failed := by
  cases r with
  | ok a => exact Alike.pure a fun s t hst => ⟨rfl, hst⟩
  | error e => exact Alike.fail e h

/-- What is announced, and then gone on from. -/
theorem tell {p : Program α} {middle : Link σ τ} (id : Uuid) (now : Timestamp)
    (happening : Happening) (h : ∀ s t, before s t → middle s t)
    (hp : Alike sources middle p after failed) :
    Alike sources before (Program.tell id now happening >>= fun _ => p) after failed := by
  intro s t hst
  obtain ⟨hevents, hresult⟩ := hp s t (h s t hst)
  refine ⟨?_, hresult⟩
  show (⟨id, now, happening⟩ : Event) :: (p.run sources s).events
    = ⟨id, now, happening⟩ :: (p.run sources t).events
  rw [hevents]

/-- A step is taken alike if both stores answer it alike. -/
theorem step {s : Step} {after : s.Answer → Link σ τ}
    (h : ∀ a b, before a b →
      (∃ x a' b', Backend.take s a.store = (.ok x, a') ∧ Backend.take s b.store = (.ok x, b') ∧
        after x { a with store := a' } { b with store := b' }) ∨
      ∃ e a' b', Backend.take s a.store = (.error e, a') ∧
        Backend.take s b.store = (.error e, b') ∧
        failed { a with store := a' } { b with store := b' }) :
    Alike sources before (Program.step s) after failed := by
  intro a b hab
  unfold Program.step
  simp only [run]
  rcases h a b hab with ⟨x, a', b', ha, hb, hafter⟩ | ⟨e, a', b', ha, hb, hfailed⟩
  · rw [ha, hb]
    exact ⟨rfl, Or.inl ⟨x, rfl, rfl, hafter⟩⟩
  · rw [ha, hb]
    exact ⟨rfl, Or.inr ⟨e, rfl, rfl, hfailed⟩⟩

/-- Draws are taken alike if as many have been taken before. -/
theorem draw {count : Nat} {next : (Nat → Number) → Program α} {middle : Link σ τ}
    (hsame : ∀ s t, before s t → s.drawsTaken = t.drawsTaken)
    (hmiddle : ∀ s t, before s t → middle { s with drawsTaken := s.drawsTaken + count }
      { t with drawsTaken := t.drawsTaken + count })
    (hnext : ∀ draws, Alike sources middle (next draws) after failed) :
    Alike sources before (.draw count next) after failed := by
  intro s t hst
  simp only [run]
  rw [← hsame s t hst]
  have h := hnext (fun k => sources.draws (s.drawsTaken + k)) _ _ (hmiddle s t hst)
  rwa [← hsame s t hst] at h

/-- What is known beforehand, whatever the sessions. -/
theorem assume {P : Prop} {p : Program α} (h : P → Alike sources before p after failed) :
    Alike sources (fun s t => P ∧ before s t) p after failed :=
  fun s t hst => h hst.1 s t hst.2

theorem weaken {before' failed' : Link σ τ} {after' : α → Link σ τ} {p : Program α}
    (hp : Alike sources before' p after' failed')
    (hbefore : ∀ s t, before s t → before' s t)
    (hafter : ∀ a s t, after' a s t → after a s t)
    (hfailed : ∀ s t, failed' s t → failed s t) : Alike sources before p after failed := by
  intro s t hst
  obtain ⟨hevents, ⟨a, ha, hb, h⟩ | ⟨e, ha, hb, h⟩⟩ := hp s t (hbefore s t hst)
  · exact ⟨hevents, Or.inl ⟨a, ha, hb, hafter a _ _ h⟩⟩
  · exact ⟨hevents, Or.inr ⟨e, ha, hb, hfailed _ _ h⟩⟩

end Alike

end Workflow.Program
