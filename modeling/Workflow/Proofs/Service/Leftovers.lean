import Workflow.Proofs.Service.Invariant
import Workflow.Proofs.Service.Orderly
import Workflow.Proofs.Store.Ownership

/-!
# What is left of a deleted definition

That a definition is stored is seen by one step of a client, and its run or its event is added
by a later one.  If another client deletes the definition in between, what there is goes, and
what is added since is left behind.

    each step keeps what is known of the store                      (Accounts.take)
    each step of a client keeps the invariant, and so does any order of steps
                                                                    (Accounted.after)
    something is left of a deleted definition ↔ it was added late   (left_behind_late)

Nothing keeps an addition from being late (`left_behind`).
-/

namespace Workflow

open Store (Backend Memory Step)

/-- A list that ends in `a` is a part of one that ends in `b`. -/
theorem sublist_snoc {α : Type} {l l' : List α} {a b : α} :
    (l ++ [a]).Sublist (l' ++ [b]) ↔ (l ++ [a]).Sublist l' ∨ l.Sublist l' ∧ a = b := by
  rw [← List.reverse_sublist, List.reverse_concat, List.reverse_concat, List.cons_sublist_cons',
    ← List.reverse_concat, List.reverse_sublist, List.reverse_sublist, and_comm (a := a = b)]

namespace Service

/-! ## Late additions -/

/-- The definition to whose runs or trail a step adds. -/
def addsTo : Step → Option Uuid
  | .appendRun r => some r.definition
  | .appendApproval e => some e.definition
  | .load _ | .save .. | .delete _ | .definitions _ | .approvals _ | .updateRun _ | .run _
  | .runs .. | .orgRuns .. | .summary _ | .templates | .template _ => none

/-- A client has loaded a definition that was deleted since. -/
def Overtaken (taken : List (Nat × Step)) (i : Nat) (id : Uuid) : Prop :=
  ∃ j, [(i, .load id), (j, .delete id)].Sublist taken

/-- A client has added to a definition that was deleted since it had loaded it. -/
def Late (taken : List (Nat × Step)) (id : Uuid) : Prop :=
  ∃ i j s, [(i, .load id), (j, .delete id), (i, s)].Sublist taken ∧ addsTo s = some id

section

variable {taken : List (Nat × Step)} {p p' q : Nat × Step} {i j : Nat} {id : Uuid}

theorem pair_sublist_snoc : [p, q].Sublist (taken ++ [p']) ↔
    [p, q].Sublist taken ∨ p ∈ taken ∧ q = p' := by
  rw [show [p, q] = [p] ++ [q] from rfl, sublist_snoc, List.singleton_sublist]

theorem Overtaken.snoc (h : Overtaken taken i id) (p : Nat × Step) :
    Overtaken (taken ++ [p]) i id := by
  obtain ⟨j, hj⟩ := h
  exact ⟨j, hj.trans (List.sublist_append_left taken [p])⟩

theorem Late.snoc (h : Late taken id) (p : Nat × Step) : Late (taken ++ [p]) id := by
  obtain ⟨i, j, s, hs, hadds⟩ := h
  exact ⟨i, j, s, hs.trans (List.sublist_append_left taken [p]), hadds⟩

theorem Overtaken.late (h : Overtaken taken i id) {s : Step} (hs : addsTo s = some id) :
    Late (taken ++ [(i, s)]) id := by
  obtain ⟨j, hj⟩ := h
  exact ⟨i, j, s, hj.append (List.Sublist.refl [(i, s)]), hs⟩

end

/-! ## Programs -/

/-- The steps of a client that has loaded a definition and was given an identifier: it saves
what is stored only, and adds to nothing but the definition, and a run under the identifier. -/
def Attaches (held given : Option Uuid) : Step → Prop
  | .load _ | .delete _ => True
  | .save _ expected => expected ≠ .null
  | .appendRun r => held = some r.definition ∧ given = some r.id
  | .appendApproval e => held = some e.definition
  | .definitions _ | .approvals _ | .updateRun _ | .run _ | .runs .. | .orgRuns .. | .summary _
  | .templates | .template _ => False

/-- The definition that was loaded last. -/
def heldAfter (held : Option Uuid) : Step → Option Uuid
  | .load id => some id
  | .save .. | .delete _ | .definitions _ | .appendApproval _ | .approvals _ | .appendRun _
  | .updateRun _ | .run _ | .runs .. | .orgRuns .. | .summary _ | .templates | .template _ => held

/-- The identifier that was given last, unless it has been used since. -/
def unusedAfter (given : Option Uuid) : Step → Option Uuid
  | .save .. | .appendRun _ => none
  | .load _ | .delete _ | .definitions _ | .appendApproval _ | .approvals _
  | .updateRun _ | .run _ | .runs .. | .orgRuns .. | .summary _ | .templates | .template _ => given

/-- A definition is loaded by its identifier. -/
def IsNamed : (s : Step) → s.Answer → Prop
  | .load id, d => d.id = id
  | .save .., _ | .delete _, _ | .definitions _, _ | .appendApproval _, _ | .approvals _, _
  | .appendRun _, _ | .updateRun _, _ | .run _, _ | .runs .., _ | .orgRuns .., _ | .summary _, _
  | .templates, _ | .template _, _ => True

/-- All steps of a program are such. -/
def Attached : Option Uuid → Option Uuid → Program Reply → Prop
  | _, _, .done _ | _, _, .fail _ => True
  | held, given, .take s next => Attaches held given s ∧
      ∀ a, IsNamed s a → Attached (heldAfter held s) (unusedAfter given s) (next a)
  | held, given, .announce _ next => Attached held given next
  | held, _, .fresh next => ∀ id, Attached held (some id) (next id)
  | _, _, .draw _ _ => False

/-- Starts a run, takes an action on the approval, or deletes a definition. -/
def Call.AddsOrDeletes : Call → Prop
  | .startRun .. | .govern .. | .delete _ => True
  | .create _ | .get _ | .list _ | .update .. | .editorView _ | .saveEdited .. | .approvals _
  | .activate _ | .pause _ | .templates | .install .. | .completeRun .. | .cancelRun _
  | .getRun _ | .listRuns .. | .listOrgRuns .. | .summary _ => False

theorem attached_concluding (action : ApprovalAction) (id : Uuid) (actor notes : Value)
    (now : Timestamp) (wasActive : Bool) (e : ApprovalEvent) (held given : Option Uuid) :
    Attached held given (concluding action id actor notes now wasActive e) := by
  unfold concluding
  split
  · trivial
  · trivial

theorem attached_govern (action : ApprovalAction) (id : Uuid) (actor notes : Value)
    (canvas : Editor.Canvas) (now : Timestamp) (held given : Option Uuid) :
    Attached held given ((Call.govern action id actor notes).program canvas now) := by
  rw [program_govern]
  refine ⟨trivial, fun d hd => ?_⟩
  show Attached (some id) given (deciding action id actor notes now d)
  unfold deciding
  cases hg : d.govern action actor notes now with
  | error e => trivial
  | ok r =>
    obtain ⟨d', e⟩ := r
    have hown : e.definition = id := (Definition.govern_keeps hg).2.2.2.trans hd
    refine ⟨Value.noConfusion, fun _ _ => ⟨congrArg some hown.symm, fun _ _ => ?_⟩⟩
    exact attached_concluding action id actor notes now d.isActive e _ _

theorem attached_startRun (id : Uuid) (context : Value) (canvas : Editor.Canvas) (now : Timestamp)
    (held given : Option Uuid) :
    Attached held given ((Call.startRun id context).program canvas now) := by
  refine ⟨trivial, fun d _ => ?_⟩
  show Attached (some id) given
    (Program.bind (if d.isActive = true then recordRun id d.org context now else _) _)
  split
  · unfold recordRun
    cases context.toObject with
    | error e => trivial
    | ok ms => exact fun run => ⟨⟨rfl, rfl⟩, fun _ _ => trivial⟩
  · trivial

theorem attached_program {call : Call} (h : call.AddsOrDeletes) (canvas : Editor.Canvas)
    (now : Timestamp) : Attached none none (call.program canvas now) := by
  cases call with
  | startRun id context => exact attached_startRun id context canvas now none none
  | govern action id actor notes => exact attached_govern action id actor notes canvas now none none
  | delete id => exact ⟨trivial, fun _ _ => ⟨trivial, fun _ _ => trivial⟩⟩
  | _ => exact h.elim

/-! ## What is known of the store -/

/-- What can be said of a store on which the steps `taken` have been taken. -/
structure Accounts (taken : List (Nat × Step)) (m : Memory) : Prop where
  filed : Assoc.Filed Run.id m.runs
  run : ∀ id r, m.run id = .ok r → m.Has r.definition ∨ Late taken r.definition
  event : ∀ id, ∀ e ∈ m.trail id, e.definition = id ∧ (m.Has id ∨ Late taken id)
  /-- what was deleted never comes back -/
  deleted : ∀ j id, (j, .delete id) ∈ taken → ¬m.Has id
  /-- and what was added to it since stays -/
  late_run : ∀ j i r, [(j, .delete r.definition), (i, .appendRun r)].Sublist taken →
    m.run r.id = .ok r
  late_event : ∀ j i e, [(j, .delete e.definition), (i, .appendApproval e)].Sublist taken →
    e ∈ m.trail e.definition

section

variable {taken : List (Nat × Step)} {m m' : Memory} {i : Nat} {s : Step} {id : Uuid}
  {held given : Option Uuid}

/-- Deleting is the only step after which a definition is not stored any more, and none comes to
be stored. -/
theorem has_take (hs : Attaches held given s) {a : s.Answer}
    (ht : Backend.take s m = (.ok a, m')) (id : Uuid) :
    m'.Has id ↔ m.Has id ∧ s ≠ .delete id := by
  cases s with
  | load _ | appendApproval _ | appendRun _ =>
    rw [← (Prod.mk.inj ht).2]
    exact (and_iff_left Step.noConfusion).symm
  | save d v =>
    rw [Memory.has_save hs (Memory.written_eq_ok ht) id]
    exact (and_iff_left Step.noConfusion).symm
  | delete id' =>
    rw [Memory.has_delete (Memory.written_eq_ok ht) id, ne_eq, ne_eq, Step.delete.injEq, eq_comm]
  | definitions _ | approvals _ | updateRun _ | run _ | runs _ _ | orgRuns _ _ | summary _
  | templates | template _ => exact hs.elim

/-- A step that neither deletes nor adds. -/
theorem Accounts.quiet (h : Accounts taken m) (hhas : ∀ id, m'.Has id ↔ m.Has id)
    (hruns : m'.runs = m.runs) (htrails : m'.trails = m.trails) (hdelete : ∀ id, s ≠ .delete id)
    (hadds : addsTo s = none) : Accounts (taken ++ [(i, s)]) m' := by
  have hrun : ∀ id, m'.run id = m.run id := fun id => by
    unfold Memory.run
    rw [hruns]
  have htrail : ∀ id, m'.trail id = m.trail id := fun id => by
    unfold Memory.trail
    rw [htrails]
  refine ⟨hruns ▸ h.filed, fun id r hr => ?_, fun id e he => ?_, fun j id hd => ?_,
    fun j k r hs => ?_, fun j k e hs => ?_⟩
  · rw [hhas]
    exact (h.run id r ((hrun id).symm.trans hr)).imp_right fun hl => hl.snoc _
  · obtain ⟨hown, hkept⟩ := h.event id e (htrail id ▸ he)
    rw [hhas]
    exact ⟨hown, hkept.imp_right fun hl => hl.snoc _⟩
  · rw [hhas]
    rcases List.mem_append.1 hd with hd | hd
    · exact h.deleted j id hd
    · exact absurd (Prod.mk.inj (List.mem_singleton.1 hd)).2.symm (hdelete id)
  · rw [hrun]
    rcases pair_sublist_snoc.1 hs with hs | ⟨-, he⟩
    · exact h.late_run j k r hs
    · obtain rfl := (Prod.mk.inj he).2
      cases hadds
  · rw [htrail]
    rcases pair_sublist_snoc.1 hs with hs | ⟨-, he⟩
    · exact h.late_event j k e hs
    · obtain rfl := (Prod.mk.inj he).2
      cases hadds

/-- Deleting clears what there is. -/
theorem Accounts.delete (h : Accounts taken m) (hd : m.delete id = .ok m') :
    Accounts (taken ++ [(i, .delete id)]) m' := by
  have hhad : m.Has id := by
    obtain ⟨d, hload, -⟩ := bind_eq_ok.1 hd
    exact ⟨d, hload⟩
  have hne : ∀ id', (∃ j, (j, .delete id') ∈ taken) → id' ≠ id := by
    rintro id' ⟨j, hj⟩ rfl
    exact h.deleted j id' hj hhad
  refine ⟨(Memory.ledger.delete_ok h.filed (congrArg (m.written ·) hd)).1, fun id' r hr => ?_,
    fun id' e he => ?_, fun j id' hd' => ?_, fun j k r hs => ?_, fun j k e hs => ?_⟩
  · obtain ⟨hr, hown⟩ := (Memory.run_delete h.filed hd).1 hr
    rw [Memory.has_delete hd]
    exact (h.run id' r hr).imp (fun hhas => ⟨hhas, hown⟩) fun hl => hl.snoc _
  · rw [Memory.trail_delete hd] at he
    by_cases hid : id' = id
    · rw [if_pos hid] at he
      cases he
    · rw [if_neg hid] at he
      obtain ⟨hown, hkept⟩ := h.event id' e he
      rw [Memory.has_delete hd]
      exact ⟨hown, hkept.imp (fun hhas => ⟨hhas, hid⟩) fun hl => hl.snoc _⟩
  · rw [Memory.has_delete hd]
    rcases List.mem_append.1 hd' with hd' | hd'
    · exact fun hhas => h.deleted j id' hd' hhas.1
    · have hid := Step.delete.inj (Prod.mk.inj (List.mem_singleton.1 hd')).2
      exact fun hhas => hhas.2 hid
  · rcases pair_sublist_snoc.1 hs with hs | ⟨-, he⟩
    · refine (Memory.run_delete h.filed hd).2 ⟨h.late_run j k r hs, ?_⟩
      exact hne r.definition ⟨j, hs.subset List.mem_cons_self⟩
    · cases he
  · rcases pair_sublist_snoc.1 hs with hs | ⟨-, he⟩
    · rw [Memory.trail_delete hd, if_neg (hne e.definition ⟨j, hs.subset List.mem_cons_self⟩)]
      exact h.late_event j k e hs
    · cases he

/-- A run is late if the client has been overtaken, and takes the place of none that was. -/
theorem Accounts.appendRun (h : Accounts taken m) {r : Run}
    (hheld : m.Has r.definition ∨ Overtaken taken i r.definition)
    (hunused : ∀ k q, (k, .appendRun q) ∈ taken → q.id ≠ r.id) :
    Accounts (taken ++ [(i, .appendRun r)]) (m.putRun r) := by
  refine ⟨h.filed.put rfl, fun id q hq => ?_, fun id e he => ?_, fun j id hd => ?_,
    fun j k q hs => ?_, fun j k e hs => ?_⟩
  · rw [Memory.run_putRun] at hq
    by_cases hid : id = r.id
    · rw [if_pos hid] at hq
      obtain rfl := Except.ok.inj hq
      exact hheld.imp_right fun ho => ho.late rfl
    · rw [if_neg hid] at hq
      exact (h.run id q hq).imp_right fun hl => hl.snoc _
  · obtain ⟨hown, hkept⟩ := h.event id e he
    exact ⟨hown, hkept.imp_right fun hl => hl.snoc _⟩
  · rcases List.mem_append.1 hd with hd | hd
    · exact h.deleted j id hd
    · cases List.mem_singleton.1 hd
  · rw [Memory.run_putRun]
    rcases pair_sublist_snoc.1 hs with hs | ⟨-, he⟩
    · rw [if_neg (hunused k q (hs.subset (List.mem_cons_of_mem _ List.mem_cons_self)))]
      exact h.late_run j k q hs
    · obtain rfl := Step.appendRun.inj (Prod.mk.inj he).2
      exact if_pos rfl
  · rcases pair_sublist_snoc.1 hs with hs | ⟨-, he⟩
    · exact h.late_event j k e hs
    · cases he

theorem Accounts.appendApproval (h : Accounts taken m) {e : ApprovalEvent}
    (hheld : m.Has e.definition ∨ Overtaken taken i e.definition) :
    Accounts (taken ++ [(i, .appendApproval e)]) (m.appendApproval e) := by
  refine ⟨h.filed, fun id r hr => ?_, fun id f hf => ?_, fun j id hd => ?_, fun j k r hs => ?_,
    fun j k f hs => ?_⟩
  · exact (h.run id r hr).imp_right fun hl => hl.snoc _
  · rw [Memory.trail_appendApproval] at hf
    by_cases hid : id = e.definition
    · rw [if_pos hid] at hf
      subst hid
      refine ⟨?_, hheld.imp_right fun ho => ho.late rfl⟩
      rcases List.mem_append.1 hf with hf | hf
      · exact (h.event _ f hf).1
      · rw [List.mem_singleton.1 hf]
    · rw [if_neg hid] at hf
      obtain ⟨hown, hkept⟩ := h.event id f hf
      exact ⟨hown, hkept.imp_right fun hl => hl.snoc _⟩
  · rcases List.mem_append.1 hd with hd | hd
    · exact h.deleted j id hd
    · cases List.mem_singleton.1 hd
  · rcases pair_sublist_snoc.1 hs with hs | ⟨-, he⟩
    · exact h.late_run j k r hs
    · cases he
  · rw [Memory.trail_appendApproval]
    rcases pair_sublist_snoc.1 hs with hs | ⟨-, he⟩
    · have hmem := h.late_event j k f hs
      split
      · exact List.mem_append_left _ hmem
      · exact hmem
    · obtain rfl := Step.appendApproval.inj (Prod.mk.inj he).2
      rw [if_pos rfl]
      exact List.mem_append_right _ List.mem_cons_self

/-- Each step of an attached client is accounted for. -/
theorem Accounts.take (h : Accounts taken m) (hs : Attaches held given s)
    (hheld : ∀ id, held = some id → m.Has id ∨ Overtaken taken i id)
    (hunused : ∀ id, given = some id → ∀ k r, (k, .appendRun r) ∈ taken → r.id ≠ id)
    {a : s.Answer} (ht : Backend.take s m = (.ok a, m')) : Accounts (taken ++ [(i, s)]) m' := by
  have hhas := has_take hs ht
  cases s with
  | load _ =>
    obtain rfl := (Prod.mk.inj ht).2
    exact h.quiet (fun _ => Iff.rfl) rfl rfl (fun _ => Step.noConfusion) rfl
  | save d v =>
    obtain rfl := Memory.take_save_eq_ok ht
    refine h.quiet (fun id => ?_) rfl rfl (fun _ => Step.noConfusion) rfl
    exact (hhas id).trans (and_iff_left Step.noConfusion)
  | delete _ => exact h.delete (Memory.written_eq_ok ht)
  | appendApproval e =>
    obtain rfl := (Prod.mk.inj ht).2
    exact h.appendApproval (hheld e.definition hs)
  | appendRun r =>
    obtain rfl := (Prod.mk.inj ht).2
    exact h.appendRun (hheld r.definition hs.1) (hunused r.id hs.2)
  | definitions _ | approvals _ | updateRun _ | run _ | runs _ _ | orgRuns _ _ | summary _
  | templates | template _ => exact hs.elim

end

/-! ## Clients -/

/-- What can be said of a client in a pool in which the steps `taken` have been taken: which
definition it has loaded, and which identifier it has been given and not used. -/
structure Client.Holds (taken : List (Nat × Step)) (m : Memory) (i : Nat) (c : Client)
    (held given : Option Uuid) : Prop where
  attached : Attached held given c.rest
  held : ∀ id, held = some id → (i, .load id) ∈ taken ∧ (m.Has id ∨ Overtaken taken i id)
  given : ∀ id, given = some id →
    c.given = some id ∧ ∀ k r, (k, .appendRun r) ∈ taken → r.id ≠ id

section

variable {taken : List (Nat × Step)} {m m' : Memory} {i j : Nat} {c b : Client} {s : Step}
  {held given : Option Uuid}

/-- What a client has loaded is stored or was deleted since, whoever takes the step. -/
theorem Client.Holds.held_take (h : b.Holds taken m j held given)
    (hhas : ∀ id, m'.Has id ↔ m.Has id ∧ s ≠ .delete id) (id : Uuid) (hid : held = some id) :
    (j, .load id) ∈ taken ++ [(i, s)] ∧ (m'.Has id ∨ Overtaken (taken ++ [(i, s)]) j id) := by
  obtain ⟨hloaded, hstored⟩ := h.held id hid
  refine ⟨List.mem_append_left _ hloaded, ?_⟩
  rcases hstored with hstored | hover
  · by_cases hs : s = .delete id
    · exact Or.inr ⟨i, hs ▸ pair_sublist_snoc.2 (Or.inr ⟨hloaded, rfl⟩)⟩
    · exact Or.inl ((hhas id).2 ⟨hstored, hs⟩)
  · exact Or.inr (hover.snoc _)

/-- Another client takes a step, and uses no identifier that was given to this one. -/
theorem Client.Holds.other (h : b.Holds taken m j held given)
    (hhas : ∀ id, m'.Has id ↔ m.Has id ∧ s ≠ .delete id)
    (happend : ∀ r, s = .appendRun r → b.given ≠ some r.id) :
    b.Holds (taken ++ [(i, s)]) m' j held given where
  attached := h.attached
  held := h.held_take hhas
  given id hid := by
    obtain ⟨hgiven, hunused⟩ := h.given id hid
    refine ⟨hgiven, fun k r hr => ?_⟩
    rcases List.mem_append.1 hr with hr | hr
    · exact hunused k r hr
    · rintro rfl
      exact happend r (Prod.mk.inj (List.mem_singleton.1 hr)).2.symm hgiven

theorem unusedAfter_eq_some {id : Uuid} (h : unusedAfter given s = some id) :
    given = some id ∧ (∀ r, s ≠ .appendRun r) ∧ givenAfter c.given s = c.given := by
  cases s with
  | save _ _ | appendRun _ => cases h
  | _ => exact ⟨h, fun _ => Step.noConfusion, rfl⟩

theorem heldAfter_eq_some {id : Uuid} (h : heldAfter held s = some id) :
    held = some id ∨ s = .load id := by
  cases s with
  | load id' =>
    obtain rfl := Option.some.inj h
    exact Or.inr rfl
  | _ => exact Or.inl h

theorem givenAfter_eq_some {id : Uuid} (h : givenAfter given s = some id) : given = some id := by
  cases s with
  | save _ _ => cases h
  | _ => exact h

/-- The client takes a step itself. -/
theorem Client.Holds.step (h : c.Holds taken m i held given) (hm : m.Sound)
    {next : s.Answer → Program Reply} (hr : c.rest = .take s next) {a : s.Answer}
    (ht : Backend.take s m = (.ok a, m')) :
    ({ c with
        rest := next a
        loaded := loadedAfter c.loaded s a
        given := givenAfter c.given s } : Client).Holds (taken ++ [(i, s)]) m' i
      (heldAfter held s) (unusedAfter given s) := by
  have hattached := h.attached
  rw [hr] at hattached
  obtain ⟨hs, hnext⟩ := hattached
  have hhas := has_take hs ht
  have hnamed : IsNamed s a := by
    cases s with
    | load id => exact hm id a (Memory.load_eq_ok.1 (Prod.mk.inj ht).1)
    | _ => trivial
  refine ⟨hnext a hnamed, fun id hid => ?_, fun id hid => ?_⟩
  · rcases heldAfter_eq_some hid with hid | rfl
    · exact h.held_take hhas id hid
    · have hload : m.Has id := ⟨a, (Prod.mk.inj ht).1⟩
      refine ⟨List.mem_append_right _ List.mem_cons_self, Or.inl ((hhas id).2 ⟨hload, ?_⟩)⟩
      exact Step.noConfusion
  · obtain ⟨hid, hnot, hkept⟩ := unusedAfter_eq_some hid
    obtain ⟨hgiven, hunused⟩ := h.given id hid
    refine ⟨hkept.trans hgiven, fun k r hr => ?_⟩
    rcases List.mem_append.1 hr with hr | hr
    · exact hunused k r hr
    · exact absurd (Prod.mk.inj (List.mem_singleton.1 hr)).2.symm (hnot r)

end

/-! ## Identifiers -/

section

variable {σ : Type} {sources : Program.Sources} {bound : Nat} {P P' : Pool σ} {i : Nat}
  {c c' : Client}

/-- The identifiers that clients have been given were drawn, and none was given to two. -/
structure Pool.GivenApart (sources : Program.Sources) (P : Pool σ) : Prop where
  drawn : ∀ (i : Nat) (c : Client) (id : Uuid), P.clients[i]? = some c → c.given = some id →
    ∃ n, n < P.idsTaken ∧ sources.ids n = id
  apart : ∀ (i j : Nat) (a b : Client) (id : Uuid), P.clients[i]? = some a →
    P.clients[j]? = some b → i ≠ j → a.given = some id → b.given ≠ some id

/-- A client goes on, and is given nothing new but an identifier that none has had. -/
theorem Pool.GivenApart.set (h : P.GivenApart sources) (hd : sources.Distinct bound)
    (hc : P.clients[i]? = some c) (hset : P'.clients = P.clients.set i c')
    (hids : P.idsTaken ≤ P'.idsTaken) (hbound : P'.idsTaken ≤ bound)
    (hgiven : ∀ id, c'.given = some id →
      c.given = some id ∨ ∃ n, P.idsTaken ≤ n ∧ n < P'.idsTaken ∧ sources.ids n = id) :
    P'.GivenApart sources := by
  have hdrawn : ∀ (j : Nat) (b : Client) (id : Uuid), P.clients[j]? = some b →
      b.given = some id → ∃ n, n < P'.idsTaken ∧ sources.ids n = id := by
    intro j b id hb hid
    obtain ⟨n, hn, he⟩ := h.drawn j b id hb hid
    exact ⟨n, Nat.lt_of_lt_of_le hn hids, he⟩
  -- what the client has now none of the others has
  have hnew : ∀ (j : Nat) (b : Client) (id : Uuid), i ≠ j → P.clients[j]? = some b →
      c'.given = some id → b.given ≠ some id := by
    intro j b id hj hb hid hbid
    rcases hgiven id hid with hid | ⟨n, hle, hlt, rfl⟩
    · exact h.apart i j c b id hc hb hj hid hbid
    · obtain ⟨k, hk, he⟩ := h.drawn j b _ hb hbid
      have := hd k n (by omega) (by omega) he
      omega
  constructor
  · intro j b id hb hid
    rw [hset] at hb
    rcases getElem?_set_client hb with ⟨rfl, rfl⟩ | ⟨-, hb⟩
    · rcases hgiven id hid with hid | ⟨n, -, hn, he⟩
      · exact hdrawn j c id hc hid
      · exact ⟨n, hn, he⟩
    · exact hdrawn j b id hb hid
  · intro j k a b id ha hb hjk hid hbid
    rw [hset] at ha hb
    rcases getElem?_set_client ha with ⟨rfl, rfl⟩ | ⟨hj, hja⟩
    · rcases getElem?_set_client hb with ⟨rfl, -⟩ | ⟨hk, hkb⟩
      · exact hjk rfl
      · exact hnew k b id hjk hkb hid hbid
    · rcases getElem?_set_client hb with ⟨rfl, rfl⟩ | ⟨hk, hkb⟩
      · exact hnew j a id (Ne.symm hj) hja hbid hid
      · exact h.apart j k a b id hja hkb hjk hid hbid

end

/-! ## Invariant -/

section

variable {sources : Program.Sources} {bound : Nat} {taken ts : List (Nat × Step)}
  {P P' : Pool Memory} {i : Nat} {c c' : Client}

/-- The invariant of a pool in which the steps `taken` have been taken. -/
structure Pool.Accounted (sources : Program.Sources) (bound : Nat) (P : Pool Memory)
    (taken : List (Nat × Step)) : Prop where
  sound : P.store.Sound
  store : Accounts taken P.store
  within : P.idsTaken ≤ bound
  clients : ∀ (i : Nat) (c : Client), P.clients[i]? = some c →
    ∃ held given, c.Holds taken P.store i held given
  given : P.GivenApart sources
  used : ∀ k r, (k, .appendRun r) ∈ taken → ∃ n, n < P.idsTaken ∧ sources.ids n = r.id

/-- A client goes on, and is given nothing new but an identifier that none has had. -/
theorem Pool.Accounted.move (h : P.Accounted sources bound taken) (hd : sources.Distinct bound)
    (hc : P.clients[i]? = some c) (hset : P'.clients = P.clients.set i c')
    (hsound : P'.store.Sound) (hstore : Accounts ts P'.store)
    (hids : P.idsTaken ≤ P'.idsTaken) (hbound : P'.idsTaken ≤ bound)
    (hown : ∃ held given, c'.Holds ts P'.store i held given)
    (hothers : ∀ (j : Nat) (b : Client) (held given : Option Uuid), i ≠ j → P.clients[j]? = some b →
      b.Holds taken P.store j held given → b.Holds ts P'.store j held given)
    (hgiven : ∀ id, c'.given = some id →
      c.given = some id ∨ ∃ n, P.idsTaken ≤ n ∧ n < P'.idsTaken ∧ sources.ids n = id)
    (hused : ∀ k r, (k, .appendRun r) ∈ ts → (k, .appendRun r) ∈ taken ∨ c.given = some r.id) :
    P'.Accounted sources bound ts := by
  refine ⟨hsound, hstore, hbound, ?_, h.given.set hd hc hset hids hbound hgiven, ?_⟩
  · intro j b hb
    rw [hset] at hb
    rcases getElem?_set_client hb with ⟨rfl, rfl⟩ | ⟨hj, hb⟩
    · exact hown
    · obtain ⟨held, given, hholds⟩ := h.clients j b hb
      exact ⟨held, given, hothers j b held given (Ne.symm hj) hb hholds⟩
  · intro k r hr
    obtain ⟨n, hn, he⟩ : ∃ n, n < P.idsTaken ∧ sources.ids n = r.id := by
      rcases hused k r hr with hr | hr
      · exact h.used k r hr
      · exact h.given.drawn i c r.id hc hr
    exact ⟨n, Nat.lt_of_lt_of_le hn hids, he⟩

/-- A client goes on, and nothing happens to the store. -/
theorem Pool.Accounted.aside (h : P.Accounted sources bound taken) (hd : sources.Distinct bound)
    (hc : P.clients[i]? = some c) (hset : P'.clients = P.clients.set i c')
    (hstore : P'.store = P.store) (hids : P'.idsTaken = P.idsTaken) {held given : Option Uuid}
    (hown : c'.Holds taken P.store i held given) (hgiven : c'.given = c.given) :
    P'.Accounted sources bound taken := by
  refine h.move hd hc hset ?_ ?_ (Nat.le_of_eq hids.symm) ?_ ⟨held, given, ?_⟩ ?_ ?_ ?_
  · exact hstore.symm ▸ h.sound
  · exact hstore.symm ▸ h.store
  · exact hids.symm ▸ h.within
  · exact hstore.symm ▸ hown
  · intro j b held' given' _ _ hb
    exact hstore.symm ▸ hb
  · exact fun id hid => Or.inl (hgiven.symm.trans hid)
  · exact fun k r hr => Or.inl hr

theorem sound_take {m m' : Memory} {s : Step} (hm : m.Sound) {held given : Option Uuid}
    (hs : Attaches held given s) {a : s.Answer} (ht : Backend.take s m = (.ok a, m')) :
    m'.Sound := by
  cases s with
  | save d v =>
    rw [Memory.take_save_eq_ok ht]
    exact hm.put d
  | delete id => exact (Memory.shelving.delete_ok hm ht).1
  | load _ | appendRun _ | appendApproval _ =>
    rw [← (Prod.mk.inj ht).2]
    exact hm
  | definitions _ | approvals _ | updateRun _ | run _ | runs _ _ | orgRuns _ _ | summary _
  | templates | template _ => exact hs.elim

/-- A client is given an identifier that none has had. -/
theorem Pool.Accounted.give (h : P.Accounted sources bound taken) (hd : sources.Distinct bound)
    (hc : P.clients[i]? = some c) {next : Uuid → Program Reply} (hr : c.rest = .fresh next)
    (hroom : P.idsTaken < bound) : (P.advance sources i).Accounted sources bound taken := by
  obtain ⟨held, given, hholds⟩ := h.clients i c hc
  have hattached := hholds.attached
  rw [hr] at hattached
  have hunused : ∀ k r, (k, .appendRun r) ∈ taken → r.id ≠ sources.ids P.idsTaken := by
    intro k r hr he
    obtain ⟨n, hn, hid⟩ := h.used k r hr
    have := hd n P.idsTaken (by omega) hroom (hid.trans he)
    omega
  rw [Pool.advance_fresh hc hr]
  refine h.move hd hc rfl h.sound h.store (Nat.le_succ _) hroom
    ⟨held, some (sources.ids P.idsTaken), hattached _, hholds.held, fun id hid => ⟨hid, ?_⟩⟩
    (fun _ _ _ _ _ _ hb => hb) (fun id hid => ?_) (fun k r hr => Or.inl hr)
  · exact Option.some.inj hid ▸ hunused
  · exact Or.inr ⟨P.idsTaken, Nat.le_refl _, Nat.lt_succ_self _, Option.some.inj hid⟩

/-- A client takes a step on the store. -/
theorem Pool.Accounted.take (h : P.Accounted sources bound taken) (hd : sources.Distinct bound)
    (hc : P.clients[i]? = some c) {s : Step} {next : s.Answer → Program Reply}
    (hr : c.rest = .take s next) {a : s.Answer} {store : Memory}
    (ht : Backend.take s P.store = (.ok a, store)) :
    (P.advance sources i).Accounted sources bound (taken ++ [(i, s)]) := by
  obtain ⟨held, given, hholds⟩ := h.clients i c hc
  have hattached := hholds.attached
  rw [hr] at hattached
  obtain ⟨hs, -⟩ := hattached
  have hhas := has_take hs ht
  have happend : ∀ r, s = .appendRun r → c.given = some r.id := by
    rintro r rfl
    exact (hholds.given r.id hs.2).1
  rw [Pool.advance_ok hc hr ht]
  refine h.move hd hc rfl (sound_take h.sound hs ht) ?_ (Nat.le_refl _) h.within
    ⟨_, _, hholds.step h.sound hr ht⟩ ?_ ?_ ?_
  · exact h.store.take hs (fun id hid => (hholds.held id hid).2)
      (fun id hid => (hholds.given id hid).2) ht
  · intro j b held' given' hj hb hother
    refine hother.other hhas fun r hr' => ?_
    exact h.given.apart i j c b r.id hc hb hj (happend r hr')
  · exact fun id hid => Or.inl (givenAfter_eq_some hid)
  · intro k r hr'
    rcases List.mem_append.1 hr' with hr' | hr'
    · exact Or.inl hr'
    · exact Or.inr (happend r (Prod.mk.inj (List.mem_singleton.1 hr')).2.symm)

/-- Each step of a client keeps the invariant. -/
theorem Pool.Accounted.advanceClient (h : P.Accounted sources bound taken)
    (hd : sources.Distinct bound) (hbound : (P.advance sources i).idsTaken ≤ bound)
    (hc : P.clients[i]? = some c) : (P.advance sources i).Accounted sources bound
      (taken ++ (c.takes P.store).toList.map (i, ·)) := by
  obtain ⟨held, given, hholds⟩ := h.clients i c hc
  have hattached := hholds.attached
  -- most steps are none on the store
  have hquiet (hnone : c.takes P.store = none)
      (hadvance : (P.advance sources i).Accounted sources bound taken) :
      (P.advance sources i).Accounted sources bound
        (taken ++ (c.takes P.store).toList.map (i, ·)) := by
    rw [hnone]
    exact (List.append_nil taken).symm ▸ hadvance
  have hnone (hnot : ∀ s next, c.rest ≠ .take s next) : c.takes P.store = none :=
    Pool.takes_eq_none hnot P.store
  cases hr : c.rest with
  | done _ | fail _ =>
    refine hquiet (hnone fun s next hr' => by cases hr.symm.trans hr') ?_
    rw [Pool.advance_of_over hc (by simp [Client.Over, hr])]
    exact h
  | draw _ _ =>
    rw [hr] at hattached
    exact hattached.elim
  | announce e next =>
    rw [hr] at hattached
    refine hquiet (hnone fun s next hr' => by cases hr.symm.trans hr') ?_
    have hown : ({ c with rest := next } : Client).Holds taken P.store i held given :=
      ⟨hattached, hholds.held, hholds.given⟩
    rw [Pool.advance_announce hc hr]
    exact h.aside hd hc rfl rfl rfl hown rfl
  | fresh next =>
    refine hquiet (hnone fun s next hr' => by cases hr.symm.trans hr') ?_
    rw [Pool.advance_fresh hc hr] at hbound
    exact h.give hd hc hr hbound
  | take s next =>
    cases ht : Backend.take s P.store with
    | mk answer store =>
      cases answer with
      | error e =>
        obtain rfl := Memory.take_error_eq ht
        refine hquiet (Pool.takes_error hr ht) ?_
        have hown : ({ c with rest := .fail e } : Client).Holds taken P.store i held given :=
          ⟨trivial, hholds.held, hholds.given⟩
        rw [Pool.advance_error hc hr ht]
        exact h.aside hd hc rfl rfl rfl hown rfl
      | ok a =>
        rw [Pool.takes_ok hr ht]
        exact h.take hd hc hr ht

/-- Any order of steps keeps the invariant, as long as no more identifiers are taken than differ. -/
theorem Pool.Accounted.after (h : P.Accounted sources bound taken) (hd : sources.Distinct bound)
    (order : List Nat) (hbound : (P.after sources order).idsTaken ≤ bound) :
    (P.after sources order).Accounted sources bound (taken ++ P.taken sources order) := by
  refine Pool.after_induction
    (I := fun P taken => P.idsTaken ≤ bound → P.Accounted sources bound taken) ?_ (fun _ => h) order
    hbound
  intro P taken i c hP hc hle
  exact (hP (Nat.le_trans (P.idsTaken_le_advance i) hle)).advanceClient hd hle hc

end

/-! ## Start -/

theorem accounts_start {m : Memory} (hfiled : Assoc.Filed Run.id m.runs) (hm : m.Owned) :
    Accounts [] m where
  filed := hfiled
  run id r hr := Or.inl (hm.run id r hr)
  event id e he := ⟨(hm.event id e he).1, Or.inl (hm.event id e he).2⟩
  deleted _ _ h := absurd h List.not_mem_nil
  late_run _ _ _ h := by cases h
  late_event _ _ _ h := by cases h

theorem Pool.start_accounted (sources : Program.Sources) (canvas : Editor.Canvas) (bound : Nat)
    {m : Memory} (hm : m.Sound) (hfiled : Assoc.Filed Run.id m.runs) (howned : m.Owned)
    {calls : List (Timestamp × Call)} (hcalls : ∀ p ∈ calls, p.2.AddsOrDeletes) :
    (Pool.start canvas m calls).Accounted sources bound [] := by
  have hnone : ∀ c ∈ (Pool.start canvas m calls).clients, c.given = none := by
    intro c hc
    obtain ⟨p, -, rfl⟩ := Pool.mem_start hc
    rfl
  refine ⟨hm, accounts_start hfiled howned, Nat.zero_le bound, ?_, ⟨?_, ?_⟩, ?_⟩
  · intro i c hc
    obtain ⟨p, hp, rfl⟩ := Pool.mem_start (List.mem_of_getElem? hc)
    refine ⟨none, none, attached_program (hcalls p hp) canvas p.1, ?_, ?_⟩
    · exact fun id hid => nomatch hid
    · exact fun id hid => nomatch hid
  · intro i c id hc hid
    cases (hnone c (List.mem_of_getElem? hc)).symm.trans hid
  · intro i j a b id ha _ _ hid
    cases (hnone a (List.mem_of_getElem? ha)).symm.trans hid
  · exact fun k r hr => absurd hr List.not_mem_nil

/-! ## Theorem -/

/-- What is said of a pool in which the steps `taken` have been taken. -/
structure Pool.LeavesBehind (taken : List (Nat × Step)) (P : Pool Memory) : Prop where
  /-- a run belongs to a stored definition, or to one to which was added too late -/
  run : ∀ id r, P.store.run id = .ok r →
    P.store.Has r.definition ∨ Late taken r.definition
  /-- and so does an event -/
  event : ∀ id, ∀ e ∈ P.store.trail id,
    e.definition = id ∧ (P.store.Has id ∨ Late taken id)
  /-- what was deleted is not stored, and something of it shows up just if an addition was late -/
  deleted : ∀ j id, (j, .delete id) ∈ taken →
    ¬P.store.Has id ∧ (P.store.Forgets id ↔ ¬Late taken id)
  /-- all belongs to stored definitions just if no addition was late -/
  owned_iff : P.store.Owned ↔ ∀ id, ¬Late taken id

/-- What was added too late shows up. -/
theorem Accounts.shown_of_late {taken : List (Nat × Step)} {m : Memory} (h : Accounts taken m)
    {id : Uuid} (hl : Late taken id) :
    ¬m.Has id ∧ ((∃ id' r, m.run id' = .ok r ∧ r.definition = id) ∨ ∃ e, e ∈ m.trail id) := by
  obtain ⟨i, j, s, hs, hadds⟩ := hl
  have hpair : [(j, .delete id), (i, s)].Sublist taken := (List.sublist_cons_self _ _).trans hs
  refine ⟨h.deleted j id (hpair.subset List.mem_cons_self), ?_⟩
  cases s with
  | appendRun r =>
    obtain rfl := Option.some.inj hadds
    exact Or.inl ⟨r.id, r, h.late_run j i r hpair, rfl⟩
  | appendApproval e =>
    obtain rfl := Option.some.inj hadds
    exact Or.inr ⟨e, h.late_event j i e hpair⟩
  | _ => cases hadds

/-- Of a definition that was deleted nothing is left, unless a client that had loaded it before has
added a run or an event to it since; and whatever belongs to no stored definition was added so. -/
theorem left_behind_late (sources : Program.Sources) (canvas : Editor.Canvas) {m : Memory}
    (hm : m.Sound) (hfiled : Assoc.Filed Run.id m.runs) (howned : m.Owned)
    (calls : List (Timestamp × Call)) (hcalls : ∀ p ∈ calls, p.2.AddsOrDeletes)
    (order : List Nat) {P : Pool Memory}
    (hP : P = (Pool.start canvas m calls).after sources order)
    (hids : sources.Distinct P.idsTaken) :
    P.LeavesBehind ((Pool.start canvas m calls).taken sources order) := by
  have h := (Pool.start_accounted sources canvas P.idsTaken hm hfiled howned hcalls).after hids
    order (hP ▸ Nat.le_refl _)
  rw [List.nil_append, ← hP] at h
  generalize (Pool.start canvas m calls).taken sources order = taken at h
  have hstore := h.store
  refine ⟨hstore.run, hstore.event, fun j id hd => ⟨hstore.deleted j id hd, ?_⟩, ?_⟩
  · have hgone := hstore.deleted j id hd
    rw [Memory.forgets_iff hstore.filed]
    constructor
    · rintro ⟨hrun, htrail⟩ hl
      rcases (hstore.shown_of_late hl).2 with ⟨id', r, hr, hown⟩ | ⟨e, he⟩
      · exact hrun id' r hr hown
      · rw [htrail] at he
        cases he
    · intro hl
      refine ⟨?_, List.eq_nil_iff_forall_not_mem.2 fun e he => ?_⟩
      · rintro id' r hr rfl
        exact (hstore.run id' r hr).elim hgone hl
      · exact (hstore.event id e he).2.elim hgone hl
  · constructor
    · intro howned id hl
      obtain ⟨hgone, ⟨id', r, hr, rfl⟩ | ⟨e, he⟩⟩ := hstore.shown_of_late hl
      · exact hgone (howned.run id' r hr)
      · exact hgone (howned.event id e he).2
    · intro hl
      refine ⟨fun id r hr => ?_, fun id e he => ?_⟩
      · exact (hstore.run id r hr).resolve_right (hl r.definition)
      · obtain ⟨hown, hkept⟩ := hstore.event id e he
        exact ⟨hown, hkept.resolve_right (hl id)⟩

/-! ## Clients that are overtaken -/

/-- An automation that is active. -/
def welcoming : Definition := Definition.welcome.after (Definition.reactivation.take 3)

/-- It is stored with its trail. -/
def inService : Memory :=
  welcoming.history.foldl Memory.appendApproval ((Memory.empty .empty).put welcoming)

/-- One client starts a run, one requests the approval anew, and one deletes. -/
def withdrawing : List (Timestamp × Call) :=
  [(⟨5, some 0⟩, .startRun (Uuid.ofNat 1) .null),
    (⟨6, some 0⟩, .govern .request (Uuid.ofNat 1) .null .null),
    (⟨7, some 0⟩, .delete (Uuid.ofNat 1))]

/-- The third one loads and deletes after the first one has loaded and the second one has saved. -/
def withdrawingOrder : List Nat := [0, 1, 1, 2, 2, 2, 0, 0, 0, 1, 1, 1]

def withdrawn : Pool Memory :=
  (Pool.start .standard inService withdrawing).after counting withdrawingOrder

def lateRun : Run :=
  Run.start (Uuid.ofNat 0) (Uuid.ofNat 1) (.text "acme") (.object []) ⟨5, some 0⟩

def lateEvent : ApprovalEvent :=
  ⟨Uuid.ofNat 1, .request, .approved, .pending, .null, .null, ⟨6, some 0⟩⟩

theorem sound_inService : inService.Sound := by
  refine Memory.sound_of_definitions (m := (Memory.empty .empty).put welcoming) ?_ (by decide +kernel)
  refine Memory.Sound.put ?_ welcoming
  intro id d h
  cases h

theorem owned_inService : inService.Owned := by
  refine Memory.Owned.appendApprovals ((Memory.owned_empty .empty).put welcoming) fun e he => ?_
  have hown : ∀ e ∈ welcoming.history, e.definition = welcoming.id := by decide +kernel
  exact ⟨welcoming, hown e he ▸ Memory.load_put_self _ _⟩

theorem filed_inService : Assoc.Filed Run.id inService.runs := by
  have hruns : inService.runs = [] := by decide +kernel
  rw [hruns]
  exact Assoc.Filed.nil

theorem withdrawing_addsOrDeletes : ∀ p ∈ withdrawing, p.2.AddsOrDeletes := by
  intro p hp
  simp only [withdrawing, List.mem_cons, List.not_mem_nil, or_false] at hp
  rcases hp with rfl | rfl | rfl
  · trivial
  · trivial
  · trivial

theorem store_withdrawn :
    withdrawn.store = ⟨.empty, [], [(Uuid.ofNat 1, [lateEvent])], [(Uuid.ofNat 0, lateRun)]⟩ := by
  decide +kernel

theorem distinct_withdrawn : counting.Distinct withdrawn.idsTaken :=
  distinct_counting (by decide +kernel)

theorem withdrawn_over : ∀ c ∈ withdrawn.clients, c.Over := by
  intro c hc
  obtain ⟨i, hi⟩ := List.getElem?_of_mem hc
  rcases i with _ | _ | _ | i
  · obtain rfl := Option.some.inj hi
    exact Or.inl ⟨_, rfl⟩
  · obtain rfl := Option.some.inj hi
    exact Or.inl ⟨_, rfl⟩
  · obtain rfl := Option.some.inj hi
    exact Or.inl ⟨_, rfl⟩
  · cases hi

/-- The run and the event of the clients that were overtaken are left behind. -/
theorem left_behind_late_withdrawn :
    withdrawn.LeavesBehind ((Pool.start .standard inService withdrawing).taken counting
        withdrawingOrder) ∧
      Late ((Pool.start .standard inService withdrawing).taken counting withdrawingOrder)
        (Uuid.ofNat 1) ∧
      withdrawn.store.load (Uuid.ofNat 1) = .error (.definitionMissing (Uuid.ofNat 1)) ∧
      withdrawn.store.run (Uuid.ofNat 0) = .ok lateRun ∧
      withdrawn.store.runsOf (Uuid.ofNat 1) (.int 50) = .ok [lateRun] ∧
      withdrawn.store.runsOfOrg (.text "acme") (.int 50) = .ok [lateRun] ∧
      withdrawn.store.trail (Uuid.ofNat 1) = [lateEvent] := by
  have hleaves := left_behind_late counting .standard sound_inService filed_inService
    owned_inService withdrawing withdrawing_addsOrDeletes withdrawingOrder (P := withdrawn) rfl
    distinct_withdrawn
  have hrecent : Run.recent [lateRun] 50 = .ok [lateRun] := by
    simp [Run.recent, Run.newestFirst, Timestamp.allComparable]
  have hdeleted : (2, Step.delete (Uuid.ofNat 1)) ∈
      (Pool.start .standard inService withdrawing).taken counting withdrawingOrder := by
    decide +kernel
  have hrun : withdrawn.store.run (Uuid.ofNat 0) = .ok lateRun := by
    rw [store_withdrawn]
    rfl
  refine ⟨hleaves, ?_, ?_, hrun, ?_, ?_, ?_⟩
  · by_contra hl
    have hforgets := (hleaves.deleted 2 (Uuid.ofNat 1) hdeleted).2.2 hl
    exact hforgets.run (Uuid.ofNat 0) lateRun hrun rfl
  · rw [store_withdrawn]
    rfl
  · rw [store_withdrawn]
    exact hrecent
  · rw [store_withdrawn]
    exact hrecent
  · rw [store_withdrawn]
    rfl

/-- Deleting does not always leave nothing behind. -/
theorem left_behind :
    ¬∀ (m : Memory) (calls : List (Timestamp × Call)) (order : List Nat) (P : Pool Memory),
      m.Sound → Assoc.Filed Run.id m.runs → m.Owned → (∀ p ∈ calls, p.2.AddsOrDeletes) →
      P = (Pool.start .standard m calls).after counting order → counting.Distinct P.idsTaken →
      (∀ c ∈ P.clients, c.Over) → P.store.Owned := by
  intro h
  have howned := h inService withdrawing withdrawingOrder withdrawn sound_inService filed_inService
    owned_inService withdrawing_addsOrDeletes rfl distinct_withdrawn withdrawn_over
  rw [store_withdrawn] at howned
  obtain ⟨d, hd⟩ := howned.run (Uuid.ofNat 0) lateRun rfl
  cases hd

end Service

end Workflow
