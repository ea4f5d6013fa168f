import Workflow.Proofs.Blame
import Workflow.Proofs.Editor.RoundTrip
import Workflow.Proofs.Graph.Rules

/-!
# Transitions are known by their ends

A transition that is shown is identified by its ends, joined by a dash.  Nothing keeps two
transitions apart that have the same ends, nor two whose ends are joined to the same text:
where a part with a dash at its border may belong to either end.  Transitions that are not
so confused have identifiers of their own, and what is wrong with one of them is said of it
alone.

    two joined texts are the same ↔ the ends are confused           (joined_eq_joined_iff)
    the identifiers are distinct ↔ no two transitions are confused   (identifiers_of_ofGraph)
-/

namespace Workflow.Editor

/-! ## Joined ends -/

/-- The dash at which one pair of ends was joined stands within an end of the other. -/
def Shifted (s t s' t' : String) : Prop := ∃ m, s' = s ++ "-" ++ m ∧ t = m ++ "-" ++ t'

/-- Two transitions whose ends are joined to one text. -/
def Confused (a b : Workflow.Edge) : Prop :=
  (a.source = b.source ∧ a.target = b.target) ∨
    Shifted a.source a.target b.source b.target ∨ Shifted b.source b.target a.source a.target

theorem Shifted.joined_eq {s t s' t' : String} (h : Shifted s t s' t') :
    joined s t = joined s' t' := by
  obtain ⟨m, rfl, rfl⟩ := h
  simp [joined, String.append_assoc]

/-- The border of the longer source lies in the other target. -/
theorem shifted_of_append {s t s' t' : String} {l : List Char} (hs : s'.toList = s.toList ++ l)
    (ht : '-' :: t.toList = l ++ '-' :: t'.toList) :
    (s = s' ∧ t = t') ∨ Shifted s t s' t' := by
  cases l with
  | nil =>
    rw [List.append_nil] at hs
    exact .inl ⟨(String.toList_inj.1 hs).symm, String.toList_inj.1 (List.cons.inj ht).2⟩
  | cons c m =>
    obtain ⟨rfl, ht⟩ := List.cons.inj ht
    refine .inr ⟨String.ofList m, ?_, ?_⟩
    · rw [← String.toList_inj]
      simpa using hs
    · rw [← String.toList_inj]
      simpa using ht

theorem joined_eq_joined_iff {s t s' t' : String} : joined s t = joined s' t' ↔
    (s = s' ∧ t = t') ∨ Shifted s t s' t' ∨ Shifted s' t' s t := by
  constructor
  · intro h
    have hchars : s.toList ++ '-' :: t.toList = s'.toList ++ '-' :: t'.toList := by
      have htext := congrArg String.toList (Value.text.inj h)
      simpa using htext
    rcases List.append_eq_append_iff.1 hchars with ⟨l, hs, ht⟩ | ⟨l, hs, ht⟩
    · rcases shifted_of_append hs ht with h | h
      · exact .inl h
      · exact .inr (.inl h)
    · rcases shifted_of_append hs ht with ⟨hs, ht⟩ | h
      · exact .inl ⟨hs.symm, ht.symm⟩
      · exact .inr (.inr h)
  · rintro (⟨rfl, rfl⟩ | h | h)
    · rfl
    · exact h.joined_eq
    · exact h.joined_eq.symm

/-- Sources without a dash tell where they end. -/
theorem not_shifted_of_no_dash {s t s' t' : String} (h : '-' ∉ s'.toList) :
    ¬ Shifted s t s' t' := by
  rintro ⟨m, rfl, -⟩
  exact h (by simp)

/-! ## Naming a transition -/

namespace DraftEdge

theorem counts_compileAll : Counts DraftEdge.compileAll fun index d => d.compile index :=
  ⟨fun _ => rfl, fun _ _ _ => rfl⟩

theorem compile_refusesAt (d : DraftEdge) (index : Nat) :
    RefusesAt (d.element index) (fun _ => False) (d.compile index) :=
  .bind (requireText_refusesAt ..) fun _ _ => .bind (requireText_refusesAt ..) fun _ _ =>
    .bind (optionalText_refusesAt ..) fun _ _ => .ok _

/-- A transition with an identifier made of two ends is named by it. -/
theorem element_of_joined {d : DraftEdge} {s t : String} (h : d.id = joined s t) (index : Nat) :
    d.element index = some d.id := by
  have hne : (s ++ "-" ++ t).isEmpty = false := by simp
  unfold element
  rw [h]
  show (if (s ++ "-" ++ t).isEmpty then _ else _) = _
  rw [hne]
  rfl

/-- If the identifiers are made of ends, the first transition that is not in order is named. -/
theorem named_of_error {ds : List DraftEdge} {err : Error}
    (hids : ∀ d ∈ ds, ∃ s t, d.id = joined s t) (h : compileAll 0 ds = .error err) :
    ∃ before d cause, FirstOffender (fun l => ∃ es, compileAll 0 l = .ok es) ds before d ∧
      err = .malformed (some d.id) cause := by
  obtain ⟨before, d, hfirst, hd⟩ := counts_compileAll.firstOffender h
  obtain ⟨cause, rfl, -⟩ := (d.compile_refusesAt _).names err hd
  have hmem : d ∈ ds := hfirst.leads.subset (by simp)
  obtain ⟨s, t, hid⟩ := hids d hmem
  exact ⟨before, d, cause, hfirst, by rw [element_of_joined hid]⟩

end DraftEdge

/-! ## Theorem -/

namespace Graph

theorem identifiers_eq {g : Workflow.Graph} {canvas : Canvas} {draws : Nat → Number}
    {layout : Layout} {e : Graph} (he : Graph.ofGraph canvas draws layout g = .ok e) :
    e.edges.map Edge.id = g.edges.map fun t => joined t.source t.target := by
  obtain ⟨ms, -, h⟩ := bind_eq_ok.1 he
  obtain rfl := pure_eq_ok.1 h
  exact List.map_map ..

/-- Of a graph that breaks no rule and is shown.  Identifiers are made of the ends, and two
transitions have one identifier just if they are confused.  None are if no identifier of a step
has a dash and no two transitions have the same ends.  Whatever becomes of the transitions but for
their identifiers, the first of them that cannot be compiled is named by its identifier; and if
none were confused, no other has it. -/
theorem identifiers_of_ofGraph {g : Workflow.Graph} {canvas : Canvas} {draws : Nat → Number}
    {layout : Layout} {e : Graph} (hv : g.violations = [])
    (he : Graph.ofGraph canvas draws layout g = .ok e) :
    e.edges.map Edge.id = g.edges.map (fun t => joined t.source t.target) ∧
    ((e.edges.map Edge.id).Nodup ↔ g.edges.Pairwise fun a b => ¬ Confused a b) ∧
    ((∀ n ∈ g.nodes, '-' ∉ n.id.toList) →
      (g.edges.map fun t => (t.source, t.target)).Nodup → (e.edges.map Edge.id).Nodup) ∧
    ∀ ds : List DraftEdge, ds.map DraftEdge.id = e.edges.map Edge.id →
      ∀ err, DraftEdge.compileAll 0 ds = .error err →
        ∃ before d cause,
          FirstOffender (fun l => ∃ es, DraftEdge.compileAll 0 l = .ok es) ds before d ∧
            err = .malformed (some d.id) cause ∧
            ((g.edges.Pairwise fun a b => ¬ Confused a b) → ∀ d' ∈ ds, d'.id = d.id → d' = d) := by
  have hjoined := identifiers_eq he
  have hids : (e.edges.map Edge.id).Nodup ↔ g.edges.Pairwise fun a b => ¬ Confused a b := by
    rw [hjoined, List.Nodup, List.pairwise_map]
    exact List.Pairwise.iff fun a b => not_congr joined_eq_joined_iff
  refine ⟨hjoined, hids, fun hdash hends => hids.2 ?_, fun ds hds err herr => ?_⟩
  · rw [List.Nodup, List.pairwise_map] at hends
    refine hends.imp_of_mem fun ha hb hne hconfused => ?_
    have hplain {t : Workflow.Edge} (ht : t ∈ g.edges) : '-' ∉ t.source.toList := by
      obtain ⟨n, hn, hid⟩ := List.mem_map.1 (Workflow.Graph.ends_mem_ids hv ht).1
      rw [← hid]
      exact hdash n hn
    rcases hconfused with ⟨hs, ht⟩ | h | h
    · exact hne (Prod.ext hs ht)
    · exact not_shifted_of_no_dash (hplain hb) h
    · exact not_shifted_of_no_dash (hplain ha) h
  · have hmade : ∀ d ∈ ds, ∃ s t, d.id = joined s t := by
      intro d hd
      have hid : d.id ∈ g.edges.map fun t => joined t.source t.target :=
        hjoined ▸ hds ▸ List.mem_map.2 ⟨d, hd, rfl⟩
      obtain ⟨t, -, hid⟩ := List.mem_map.1 hid
      exact ⟨t.source, t.target, hid.symm⟩
    obtain ⟨before, d, cause, hfirst, rfl⟩ := DraftEdge.named_of_error hmade herr
    refine ⟨before, d, cause, hfirst, rfl, fun hapart d' hd' hid => ?_⟩
    have hnd : (ds.map DraftEdge.id).Nodup := hds ▸ hids.2 hapart
    exact List.inj_on_of_nodup_map hnd hd' (hfirst.leads.subset (by simp)) hid

/-- An action that sends a mail. -/
def letter (id : String) : Workflow.Node :=
  ⟨id, .action, "", [("action_kind", .text "email.send")]⟩

def fork : Workflow.Graph where
  nodes := [letter "a", letter "b", letter "c"]
  edges := [⟨"a", "b", none⟩, ⟨"a", "c", some "late"⟩]

/-- The transitions of the fork, of which the second has lost its source. -/
def spoiled : List DraftEdge :=
  [⟨joined "a" "b", .text "a", .text "b", .null⟩, ⟨joined "a" "c", .null, .text "c", .text "late"⟩]

theorem hasShortLabels_letters {g : Workflow.Graph} (h : ∀ n ∈ g.nodes, n.kind = .action) :
    HasShortLabels g := by
  intro n hn hk
  cases (h n hn).symm.trans hk

theorem identifiers_of_ofGraph_fork :
    fork.violations = [] ∧ ∃ e, Graph.ofGraph .standard (fun _ => half) [] fork = .ok e ∧
      (e.edges.map Edge.id).Nodup ∧ ∃ d cause,
        DraftEdge.compileAll 0 spoiled = .error (.malformed (some d.id) cause) ∧
          d.id = joined "a" "c" ∧ ∀ d' ∈ spoiled, d'.id = d.id → d' = d := by
  have hv : fork.violations = [] := by decide
  have hdraw : ∀ _ : Nat, Canvas.IsDraw half := fun _ => half_isDraw
  obtain ⟨e, he⟩ := (ofGraph_isOk_iff Canvas.standard_isFinite hdraw [] fork).2
    (canShow_of_violations hv (hasShortLabels_letters (by decide)))
  obtain ⟨hjoined, hids, hplain, hnamed⟩ := identifiers_of_ofGraph hv he
  have hnd : (e.edges.map Edge.id).Nodup := hplain (by decide) (by decide)
  have herr : DraftEdge.compileAll 0 spoiled =
      .error (.malformed (some (joined "a" "c")) (.shape "Edge source" "a string")) := by decide
  obtain ⟨before, d, cause, -, hd, hunique⟩ := hnamed spoiled hjoined.symm _ herr
  have hid : d.id = joined "a" "c" :=
    (Option.some.inj (Error.malformed.inj hd).1).symm
  exact ⟨hv, e, he, hnd, d, cause, hd ▸ herr, hid, hunique (hids.1 hnd)⟩

/-- Two ways from one step to another. -/
def twoWays : Workflow.Graph where
  nodes := [letter "a", letter "b"]
  edges := [⟨"a", "b", some "early"⟩, ⟨"a", "b", some "late"⟩]

/-- Two pairs of steps whose ends are joined to one text. -/
def dashed : Workflow.Graph where
  nodes := [letter "a", letter "b-c", letter "a-b", letter "c"]
  edges := [⟨"a", "b-c", none⟩, ⟨"a-b", "c", none⟩]

theorem identifiers_repeated :
    (twoWays.violations = [] ∧ ∃ e, Graph.ofGraph .standard (fun _ => half) [] twoWays = .ok e ∧
      ¬ (e.edges.map Edge.id).Nodup) ∧
    (dashed.violations = [] ∧ ∃ e, Graph.ofGraph .standard (fun _ => half) [] dashed = .ok e ∧
      ¬ (e.edges.map Edge.id).Nodup) := by
  have hshown {g : Workflow.Graph} (hv : g.violations = [])
      (hl : ∀ n ∈ g.nodes, n.kind = .action)
      (hclash : ¬ (g.edges.map fun t => joined t.source t.target).Nodup) :
      g.violations = [] ∧ ∃ e, Graph.ofGraph .standard (fun _ => half) [] g = .ok e ∧
        ¬ (e.edges.map Edge.id).Nodup := by
    have hdraw : ∀ _ : Nat, Canvas.IsDraw half := fun _ => half_isDraw
    obtain ⟨e, he⟩ := (ofGraph_isOk_iff Canvas.standard_isFinite hdraw [] g).2
      (canShow_of_violations hv (hasShortLabels_letters hl))
    exact ⟨hv, e, he, identifiers_eq he ▸ hclash⟩
  exact ⟨hshown (by decide) (by decide) (by decide), hshown (by decide) (by decide) (by decide)⟩

end Graph

end Workflow.Editor
