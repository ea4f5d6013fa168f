import Workflow.Proofs.Editor.Domain
import Workflow.Proofs.Editor.Wire

/-!
# Compiled graphs are in normal form

What an editor graph compiles to has the same steps and transitions in the same order.  Its
delays have milliseconds and no label, and its transitions no empty guard; the settings of
all other steps are those of the editor.  Such a graph is shown unless a delay is negative,
and what is shown compiles to the same graph again.

    e compiles to g → g is its normal form           (Graph.normalizedTo_of_compileBounded)
    no delay is negative or too long for its label → g is shown and compiles to itself
                                                              (Graph.NormalizedTo.shown)
    whether an editor graph compiles, to what, and what comes back of it
                                                              (Graph.compileBounded_decides)
-/

namespace Workflow.Editor

/-! ## Normal forms -/

/-- A step as it is compiled. -/
structure Node.NormalizedTo (n : Node) (m : Workflow.Node) : Prop where
  id : m.id = n.id
  kind : m.kind = n.kind
  name : m.name = n.name
  config : n.kind ≠ .delay → m.config = n.data
  unlabelled : n.kind = .delay → Assoc.find? "duration" m.config = none
  timed : n.kind = .delay → ∃ ms, Denotes n.data ms ∧
    Assoc.find? "duration_ms" m.config = some (.int ms)
  rest : n.kind = .delay → ∀ k, k ≠ "duration" → k ≠ "duration_ms" →
    Assoc.find? k m.config = Assoc.find? k n.data

/-- A graph as it is compiled: each step and each transition comes from its own, in order. -/
structure Graph.NormalizedTo (e : Graph) (g : Workflow.Graph) : Prop where
  nodes : List.Forall₂ Node.NormalizedTo e.nodes g.nodes
  edges : g.edges = e.edges.map fun t =>
    ⟨t.source, t.target, if t.label = some "" then none else t.label⟩
  guarded : ∀ t ∈ g.edges, t.condition ≠ some ""

/-- A delay that would be over before it began. -/
def IsNegative (m : Workflow.Node) : Prop :=
  m.kind = .delay ∧ ∃ ms : Int, Assoc.find? "duration_ms" m.config = some (.int ms) ∧ ms < 0

theorem IsNegative.not_isTimed {m : Workflow.Node} (h : IsNegative m) : ¬ IsTimed m := by
  obtain ⟨hk, ms, hms, hneg⟩ := h
  intro ht
  obtain ⟨k, hk'⟩ := ht hk
  rw [hms] at hk'
  have hcast := Value.int.inj (Option.some.inj hk')
  omega

theorem Compiles.normalizedTo {n : Node} {m : Workflow.Node} (hc : Compiles n m)
    (hshort : n.draft.overlong? = none) : n.NormalizedTo m := by
  have hdelay (hk : n.kind = .delay) : compileDelay n.id n.data = .ok m.config := by
    have hd := hc.data
    rw [hk] at hd
    exact hd
  refine ⟨hc.id, hc.kind, hc.name, fun hk => compileData_of_ne_delay hk hc.data, ?_, ?_, ?_⟩
  · intro hk
    obtain ⟨ms, -, -, hdrop⟩ := compileDelay_eq_ok (hdelay hk)
    rw [← Assoc.find?_drop_of_ne (show "duration" ≠ "duration_ms" by decide), hdrop,
      Assoc.find?_drop_self]
  · intro hk
    obtain ⟨ms, hms, hfound, -⟩ := compileDelay_eq_ok (hdelay hk)
    rw [show n.draft.overlong? = _ from DraftNode.overlong?_of_kind n.kind _ _ _,
      if_pos hk] at hshort
    exact ⟨ms, denotes_iff.2 ⟨hms, hshort⟩, hfound⟩
  · intro hk k hlabel hown
    obtain ⟨ms, -, -, hdrop⟩ := compileDelay_eq_ok (hdelay hk)
    rw [← Assoc.find?_drop_of_ne hown, hdrop, Assoc.find?_drop_of_ne hlabel,
      Assoc.find?_drop_of_ne hown]

namespace Node.NormalizedTo

variable {n : Node} {m : Workflow.Node}

theorem keeps (h : n.NormalizedTo m) (hn : n.IsSettled) : Keeps m := by
  refine ⟨fun hk => h.unlabelled (h.kind.symm.trans hk), fun hk => ?_⟩
  have hkind : n.kind = .condition := h.kind.symm.trans hk
  rw [h.config (by rw [hkind]; decide)]
  exact hn.condition hkind

theorem isTimed (h : n.NormalizedTo m) (hm : ¬ IsNegative m) : IsTimed m := by
  intro hk
  obtain ⟨ms, -, hms⟩ := h.timed (h.kind.symm.trans hk)
  have hpos : 0 ≤ ms := Int.not_lt.1 fun hneg => hm ⟨hk, ms, hms, hneg⟩
  obtain ⟨k, rfl⟩ := Int.eq_ofNat_of_zero_le hpos
  exact ⟨k, hms⟩

end Node.NormalizedTo

namespace Graph

variable {e : Graph} {g : Workflow.Graph}

theorem normalizedTo_of_compileBounded (h : e.compileBounded = .ok g) : e.NormalizedTo g := by
  obtain ⟨hshort, hcompile⟩ := compileBounded_eq_ok h
  obtain ⟨-, hn, hedges⟩ := compile_eq_ok hcompile
  have hmap : g.edges = e.edges.map fun t =>
      ⟨t.source, t.target, if t.label = some "" then none else t.label⟩ := by
    rw [hedges]
    exact List.map_congr_left fun t _ => t.compiled_eq
  refine ⟨?_, hmap, fun t ht => ?_⟩
  · refine List.forall₂_iff_get.2 ⟨hn.length_eq, fun i h₁ h₂ => ?_⟩
    exact (hn.get h₁ h₂).normalizedTo (hshort _ (List.get_mem _ _))
  · rw [hmap] at ht
    obtain ⟨t, -, rfl⟩ := List.mem_map.1 ht
    show (if t.label = some "" then none else t.label) ≠ some ""
    split
    · nofun
    next hne => exact hne

/-- A graph that was compiled is shown unless a delay is negative or too long for its label, and then
it compiles again and stays the same. -/
theorem NormalizedTo.shown (h : e.compileBounded = .ok g)
    (hk : ∀ n ∈ e.nodes, (Assoc.keys n.data).Nodup) {canvas : Canvas} (hc : canvas.IsFinite)
    {draws : Nat → Number} (hd : ∀ i, Canvas.IsDraw (draws i)) (layout : Layout)
    (hm : ∀ m ∈ g.nodes, ¬ IsNegative m) (hs : e.IsShort) :
    ∃ e' g', Graph.ofGraph canvas draws layout g = .ok e' ∧ e'.compileBounded = .ok g' ∧
      g.same g' = true := by
  have hcompile := (compileBounded_eq_ok h).2
  have hform := normalizedTo_of_compileBounded h
  have hfrom := exists_mem_of_forall₂ hform.nodes
  have hshow : ∀ m ∈ g.nodes, CanShow m := by
    intro m hmem
    obtain ⟨n, -, hn⟩ := hfrom m hmem
    exact ((hasShortLabels_iff hcompile).2 hs).canShow hmem (hn.isTimed (hm m hmem))
  have hkeeps : ∀ m ∈ g.nodes, Keeps m := by
    intro m hmem
    obtain ⟨n, hn, hnm⟩ := hfrom m hmem
    exact hnm.keeps ((compileBounded_isOk_iff.1 ⟨g, h⟩).settled n hn)
  obtain ⟨e', he'⟩ := (ofGraph_isOk_iff hc hd layout g).2 hshow
  obtain ⟨g', hg', hsame⟩ :=
    (shownGraph_same_iff (compile_wellFormed hk hcompile) hshow).2 ⟨hkeeps, hform.guarded⟩
  refine ⟨e', g', he', ?_, hsame⟩
  rw [Graph.compileBounded, (draft_ofGraph he').2, compileBounded_shownGraph hshow, hg']

/-- Why a graph that was compiled is not shown. -/
theorem NormalizedTo.unshown (h : e.compileBounded = .ok g) {canvas : Canvas}
    (hc : canvas.IsFinite) {draws : Nat → Number} (hd : ∀ i, Canvas.IsDraw (draws i))
    {layout : Layout} {err : Error} (herr : Graph.ofGraph canvas draws layout g = .error err) :
    (∃ m ∈ g.nodes, IsNegative m ∧ err = .malformed (some (.text m.id)) .unreadableDelay) ∨
      ¬ e.IsShort ∧ err = .faulty .unwritable := by
  obtain ⟨m, hmem, hu⟩ := ofGraph_error hc hd herr
  obtain ⟨n, -, hn⟩ := exists_mem_of_forall₂ (normalizedTo_of_compileBounded h).nodes m hmem
  cases hu with
  | untimed ht => exact .inl ⟨m, hmem, not_imp_comm.1 hn.isTimed ht, rfl⟩
  | overlong hk hms hlong =>
    refine .inr ⟨fun hs => ?_, rfl⟩
    have hshort := (hasShortLabels_iff (compileBounded_eq_ok h).2).2 hs m hmem hk _ hms
    rw [hlong] at hshort
    cases hshort

/-! ## Theorem -/

/-- Of an editor graph that is read from a document.  It compiles just if its steps do; if they
do not, the first step with which they do not is refused.  What it compiles to is in normal form:
it cannot be shown if a delay of it is negative, and otherwise it is shown, on any canvas and at
any places, and compiles again to the same, unless a delay is too long for its label to be
written.  No delay is that of a document whose numbers were read. -/
theorem compileBounded_decides {raw : Value} {e : Graph} (hraw : raw.hasDistinctKeys = true)
    (he : Graph.ofValue raw = .ok e) :
    ((∃ g, e.compileBounded = .ok g) ↔ Compilable e.nodes) ∧
    (¬ Compilable e.nodes → ∃ before n err, e.compileBounded = .error err ∧
      FirstOffender Compilable e.nodes before n ∧ Refusal (before.map Node.id) n err ∧
      ∀ before' n', FirstOffender Compilable e.nodes before' n' → before' = before ∧ n' = n) ∧
    (∀ g, e.compileBounded = .ok g → e.NormalizedTo g ∧ (raw.IsRead → e.IsShort) ∧
      ∀ canvas draws layout, Canvas.IsFinite canvas → (∀ i, Canvas.IsDraw (draws i)) →
        ((∃ m ∈ g.nodes, IsNegative m) →
          (∃ m ∈ g.nodes, IsNegative m ∧ Graph.ofGraph canvas draws layout g =
            .error (.malformed (some (.text m.id)) .unreadableDelay)) ∨
          ¬ e.IsShort ∧ Graph.ofGraph canvas draws layout g = .error (.faulty .unwritable)) ∧
        ((∀ m ∈ g.nodes, ¬ IsNegative m) →
          (e.IsShort → ∃ e' g', Graph.ofGraph canvas draws layout g = .ok e' ∧
            e'.compileBounded = .ok g' ∧ g.same g' = true) ∧
          (¬ e.IsShort →
            Graph.ofGraph canvas draws layout g = .error (.faulty .unwritable)))) := by
  refine ⟨compileBounded_isOk_iff, fun hnot => ?_,
    fun g h => ⟨normalizedTo_of_compileBounded h, fun hread => ?_, ?_⟩⟩
  · cases h : e.compileBounded with
    | ok g => exact absurd (compileBounded_isOk_iff.1 ⟨g, h⟩) hnot
    | error err =>
      obtain ⟨before, n, hfirst, hrefused⟩ := refusal_of_error h
      exact ⟨before, n, err, rfl, hfirst, hrefused, fun before' n' hother =>
        hother.unique Compilable.of_leading hfirst⟩
  · refine isShort_of_compileBounded h fun n hn k hk => ?_
    exact ((Graph.IsRead.nodes ⟨raw, hread, he⟩ n hn).1.member hk).natAbs_lt
  · intro canvas draws layout hc hd
    refine ⟨?_, fun hm => ⟨NormalizedTo.shown h (keys_nodup_of_ofValue hraw he) hc hd layout hm,
      fun hlong => ?_⟩⟩
    · rintro ⟨m, hmem, hneg⟩
      cases hshown : Graph.ofGraph canvas draws layout g with
      | ok e' => exact absurd ((draft_ofGraph hshown).1 m hmem).isTimed hneg.not_isTimed
      | error err =>
        rcases NormalizedTo.unshown h hc hd hshown with ⟨m', hmem', hneg', rfl⟩ | ⟨hlong, rfl⟩
        · exact .inl ⟨m', hmem', hneg', rfl⟩
        · exact .inr ⟨hlong, rfl⟩
    · cases hshown : Graph.ofGraph canvas draws layout g with
      | ok e' =>
        have hlabels : HasShortLabels g := .of_canShow (draft_ofGraph hshown).1
        exact absurd ((hasShortLabels_iff (compileBounded_eq_ok h).2).1 hlabels) hlong
      | error err =>
        rcases NormalizedTo.unshown h hc hd hshown with ⟨m', hmem', hneg', -⟩ | ⟨-, rfl⟩
        · exact absurd hneg' (hm m' hmem')
        · rfl

/-- A delay with a label beside milliseconds that are out of date, and a condition. -/
def visitValue : Value :=
  .object [
    ("nodes", .list [
      .object [("id", .text "wait"), ("type", .text "delay"), ("name", .text "Wait"),
        ("position", .object [("x", .int 0), ("y", .int 0)]),
        ("data", .object [("duration_ms", .int 5), ("duration", .text "2 Hours"),
          ("note", .null)])],
      .object [("id", .text "open"), ("type", .text "condition"),
        ("position", .object [("x", .int 0), ("y", .int 0)]),
        ("data", .object [("expr", .text "cart.open")])]]),
    ("edges", .list [
      .object [("source", .text "wait"), ("target", .text "open"), ("label", .text "")]])]

def corner : Position := ⟨.float (Binary64.zero false), .float (Binary64.zero false)⟩

def visit : Graph where
  nodes := [
    ⟨"wait", .delay, "Wait", corner,
      [("duration_ms", .int 5), ("duration", .text "2 Hours"), ("note", .null)], []⟩,
    ⟨"open", .condition, "", corner, [("expr", .text "cart.open")], []⟩]
  edges := [⟨.text "wait-open", "wait", "open", some ""⟩]

def visited : Workflow.Graph where
  nodes := [
    ⟨"wait", .delay, "Wait", [("duration_ms", .int 7200000), ("note", .null)]⟩,
    ⟨"open", .condition, "", [("expr", .text "cart.open")]⟩]
  edges := [⟨"wait", "open", none⟩]

/-- Two steps with one identifier. -/
def doubledValue : Value :=
  .object [("nodes", .list [
    .object [("id", .text "wait"), ("type", .text "split"),
      ("position", .object [("x", .int 0), ("y", .int 0)])],
    .object [("id", .text "wait"), ("type", .text "delay"),
      ("position", .object [("x", .int 0), ("y", .int 0)])]])]

def doubled : Graph where
  nodes := [⟨"wait", .split, "", corner, [], []⟩, ⟨"wait", .delay, "", corner, [], []⟩]
  edges := []

theorem compileBounded_decides_visit :
    (visitValue.hasDistinctKeys = true ∧ Graph.ofValue visitValue = .ok visit ∧
      Compilable visit.nodes ∧ visit.NormalizedTo visited ∧
      ∃ e' g', Graph.ofGraph .standard (fun _ => half) [] visited = .ok e' ∧
        e'.compileBounded = .ok g' ∧ visited.same g' = true) ∧
    (doubledValue.hasDistinctKeys = true ∧ Graph.ofValue doubledValue = .ok doubled ∧
      ∃ before n, FirstOffender Compilable doubled.nodes before n ∧
        Refusal (before.map Node.id) n (.malformed (some (.text "wait")) .duplicateNode)) := by
  constructor
  · have hraw : visitValue.hasDistinctKeys = true := by decide
    have he : Graph.ofValue visitValue = .ok visit := by decide
    have hg : visit.compileBounded = .ok visited := by decide
    have hdraw : ∀ _ : Nat, Canvas.IsDraw half := fun _ => half_isDraw
    have hlater : ∀ m ∈ visited.nodes, ¬ IsNegative m := by
      intro m hm
      simp only [visited, List.mem_cons, List.not_mem_nil, or_false] at hm
      rcases hm with rfl | rfl
      · rintro ⟨-, ms, hms, hneg⟩
        cases hms
        exact absurd hneg (by decide)
      · rintro ⟨hk, -⟩
        cases hk
    obtain ⟨hcompilable, -, hform⟩ := compileBounded_decides hraw he
    obtain ⟨hvisited, hshort, hshown⟩ := hform visited hg
    have hread : visitValue.IsRead := ⟨hraw, by decide +kernel⟩
    exact ⟨hraw, he, hcompilable.1 ⟨visited, hg⟩, hvisited,
      ((hshown .standard (fun _ => half) [] Canvas.standard_isFinite hdraw).2 hlater).1
        (hshort hread)⟩
  · have hraw : doubledValue.hasDistinctKeys = true := by decide
    have he : Graph.ofValue doubledValue = .ok doubled := by decide
    have hrefused : doubled.compileBounded =
        .error (.malformed (some (.text "wait")) .duplicateNode) := by decide
    obtain ⟨hcompilable, hfirst, -⟩ := compileBounded_decides hraw he
    have hnot : ¬ Compilable doubled.nodes := by
      intro hc
      obtain ⟨g, hg⟩ := hcompilable.2 hc
      rw [hrefused] at hg
      cases hg
    obtain ⟨before, n, err, herr, hn, hr, -⟩ := hfirst hnot
    rw [hrefused] at herr
    exact ⟨hraw, he, before, n, hn, Except.error.inj herr ▸ hr⟩

/-! ## Labels of too many digits -/

/-- As many milliseconds as so many ones say. -/
def onesLabel (count : Nat) : String := String.ofList (List.replicate count '1' ++ [' ', 'm', 's'])

theorem overlong?_onesLabel {count : Nat} (h : Numeral.maxDigits < count) :
    Duration.overlong? (.text (onesLabel count)) = some count := by
  let p : Duration.Spelling := ⟨[], List.replicate count '1', [' '], ['m', 's'], []⟩
  have hspells : p.Spells (onesLabel count) 1 := {
    chars_eq := by simp [p, onesLabel, Duration.Spelling.chars]
    before := List.all_eq_true.1 rfl
    digits := by
      intro c hc
      rw [List.eq_of_mem_replicate hc]
      rfl
    digits_ne_nil := by
      show List.replicate count '1' ≠ []
      rw [ne_eq, List.replicate_eq_nil_iff]
      exact Nat.ne_of_gt (Nat.lt_of_le_of_lt (Nat.zero_le _) h)
    between := List.all_eq_true.1 rfl
    letters := List.all_eq_true.1 rfl
    word := show (String.ofList (['m', 's'].map Char.toLower), 1) ∈ Duration.unitWords by decide
    after := List.all_eq_true.1 rfl }
  have hlength : p.digits.length = count := List.length_replicate
  rw [← hlength] at h
  rw [Duration.overlong?_of_spells hspells h, hlength]

/-- A delay with such a label. -/
def longValue (count : Nat) : Value :=
  .object [("nodes", .list [
    .object [("id", .text "wait"), ("type", .text "delay"),
      ("position", .object [("x", .int 0), ("y", .int 0)]),
      ("data", .object [("duration", .text (onesLabel count))])]])]

def long (count : Nat) : Graph where
  nodes := [⟨"wait", .delay, "", corner, [("duration", .text (onesLabel count))], []⟩]
  edges := []

theorem ofValue_longValue (count : Nat) : Graph.ofValue (longValue count) = .ok (long count) := rfl

theorem compileBounded_long {count : Nat} (h : Numeral.maxDigits < count) :
    (long count).compileBounded = .error (.faulty (.tooManyDigits count)) := by
  let n : Node := ⟨"wait", .delay, "", corner, [("duration", .text (onesLabel count))], []⟩
  have hk : n.draft.overlong? = some count := by
    rw [show n.draft.overlong? = _ from DraftNode.overlong?_of_kind .delay _ _ _, if_pos rfl,
      Assoc.find?_cons, if_pos rfl, Option.bind_some, overlong?_onesLabel h]
  have hid : "wait" ≠ "" := by decide
  have hnew : n.id ∉ ([] : List Workflow.Node).map Workflow.Node.id := List.not_mem_nil
  obtain ⟨m, hm⟩ := Node.compile_shortened hk hid hnew
  have hn : n.draft.compileBounded [] = .error (.faulty (.tooManyDigits count)) := by
    rw [DraftNode.compileBounded_of_overlong hk, Node.shortened_draft, hm]
    rfl
  have hloop : DraftNode.compileAllBounded [] [n.draft] =
      .error (.faulty (.tooManyDigits count)) := bind_eq_error.2 (.inl hn)
  rw [compileBounded_eq, show (long count).nodes.map Node.draft = [n.draft] from rfl, hloop]
  rfl

/-- A label of more digits than are read is no label, but no step is named for it. -/
theorem compileBounded_unnamed :
    Graph.ofValue (longValue 4301) = .ok (long 4301) ∧ ¬ Compilable (long 4301).nodes ∧
      ∀ element cause, (long 4301).compileBounded ≠ .error (.malformed element cause) := by
  have herr := compileBounded_long (show Numeral.maxDigits < 4301 by decide)
  have hnot : ¬ Compilable (long 4301).nodes := by
    intro hc
    obtain ⟨g, hg⟩ := compileBounded_isOk_iff.2 hc
    rw [herr] at hg
    cases hg
  have hunnamed (element : Option Value) (cause : Malformation) :
      (long 4301).compileBounded ≠ .error (.malformed element cause) := by
    rw [herr]
    nofun
  exact ⟨ofValue_longValue 4301, hnot, hunnamed⟩

end Graph

end Workflow.Editor
