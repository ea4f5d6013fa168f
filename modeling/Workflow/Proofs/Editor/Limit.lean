import Workflow.Proofs.Editor.Compiling

/-!
# The limit of digits

A label with a number of too many digits is refused when the loop over the steps comes to
it, and after all else that can be wrong with its step.  The labels are looked at before the
loop, in a draft that is cut off at the first such label; here they are looked at within it.

    compiling within the limit is one loop over the steps      (Draft.compileBounded_eq)
-/

namespace Workflow.Editor

/-! ## The loop -/

namespace DraftNode

/-- Compiles a step, but refuses a label of too many digits if all else is in order. -/
def compileBounded (n : DraftNode) (earlier : List Workflow.Node) : Except Error Workflow.Node :=
  match n.overlong? with
  | none => n.compile earlier
  | some k => do
    let _ ← n.shortened.compile earlier
    .error (.faulty (.tooManyDigits k))

def compileAllBounded :
    List Workflow.Node → List DraftNode → Except Error (List Workflow.Node)
  | earlier, [] => .ok earlier
  | earlier, n :: rest => do
    let m ← n.compileBounded earlier
    compileAllBounded (earlier ++ [m]) rest

variable {earlier : List Workflow.Node} {ns before rest : List DraftNode} {n : DraftNode} {k : Nat}

theorem compileBounded_of_short (h : n.overlong? = none) :
    n.compileBounded earlier = n.compile earlier := by
  unfold compileBounded
  rw [h]

/-- A label of too many digits is refused unless something else is. -/
theorem compileBounded_of_overlong (h : n.overlong? = some k) :
    n.compileBounded earlier =
      n.shortened.compile earlier >>= fun _ => .error (.faulty (.tooManyDigits k)) := by
  unfold compileBounded
  rw [h]

theorem compileAllBounded_of_short (h : ∀ n ∈ ns, n.overlong? = none) :
    compileAllBounded earlier ns = compileAll earlier ns := by
  induction ns generalizing earlier with
  | nil => rfl
  | cons n rest ih =>
    rw [compileAllBounded, compileAll, compileBounded_of_short (h n List.mem_cons_self)]
    exact congrArg _ (funext fun m => ih fun n' hn' => h n' (List.mem_cons_of_mem n hn'))

theorem compileAllBounded_of_overlong (hbefore : ∀ n ∈ before, n.overlong? = none)
    (hn : n.overlong? = some k) :
    compileAllBounded earlier (before ++ n :: rest) =
      compileAll earlier (before ++ [n.shortened]) >>=
        fun _ => .error (.faulty (.tooManyDigits k)) := by
  induction before generalizing earlier with
  | nil =>
    rw [List.nil_append, List.nil_append, compileAllBounded, compileAll,
      compileBounded_of_overlong hn, bind_assoc, bind_assoc]
    rfl
  | cons first later ih =>
    rw [List.cons_append, List.cons_append, compileAllBounded, compileAll,
      compileBounded_of_short (hbefore first List.mem_cons_self), bind_assoc]
    exact congrArg _ (funext fun m => ih fun n' hn' => hbefore n' (List.mem_cons_of_mem first hn'))

end DraftNode

namespace Draft

theorem checkLabels_of_overlong {before rest : List DraftNode} {n : DraftNode} {k : Nat}
    (hbefore : ∀ n ∈ before, n.overlong? = none) (hn : n.overlong? = some k)
    (edges : List DraftEdge) : (Draft.mk (before ++ n :: rest) edges).checkLabels =
      (Draft.mk (before ++ [n.shortened]) []).compile >>=
        fun _ => .error (.faulty (.tooManyDigits k)) := by
  have hlead : (before ++ n :: rest).takeWhile (fun n => n.overlong?.isNone) = before := by
    rw [List.takeWhile_append_of_pos fun m hm => by simp [hbefore m hm],
      List.takeWhile_cons_of_neg (by simp [hn]), List.append_nil]
  unfold checkLabels
  simp only [hlead, List.drop_left, hn, Option.getD_some]

/-- The labels are looked at on the way. -/
theorem checkLabels_bind_compile (d : Draft) : (d.checkLabels >>= fun _ => d.compile) = (do
    let nodes ← DraftNode.compileAllBounded [] d.nodes
    let edges ← DraftEdge.compileAll 0 d.edges
    pure ⟨nodes, edges⟩) := by
  obtain ⟨nodes, edges⟩ := d
  cases hfind : nodes.find? (·.overlong?.isSome) with
  | none =>
    have hshort : ∀ n ∈ nodes, n.overlong? = none := by simpa using hfind
    have hlabels := checkLabels_eq_ok_iff (d := ⟨nodes, edges⟩).2 hshort
    rw [hlabels, DraftNode.compileAllBounded_of_short hshort]
    rfl
  | some n =>
    obtain ⟨hlong, before, rest, rfl, hbefore⟩ := List.find?_eq_some_iff_append.1 hfind
    obtain ⟨k, hk⟩ := Option.isSome_iff_exists.1 hlong
    have hshort : ∀ n ∈ before, n.overlong? = none := by simpa using hbefore
    rw [checkLabels_of_overlong hshort hk, DraftNode.compileAllBounded_of_overlong hshort hk]
    unfold compile
    simp only [bind_assoc]
    rfl

theorem compileBounded_eq (d : Draft) : d.compileBounded = (do
    let nodes ← DraftNode.compileAllBounded [] d.nodes
    let edges ← DraftEdge.compileAll 0 d.edges
    pure ⟨nodes, edges⟩ : Except Error Workflow.Graph).mapError Error.worded :=
  congrArg (Except.mapError Error.worded) d.checkLabels_bind_compile

end Draft

end Workflow.Editor
