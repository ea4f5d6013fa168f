import Workflow.Assoc
import Workflow.Error

/-!
# Directed graphs

Points in display order and arrows in authored order.  An arrow may lead to or
from something that is no point, arrows may be parallel, and cycles are allowed.
An entry point is a point that no arrow leads to; the depth of a point is the
least number of arrows on a path to it from an entry point.

The depth is found by a search from all entry points at once.  Whatever an arrow
reaches for the first time waits behind what was reached before, and the search
ends where the point that is sought comes up, or where nothing waits any more.
-/

namespace Workflow

structure Digraph where
  points : List String
  arrows : List (String × String)
  deriving DecidableEq, Repr, Inhabited

namespace Digraph

def entryPoints (g : Digraph) : List String :=
  g.points.filter fun p => !g.arrows.any (·.2 = p)

/-- Targets of the arrows that leave a point. -/
def successors (g : Digraph) (p : String) : List String :=
  (g.arrows.filter (·.1 = p)).map Prod.snd

/-- Sources of the arrows that lead to a point. -/
def predecessors (g : Digraph) (p : String) : List String :=
  (g.arrows.filter (·.2 = p)).map Prod.fst

/-! ## Searching -/

/-- What has been reached, with its distance, and what of it waits to be left. -/
structure Search where
  visited : List (String × Nat)
  queue : List String
  deriving DecidableEq, Repr

namespace Search

def start (entries : List String) : Search := ⟨entries.map fun p => (p, 0), entries⟩

def distance? (s : Search) (p : String) : Option Nat := Assoc.find? p s.visited

/-- Goes along an arrow from a point at distance `d`. -/
def reach (d : Nat) (s : Search) (target : String) : Search :=
  if (s.distance? target).isSome then s
  else ⟨Assoc.put target (d + 1) s.visited, s.queue ++ [target]⟩

/-- Goes along all arrows from a point at distance `d`. -/
def reachAll (d : Nat) (s : Search) (targets : List String) : Search := targets.foldl (reach d) s

/-- The arrows to what has not been reached. -/
def pending (g : Digraph) (s : Search) : List (String × String) :=
  g.arrows.filter fun a => (s.distance? a.2).isNone

/-- The steps that the search can still take. -/
def work (g : Digraph) (s : Search) : Nat := (s.pending g).length + s.queue.length

variable {g : Digraph} {s : Search} {d : Nat} {p q t : String} {ts : List String}

theorem reach_of_isSome (h : (s.distance? t).isSome) : s.reach d t = s := if_pos h

theorem reach_of_none (h : s.distance? t = none) :
    s.reach d t = ⟨Assoc.put t (d + 1) s.visited, s.queue ++ [t]⟩ := by
  unfold reach
  rw [h]
  rfl

theorem distance?_reach_self (h : s.distance? t = none) :
    (s.reach d t).distance? t = some (d + 1) := by
  rw [reach_of_none h]
  exact Assoc.find?_put_self t (d + 1) s.visited

theorem distance?_reach_of_ne (h : q ≠ t) : (s.reach d t).distance? q = s.distance? q := by
  unfold reach
  split
  · rfl
  · exact Assoc.find?_put_of_ne h (d + 1) s.visited

/-- A point that is put into the queue is taken off what is pending. -/
theorem work_reach_le (ht : ∃ a ∈ g.arrows, a.2 = t) : (s.reach d t).work g ≤ s.work g := by
  cases h : s.distance? t with
  | some n => exact Nat.le_of_eq (by rw [reach_of_isSome (Option.isSome_of_eq_some h)])
  | none =>
    obtain ⟨a, ha, rfl⟩ := ht
    have hpending : (s.reach d a.2).pending g = (s.pending g).filter (·.2 ≠ a.2) := by
      unfold pending
      rw [List.filter_filter]
      refine List.filter_congr fun b _ => ?_
      by_cases hb : b.2 = a.2
      · rw [hb, distance?_reach_self h]
        simp
      · rw [distance?_reach_of_ne hb]
        simp [hb]
    have hlt : ((s.reach d a.2).pending g).length < (s.pending g).length := by
      rw [hpending, List.length_filter_lt_length_iff_exists]
      exact ⟨a, List.mem_filter.2 ⟨ha, by simp [h]⟩, by simp⟩
    have hqueue : (s.reach d a.2).queue.length = s.queue.length + 1 := by
      rw [reach_of_none h]
      exact List.length_append
    unfold work
    omega

theorem work_reachAll_le (ht : ∀ t ∈ ts, ∃ a ∈ g.arrows, a.2 = t) :
    (s.reachAll d ts).work g ≤ s.work g := by
  induction ts generalizing s with
  | nil => exact Nat.le_refl _
  | cons t ts ih =>
    obtain ⟨hfirst, hrest⟩ := List.forall_mem_cons.1 ht
    exact Nat.le_trans (ih hrest) (work_reach_le hfirst)

end Search

theorem mem_successors {g : Digraph} {p q : String} : q ∈ g.successors p ↔ (p, q) ∈ g.arrows := by
  simp [successors]

/-- Leaves what waits in turn, until the point that is sought comes up. -/
def search (g : Digraph) (sought : String) : Search → Except Error Int
  | ⟨_, []⟩ => .ok (-1)
  | ⟨visited, current :: rest⟩ =>
    match Assoc.find? current visited with
    | none => .error (.faulty (.missingEntry (Text.quote current)))
    | some d =>
      if current = sought then .ok d
      else g.search sought (Search.reachAll d ⟨visited, rest⟩ (g.successors current))
termination_by s => s.work g
decreasing_by
  refine Nat.lt_of_le_of_lt (Search.work_reachAll_le fun t ht => ⟨_, mem_successors.1 ht, rfl⟩) ?_
  simp [Search.work, Search.pending, Search.distance?]

/-- The least number of arrows on a path from an entry point; -1 if there is no path. -/
def depth (g : Digraph) (p : String) : Except Error Int := g.search p (.start g.entryPoints)

end Digraph

end Workflow
