import Mathlib.Order.Bounds.Basic
import Workflow.Digraph
import Workflow.Proofs.Assoc

/-!
# Depth is the least number of arrows

The search leaves points in the order in which it reached them, so what waits is in the
order of the distances, and nothing that was reached is more than one arrow further than
what waits.  All arrows from what has been left have been followed.  A path has therefore
been followed to its end, or something waits that is nearer than its end: what comes up
next is at the end of no shorter path, and what never comes up is at the end of none.

    a reached point waits behind the others              (Tracks.reach)
    a point is left when its arrows have been followed   (Tracks.leave)
    a path was followed, or something nearer waits       (Tracks.followed_or_waits)
    the search always ends, with the least number        (Tracks.search)
    the depth is the least number of arrows              (depth_least)
-/

namespace Workflow.Digraph

variable {g : Digraph} {s : Search} {c p q r sought t : String} {d m n : Nat} {ts : List String}

/-! ## Paths -/

/-- A point that no arrow leads to. -/
def IsEntry (g : Digraph) (p : String) : Prop := p ∈ g.points ∧ ∀ q, (q, p) ∉ g.arrows

/-- A path of so many arrows, each of which leaves from where the one before it ended. -/
inductive Path (g : Digraph) (p : String) : Nat → String → Prop where
  | start : Path g p 0 p
  | snoc {n : Nat} {q r : String} (h : Path g p n q) (ha : (q, r) ∈ g.arrows) : Path g p (n + 1) r

/-- There is a path of so many arrows from an entry point. -/
def Reaches (g : Digraph) (n : Nat) (p : String) : Prop := ∃ e, g.IsEntry e ∧ g.Path e n p

theorem mem_entryPoints : p ∈ g.entryPoints ↔ g.IsEntry p := by
  have hnone : (!g.arrows.any (·.2 = p)) = true ↔ ∀ q, (q, p) ∉ g.arrows := by
    rw [Bool.not_eq_true', List.any_eq_false]
    constructor
    · exact fun h q ha => h (q, p) ha (by simp)
    · rintro h ⟨q, r⟩ ha hr
      obtain rfl : r = p := by simpa using hr
      exact h q ha
  unfold entryPoints IsEntry
  rw [List.mem_filter, hnone]

theorem reaches_zero : g.Reaches 0 p ↔ g.IsEntry p := by
  constructor
  · rintro ⟨e, he, hpath⟩
    cases hpath
    exact he
  · intro hp
    exact ⟨p, hp, .start⟩

theorem Reaches.snoc (h : g.Reaches n p) (ha : (p, q) ∈ g.arrows) : g.Reaches (n + 1) q := by
  obtain ⟨e, he, hpath⟩ := h
  exact ⟨e, he, hpath.snoc ha⟩

/-! ## Reaching -/

namespace Search

/-- The search with a point at the front again that has been taken from there. -/
def before (c : String) (s : Search) : Search := ⟨s.visited, c :: s.queue⟩

theorem distance?_start {entries : List String} :
    (start entries).distance? p = some n ↔ p ∈ entries ∧ n = 0 := by
  unfold start distance?
  induction entries with
  | nil => simp
  | cons e rest ih =>
    rw [List.map_cons, Assoc.find?_cons]
    by_cases hp : p = e
    · simp [hp, eq_comm]
    · simp [hp, ih]

/-- A distance that has been given stays. -/
theorem distance?_reach (h : s.distance? q = some n) : (s.reach d t).distance? q = some n := by
  by_cases hq : q = t
  · rwa [reach_of_isSome (Option.isSome_of_eq_some (hq ▸ h))]
  · rwa [distance?_reach_of_ne hq]

/-- What has a distance afterwards had it before, or has just been reached. -/
theorem of_distance?_reach (ht : s.distance? t = none)
    (h : (s.reach d t).distance? q = some n) : s.distance? q = some n ∨ q = t ∧ n = d + 1 := by
  by_cases hq : q = t
  · rw [hq, distance?_reach_self ht, Option.some.injEq] at h
    exact .inr ⟨hq, h.symm⟩
  · rw [distance?_reach_of_ne hq] at h
    exact .inl h

theorem distance?_reachAll (h : s.distance? q = some n) :
    (s.reachAll d ts).distance? q = some n := by
  induction ts generalizing s with
  | nil => exact h
  | cons t ts ih => exact ih (distance?_reach h)

theorem exists_distance?_reachAll (ht : t ∈ ts) : ∃ n, (s.reachAll d ts).distance? t = some n := by
  induction ts generalizing s with
  | nil => cases ht
  | cons t' ts ih =>
    show ∃ n, ((s.reach d t').reachAll d ts).distance? t = some n
    rcases List.mem_cons.1 ht with rfl | ht
    · cases h : s.distance? t with
      | some n => exact ⟨n, distance?_reachAll (distance?_reach h)⟩
      | none => exact ⟨d + 1, distance?_reachAll (distance?_reach_self h)⟩
    · exact ih ht

end Search

/-! ## What holds throughout the search -/

/-- Every distance is that of a path, what waits is in the order of the distances, and what
has been left is done with. -/
structure Tracks (g : Digraph) (sought : String) (s : Search) : Prop where
  path : ∀ {p n}, s.distance? p = some n → g.Reaches n p
  entry : ∀ {p}, g.IsEntry p → s.distance? p = some 0
  waits : ∀ {p}, p ∈ s.queue → ∃ n, s.distance? p = some n
  /-- What has been left is not what is sought, and all of its arrows have been followed. -/
  left : ∀ {p n}, s.distance? p = some n → p ∉ s.queue →
    p ≠ sought ∧ ∀ q, (p, q) ∈ g.arrows → ∃ m ≤ n + 1, s.distance? q = some m
  ordered : s.queue.Pairwise fun p q =>
    ∀ m n, s.distance? p = some m → s.distance? q = some n → m ≤ n
  near : ∀ {p m q n}, p ∈ s.queue → s.distance? p = some m → s.distance? q = some n → n ≤ m + 1

namespace Tracks

theorem start (g : Digraph) (sought : String) : Tracks g sought (.start g.entryPoints) where
  path h := by
    obtain ⟨hp, rfl⟩ := Search.distance?_start.1 h
    exact reaches_zero.2 (mem_entryPoints.1 hp)
  entry hp := Search.distance?_start.2 ⟨mem_entryPoints.2 hp, rfl⟩
  waits hp := ⟨0, Search.distance?_start.2 ⟨hp, rfl⟩⟩
  left h hp := absurd (Search.distance?_start.1 h).1 hp
  ordered := by
    refine List.pairwise_of_forall_mem_list fun p _ q _ m n hm _ => ?_
    rw [(Search.distance?_start.1 hm).2]
    exact Nat.zero_le n
  near _ _ hn := by
    rw [(Search.distance?_start.1 hn).2]
    exact Nat.zero_le _

/-- Nothing that waits is nearer than the first. -/
theorem le_of_front (h : Tracks g sought (s.before c)) (hc : s.distance? c = some d)
    (hq : q ∈ (s.before c).queue) (hn : s.distance? q = some n) : d ≤ n := by
  rcases List.mem_cons.1 hq with rfl | hq
  · exact (Option.some.inj (hc.symm.trans hn)).le
  · exact (List.pairwise_cons.1 h.ordered).1 q hq d n hc hn

/-- What an arrow from the first point reaches is one further than that point, as the last
that waits may be. -/
theorem reach (h : Tracks g sought (s.before c)) (hc : s.distance? c = some d)
    (ha : (c, t) ∈ g.arrows) : Tracks g sought ((s.reach d t).before c) := by
  cases ht : s.distance? t with
  | some n => rwa [Search.reach_of_isSome (Option.isSome_of_eq_some ht)]
  | none =>
    have hself : (s.reach d t).distance? t = some (d + 1) := Search.distance?_reach_self ht
    have hqueue : ((s.reach d t).before c).queue = (s.before c).queue ++ [t] := by
      rw [Search.reach_of_none ht]
      rfl
    have hold {q n} (hq : q ∈ (s.before c).queue) (hn : (s.reach d t).distance? q = some n) :
        s.distance? q = some n := by
      rcases Search.of_distance?_reach ht hn with hn | ⟨rfl, -⟩
      · exact hn
      · obtain ⟨m, hm⟩ := h.waits hq
        cases ht.symm.trans hm
    have hlast {q n} (hn : (s.reach d t).distance? q = some n) : n ≤ d + 1 := by
      rcases Search.of_distance?_reach ht hn with hn | ⟨-, rfl⟩
      · exact h.near List.mem_cons_self hc hn
      · exact le_rfl
    constructor
    case path =>
      intro q n hn
      rcases Search.of_distance?_reach ht hn with hn | ⟨rfl, rfl⟩
      · exact h.path hn
      · exact (h.path hc).snoc ha
    case entry => exact fun he => Search.distance?_reach (h.entry he)
    case waits =>
      intro q hq
      rw [hqueue, List.mem_append, List.mem_singleton] at hq
      rcases hq with hq | rfl
      · obtain ⟨n, hn⟩ := h.waits hq
        exact ⟨n, Search.distance?_reach hn⟩
      · exact ⟨d + 1, hself⟩
    case left =>
      intro q n hn hq
      rw [hqueue, List.mem_append, List.mem_singleton, not_or] at hq
      have hn := (Search.of_distance?_reach ht hn).resolve_right fun hqt => hq.2 hqt.1
      obtain ⟨hne, harrows⟩ := h.left hn hq.1
      refine ⟨hne, fun r hr => ?_⟩
      obtain ⟨m, hm, hdist⟩ := harrows r hr
      exact ⟨m, hm, Search.distance?_reach hdist⟩
    case ordered =>
      rw [hqueue, List.pairwise_append]
      refine ⟨?_, List.pairwise_singleton _ _, ?_⟩
      · refine h.ordered.imp_of_mem fun {p q} hp hq hle m n hm hn => ?_
        exact hle m n (hold hp hm) (hold hq hn)
      · intro p _ q hq m n hm hn
        obtain rfl := List.mem_singleton.1 hq
        obtain rfl := Option.some.inj (hself.symm.trans hn)
        exact hlast hm
    case near =>
      intro p m q n hp hm hn
      have hn := hlast hn
      rw [hqueue, List.mem_append, List.mem_singleton] at hp
      rcases hp with hp | rfl
      · have := h.le_of_front hc hp (hold hp hm)
        omega
      · obtain rfl := Option.some.inj (hself.symm.trans hm)
        omega

theorem reachAll (h : Tracks g sought (s.before c)) (hc : s.distance? c = some d)
    (ha : ∀ t ∈ ts, (c, t) ∈ g.arrows) : Tracks g sought ((s.reachAll d ts).before c) := by
  induction ts generalizing s with
  | nil => exact h
  | cons t ts ih =>
    obtain ⟨hfirst, hrest⟩ := List.forall_mem_cons.1 ha
    exact ih (h.reach hc hfirst) (Search.distance?_reach hc) hrest

theorem leave (h : Tracks g sought (s.before c)) (hc : s.distance? c = some d) (hne : c ≠ sought)
    (ha : ∀ t, (c, t) ∈ g.arrows → ∃ n, s.distance? t = some n) : Tracks g sought s where
  path := h.path
  entry := h.entry
  waits hp := h.waits (List.mem_cons_of_mem c hp)
  left {p n} hn hp := by
    by_cases hpc : p = c
    · subst hpc
      refine ⟨hne, fun q hq => ?_⟩
      obtain ⟨m, hm⟩ := ha q hq
      exact ⟨m, h.near List.mem_cons_self hn hm, hm⟩
    · exact h.left hn fun hmem => hp ((List.mem_cons.1 hmem).resolve_left hpc)
  ordered := (List.pairwise_cons.1 h.ordered).2
  near hp := h.near (List.mem_cons_of_mem c hp)

/-! ## What the search finds -/

/-- The induction is along the path.  Where its end before the last arrow has been left, that
arrow has been followed. -/
theorem followed_or_waits (h : Tracks g sought s) (hp : g.Reaches n p) :
    (∃ m ≤ n, s.distance? p = some m) ∨ ∃ q ∈ s.queue, ∃ m < n, s.distance? q = some m := by
  obtain ⟨e, he, hpath⟩ := hp
  induction hpath with
  | start => exact .inl ⟨0, le_rfl, h.entry he⟩
  | @snoc n q r _ ha ih =>
    rcases ih with ⟨m, hm, hq⟩ | ⟨w, hw, m, hm, hdist⟩
    · by_cases hwait : q ∈ s.queue
      · exact .inr ⟨q, hwait, m, by omega, hq⟩
      · obtain ⟨k, hk, hr⟩ := (h.left hq hwait).2 r ha
        exact .inl ⟨k, by omega, hr⟩
    · exact .inr ⟨w, hw, m, by omega, hdist⟩

theorem isLeast (h : Tracks g sought (s.before c)) (hc : s.distance? c = some d) :
    IsLeast {n | g.Reaches n c} d := by
  refine ⟨h.path hc, fun n hn => ?_⟩
  rcases h.followed_or_waits hn with ⟨m, hm, hdist⟩ | ⟨q, hq, m, hm, hdist⟩
  · obtain rfl := Option.some.inj (hc.symm.trans hdist)
    exact hm
  · exact (h.le_of_front hc hq hdist).trans hm.le

/-- Where nothing waits, what is sought is at the end of no path. -/
theorem not_reaches (h : Tracks g sought s) (hempty : s.queue = []) : ¬ g.Reaches n sought := by
  intro hn
  have hnot : sought ∉ s.queue := hempty ▸ List.not_mem_nil
  rcases h.followed_or_waits hn with ⟨m, -, hdist⟩ | ⟨q, hq, -⟩
  · exact (h.left hdist hnot).1 rfl
  · rw [hempty] at hq
    cases hq

end Tracks

/-- The least number of arrows on a path from an entry point, or -1. -/
inductive IsDepth (g : Digraph) (p : String) : Int → Prop where
  | least {n : Nat} (h : IsLeast {n | g.Reaches n p} n) : IsDepth g p n
  | unreached (h : ∀ n, ¬ g.Reaches n p) : IsDepth g p (-1)

theorem Tracks.search (h : Tracks g sought s) :
    ∃ r, g.search sought s = .ok r ∧ g.IsDepth sought r := by
  fun_induction Digraph.search g sought s with
  | case1 visited => exact ⟨-1, rfl, .unreached fun _ => h.not_reaches rfl⟩
  | case2 visited current rest hnone =>
    obtain ⟨n, hn⟩ := h.waits List.mem_cons_self
    cases hnone.symm.trans hn
  | case3 visited rest d hd =>
    have hfront : Tracks g sought (Search.before sought ⟨visited, rest⟩) := h
    exact ⟨d, rfl, .least (hfront.isLeast hd)⟩
  | case4 visited current rest d hd hne ih =>
    have hfront : Tracks g sought (Search.before current ⟨visited, rest⟩) := h
    have hall := hfront.reachAll hd fun _ => mem_successors.1
    refine ih (hall.leave (Search.distance?_reachAll hd) hne fun t ht => ?_)
    exact Search.exists_distance?_reachAll (mem_successors.2 ht)

theorem IsDepth.eq_natCast_iff {r : Int} (h : g.IsDepth p r) :
    r = n ↔ IsLeast {n | g.Reaches n p} n := by
  cases h with
  | @least m hm =>
    constructor
    · intro hmn
      rwa [← Int.ofNat.inj hmn]
    · intro hn
      rw [hm.unique hn]
  | unreached hnone => exact iff_of_false (by omega) fun hn => hnone n hn.1

theorem IsDepth.eq_neg_one_iff {r : Int} (h : g.IsDepth p r) :
    r = -1 ↔ ∀ n, ¬ g.Reaches n p := by
  cases h with
  | @least m hm => exact iff_of_false (by omega) fun hnone => hnone m hm.1
  | unreached hnone => exact iff_of_true rfl hnone

theorem exists_depth (g : Digraph) (p : String) : ∃ r, g.depth p = .ok r ∧ g.IsDepth p r :=
  (Tracks.start g p).search

/-- For every graph and every point the search ends, and with the least number of arrows on a
path from an entry point, or -1 where there is no such path. -/
theorem depth_least (g : Digraph) (p : String) : ∃ r, g.depth p = .ok r ∧
    (∀ n : Nat, r = n ↔ IsLeast {n | ∃ e, g.IsEntry e ∧ g.Path e n p} n) ∧
    (r = -1 ↔ ¬ ∃ e n, g.IsEntry e ∧ g.Path e n p) ∧
    (r = 0 ↔ p ∈ g.entryPoints) := by
  obtain ⟨r, hok, hr⟩ := exists_depth g p
  refine ⟨r, hok, fun n => hr.eq_natCast_iff, ?_, ?_⟩
  · rw [hr.eq_neg_one_iff]
    constructor
    · rintro hnone ⟨e, n, he, hpath⟩
      exact hnone n ⟨e, he, hpath⟩
    · rintro hnone n ⟨e, he, hpath⟩
      exact hnone ⟨e, n, he, hpath⟩
  · rw [mem_entryPoints, ← reaches_zero]
    refine (hr.eq_natCast_iff (n := 0)).trans ⟨fun h0 => h0.1, fun h0 => ⟨h0, ?_⟩⟩
    exact fun m _ => Nat.zero_le m

/-- What an arrow leads to has a depth even if it is no point, and a way round is not counted. -/
example : (Digraph.mk ["a", "b", "c"]
    [("a", "b"), ("b", "c"), ("c", "b"), ("a", "c"), ("c", "x")]).depth "x" = .ok 2 := by
  cbv

end Workflow.Digraph
