import Mathlib.Order.WellFoundedSet
import Workflow.Proofs.Graph.Depth
import Workflow.Proofs.Graph.Verdict

/-!
# Only cycles keep a step from being reached

Where no path leads back to its start and all arrows join points, going back along arrows
must end, for there are finitely many points; and it ends at an entry point.  So each point
is reached from one, no point is more than one arrow deeper than any that leads to it, and
nothing is said of a missing entry point.

    no way back → each point is reached                  (Acyclic.exists_reaches)
    the missing entry is reported ↔ there is none        (noEntry_mem_violations_iff)
    an acyclic graph can be entered, and run through     (validate_acyclic)
-/

namespace Workflow

namespace Digraph

variable {g : Digraph} {p q r : String} {m n : Nat}

/-! ## Going back -/

/-- Every arrow joins two points. -/
def Joined (g : Digraph) : Prop := ∀ a ∈ g.arrows, a.1 ∈ g.points ∧ a.2 ∈ g.points

/-- No path of one or more arrows leads back to its start. -/
def Acyclic (g : Digraph) : Prop := ∀ p n, ¬ g.Path p (n + 1) p

theorem Path.trans (h : g.Path p m q) (h' : g.Path q n r) : g.Path p (m + n) r := by
  induction h' with
  | start => exact h
  | snoc _ ha ih => exact ih.snoc ha

/-- A graph is acyclic if its points can be numbered so that every arrow leads upwards. -/
theorem acyclic_of_rank (rank : String → Nat) (h : ∀ a ∈ g.arrows, rank a.1 < rank a.2) :
    g.Acyclic := by
  have hpath {p q n} (hp : g.Path p n q) : rank p + n ≤ rank q := by
    induction hp with
    | start => exact le_rfl
    | snoc _ ha ih =>
      have := h _ ha
      dsimp only at this
      omega
  intro p n hp
  have := hpath hp
  omega

/-- Points that lie on the way are before those that they lead to, which orders the points. -/
theorem Acyclic.wellFoundedOn (h : g.Acyclic) :
    {p | p ∈ g.points}.WellFoundedOn fun p q => ∃ n, g.Path p (n + 1) q := by
  have : IsStrictOrder String fun p q => ∃ n, g.Path p (n + 1) q :=
    { irrefl := fun p ⟨n, hp⟩ => h p n hp
      trans := fun p q r ⟨m, hpq⟩ ⟨n, hqr⟩ => ⟨m + 1 + n, hpq.trans hqr⟩ }
  exact g.points.finite_toSet.wellFoundedOn

/-- The induction goes back along the arrows. -/
theorem Acyclic.exists_reaches (h : g.Acyclic) (hj : g.Joined) (hp : p ∈ g.points) :
    ∃ n, g.Reaches n p := by
  refine h.wellFoundedOn.induction (P := fun p => ∃ n, g.Reaches n p) hp fun q hq ih => ?_
  by_cases hentry : g.IsEntry q
  · exact ⟨0, reaches_zero.2 hentry⟩
  · obtain ⟨w, ha⟩ : ∃ w, (w, q) ∈ g.arrows := by
      by_contra hnone
      exact hentry ⟨hq, not_exists.1 hnone⟩
    obtain ⟨n, hn⟩ := ih w (hj _ ha).1 ⟨0, Path.start.snoc ha⟩
    exact ⟨n + 1, hn.snoc ha⟩

theorem Acyclic.exists_isEntry (h : g.Acyclic) (hj : g.Joined) (hp : p ∈ g.points) :
    ∃ e, g.IsEntry e := by
  obtain ⟨n, e, he, -⟩ := h.exists_reaches hj hp
  exact ⟨e, he⟩

/-- What is reached has a depth. -/
theorem Reaches.exists_isLeast (h : g.Reaches n p) :
    ∃ k : Nat, g.depth p = .ok k ∧ IsLeast {n | g.Reaches n p} k := by
  obtain ⟨r, hok, hr⟩ := exists_depth g p
  cases hr with
  | least hk => exact ⟨_, hok, hk⟩
  | unreached hnone => exact absurd h (hnone n)

/-- What it leads to is one arrow deeper at most. -/
theorem Reaches.depth_le (h : g.Reaches n p) : ∃ k : Nat, g.depth p = .ok k ∧
    ∀ q, (p, q) ∈ g.arrows → ∃ m : Nat, g.depth q = .ok m ∧ m ≤ k + 1 := by
  obtain ⟨k, hok, hk⟩ := h.exists_isLeast
  refine ⟨k, hok, fun q ha => ?_⟩
  have hnext : g.Reaches (k + 1) q := Reaches.snoc hk.1 ha
  obtain ⟨m, hm, hleast⟩ := hnext.exists_isLeast
  exact ⟨m, hm, hleast.2 hnext⟩

end Digraph

namespace Sketch

variable {s : Sketch}

/-! ## The missing entry point -/

theorem Quotes.ne_noEntry {m part : Message} (h : Quotes m part) : m.text ≠ noEntry := by
  obtain ⟨before, after, hm⟩ := h
  intro he
  have hquote : '\'' ∈ noEntry.toList := by
    rw [← he, hm]
    simp
  revert hquote
  decide

theorem ne_noEntry_of_mem_nodeViolations {key : Value} {n : SketchNode} {m : Message}
    (hm : m ∈ nodeViolations key n) : m.text ≠ noEntry := by
  rcases quotes_of_mem_nodeViolations hm with hq | hq
  · exact hq.ne_noEntry
  · exact hq.ne_noEntry

theorem ne_noEntry_of_mem_edgeViolations {keys : List Value} {index : Nat} {e : SketchEdge}
    {m : Message} (hm : m ∈ edgeViolations keys index e) : m.text ≠ noEntry := by
  intro he
  obtain ⟨rest, hrest⟩ := edge_of_mem_edgeViolations hm
  have hfirst := congrArg (fun text : String => text.toList.head?) (he.symm.trans hrest)
  simp [String.toList_append, noEntry] at hfirst

/-- Whatever is said of steps and transitions, the missing entry point is reported just if it is
missing. -/
theorem noEntry_mem_violations_iff : noEntry ∈ s.violations ↔ ¬ s.HasEntry := by
  have hwhole : noEntry ∈ s.entryViolations.map Message.text ↔ ¬ s.HasEntry := by
    rcases entryViolations_cases s with ⟨he, hsaid⟩ | ⟨he, hsaid⟩
    · simp [hsaid, he]
    · simp [hsaid, he]
  rw [← hwhole]
  unfold violations messages
  rw [List.map_append, List.mem_append, or_iff_right]
  rw [List.map_append, List.mem_append]
  rintro (h | h)
  · obtain ⟨m, hm, htext⟩ := List.mem_map.1 h
    obtain ⟨e, -, hm⟩ := List.mem_flatMap.1 hm
    exact ne_noEntry_of_mem_nodeViolations hm htext
  · obtain ⟨m, hm, htext⟩ := List.mem_map.1 h
    obtain ⟨e, -, hm⟩ := List.mem_flatMap.1 hm
    exact ne_noEntry_of_mem_edgeViolations hm htext

/-! ## Shapes of sketches -/

/-- Steps are filed under texts, and transitions lead from and to texts. -/
structure HasTextIds (s : Sketch) : Prop where
  keys : ∀ key ∈ s.keys, ∃ p, key = .text p
  ends : ∀ e ∈ s.edges, ∃ p q, e.source = .text p ∧ e.target = .text q

/-- Keys as points, transitions as arrows. -/
def shape (s : Sketch) : Digraph where
  points := s.keys.map Value.bare
  arrows := s.edges.map fun e => (e.source.bare, e.target.bare)

namespace HasTextIds

theorem mem_points_iff (h : s.HasTextIds) {p : String} : p ∈ s.shape.points ↔ .text p ∈ s.keys := by
  constructor
  · intro hp
    obtain ⟨key, hkey, rfl⟩ := List.mem_map.1 hp
    obtain ⟨q, rfl⟩ := h.keys key hkey
    exact hkey
  · exact fun hp => List.mem_map.2 ⟨.text p, hp, rfl⟩

theorem mem_arrows_iff (h : s.HasTextIds) {p q : String} :
    (p, q) ∈ s.shape.arrows ↔ ∃ e ∈ s.edges, e.source = .text p ∧ e.target = .text q := by
  constructor
  · intro ha
    obtain ⟨e, he, hends⟩ := List.mem_map.1 ha
    obtain ⟨source, target, hs, ht⟩ := h.ends e he
    rw [hs, ht] at hends
    obtain ⟨rfl, rfl⟩ := Prod.mk.inj hends
    exact ⟨e, he, hs, ht⟩
  · rintro ⟨e, he, hs, ht⟩
    exact List.mem_map.2 ⟨e, he, by rw [hs, ht]; rfl⟩

/-- The entry points that are looked for in a sketch are those of its shape. -/
theorem mem_entryPoints_iff (h : s.HasTextIds) {p : String} :
    .text p ∈ s.entryPoints ↔ s.shape.IsEntry p := by
  have hnone : (∀ e ∈ s.edges, (Value.text p).same e.target = false) ↔
      ∀ q, (q, p) ∉ s.shape.arrows := by
    constructor
    · intro hall q ha
      obtain ⟨e, he, -, ht⟩ := h.mem_arrows_iff.1 ha
      simpa [ht] using hall e he
    · intro hall e he
      obtain ⟨source, target, hs, ht⟩ := h.ends e he
      rw [ht, Value.same_text, decide_eq_false_iff_not]
      rintro rfl
      exact hall source (h.mem_arrows_iff.2 ⟨e, he, hs, ht⟩)
  unfold entryPoints Digraph.IsEntry
  rw [List.mem_filter, h.mem_points_iff, ← hnone]
  simp

theorem searchable (h : s.HasTextIds) : s.Searchable := searchable_of_texts h.ends

end HasTextIds

/-- Where all transitions join steps and none leads back, a graph with a step has an entry point,
whose absence is not reported: whatever else is said of the graph is, unless it shows a value that
cannot be written.  Each step has a depth, and no transition adds more than one. -/
theorem validate_acyclic (s : Sketch) (h : s.HasTextIds) (hj : s.shape.Joined)
    (ha : s.shape.Acyclic) :
    (s.nodes ≠ [] → s.entryPoints ≠ []) ∧
    (∃ said, noEntry ∉ said ∧ s.validate =
      if s.messages.all Message.isWritable then .ok said else .error (.faulty .unwritable)) ∧
    ∀ p ∈ s.shape.points, ∃ k : Nat, s.shape.depth p = .ok k ∧
      ∀ q, (p, q) ∈ s.shape.arrows → ∃ m : Nat, s.shape.depth q = .ok m ∧ m ≤ k + 1 := by
  have hentry (hne : s.nodes ≠ []) : s.entryPoints ≠ [] := by
    obtain ⟨e, he⟩ := List.exists_mem_of_ne_nil _ hne
    obtain ⟨p, hp⟩ := h.keys e.1 (List.mem_map_of_mem he)
    have hpoint : p ∈ s.shape.points := h.mem_points_iff.2 (hp ▸ List.mem_map_of_mem he)
    obtain ⟨q, hq⟩ := ha.exists_isEntry hj hpoint
    exact List.ne_nil_of_mem (h.mem_entryPoints_iff.2 hq)
  refine ⟨hentry, ⟨_, ?_, h.searchable.validate_eq⟩, fun p hp => ?_⟩
  · rw [noEntry_mem_violations_iff, not_not]
    by_cases hne : s.nodes = []
    · exact .inl hne
    · exact .inr (entryPoints_ne_nil_iff.1 (hentry hne))
  · obtain ⟨n, hn⟩ := ha.exists_reaches hj hp
    exact hn.depth_le

/-- Two ways from the first step to the last, of which one takes a detour. -/
def detour : Sketch where
  nodes := ["a", "b", "c"].map fun id =>
    (.text id, ⟨.text id, .text "condition", .text id, .object [("expr", .text "x")]⟩)
  edges := [("a", "b"), ("b", "c"), ("a", "c")].map fun (p, q) => ⟨.text p, .text q, .null⟩

theorem hasTextIds_detour : detour.HasTextIds where
  keys key hk := by
    obtain ⟨e, he, rfl⟩ := List.mem_map.1 hk
    obtain ⟨p, -, rfl⟩ := List.mem_map.1 he
    exact ⟨p, rfl⟩
  ends e he := by
    obtain ⟨⟨p, q⟩, -, rfl⟩ := List.mem_map.1 he
    exact ⟨p, q, rfl, rfl⟩

theorem validate_acyclic_detour :
    (detour.HasTextIds ∧ detour.shape.Joined ∧ detour.shape.Acyclic ∧ detour.nodes ≠ []) ∧
    detour.entryPoints ≠ [] ∧
    (∃ said, noEntry ∉ said ∧ detour.validate =
      if detour.messages.all Message.isWritable then .ok said else .error (.faulty .unwritable)) ∧
    ∀ p ∈ detour.shape.points, ∃ k : Nat, detour.shape.depth p = .ok k ∧
      ∀ q, (p, q) ∈ detour.shape.arrows →
        ∃ m : Nat, detour.shape.depth q = .ok m ∧ m ≤ k + 1 := by
  have hjoined : detour.shape.Joined := by
    unfold Digraph.Joined
    decide
  have hacyclic : detour.shape.Acyclic :=
    Digraph.acyclic_of_rank (fun p => ["a", "b", "c"].idxOf p) (by decide)
  obtain ⟨hentry, hrest⟩ := validate_acyclic detour hasTextIds_detour hjoined hacyclic
  have hne : detour.nodes ≠ [] := by decide
  exact ⟨⟨hasTextIds_detour, hjoined, hacyclic, hne⟩, hentry hne, hrest⟩

end Sketch

end Workflow
