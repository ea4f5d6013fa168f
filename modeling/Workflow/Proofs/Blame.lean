import Mathlib.Data.List.Forall2
import Mathlib.Data.List.Infix
import Workflow.Graph.Wire
import Workflow.Proofs.Assoc
import Workflow.Proofs.Except

/-!
# Which element is blamed

The elements of a document are gone through one by one, and the first that is not in
order is named.  There are two such loops: one hands what it has made of the earlier
elements to each step, so that no identifier is taken twice, and one hands the place
of the element.  Each stops at the first element with which the elements so far are
no longer acceptable.

    l is cut short of an acceptable list → l is acceptable →
      the first offender is one                       (FirstOffender.unique)
    the loop fails with e → some step fails with e, at the first offender
                                (Gathers.firstOffender, Counts.firstOffender)
-/

namespace Workflow

variable {ε α β κ : Type}

/-! ## Lists, item by item -/

theorem exists_forall₂_iff {R : α → β → Prop} {l : List α} :
    (∃ bs, List.Forall₂ R l bs) ↔ ∀ a ∈ l, ∃ b, R a b := by
  induction l with
  | nil => exact iff_of_true ⟨[], .nil⟩ fun a ha => absurd ha List.not_mem_nil
  | cons a rest ih =>
    rw [List.forall_mem_cons, ← ih]
    constructor
    · rintro ⟨_, hab | ⟨hab, hrest⟩⟩
      exact ⟨⟨_, hab⟩, _, hrest⟩
    · rintro ⟨⟨b, hab⟩, bs, hrest⟩
      exact ⟨b :: bs, .cons hab hrest⟩

theorem exists_mem_of_forall₂ {R : α → β → Prop} {l : List α} {bs : List β}
    (h : List.Forall₂ R l bs) : ∀ b ∈ bs, ∃ a ∈ l, R a b := by
  induction h with
  | nil => exact fun b hb => absurd hb List.not_mem_nil
  | cons hab _ ih =>
    refine List.forall_mem_cons.2 ⟨⟨_, List.mem_cons_self, hab⟩, fun b hb => ?_⟩
    obtain ⟨a, ha, hr⟩ := ih b hb
    exact ⟨a, List.mem_cons_of_mem _ ha, hr⟩

theorem map_eq_of_forall₂ {R : α → β → Prop} {f : α → κ} {g : β → κ} {l : List α} {bs : List β}
    (hfg : ∀ a b, R a b → g b = f a) (h : List.Forall₂ R l bs) : bs.map g = l.map f := by
  induction h with
  | nil => rfl
  | cons hab _ ih => rw [List.map_cons, List.map_cons, hfg _ _ hab, ih]

theorem forall₂_of_leading {R : α → β → Prop} {l l' : List α} {bs : List β} (h : l <+: l')
    (hr : List.Forall₂ R l' bs) : List.Forall₂ R l (bs.take l.length) := by
  have htake := List.forall₂_take l.length hr
  rwa [← List.prefix_iff_eq_take.1 h] at htake

/-! ## First offenders -/

/-- The items before `a` are acceptable together, and with `a` they are not. -/
structure FirstOffender (ok : List α → Prop) (items before : List α) (a : α) : Prop where
  leads : before ++ [a] <+: items
  accepted : ok before
  offends : ¬ ok (before ++ [a])

theorem FirstOffender.congr {ok ok' : List α → Prop} {items before : List α} {a : α}
    (h : FirstOffender ok items before a) (hok : ∀ l, ok l ↔ ok' l) :
    FirstOffender ok' items before a :=
  ⟨h.leads, (hok _).1 h.accepted, mt (hok _).2 h.offends⟩

theorem FirstOffender.unique {ok : List α → Prop} (hok : ∀ {l l'}, l <+: l' → ok l' → ok l)
    {items before before' : List α} {a a' : α} (h : FirstOffender ok items before a)
    (h' : FirstOffender ok items before' a') : before = before' ∧ a = a' := by
  -- a shorter list that leads would be acceptable as a part of what comes before the other
  have hshort {b b' : List α} {c c' : α} (hc : FirstOffender ok items b c)
      (hc' : FirstOffender ok items b' c') (hle : b ++ [c] <+: b' ++ [c']) :
      b ++ [c] = b' ++ [c'] := by
    rcases List.prefix_concat_iff.1 hle with he | hle
    · exact he
    · exact absurd (hok hle hc'.accepted) hc.offends
  have he : before ++ [a] = before' ++ [a'] := by
    rcases List.prefix_or_prefix_of_prefix h.leads h'.leads with hle | hle
    · exact hshort h h' hle
    · exact (hshort h' h hle).symm
  obtain ⟨hb, ha⟩ := List.append_inj' he rfl
  exact ⟨hb, (List.cons.inj ha).1⟩

/-! ## Loops that gather -/

/-- Each step is given what the loop has gathered so far. -/
structure Gathers (loop : List β → List α → Except ε (List β))
    (step : List β → α → Except ε β) : Prop where
  nil : ∀ got, loop got [] = .ok got
  cons : ∀ got a rest, loop got (a :: rest) = step got a >>= fun b => loop (got ++ [b]) rest

namespace Gathers

variable {loop : List β → List α → Except ε (List β)} {step : List β → α → Except ε β}
  {got bs : List β} {items : List α} {e : ε}

theorem append_singleton (h : Gathers loop step) (got : List β) (before : List α) (a : α) :
    loop got (before ++ [a]) =
      loop got before >>= fun bs => step bs a >>= fun b => .ok (bs ++ [b]) := by
  induction before generalizing got with
  | nil =>
    rw [List.nil_append, h.cons, h.nil]
    simp only [h.nil]
    rfl
  | cons first rest ih =>
    rw [List.cons_append, h.cons, h.cons, bind_assoc]
    simp only [ih]

/-- A loop that fails has failed at the first item that it could not take. -/
theorem firstOffender (h : Gathers loop step) (he : loop got items = .error e) :
    ∃ before a bs, FirstOffender (fun l => ∃ bs, loop got l = .ok bs) items before a ∧
      loop got before = .ok bs ∧ step bs a = .error e := by
  have hstop : ∃ before a bs, before ++ [a] <+: items ∧ loop got before = .ok bs ∧
      step bs a = .error e := by
    induction items generalizing got with
    | nil =>
      rw [h.nil] at he
      cases he
    | cons a rest ih =>
      rw [h.cons] at he
      rcases bind_eq_error.1 he with hs | ⟨b, hb, he⟩
      · exact ⟨[], a, got, List.cons_prefix_cons.2 ⟨rfl, List.nil_prefix⟩, h.nil got, hs⟩
      · obtain ⟨before, a', bs, hle, hbefore, hs⟩ := ih he
        refine ⟨a :: before, a', bs, List.cons_prefix_cons.2 ⟨rfl, hle⟩, ?_, hs⟩
        rw [h.cons]
        exact bind_eq_ok.2 ⟨b, hb, hbefore⟩
  obtain ⟨before, a, bs, hle, hbefore, hs⟩ := hstop
  refine ⟨before, a, bs, ⟨hle, ⟨bs, hbefore⟩, ?_⟩, hbefore, hs⟩
  rintro ⟨bs', hok⟩
  rw [h.append_singleton] at hok
  obtain ⟨bs'', hbs, hok⟩ := bind_eq_ok.1 hok
  obtain rfl := Except.ok.inj (hbefore.symm.trans hbs)
  obtain ⟨b, hb, -⟩ := bind_eq_ok.1 hok
  rw [hs] at hb
  cases hb

/-- Steps that take items with new keys only gather distinct keys. -/
theorem eq_ok_iff (h : Gathers loop step) {R : α → β → Prop} {key : β → κ}
    (hstep : ∀ got a b, step got a = .ok b ↔ R a b ∧ key b ∉ got.map key)
    (hgot : (got.map key).Nodup) :
    loop got items = .ok bs ↔
      ∃ later, bs = got ++ later ∧ List.Forall₂ R items later ∧ (bs.map key).Nodup := by
  induction items generalizing got with
  | nil =>
    rw [h.nil]
    constructor
    · intro he
      obtain rfl := Except.ok.inj he
      exact ⟨[], (List.append_nil _).symm, .nil, hgot⟩
    · rintro ⟨later, rfl, hr, -⟩
      obtain rfl := List.forall₂_nil_left_iff.1 hr
      rw [List.append_nil]
  | cons a rest ih =>
    have hnext {b : β} (hb : key b ∉ got.map key) : ((got ++ [b]).map key).Nodup := by
      rw [List.map_append]
      exact Assoc.nodup_append_singleton hgot hb
    rw [h.cons, bind_eq_ok]
    constructor
    · rintro ⟨b, hb, hrest⟩
      obtain ⟨hr, hnew⟩ := (hstep got a b).1 hb
      obtain ⟨later, rfl, hlater, hnd⟩ := (ih (hnext hnew)).1 hrest
      exact ⟨b :: later, by simp, .cons hr hlater, hnd⟩
    · rintro ⟨later, rfl, hr, hnd⟩
      obtain ⟨b, later, hb, hlater, rfl⟩ := List.forall₂_cons_left_iff.1 hr
      have hnew : key b ∉ got.map key := by
        rw [List.map_append, List.nodup_append] at hnd
        exact fun hmem => hnd.2.2 _ hmem _ List.mem_cons_self rfl
      refine ⟨b, (hstep got a b).2 ⟨hb, hnew⟩, (ih (hnext hnew)).2 ⟨later, ?_, hlater, hnd⟩⟩
      simp

end Gathers

/-! ## Loops that count -/

/-- Each step is given the place of its item. -/
structure Counts (loop : Nat → List α → Except ε (List β)) (step : Nat → α → Except ε β) :
    Prop where
  nil : ∀ i, loop i [] = .ok []
  cons : ∀ i a rest, loop i (a :: rest) =
    step i a >>= fun b => loop (i + 1) rest >>= fun bs => .ok (b :: bs)

namespace Counts

variable {loop : Nat → List α → Except ε (List β)} {step : Nat → α → Except ε β}
  {i : Nat} {bs : List β} {items : List α} {e : ε}

theorem step_of_mem (h : Counts loop step) (hok : loop i items = .ok bs) :
    ∀ b ∈ bs, ∃ j, ∃ a ∈ items, step j a = .ok b := by
  induction items generalizing i bs with
  | nil =>
    rw [h.nil] at hok
    obtain rfl := Except.ok.inj hok
    exact fun b hb => absurd hb List.not_mem_nil
  | cons a rest ih =>
    rw [h.cons] at hok
    obtain ⟨b, hb, hok⟩ := bind_eq_ok.1 hok
    obtain ⟨later, hlater, hok⟩ := bind_eq_ok.1 hok
    obtain rfl := Except.ok.inj hok
    refine List.forall_mem_cons.2 ⟨⟨i, a, List.mem_cons_self, hb⟩, fun b' hb' => ?_⟩
    obtain ⟨j, a', ha', hs⟩ := ih hlater b' hb'
    exact ⟨j, a', List.mem_cons_of_mem a ha', hs⟩

/-- Steps that do not depend on the place take the items one by one. -/
theorem eq_ok_iff (h : Counts loop step) {R : α → β → Prop}
    (hstep : ∀ i a b, step i a = .ok b ↔ R a b) :
    loop i items = .ok bs ↔ List.Forall₂ R items bs := by
  induction items generalizing i bs with
  | nil =>
    rw [h.nil, List.forall₂_nil_left_iff]
    exact ⟨fun he => (Except.ok.inj he).symm, fun he => he ▸ rfl⟩
  | cons a rest ih =>
    rw [h.cons, bind_eq_ok, List.forall₂_cons_left_iff]
    constructor
    · rintro ⟨b, hb, hok⟩
      obtain ⟨later, hlater, hok⟩ := bind_eq_ok.1 hok
      exact ⟨b, later, (hstep i a b).1 hb, ih.1 hlater, (Except.ok.inj hok).symm⟩
    · rintro ⟨b, later, hb, hlater, rfl⟩
      exact ⟨b, (hstep i a b).2 hb, bind_eq_ok.2 ⟨later, ih.2 hlater, rfl⟩⟩

/-- A loop that fails has failed at the first item that it could not take. -/
theorem firstOffender (h : Counts loop step) (he : loop i items = .error e) :
    ∃ before a, FirstOffender (fun l => ∃ bs, loop i l = .ok bs) items before a ∧
      step (i + before.length) a = .error e := by
  induction items generalizing i with
  | nil =>
    rw [h.nil] at he
    cases he
  | cons a rest ih =>
    rw [h.cons] at he
    rcases bind_eq_error.1 he with hs | ⟨b, hb, he⟩
    · refine ⟨[], a, ⟨List.cons_prefix_cons.2 ⟨rfl, List.nil_prefix⟩, ⟨[], h.nil i⟩, ?_⟩, hs⟩
      rintro ⟨bs, hok⟩
      rw [List.nil_append, h.cons, hs] at hok
      cases hok
    · rcases bind_eq_error.1 he with hrest | ⟨bs, -, he⟩
      · obtain ⟨before, a', ⟨hle, ⟨bs, hbs⟩, hnot⟩, hs⟩ := ih hrest
        have hcons (l : List α) : (∃ bs, loop i (a :: l) = .ok bs) ↔
            ∃ bs, loop (i + 1) l = .ok bs := by
          rw [h.cons]
          constructor
          · rintro ⟨bs, hok⟩
            obtain ⟨_, -, hok⟩ := bind_eq_ok.1 hok
            obtain ⟨later, hlater, -⟩ := bind_eq_ok.1 hok
            exact ⟨later, hlater⟩
          · rintro ⟨later, hlater⟩
            exact ⟨b :: later, bind_eq_ok.2 ⟨b, hb, bind_eq_ok.2 ⟨later, hlater, rfl⟩⟩⟩
        refine ⟨a :: before, a', ⟨List.cons_prefix_cons.2 ⟨rfl, hle⟩, ?_, ?_⟩, ?_⟩
        · exact (hcons before).2 ⟨bs, hbs⟩
        · exact mt (hcons (before ++ [a'])).1 hnot
        · rwa [List.length_cons, Nat.add_comm before.length, ← Nat.add_assoc]
      · cases he

end Counts

/-! ## Refusals of one element -/

/-- Whatever goes wrong, it is this element that is refused, and the message shows no other values
than these. -/
structure RefusesAt (element : Option Value) (Shown : Value → Prop) (x : Except Error α) : Prop where
  names : ∀ e, x = .error e → ∃ cause, e = .malformed element cause ∧ ∀ v ∈ cause.shown, Shown v

namespace RefusesAt

variable {element : Option Value} {Shown : Value → Prop}

theorem ok (a : α) : RefusesAt element Shown (.ok a) := ⟨nofun⟩

theorem mono {Shown' : Value → Prop} {x : Except Error α} (hx : RefusesAt element Shown x)
    (h : ∀ v, Shown v → Shown' v) : RefusesAt element Shown' x := by
  constructor
  intro e he
  obtain ⟨cause, rfl, hshown⟩ := hx.names e he
  exact ⟨cause, rfl, fun v hv => h v (hshown v hv)⟩

theorem malformed (cause : Malformation) (h : ∀ v ∈ cause.shown, Shown v) :
    RefusesAt element Shown (.error (.malformed element cause) : Except Error α) := by
  constructor
  rintro e ⟨⟩
  exact ⟨cause, rfl, h⟩

theorem misshapen (subject expected : String) :
    RefusesAt element Shown (misshapen element subject expected : Except Error α) :=
  malformed _ nofun

theorem bind {x : Except Error α} {f : α → Except Error β} (hx : RefusesAt element Shown x)
    (hf : ∀ a, x = .ok a → RefusesAt element Shown (f a)) :
    RefusesAt element Shown (x >>= f) := by
  constructor
  intro e he
  rcases bind_eq_error.1 he with h | ⟨a, ha, h⟩
  · exact hx.names e h
  · exact (hf a ha).names e h

end RefusesAt

/-- The message of a malformation is written unless a value that it shows cannot be. -/
theorem worded_malformed {element : Option Value} (cause : Malformation)
    (h : ∀ v ∈ element, v.isWritable = true) :
    Error.worded (.malformed element cause) = .malformed element cause ∨
      Error.worded (.malformed element cause) = .faulty .unwritable ∧
        ∃ v ∈ cause.shown, v.isWritable = false := by
  unfold Error.worded
  by_cases hall : (element.toList ++ cause.shown).all Value.isWritable = true
  · exact .inl (if_pos hall)
  · refine .inr ⟨if_neg hall, ?_⟩
    rw [Bool.not_eq_true, List.all_eq_false] at hall
    obtain ⟨v, hv, hlong⟩ := hall
    rw [Bool.not_eq_true] at hlong
    rcases List.mem_append.1 hv with hv | hv
    · rw [h v (Option.mem_toList.1 hv)] at hlong
      cases hlong
    · exact ⟨v, hv, hlong⟩

/-! ## Parts of documents -/

section

variable {v : Option Value} {subject s : String} {element : Option Value} {Shown : Value → Prop}

theorem requireText_eq_ok_iff : requireText v subject element = .ok s ↔ v = some (.text s) := by
  unfold requireText
  split
  next t =>
    constructor
    · rintro ⟨⟩
      rfl
    · rintro ⟨⟩
      rfl
  next h => exact iff_of_false nofun (h s)

theorem requireText_refusesAt (v : Option Value) (subject : String) (element : Option Value) :
    RefusesAt element Shown (requireText v subject element) := by
  unfold requireText
  split
  · exact .ok _
  · exact .misshapen ..

theorem requireKind_refusesAt {v : Value} (h : Shown v) (id : String) :
    RefusesAt (some (.text id)) Shown (requireKind v id) := by
  unfold requireKind
  split
  · exact .ok _
  · exact .malformed _ fun _ hv => List.mem_singleton.1 hv ▸ h

/-- A text, or nothing or null in its place. -/
def IsOptionalText (v : Option Value) : Option String → Prop
  | some s => v = some (.text s)
  | none => v = none ∨ v = some .null

theorem optionalText_eq_ok_iff {t : Option String} :
    optionalText v subject element = .ok t ↔ IsOptionalText v t := by
  unfold optionalText
  split
  · cases t <;> simp [IsOptionalText]
  · cases t <;> simp [IsOptionalText]
  · cases t <;> simp [IsOptionalText]
  next v' hnull htext =>
    refine iff_of_false nofun ?_
    cases t with
    | none =>
      rintro (h | h)
      · cases h
      · exact hnull (Option.some.inj h)
    | some s => exact fun h => htext s (Option.some.inj h)

theorem optionalText_refusesAt (v : Option Value) (subject : String) (element : Option Value) :
    RefusesAt element Shown (optionalText v subject element) := by
  unfold optionalText
  split
  · exact .ok _
  · exact .ok _
  · exact .ok _
  · exact .misshapen ..

end

end Workflow
