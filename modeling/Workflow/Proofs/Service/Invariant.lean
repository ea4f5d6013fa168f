import Workflow.Proofs.Service.Careful

/-!
# The invariant of clients

A copy that a client has loaded is never ahead of what is stored, and is what is
stored if its version is.  Each step of a client that writes with care keeps this:
what is stored is replaced only by what has a higher version, or by itself, and an
identifier that is given to a client is not stored before the client uses it.

    P sound → the pool after a step of a client sound          (Sound.advanceClient)
    P sound → the pool after any steps sound                   (Sound.after)
-/

namespace Workflow.Service

open Store (Backend Step)

/-! ## Invariant -/

section

variable {σ : Type} [Backend σ] {S : Shelving σ} {sources : Program.Sources} {bound : Nat}

/-- A loaded copy is not ahead of what is stored, and is what is stored if its version is. -/
def Current (S : Shelving σ) (shelf : Shelf) (h : Definition) : Prop :=
  ∀ s, shelf h.id = some s → h.version ≤ s.version ∧ (s.version = h.version → s = S.core h)

structure Client.Sound (S : Shelving σ) (sources : Program.Sources) (bound : Nat) (store : σ)
    (idsTaken : Nat) (c : Client) : Prop where
  admits : S.Admits c.now c.call
  careful : Careful S (fun d => c.call.change c.now d) c.loaded c.given c.rest
  typed : ∀ h, c.loaded = some h → S.Typed h
  current : ∀ h, c.loaded = some h → Current S (S.shelf store) h
  past : ∀ h, c.loaded = some h → ∀ k, idsTaken ≤ k → k < bound → sources.ids k ≠ h.id
  fresh : ∀ id, c.given = some id → S.shelf store id = none
  drawn : ∀ id, c.given = some id → ∃ k, k < idsTaken ∧ sources.ids k = id

/-- The invariant of a pool: identifiers that were given are not stored, not loaded by any
client and not given to two. -/
structure Pool.Sound (S : Shelving σ) (sources : Program.Sources) (bound : Nat) (base : Shelf)
    (P : Pool σ) : Prop where
  store : S.Sound P.store
  taken : P.idsTaken ≤ bound
  clients : ∀ c ∈ P.clients, c.Sound S sources bound P.store P.idsTaken
  apart : ∀ (i j : Nat) (a b : Client), P.clients[i]? = some a → P.clients[j]? = some b →
    ∀ id, a.given = some id →
      (∀ h, b.loaded = some h → h.id ≠ id) ∧ (i ≠ j → b.given ≠ some id)
  past : ∀ id s, S.shelf P.store id = some s →
    ∀ k, P.idsTaken ≤ k → k < bound → sources.ids k ≠ id
  replayed : ∀ id, S.shelf P.store id = (base.replay P.log id).map S.core

/-! ## Steps of the shelf -/

/-- What is stored is replaced by what has a higher version, by itself or by nothing, but for
a new definition under an identifier that was given to the client and is used up. -/
def Evolves (before after : Shelf) (given given' : Option Uuid) : Prop :=
  ∀ id s', after id = some s' →
    (∃ s, before id = some s ∧ s.version ≤ s'.version ∧ (s'.version = s.version → s' = s)) ∨
      (given = some id ∧ given' = none)

theorem Evolves.refl (shelf : Shelf) (given given' : Option Uuid) :
    Evolves shelf shelf given given' :=
  fun _ s' h => Or.inl ⟨s', h, Int.le_refl _, fun _ => rfl⟩

theorem Evolves.remove (shelf : Shelf) (id : Uuid) (given given' : Option Uuid) :
    Evolves shelf (shelf.put id none) given given' := by
  intro id' s' h
  by_cases hid : id' = id
  · rw [hid, Shelf.put_self] at h
    cases h
  · rw [Shelf.put_of_ne _ hid] at h
    exact Or.inl ⟨s', h, Int.le_refl _, fun _ => rfl⟩

theorem Current.evolve {before after : Shelf} {given given' : Option Uuid} {h : Definition}
    (hc : Current S before h) (he : Evolves before after given given')
    (hg : given ≠ some h.id) : Current S after h := by
  intro s' hs'
  rcases he h.id s' hs' with ⟨s, hs, hle, heq⟩ | ⟨hgiven, -⟩
  · obtain ⟨hle₁, heq₁⟩ := hc s hs
    refine ⟨Int.le_trans hle₁ hle, fun hv => ?_⟩
    have hv₁ : s.version = h.version := by omega
    rw [heq (by omega), heq₁ hv₁]
  · exact absurd hgiven hg

/-- Writing keeps a shelf what another one is but for what a map leaves out. -/
theorem Shelf.put_eq_map {s s' : Shelf} {core : Definition → Definition}
    (hs : ∀ id, s id = (s' id).map core) {id : Uuid} {d d' : Option Definition}
    (hd : d = d'.map core) : ∀ id', s.put id d id' = (s'.put id d' id').map core := by
  intro id'
  by_cases hid : id' = id
  · rw [hid, Shelf.put_self, Shelf.put_self]
    exact hd
  · rw [Shelf.put_of_ne _ hid, Shelf.put_of_ne _ hid]
    exact hs id'

/-! ## Steps of a client -/

/-- A client stays sound while another one, to which nothing of its own was given, takes a
step. -/
theorem Client.Sound.other {store store' : σ} {n n' : Nat} {b : Client}
    (hb : b.Sound S sources bound store n) (hn : n ≤ n') {given given' : Option Uuid}
    (hshelf : Evolves (S.shelf store) (S.shelf store') given given')
    (hapart : ∀ id, given = some id →
      (∀ h, b.loaded = some h → h.id ≠ id) ∧ b.given ≠ some id) :
    b.Sound S sources bound store' n' where
  admits := hb.admits
  careful := hb.careful
  typed := hb.typed
  current := by
    intro h hh
    exact (hb.current h hh).evolve hshelf fun hg => (hapart h.id hg).1 h hh rfl
  past h hh k hk hkb := hb.past h hh k (Nat.le_trans hn hk) hkb
  fresh := by
    intro id hid
    cases hs' : S.shelf store' id with
    | none => rfl
    | some s' =>
      rcases hshelf id s' hs' with ⟨s, hstored, -⟩ | ⟨hg, -⟩
      · rw [hb.fresh id hid] at hstored
        cases hstored
      · exact absurd hid (hapart id hg).2
  drawn := by
    intro id hid
    obtain ⟨k, hk, he⟩ := hb.drawn id hid
    exact ⟨k, Nat.lt_of_lt_of_le hk hn, he⟩

/-- An entry of the new list is the new client or an old one at another place. -/
theorem getElem?_set_client {clients : List Client} {i j : Nat} {c' a : Client}
    (ha : (clients.set i c')[j]? = some a) : j = i ∧ a = c' ∨ j ≠ i ∧ clients[j]? = some a := by
  rw [List.getElem?_set] at ha
  by_cases hij : i = j
  · left
    rw [if_pos hij] at ha
    split at ha
    · exact ⟨hij.symm, (Option.some.inj ha).symm⟩
    · cases ha
  · right
    rw [if_neg hij] at ha
    exact ⟨Ne.symm hij, ha⟩

theorem Pool.Sound.client {base : Shelf} {P : Pool σ} (hP : P.Sound S sources bound base)
    {j : Nat} {b : Client} (hb : P.clients[j]? = some b) :
    b.Sound S sources bound P.store P.idsTaken :=
  hP.clients b (List.mem_of_getElem? hb)

/-- An identifier that a client has or is newly given is not loaded by any client, not given
to another one and not stored. -/
theorem Pool.Sound.given_apart {base : Shelf} {P : Pool σ} (hP : P.Sound S sources bound base)
    (hids : sources.Distinct bound) {i : Nat} {c : Client} (hc : P.clients[i]? = some c) {id : Uuid}
    (hid : c.given = some id ∨ ∃ k, P.idsTaken ≤ k ∧ k < bound ∧ sources.ids k = id) {k : Nat}
    {b : Client} (hb : P.clients[k]? = some b) :
    (∀ h, b.loaded = some h → h.id ≠ id) ∧ (i ≠ k → b.given ≠ some id) ∧
      ∀ s, S.shelf P.store id ≠ some s := by
  rcases hid with hg | ⟨n, hn, hnb, rfl⟩
  · obtain ⟨hloaded, hgiven⟩ := hP.apart i k c b hc hb id hg
    refine ⟨hloaded, hgiven, fun s hs => ?_⟩
    cases ((hP.client hc).fresh id hg).symm.trans hs
  · refine ⟨fun h hh he => (hP.client hb).past h hh n hn hnb he.symm, fun _ hg => ?_,
      fun s hs => hP.past _ s hs n hn hnb rfl⟩
    obtain ⟨m, hm, he⟩ := (hP.client hb).drawn _ hg
    have := hids m n (Nat.lt_of_lt_of_le hm hP.taken) hnb he
    omega

/-- A step of one client keeps the invariant of the clients if it keeps that of its own, and
what it newly loads is stored and what it newly is given was never given before. -/
theorem Pool.Sound.set {base : Shelf} {P : Pool σ} (hP : P.Sound S sources bound base)
    (hids : sources.Distinct bound) {i : Nat} {c c' : Client}
    (hc : P.clients[i]? = some c) {store : σ} {idsTaken : Nat} (hn : P.idsTaken ≤ idsTaken)
    (hshelf : Evolves (S.shelf P.store) (S.shelf store) c.given c'.given)
    (hc' : c'.Sound S sources bound store idsTaken)
    (hloaded : ∀ h, c'.loaded = some h → c.loaded = some h ∨ ∃ s, S.shelf P.store h.id = some s)
    (hgiven : ∀ id, c'.given = some id →
      c.given = some id ∨ ∃ k, P.idsTaken ≤ k ∧ k < bound ∧ sources.ids k = id) :
    (∀ a ∈ P.clients.set i c', a.Sound S sources bound store idsTaken) ∧
      ∀ (j k : Nat) (a b : Client), (P.clients.set i c')[j]? = some a →
        (P.clients.set i c')[k]? = some b → ∀ id, a.given = some id →
          (∀ h, b.loaded = some h → h.id ≠ id) ∧ (j ≠ k → b.given ≠ some id) := by
  constructor
  · intro b hb
    obtain ⟨j, hj⟩ := List.getElem?_of_mem hb
    rcases getElem?_set_client hj with ⟨-, rfl⟩ | ⟨hji, hj⟩
    · exact hc'
    · refine (hP.client hj).other hn hshelf fun id hg => ?_
      obtain ⟨hfirst, hsecond⟩ := hP.apart i j c b hc hj id hg
      exact ⟨hfirst, hsecond (Ne.symm hji)⟩
  · intro j k a b ha hb id hid
    rcases getElem?_set_client ha with ⟨rfl, rfl⟩ | ⟨-, hja⟩
    · have hnew {l : Nat} {x : Client} (hx : P.clients[l]? = some x) :=
        hP.given_apart hids hc (hgiven id hid) hx
      rcases getElem?_set_client hb with ⟨rfl, rfl⟩ | ⟨-, hkb⟩
      · refine ⟨fun h hh => ?_, fun hjk => absurd rfl hjk⟩
        rcases hloaded h hh with hh | ⟨s, hs⟩
        · exact (hnew hc).1 h hh
        · rintro rfl
          exact (hnew hc).2.2 s hs
      · exact ⟨(hnew hkb).1, (hnew hkb).2.1⟩
    · rcases getElem?_set_client hb with ⟨rfl, rfl⟩ | ⟨-, hkb⟩
      · constructor
        · intro h hh
          rcases hloaded h hh with hh | ⟨s, hs⟩
          · exact (hP.apart j k a c hja hc id hid).1 h hh
          · rintro rfl
            cases ((hP.client hja).fresh _ hid).symm.trans hs
        · intro hjk hg
          exact (hP.given_apart hids hc (hgiven id hg) hja).2.1 (Ne.symm hjk) hid
      · exact hP.apart j k a b hja hkb id hid

/-- What is stored after the step was so before it, or was given to the client, so no
identifier that is still to be given is stored. -/
theorem Pool.Sound.past_of_evolves {base : Shelf} {P : Pool σ} (hP : P.Sound S sources bound base)
    (hids : sources.Distinct bound) {c : Client} (hc : c ∈ P.clients)
    {shelf : Shelf} {given : Option Uuid} (hs : Evolves (S.shelf P.store) shelf c.given given)
    {idsTaken : Nat} (hn : P.idsTaken ≤ idsTaken) :
    ∀ id s, shelf id = some s → ∀ k, idsTaken ≤ k → k < bound → sources.ids k ≠ id := by
  intro id s hstored k hk hb
  rcases hs id s hstored with ⟨s₀, h₀, -⟩ | ⟨hgiven, -⟩
  · exact hP.past id s₀ h₀ k (Nat.le_trans hn hk) hb
  · obtain ⟨m, hm, rfl⟩ := (hP.clients c hc).drawn id hgiven
    intro he
    have := hids k m hb (Nat.lt_of_lt_of_le hm hP.taken) he
    omega

/-- The invariant of a pool is kept if what a client does keeps its own and is what the log
tells. -/
theorem Pool.Sound.move {base : Shelf} {P : Pool σ} (hP : P.Sound S sources bound base)
    (hids : sources.Distinct bound) {i : Nat} {c c' : Client}
    (hc : P.clients[i]? = some c) {store : σ} {idsTaken : Nat} (hn : P.idsTaken ≤ idsTaken)
    (hbound : idsTaken ≤ bound) (hstore : S.Sound store)
    (hshelf : Evolves (S.shelf P.store) (S.shelf store) c.given c'.given)
    (hc' : c'.Sound S sources bound store idsTaken)
    (hloaded : ∀ h, c'.loaded = some h → c.loaded = some h ∨ ∃ s, S.shelf P.store h.id = some s)
    (hgiven : ∀ id, c'.given = some id →
      c.given = some id ∨ ∃ k, P.idsTaken ≤ k ∧ k < bound ∧ sources.ids k = id)
    {log : List Entry} (hlog : ∀ id, S.shelf store id = (base.replay log id).map S.core)
    (drawsTaken : Nat) :
    Pool.Sound S sources bound base ⟨store, P.clients.set i c', idsTaken, drawsTaken, log⟩ := by
  obtain ⟨hclients, hapart⟩ := hP.set hids hc hn hshelf hc' hloaded hgiven
  exact {
    store := hstore
    taken := hbound
    clients := hclients
    apart := hapart
    past := hP.past_of_evolves hids (List.mem_of_getElem? hc) hshelf hn
    replayed := hlog }

/-- A client that has only gone on, and has loaded and been given nothing. -/
theorem Client.Sound.goOn {store : σ} {n n' : Nat} {c : Client}
    (hc : c.Sound S sources bound store n) (hn : n ≤ n') {rest : Program Reply}
    (hr : Careful S (fun d => c.call.change c.now d) c.loaded c.given rest) :
    ({ c with rest := rest } : Client).Sound S sources bound store n' where
  admits := hc.admits
  careful := hr
  typed := hc.typed
  current := hc.current
  past h hh k hk hb := hc.past h hh k (Nat.le_trans hn hk) hb
  fresh := hc.fresh
  drawn := by
    intro id hid
    obtain ⟨k, hk, he⟩ := hc.drawn id hid
    exact ⟨k, Nat.lt_of_lt_of_le hk hn, he⟩

/-- A client that has nothing loaded and nothing given. -/
theorem Client.Sound.empty {store store' : σ} {n : Nat} {c : Client}
    (hc : c.Sound S sources bound store n) {rest : Program Reply}
    (hr : Careful S (fun d => c.call.change c.now d) none none rest) :
    ({ c with rest := rest, loaded := none, given := none } : Client).Sound S sources bound store' n where
  admits := hc.admits
  careful := hr
  typed := by rintro h ⟨⟩
  current := by rintro h ⟨⟩
  past := by rintro h ⟨⟩
  fresh := by rintro id ⟨⟩
  drawn := by rintro id ⟨⟩

/-! ## What a save does -/

/-- Definitions of one core are changed to definitions of one core. -/
theorem Shelving.change_congr (S : Shelving σ) {call : Call} {now : Timestamp}
    {a b d : Definition} (hcore : S.core a = S.core b) (h : call.change now b = .ok d) :
    ∃ d', call.change now a = .ok d' ∧ S.core d' = S.core d := by
  have hb : (call.change now a).map S.core = .ok (S.core d) := by
    rw [S.core_change, hcore, ← S.core_change, h]
    rfl
  obtain ⟨d', hd', he⟩ := map_eq_ok.1 hb
  exact ⟨d', hd', he⟩

/-- What a client that is about to save knows of its change. -/
theorem Client.Sound.change {store : σ} {n : Nat} {c : Client}
    (hc : c.Sound S sources bound store n) {h d : Definition} (hl : c.loaded = some h)
    (hd : c.call.change c.now h = .ok d) :
    S.Typed h ∧ S.Typed d ∧ d.id = h.id ∧ h.version ≤ d.version :=
  ⟨hc.typed h hl, hc.admits.change h d (hc.typed h hl) hd, (Call.change_keeps hd).1,
    Call.change_version hd⟩

/-- A change is saved over the version that was loaded just if that is the stored one and the
change fits, and then it is one to what is stored. -/
theorem Client.Sound.save {store : σ} {n : Nat} {c : Client} (hs : S.Sound store)
    (hc : c.Sound S sources bound store n) {h d : Definition} (hl : c.loaded = some h)
    (hd : c.call.change c.now h = .ok d) :
    (∃ e, Backend.take (.save d (.int h.version)) store = (.error e, store)) ∨
      ∃ store', Backend.take (.save d (.int h.version)) store = (.ok (), store') ∧
        S.Sound store' ∧ S.shelf store h.id = some (S.core h) ∧
        S.shelf store' = (S.shelf store).put h.id (some (S.core d)) := by
  obtain ⟨hh, hd', hid, hv⟩ := hc.change hl hd
  rw [← hid]
  cases hstored : S.shelf store d.id with
  | none => exact Or.inl ⟨_, S.save_missing hs hstored⟩
  | some s =>
    by_cases hfit : S.Fits d
    · by_cases hver : s.version = h.version
      · -- equal versions are equal definitions
        obtain rfl := (hc.current h hl s (hid ▸ hstored)).2 hver
        have hcreated : (S.core h).createdAt = d.createdAt := by
          rw [S.core_createdAt, (Call.change_keeps hd).2.1]
        obtain ⟨store', ht, hs', hput⟩ := S.save_current hs hh hd' hfit hv hstored hver hcreated
        exact Or.inr ⟨store', ht, hs', rfl, hput⟩
      · exact Or.inl ⟨_, S.save_stale hs hh hd' hfit hv hstored hver⟩
    · exact Or.inl (S.save_unfit hs hd' hfit hstored)

/-! ## Steps of a pool -/

section

variable {base : Shelf} {P : Pool σ} {i : Nat} {c : Client}

/-- A step on the store that neither loads nor writes definitions. -/
theorem Pool.Sound.quiet (hP : P.Sound S sources bound base)
    (hids : sources.Distinct bound) (hc : P.clients[i]? = some c)
    {s : Step} (hw : writesDefinitions s = false) {a : s.Answer} {store : σ}
    (ht : Backend.take s P.store = (.ok a, store)) {rest : Program Reply}
    (hr : Careful S (fun d => c.call.change c.now d) c.loaded c.given rest) :
    Pool.Sound S sources bound base
      ⟨store, P.clients.set i { c with rest := rest }, P.idsTaken, P.drawsTaken, P.log⟩ := by
  obtain ⟨hs, hshelf⟩ := S.take_other hP.store hw ht
  have hsound := hP.client hc
  have hsound' : c.Sound S sources bound store P.idsTaken :=
    { hsound with
      current := by rw [hshelf]; exact hsound.current
      fresh := by rw [hshelf]; exact hsound.fresh }
  refine hP.move hids hc (Nat.le_refl _) hP.taken hs ?_ (hsound'.goOn (Nat.le_refl _) hr)
    (fun h hh => Or.inl hh) (fun id hid => Or.inl hid) ?_ _
  · rw [hshelf]
    exact Evolves.refl _ _ _
  · rw [hshelf]
    exact hP.replayed

theorem Pool.Sound.loading (hP : P.Sound S sources bound base)
    (hids : sources.Distinct bound) (hc : P.clients[i]? = some c)
    {id : Uuid} {d : Definition} {store : σ}
    (ht : Backend.take (.load id) P.store = (.ok d, store)) {rest : Program Reply}
    (hr : d.id = id ∧ S.Typed d →
      Careful S (fun d => c.call.change c.now d) (some d) c.given rest) :
    Pool.Sound S sources bound base
      ⟨store, P.clients.set i { c with rest := rest, loaded := some d }, P.idsTaken,
        P.drawsTaken, P.log⟩ := by
  obtain ⟨rfl, rfl, hd, hshelf⟩ := S.load_ok hP.store ht
  have hsound := hP.client hc
  have hcurrent : Current S (S.shelf P.store) d := by
    intro s hs
    obtain rfl := Option.some.inj (hshelf.symm.trans hs)
    exact ⟨Int.le_of_eq (S.core_version d).symm, fun _ => rfl⟩
  have hsound' : ({ c with rest := rest, loaded := some d } : Client).Sound S sources bound P.store
      P.idsTaken := {
    admits := hsound.admits
    careful := hr ⟨rfl, hd⟩
    typed := by
      rintro h ⟨⟩
      exact hd
    current := by
      rintro h ⟨⟩
      exact hcurrent
    past := by
      rintro h ⟨⟩
      exact hP.past d.id _ hshelf
    fresh := hsound.fresh
    drawn := hsound.drawn }
  refine hP.move hids hc (Nat.le_refl _) hP.taken hP.store (Evolves.refl _ _ _) hsound' ?_
    (fun id hid => Or.inl hid) hP.replayed _
  rintro h ⟨⟩
  exact Or.inr ⟨_, hshelf⟩

theorem Pool.Sound.creating (hP : P.Sound S sources bound base)
    (hids : sources.Distinct bound) (hc : P.clients[i]? = some c)
    {d : Definition} {store : σ} (ht : Backend.take (.save d .null) P.store = (.ok (), store))
    (hgiven : c.given = some d.id) (hd : S.Typed d) {rest : Program Reply}
    (hr : Careful S (fun d => c.call.change c.now d) none none rest) :
    Pool.Sound S sources bound base
      ⟨store, P.clients.set i { c with rest := rest, loaded := none, given := none },
        P.idsTaken, P.drawsTaken, P.log ++ [.created d]⟩ := by
  have hsound := hP.client hc
  have hnone := hsound.fresh d.id hgiven
  rcases S.save_new hP.store hd hnone with ⟨e, he⟩ | ⟨store', ht', hs', hput⟩
  · rw [he] at ht
    cases ht
  · obtain rfl := (Prod.mk.inj (ht'.symm.trans ht)).2
    refine hP.move hids hc (Nat.le_refl _) hP.taken hs' ?_ (hsound.empty hr) (by rintro h ⟨⟩) (by rintro id ⟨⟩) ?_ _
    · intro id s hs
      rw [hput] at hs
      by_cases hid : id = d.id
      · rw [hid]
        exact Or.inr ⟨hgiven, rfl⟩
      · rw [Shelf.put_of_ne _ hid] at hs
        exact Or.inl ⟨s, hs, Int.le_refl _, fun _ => rfl⟩
    · rw [hput, Shelf.replay_snoc]
      exact Shelf.put_eq_map hP.replayed rfl

theorem Pool.Sound.changing (hP : P.Sound S sources bound base)
    (hids : sources.Distinct bound) (hc : P.clients[i]? = some c)
    {h d : Definition} {store : σ}
    (ht : Backend.take (.save d (.int h.version)) P.store = (.ok (), store))
    (hl : c.loaded = some h) (hd : c.call.change c.now h = .ok d) {rest : Program Reply}
    (hr : Careful S (fun d => c.call.change c.now d) none none rest) :
    Pool.Sound S sources bound base
      ⟨store, P.clients.set i { c with rest := rest, loaded := none, given := none },
        P.idsTaken, P.drawsTaken, P.log ++ [.changed d.id c.call c.now]⟩ := by
  have hsound := hP.client hc
  rcases hsound.save hP.store hl hd with ⟨e, he⟩ | ⟨store', ht', hs', hstored, hput⟩
  · rw [he] at ht
    cases ht
  · obtain rfl := (Prod.mk.inj (ht'.symm.trans ht)).2
    obtain ⟨hid, -, hv⟩ := Call.change_keeps hd
    rw [hid]
    -- the log leads to a definition that is the stored one but for what is not kept
    obtain ⟨h₀, h₀', hcore⟩ := Option.map_eq_some_iff.1 ((hP.replayed h.id).symm.trans hstored)
    obtain ⟨d₀, hd₀, hcore'⟩ := S.change_congr hcore hd
    refine hP.move hids hc (Nat.le_refl _) hP.taken hs' ?_ (hsound.empty hr) (by rintro h ⟨⟩) (by rintro id ⟨⟩) ?_ _
    · intro id s hs
      rw [hput] at hs
      by_cases hid' : id = h.id
      · rw [hid', Shelf.put_self] at hs
        obtain rfl := Option.some.inj hs
        rw [hid']
        refine Or.inl ⟨_, hstored, ?_, ?_⟩
        · rw [S.core_version, S.core_version]
          exact Call.change_version hd
        · rw [S.core_version, S.core_version]
          rcases hv with rfl | hv
          · exact fun _ => rfl
          · intro he
            omega
      · rw [Shelf.put_of_ne _ hid'] at hs
        exact Or.inl ⟨s, hs, Int.le_refl _, fun _ => rfl⟩
    · rw [hput, Shelf.replay_snoc]
      refine Shelf.put_eq_map hP.replayed ?_
      rw [h₀', Option.bind_some, hd₀, ← hcore']
      rfl

theorem Pool.Sound.deleting (hP : P.Sound S sources bound base)
    (hids : sources.Distinct bound) (hc : P.clients[i]? = some c)
    {id : Uuid} {store : σ} (ht : Backend.take (.delete id) P.store = (.ok (), store))
    {rest : Program Reply}
    (hr : Careful S (fun d => c.call.change c.now d) c.loaded c.given rest) :
    Pool.Sound S sources bound base
      ⟨store, P.clients.set i { c with rest := rest }, P.idsTaken, P.drawsTaken,
        P.log ++ [.deleted id]⟩ := by
  obtain ⟨hs, hput⟩ := S.delete_ok hP.store ht
  have hsound := hP.client hc
  have hsound' : c.Sound S sources bound store P.idsTaken :=
    { hsound with
      current := by
        intro h hh s hstored
        rw [hput] at hstored
        by_cases hid : h.id = id
        · rw [hid, Shelf.put_self] at hstored
          cases hstored
        · rw [Shelf.put_of_ne _ hid] at hstored
          exact hsound.current h hh s hstored
      fresh := by
        intro id' hid'
        rw [hput]
        by_cases hid : id' = id
        · rw [hid, Shelf.put_self]
        · rw [Shelf.put_of_ne _ hid]
          exact hsound.fresh id' hid' }
  refine hP.move hids hc (Nat.le_refl _) hP.taken hs ?_ (hsound'.goOn (Nat.le_refl _) hr)
    (fun h hh => Or.inl hh) (fun id hid => Or.inl hid) ?_ _
  · rw [hput]
    exact Evolves.remove _ _ _ _
  · rw [hput, Shelf.replay_snoc]
    exact Shelf.put_eq_map hP.replayed rfl

/-- A client that is given the next identifier, under which nothing is stored. -/
theorem Pool.Sound.drawing (hP : P.Sound S sources bound base)
    (hids : sources.Distinct bound) (hc : P.clients[i]? = some c) (hbound : P.idsTaken + 1 ≤ bound)
    {rest : Program Reply}
    (hr : Careful S (fun d => c.call.change c.now d) c.loaded (some (sources.ids P.idsTaken))
      rest) :
    Pool.Sound S sources bound base
      ⟨P.store, P.clients.set i { c with rest := rest, given := some (sources.ids P.idsTaken) },
        P.idsTaken + 1, P.drawsTaken, P.log⟩ := by
  have hsound := hP.client hc
  have hnew : S.shelf P.store (sources.ids P.idsTaken) = none := by
    cases hs : S.shelf P.store (sources.ids P.idsTaken) with
    | none => rfl
    | some s => exact absurd rfl (hP.past _ s hs P.idsTaken (Nat.le_refl _) hbound)
  refine hP.move hids hc (Nat.le_succ _) hbound hP.store (Evolves.refl _ _ _) ?_ ?_ ?_ hP.replayed _
  · exact {
      admits := hsound.admits
      careful := hr
      typed := hsound.typed
      current := hsound.current
      past h hh k hk hb := hsound.past h hh k (Nat.le_of_succ_le hk) hb
      fresh := by
        rintro id ⟨⟩
        exact hnew
      drawn := by
        rintro id ⟨⟩
        exact ⟨_, Nat.lt_succ_self _, rfl⟩ }
  · exact fun h hh => Or.inl hh
  · rintro id ⟨⟩
    exact Or.inr ⟨_, Nat.le_refl _, hbound, rfl⟩

/-- Each step of a client keeps the invariant. -/
theorem Pool.Sound.advanceClient (hP : P.Sound S sources bound base)
    (hids : sources.Distinct bound) (hc : P.clients[i]? = some c)
    (hbound : (P.advanceClient sources i c).idsTaken ≤ bound) :
    (P.advanceClient sources i c).Sound S sources bound base := by
  have hsound := hP.client hc
  have hcareful := hsound.careful
  have hgoOn : ∀ (rest : Program Reply) (drawsTaken : Nat),
      Careful S (fun d => c.call.change c.now d) c.loaded c.given rest →
      Pool.Sound S sources bound base ⟨P.store, P.clients.set i { c with rest := rest }, P.idsTaken,
        drawsTaken, P.log⟩ := by
    intro rest drawsTaken hr
    refine hP.move hids hc (Nat.le_refl _) hP.taken hP.store ?_ (hsound.goOn (Nat.le_refl _) hr)
      (fun h hh => Or.inl hh) (fun id hid => Or.inl hid) hP.replayed _
    exact Evolves.refl _ _ _
  unfold Pool.advanceClient at hbound ⊢
  cases hrest : c.rest with
  | done a => exact hP
  | fail e => exact hP
  | announce e next =>
    rw [hrest] at hcareful
    exact hgoOn next _ hcareful
  | draw count next =>
    rw [hrest] at hcareful
    exact hgoOn _ _ (hcareful _)
  | fresh next =>
    rw [hrest] at hcareful hbound
    exact hP.drawing hids hc hbound (hcareful _)
  | take s next =>
    rw [hrest] at hcareful
    obtain ⟨hallows, hnext⟩ := hcareful
    dsimp only
    cases hr : Backend.take s P.store with
    | mk r store =>
      cases r with
      | error e =>
        obtain rfl := S.take_error hr
        exact hgoOn _ _ trivial
      | ok a =>
        cases s with
        | load id =>
          show Pool.Sound S sources bound base ⟨_, _, _, _, P.log ++ []⟩
          rw [List.append_nil]
          exact hP.loading hids hc hr (hnext a)
        | save d expected =>
          rcases hallows with ⟨rfl, hgiven, hd⟩ | ⟨h, hl, rfl, hd⟩
          · exact hP.creating hids hc hr hgiven hd (hnext a trivial)
          · exact hP.changing hids hc hr hl hd (hnext a trivial)
        | delete id => exact hP.deleting hids hc hr (hnext a trivial)
        | template key =>
          show Pool.Sound S sources bound base ⟨_, _, _, _, P.log ++ []⟩
          rw [List.append_nil]
          exact hP.quiet hids hc rfl hr (hnext a (S.template_ok hP.store hr))
        | definitions _ | appendApproval _ | approvals _ | appendRun _ | updateRun _ | run _
        | runs _ _ | orgRuns _ _ | summary _ | templates =>
          show Pool.Sound S sources bound base ⟨_, _, _, _, P.log ++ []⟩
          rw [List.append_nil]
          exact hP.quiet hids hc rfl hr (hnext a trivial)

theorem Pool.idsTaken_le_advance (P : Pool σ) (i : Nat) :
    P.idsTaken ≤ (P.advance sources i).idsTaken := by
  unfold Pool.advance
  cases P.clients[i]? with
  | none => exact Nat.le_refl _
  | some c =>
    dsimp only
    unfold Pool.advanceClient
    cases c.rest with
    | fresh next => exact Nat.le_succ _
    | take s next =>
      dsimp only
      rcases Backend.take s P.store with ⟨e | a, store⟩
      · exact Nat.le_refl _
      · exact Nat.le_refl _
    | done _ | fail _ | announce _ _ | draw _ _ => exact Nat.le_refl _

/-- Only a client that asks for an identifier is given one. -/
theorem Pool.idsTaken_advance (P : Pool σ) (i : Nat)
    (h : ∀ c, P.clients[i]? = some c → ∀ next, c.rest ≠ .fresh next) :
    (P.advance sources i).idsTaken = P.idsTaken := by
  unfold Pool.advance
  cases hc : P.clients[i]? with
  | none => rfl
  | some c =>
    dsimp only
    unfold Pool.advanceClient
    cases hr : c.rest with
    | fresh next => exact absurd hr (h c hc next)
    | take s next =>
      dsimp only
      rcases Backend.take s P.store with ⟨e | a, store⟩
      · rfl
      · rfl
    | done _ | fail _ | announce _ _ | draw _ _ => rfl

theorem Pool.idsTaken_le_after (P : Pool σ) (order : List Nat) :
    P.idsTaken ≤ (P.after sources order).idsTaken := by
  induction order generalizing P with
  | nil => exact Nat.le_refl _
  | cons i rest ih => exact Nat.le_trans (P.idsTaken_le_advance i) (ih (P.advance sources i))

theorem Pool.Sound.advance (hP : P.Sound S sources bound base) (hids : sources.Distinct bound)
    (hbound : (P.advance sources i).idsTaken ≤ bound) :
    (P.advance sources i).Sound S sources bound base := by
  unfold Pool.advance at hbound ⊢
  cases hc : P.clients[i]? with
  | none => exact hP
  | some c =>
    rw [hc] at hbound
    exact hP.advanceClient hids hc hbound

/-- However the steps of the clients interleave, the invariant is kept. -/
theorem Pool.Sound.after (hP : P.Sound S sources bound base) (hids : sources.Distinct bound)
    {order : List Nat} (hbound : (P.after sources order).idsTaken ≤ bound) :
    (P.after sources order).Sound S sources bound base := by
  induction order generalizing P with
  | nil => exact hP
  | cons i rest ih =>
    have hstep : (P.advance sources i).idsTaken ≤ bound :=
      Nat.le_trans (Pool.idsTaken_le_after _ rest) hbound
    exact ih (hP.advance hids hstep) hbound

/-- The invariant holds at the start. -/
theorem Pool.start_sound (S : Shelving σ) (sources : Program.Sources) (canvas : Editor.Canvas)
    {store : σ} (hs : S.Sound store) (hnew : ∀ k, k < bound → S.shelf store (sources.ids k) = none)
    {calls : List (Timestamp × Call)} (hcalls : ∀ p ∈ calls, S.Admits p.1 p.2) :
    (Pool.start canvas store calls).Sound S sources bound (S.shelf store) := by
  refine ⟨hs, Nat.zero_le _, ?_, ?_, ?_, ?_⟩
  · intro c hc
    obtain ⟨p, hp, rfl⟩ := Pool.mem_start hc
    exact {
      admits := hcalls p hp
      careful := careful_program canvas (hcalls p hp)
      typed := by rintro h ⟨⟩
      current := by rintro h ⟨⟩
      past := by rintro h ⟨⟩
      fresh := by rintro id ⟨⟩
      drawn := by rintro id ⟨⟩ }
  · intro i j a b ha _ id hid
    obtain ⟨p, -, rfl⟩ := Pool.mem_start (List.mem_of_getElem? ha)
    cases hid
  · rintro id s hstored k - hk rfl
    have hnone := hnew k hk
    rw [show S.shelf store (sources.ids k) = some s from hstored] at hnone
    cases hnone
  · intro id
    show S.shelf store id = (S.shelf store id).map S.core
    cases hstored : S.shelf store id with
    | none => rfl
    | some s =>
      rw [Option.map_some, S.shelf_core hs hstored]

end

end

end Workflow.Service
