import Mathlib.Algebra.Ring.Nat
import Workflow.Identifier

/-!
# Identifiers are read back

The text of an identifier consists of hexadecimal digits and hyphens, so no mark or
brace is taken off it, and without its hyphens it is the run of 32 digits that writes
the value.

    a run of digits is read as what it writes                   (integer?_map_digitChar)
    Uuid.ofText u.text = .ok u                                  (ofText_text)
-/

namespace Workflow

/-- Nothing is taken off a text that has no such characters. -/
theorem dropWhile_dropWhile_eq_self {p : Char → Bool} {cs : List Char}
    (h : ∀ c ∈ cs, p c = false) : ((cs.dropWhile p).reverse.dropWhile p).reverse = cs := by
  have hdrop : ∀ l : List Char, (∀ c ∈ l, p c = false) → l.dropWhile p = l := by
    intro l hl
    cases l with
    | nil => rfl
    | cons c rest => rw [List.dropWhile_cons_of_neg (by simp [hl c List.mem_cons_self])]
  rw [hdrop cs h, hdrop cs.reverse fun c hc => h c (List.mem_reverse.1 hc), List.reverse_reverse]

namespace Numeral

/-! ## Hexadecimal digits -/

theorem valueOf_snoc (base : Nat) (ds : List Nat) (d : Nat) :
    valueOf base (ds ++ [d]) = base * valueOf base ds + d := by
  simp [valueOf]

/-- A number is written by digits below sixteen, whose value it is. -/
theorem exists_toDigits (n : Nat) : ∃ ds, Nat.toDigits 16 n = ds.map Nat.digitChar ∧
    (∀ d ∈ ds, d < 16) ∧ valueOf 16 ds = n := by
  induction n using Nat.strongRecOn with
  | ind n ih =>
    by_cases hn : n < 16
    · refine ⟨[n], Nat.toDigits_of_lt_base hn, fun d hd => ?_, by simp [valueOf]⟩
      rwa [List.mem_singleton.1 hd]
    · obtain ⟨ds, hds, hlt, hvalue⟩ := ih (n / 16) (by omega)
      refine ⟨ds ++ [n % 16], ?_, fun d hd => ?_, ?_⟩
      · rw [Nat.toDigits_of_base_le (by decide) (Nat.not_lt.1 hn), hds, List.map_append]
        rfl
      · rcases List.mem_append.1 hd with hd | hd
        · exact hlt d hd
        · rw [List.mem_singleton.1 hd]
          exact Nat.mod_lt n (by decide)
      · rw [valueOf_snoc, hvalue]
        omega

/-- What is asked of a character of a numeral holds of the sixteen digits. -/
theorem digitChar_facts : ∀ k < 16, digitOf? 16 (Nat.digitChar k) = some k ∧
    isPadding (Nat.digitChar k) = false ∧ Nat.digitChar k ∉ "-+_xX".toList := by
  decide

variable {ds : List Nat}

/-- No digit is a character that is none. -/
theorem not_mem_digits {c : Char} (hc : c ∈ "-+_xX".toList) (h : ∀ d ∈ ds, d < 16) :
    c ∉ ds.map Nat.digitChar := by
  intro hm
  obtain ⟨k, hk, rfl⟩ := List.mem_map.1 hm
  exact (digitChar_facts k (h k hk)).2.2 hc

theorem digits?_map_digitChar (h : ∀ d ∈ ds, d < 16) (hne : ds ≠ []) :
    digits? 16 (ds.map Nat.digitChar) = some ds := by
  induction ds with
  | nil => exact absurd rfl hne
  | cons d rest ih =>
    have hd := (digitChar_facts d (h d List.mem_cons_self)).1
    have hrest : ∀ k ∈ rest, k < 16 := fun k hk => h k (List.mem_cons_of_mem d hk)
    cases rest with
    | nil =>
      show (digitOf? 16 (Nat.digitChar d)).map _ = _
      rw [hd]
      rfl
    | cons k rest =>
      have hscore : Nat.digitChar k ≠ '_' := by
        intro he
        refine (digitChar_facts k (hrest k List.mem_cons_self)).2.2 ?_
        rw [he]
        decide
      have ih := ih hrest (List.cons_ne_nil k rest)
      rw [List.map_cons] at ih
      rw [List.map_cons, List.map_cons, digits?.eq_4]
      · rw [hd, ih]
        rfl
      · nofun
      · exact fun _ he => hscore (List.cons.inj he).1

/-- A run of digits is read as the number that it writes. -/
theorem integer?_map_digitChar (h : ∀ d ∈ ds, d < 16) (hne : ds ≠ []) :
    integer? 16 (String.ofList (ds.map Nat.digitChar)) = some (valueOf 16 ds : Int) := by
  have htrim : trim (String.ofList (ds.map Nat.digitChar)) = ds.map Nat.digitChar := by
    unfold trim
    rw [String.toList_ofList]
    refine dropWhile_dropWhile_eq_self fun c hc => ?_
    obtain ⟨k, hk, rfl⟩ := List.mem_map.1 hc
    exact (digitChar_facts k (h k hk)).2.1
  have hsign : sign (ds.map Nat.digitChar) = (false, ds.map Nat.digitChar) := by
    have hminus := not_mem_digits (c := '-') (by decide) h
    have hplus := not_mem_digits (c := '+') (by decide) h
    unfold sign
    split
    next he => exact absurd (he ▸ List.mem_cons_self) hminus
    next he => exact absurd (he ▸ List.mem_cons_self) hplus
    next => rfl
  have hmark : dropMark 16 (ds.map Nat.digitChar) = ds.map Nat.digitChar := by
    unfold dropMark
    split
    next zero x rest he =>
      have hx : ∀ c ∈ "-+_xX".toList, x ≠ c := fun c hc hxc =>
        not_mem_digits hc h (he ▸ hxc ▸ List.mem_cons_of_mem zero List.mem_cons_self)
      rw [if_neg, he]
      rintro ⟨-, -, hx' | hx'⟩
      · exact hx 'x' (by decide) hx'
      · exact hx 'X' (by decide) hx'
    next => rfl
  unfold integer?
  rw [htrim, hsign]
  simp only [Option.bind_eq_bind, hmark, digits?_map_digitChar h hne, Option.bind_some]
  rfl

end Numeral

namespace Uuid

/-! ## Groups -/

theorem filter_intercalate {gs : List (List Char)} (h : ∀ g ∈ gs, '-' ∉ g) :
    (List.intercalate ['-'] gs).filter (· ≠ '-') = gs.flatten := by
  have hkept : ∀ g ∈ gs, g.filter (· ≠ '-') = g := fun g hg =>
    List.filter_eq_self.2 fun c hc => decide_eq_true fun he => h g hg (he ▸ hc)
  induction gs with
  | nil => rfl
  | cons g rest ih =>
    have hg := hkept g List.mem_cons_self
    cases rest with
    | nil =>
      show (g ++ []).filter _ = g ++ []
      rw [List.append_nil, hg]
    | cons g' rest =>
      have ih := ih (fun g hg => h g (List.mem_cons_of_mem _ hg))
        fun g hg => hkept g (List.mem_cons_of_mem _ hg)
      rw [List.intercalate_cons_cons, List.filter_append, List.filter_append, hg, ih,
        show ['-'].filter (· ≠ '-') = [] from rfl, List.append_nil]
      rfl

theorem mem_intercalate {gs : List (List Char)} {c : Char}
    (h : c ∈ List.intercalate ['-'] gs) : c = '-' ∨ ∃ g ∈ gs, c ∈ g := by
  induction gs with
  | nil => cases h
  | cons g rest ih =>
    cases rest with
    | nil =>
      have h : c ∈ g ++ [] := h
      rw [List.append_nil] at h
      exact .inr ⟨g, List.mem_cons_self, h⟩
    | cons g' rest =>
      rw [List.intercalate_cons_cons] at h
      rcases List.mem_append.1 h with h | h
      · rcases List.mem_append.1 h with h | h
        · exact .inr ⟨g, List.mem_cons_self, h⟩
        · exact .inl (List.mem_singleton.1 h)
      · rcases ih h with rfl | ⟨g₁, hg₁, hc⟩
        · exact .inl rfl
        · exact .inr ⟨g₁, List.mem_cons_of_mem _ hg₁, hc⟩

theorem flatten_grouped {sizes : List Nat} {cs : List Char} (h : cs.length = sizes.sum) :
    (grouped sizes cs).flatten = cs := by
  induction sizes generalizing cs with
  | nil => exact (List.eq_nil_of_length_eq_zero h).symm
  | cons n sizes ih =>
    have hrest : (cs.drop n).length = sizes.sum := by
      rw [List.length_drop, h, List.sum_cons]
      omega
    show cs.take n ++ (grouped sizes (cs.drop n)).flatten = cs
    rw [ih hrest, List.take_append_drop]

theorem mem_of_mem_grouped {sizes : List Nat} {cs g : List Char} (hg : g ∈ grouped sizes cs)
    {c : Char} (hc : c ∈ g) : c ∈ cs := by
  induction sizes generalizing cs with
  | nil => cases hg
  | cons n sizes ih =>
    rcases List.mem_cons.1 hg with rfl | hg
    · exact List.mem_of_mem_take hc
    · exact List.mem_of_mem_drop (ih hg)

/-- A mark is not found in a text without its first character. -/
theorem removeMark_eq_self {mark cs : List Char} {m : Char} (hm : mark.head? = some m)
    (h : m ∉ cs) : removeMark mark 0 cs = cs := by
  induction cs with
  | nil => rfl
  | cons c rest ih =>
    obtain ⟨tail, rfl⟩ : ∃ tail, mark = m :: tail := List.head?_eq_some_iff.1 hm
    have hne : m ≠ c := fun he => h (he ▸ List.mem_cons_self)
    have hstart : (m :: tail).isPrefixOf (c :: rest) = false := by
      simp [List.isPrefixOf, hne]
    unfold removeMark
    rw [hstart, ih fun hc => h (List.mem_cons_of_mem c hc)]
    rfl

/-! ## Texts -/

/-- The digits of an identifier. -/
theorem exists_hex (u : Uuid) : ∃ ds, Text.hex 32 u.value = ds.map Nat.digitChar ∧
    (∀ d ∈ ds, d < 16) ∧ Numeral.valueOf 16 ds = u.value ∧ ds.length = 32 := by
  obtain ⟨ds, hds, hlt, hvalue⟩ := Numeral.exists_toDigits u.value
  have hlen : ds.length ≤ 32 := by
    have hle : (Nat.toDigits 16 u.value).length ≤ 32 :=
      (Nat.length_toDigits_le_iff (by decide) (by decide)).2 u.inRange
    rwa [hds, List.length_map] at hle
  refine ⟨List.replicate (32 - ds.length) 0 ++ ds, ?_, fun d hd => ?_, ?_, ?_⟩
  · unfold Text.hex
    dsimp only
    rw [hds, List.map_append, List.map_replicate, List.length_map]
    rfl
  · rcases List.mem_append.1 hd with hd | hd
    · rw [List.eq_of_mem_replicate hd]
      decide
    · exact hlt d hd
  · have hzeros : ∀ k, Numeral.valueOf 16 (List.replicate k 0 ++ ds) = Numeral.valueOf 16 ds := by
      intro k
      induction k with
      | zero => rfl
      | succ k ih => exact ih
    rw [hzeros, hvalue]
  · rw [List.length_append, List.length_replicate]
    omega

/-- Marks and braces are not looked for among digits and hyphens. -/
theorem bareDigits_text {u : Uuid} {ds : List Nat} (hds : Text.hex 32 u.value = ds.map Nat.digitChar)
    (hlt : ∀ d ∈ ds, d < 16) (hlen : ds.length = 32) :
    bareDigits u.text = ds.map Nat.digitChar := by
  have hdigit : ∀ k < 16, Nat.digitChar k ∉ "u:\x7b\x7d-".toList := by decide
  have hgroup : ∀ g ∈ grouped [8, 4, 4, 4, 12] (Text.hex 32 u.value), ∀ c ∈ g,
      c ∉ "u:\x7b\x7d-".toList := by
    intro g hg c hc
    have hc := mem_of_mem_grouped hg hc
    rw [hds] at hc
    obtain ⟨k, hk, rfl⟩ := List.mem_map.1 hc
    exact hdigit k (hlt k hk)
  have hchars : ∀ c ∈ u.text.toList, c ≠ 'u' ∧ isBrace c = false := by
    intro c hc
    unfold text at hc
    rw [String.toList_ofList] at hc
    rcases mem_intercalate hc with rfl | ⟨g, hg, hc⟩
    · decide
    · have hno := hgroup g hg c hc
      simp only [String.reduceToList, List.mem_cons, not_or] at hno
      unfold isBrace
      simp [hno]
  have hu : 'u' ∉ u.text.toList := fun h => (hchars _ h).1 rfl
  unfold bareDigits
  rw [@removeMark_eq_self "urn:".toList _ 'u' rfl hu, @removeMark_eq_self "uuid:".toList _ 'u' rfl hu]
  dsimp only
  rw [dropWhile_dropWhile_eq_self fun c hc => (hchars c hc).2]
  unfold text
  rw [String.toList_ofList, filter_intercalate fun g hg hm => hgroup g hg '-' hm (by decide),
    flatten_grouped, hds]
  rw [hds, List.length_map, hlen]
  rfl

/-- An identifier is read back from its text. -/
theorem ofText_text (u : Uuid) : ofText u.text = .ok u := by
  obtain ⟨ds, hds, hlt, hvalue, hlen⟩ := exists_hex u
  have hne : ds ≠ [] := List.ne_nil_of_length_pos (hlen ▸ by decide)
  unfold ofText
  simp only [bareDigits_text hds hlt hlen, List.length_map, hlen, ne_eq, not_true_eq_false,
    if_false, Numeral.integer?_map_digitChar hlt hne, hvalue]
  exact dif_pos u.inRange

end Uuid

end Workflow
