import Workflow.Assoc

/-!
# Maps with distinct keys

An association list stands for a finite map if no key comes twice.  Writing and
dropping keep that, a new key is written at the end, and what is found under a
key is the one entry that has it.

    (k, v) ∈ m ↔ find? k m = some v                 (mem_iff_find?)
    find? k m = none → put k v m = m ++ [(k, v)]    (put_of_find?_eq_none)
    find? k m = none → drop k m = m                 (drop_of_find?_eq_none)

If each value is filed under a key of its own, the values alone tell the map.

    find? k m = (values m).find? (key · = k)        (Filed.find?_eq)
-/

namespace Workflow.Assoc

variable {κ α β : Type} [DecidableEq κ] {k k' : κ} {v w : α} {m : List (κ × α)}

/-! ## Looking up -/

@[simp] theorem find?_nil (k : κ) : find? k ([] : List (κ × α)) = none := rfl

theorem find?_cons (k k' : κ) (v : α) (m : List (κ × α)) :
    find? k ((k', v) :: m) = if k = k' then some v else find? k m := rfl

theorem mem_of_find? (h : find? k m = some v) : (k, v) ∈ m := by
  induction m with
  | nil => cases h
  | cons e rest ih =>
    obtain ⟨k', w⟩ := e
    rw [find?_cons] at h
    by_cases hk : k = k'
    · rw [if_pos hk] at h
      obtain rfl : w = v := by simpa using h
      rw [hk]
      exact List.mem_cons_self
    · rw [if_neg hk] at h
      exact List.mem_cons_of_mem _ (ih h)

theorem find?_eq_none_iff : find? k m = none ↔ k ∉ keys m := by
  induction m with
  | nil => simp [keys]
  | cons e rest ih =>
    obtain ⟨k', w⟩ := e
    rw [find?_cons]
    by_cases hk : k = k'
    · simp [hk, keys]
    · rw [if_neg hk, ih]
      simp [keys, hk]

theorem contains_iff : contains k m = true ↔ k ∈ keys m := by
  rw [contains, Option.isSome_iff_ne_none, ne_eq, find?_eq_none_iff, Classical.not_not]

/-- In a map each entry is what is found under its key. -/
theorem find?_of_mem (hm : (keys m).Nodup) (h : (k, v) ∈ m) : find? k m = some v := by
  induction m with
  | nil => cases h
  | cons e rest ih =>
    obtain ⟨k', w⟩ := e
    obtain ⟨hn, hr⟩ := List.nodup_cons.1 hm
    rw [find?_cons]
    rcases List.mem_cons.1 h with he | he
    · obtain ⟨rfl, rfl⟩ := Prod.mk.inj he
      rw [if_pos rfl]
    · have hk : k ≠ k' := by
        rintro rfl
        exact hn (List.mem_map.2 ⟨_, he, rfl⟩)
      rw [if_neg hk]
      exact ih hr he

theorem mem_iff_find? (hm : (keys m).Nodup) : (k, v) ∈ m ↔ find? k m = some v :=
  ⟨find?_of_mem hm, mem_of_find?⟩

theorem ne_of_find? (h : find? k m = none) (h' : find? k' m = some v) : k ≠ k' := by
  rintro rfl
  cases h.symm.trans h'

theorem find?_eq_none_of_sublist {m' : List (κ × α)} (hs : m'.Sublist m) (h : find? k m = none) :
    find? k m' = none := by
  rw [find?_eq_none_iff] at h ⊢
  exact fun hk => h ((hs.map Prod.fst).subset hk)

theorem find?_append (k : κ) (m m' : List (κ × α)) :
    find? k (m ++ m') = (find? k m).or (find? k m') := by
  induction m with
  | nil => simp
  | cons e rest ih =>
    obtain ⟨k', w⟩ := e
    rw [List.cons_append, find?_cons, find?_cons]
    by_cases hk : k = k'
    · rw [if_pos hk, if_pos hk, Option.some_or]
    · rw [if_neg hk, if_neg hk, ih]

/-! ## Writing -/

/-- A new key goes to the end. -/
theorem put_of_find?_eq_none (h : find? k m = none) : put k v m = m ++ [(k, v)] := by
  induction m with
  | nil => rfl
  | cons e rest ih =>
    obtain ⟨k', w⟩ := e
    rw [find?_cons] at h
    by_cases hk : k = k'
    · rw [if_pos hk] at h
      cases h
    · rw [if_neg hk] at h
      rw [put, if_neg hk, ih h, List.cons_append]

theorem values_put_of_none (h : find? k m = none) : values (put k v m) = values m ++ [v] := by
  rw [put_of_find?_eq_none h, values, List.map_append]
  rfl

theorem find?_put_eq_none (hk : k ≠ k') (h : find? k m = none) : find? k (put k' v m) = none := by
  rw [find?_put_of_ne hk]
  exact h

/-- A key that is present keeps its place. -/
theorem keys_put_of_find? (h : find? k m = some w) : keys (put k v m) = keys m := by
  induction m with
  | nil => cases h
  | cons e rest ih =>
    obtain ⟨k', w'⟩ := e
    rw [find?_cons] at h
    by_cases hk : k = k'
    · rw [put, if_pos hk]
      rfl
    · rw [if_neg hk] at h
      rw [put, if_neg hk]
      show k' :: keys (put k v rest) = k' :: keys rest
      rw [ih h]

omit [DecidableEq κ] in
theorem nodup_append_singleton {l : List κ} (hl : l.Nodup) (hk : k ∉ l) : (l ++ [k]).Nodup := by
  refine List.nodup_append.2 ⟨hl, by simp, ?_⟩
  intro a ha b hb
  obtain rfl := List.mem_singleton.1 hb
  rintro rfl
  exact hk ha

theorem nodup_keys_put (hm : (keys m).Nodup) : (keys (put k v m)).Nodup := by
  cases h : find? k m with
  | some w => rwa [keys_put_of_find? h]
  | none =>
    rw [put_of_find?_eq_none h, keys, List.map_append]
    exact nodup_append_singleton hm (find?_eq_none_iff.1 h)

theorem mem_put {e : κ × α} (h : e ∈ put k v m) : e = (k, v) ∨ e ∈ m := by
  induction m with
  | nil =>
    left
    simpa [put] using h
  | cons e' rest ih =>
    obtain ⟨k', w⟩ := e'
    rw [put] at h
    by_cases hk : k = k'
    · rw [if_pos hk] at h
      rcases List.mem_cons.1 h with he | he
      · left
        rw [he, hk]
      · exact Or.inr (List.mem_cons_of_mem _ he)
    · rw [if_neg hk] at h
      rcases List.mem_cons.1 h with he | he
      · right
        rw [he]
        exact List.mem_cons_self
      · rcases ih he with he | he
        · exact Or.inl he
        · exact Or.inr (List.mem_cons_of_mem _ he)

theorem mem_values_put {x : α} (h : x ∈ values (put k v m)) : x = v ∨ x ∈ values m := by
  obtain ⟨e, he, rfl⟩ := List.mem_map.1 h
  rcases mem_put he with rfl | he
  · exact Or.inl rfl
  · exact Or.inr (List.mem_map.2 ⟨e, he, rfl⟩)

/-- A map holds nothing but what was written to it. -/
theorem mem_ofList {l : List (κ × α)} {e : κ × α} (h : e ∈ ofList l) : e ∈ l := by
  suffices hs : ∀ m, e ∈ l.foldl (fun m e => put e.1 e.2 m) m → e ∈ m ∨ e ∈ l by
    rcases hs [] h with h | h
    · cases h
    · exact h
  clear h
  induction l with
  | nil => exact fun m h => Or.inl h
  | cons e' rest ih =>
    intro m h
    rcases ih _ h with h | h
    · rcases mem_put h with h | h
      · right
        rw [h]
        exact List.mem_cons_self
      · exact Or.inl h
    · exact Or.inr (List.mem_cons_of_mem _ h)

/-- Distinct keys are written in their order. -/
theorem ofList_of_nodup {l : List (κ × α)} (h : (keys l).Nodup) : ofList l = l := by
  suffices hs : ∀ m, (keys (m ++ l)).Nodup → l.foldl (fun m e => put e.1 e.2 m) m = m ++ l from
    hs [] h
  clear h
  induction l with
  | nil => exact fun m _ => (List.append_nil m).symm
  | cons e rest ih =>
    intro m hm
    have hnew : find? e.1 m = none := by
      rw [find?_eq_none_iff]
      intro hk
      rw [keys, List.map_append] at hm
      exact (List.nodup_append.1 hm).2.2 e.1 hk e.1 (by simp) rfl
    rw [List.foldl_cons, put_of_find?_eq_none hnew, ih _ (by simpa using hm), List.append_assoc,
      List.singleton_append]

/-! ## Dropping -/

/-- What stays are the entries of other keys. -/
theorem drop_eq_filter (k : κ) (m : List (κ × α)) : drop k m = m.filter (k ≠ ·.1) := by
  induction m with
  | nil => rfl
  | cons e rest ih =>
    obtain ⟨k', w⟩ := e
    rw [drop]
    by_cases hk : k = k'
    · rw [if_pos hk, ih, List.filter_cons_of_neg (by simp [hk])]
    · rw [if_neg hk, ih, List.filter_cons_of_pos (by simp [hk])]

theorem drop_of_find?_eq_none (h : find? k m = none) : drop k m = m := by
  rw [drop_eq_filter]
  refine List.filter_eq_self.2 fun e he => decide_eq_true fun hk => ?_
  exact find?_eq_none_iff.1 h (hk ▸ List.mem_map_of_mem he)

theorem drop_append (k : κ) (m m' : List (κ × α)) :
    drop k (m ++ m') = drop k m ++ drop k m' := by
  rw [drop_eq_filter, drop_eq_filter, drop_eq_filter, List.filter_append]

theorem drop_comm (k k' : κ) (m : List (κ × α)) : drop k (drop k' m) = drop k' (drop k m) := by
  rw [drop_eq_filter, drop_eq_filter, drop_eq_filter, drop_eq_filter, List.filter_filter,
    List.filter_filter]
  exact List.filter_congr fun _ _ => Bool.and_comm _ _

/-- What was written is dropped with its key. -/
theorem drop_put_self (k : κ) (v : α) (m : List (κ × α)) : drop k (put k v m) = drop k m := by
  induction m with
  | nil => simp [put, drop]
  | cons e rest ih =>
    obtain ⟨k', w⟩ := e
    by_cases hk : k = k'
    · rw [put, if_pos hk, drop, if_pos hk, drop, if_pos hk]
    · rw [put, if_neg hk, drop, if_neg hk, drop, if_neg hk, ih]

theorem drop_sublist (k : κ) (m : List (κ × α)) : (drop k m).Sublist m := by
  rw [drop_eq_filter]
  exact List.filter_sublist

theorem nodup_keys_drop (k : κ) (hm : (keys m).Nodup) : (keys (drop k m)).Nodup :=
  hm.sublist ((drop_sublist k m).map Prod.fst)

/-- Of a map dropping takes the one entry off that has the key. -/
theorem length_drop (hm : (keys m).Nodup) (h : find? k m = some v) :
    (drop k m).length + 1 = m.length := by
  induction m with
  | nil => cases h
  | cons e rest ih =>
    obtain ⟨k', w⟩ := e
    obtain ⟨hn, hr⟩ := List.nodup_cons.1 hm
    rw [find?_cons] at h
    by_cases hk : k = k'
    · have hd : drop k rest = rest :=
        drop_of_find?_eq_none (find?_eq_none_iff.2 (by rw [hk]; exact hn))
      rw [drop, if_pos hk, hd, List.length_cons]
    · rw [if_neg hk] at h
      rw [drop, if_neg hk, List.length_cons, List.length_cons, ih hr h]

/-! ## Mapping values -/

theorem find?_map (f : α → β) (k : κ) (m : List (κ × α)) :
    find? k (m.map fun e => (e.1, f e.2)) = (find? k m).map f := by
  induction m with
  | nil => rfl
  | cons e rest ih =>
    obtain ⟨k', w⟩ := e
    rw [List.map_cons, find?_cons, find?_cons]
    by_cases hk : k = k'
    · rw [if_pos hk, if_pos hk, Option.map_some]
    · rw [if_neg hk, if_neg hk, ih]

/-! ## Chosen values -/

/-- What is not chosen, before and after, may be written. -/
theorem filter_values_put {p : α → Bool} (hv : p v = false)
    (hw : ∀ w, find? k m = some w → p w = false) :
    (values (put k v m)).filter p = (values m).filter p := by
  induction m with
  | nil => simp [put, values, hv]
  | cons e rest ih =>
    obtain ⟨k', w⟩ := e
    by_cases hk : k = k'
    · have hw' : p w = false := hw w (by rw [find?_cons, if_pos hk])
      rw [put, if_pos hk]
      show (v :: values rest).filter p = (w :: values rest).filter p
      rw [List.filter_cons_of_neg (by simp [hv]), List.filter_cons_of_neg (by simp [hw'])]
    · have hrest := ih fun w' hw' => hw w' (by rw [find?_cons, if_neg hk, hw'])
      rw [put, if_neg hk]
      show (w :: values (put k v rest)).filter p = (w :: values rest).filter p
      rw [List.filter_cons, List.filter_cons, hrest]

omit [DecidableEq κ] in
/-- What is not chosen may be removed. -/
theorem filter_values_filter {p : α → Bool} {q : κ × α → Bool}
    (h : ∀ e ∈ m, q e = false → p e.2 = false) :
    (values (m.filter q)).filter p = (values m).filter p := by
  unfold values
  rw [List.filter_map, List.filter_map, List.filter_filter]
  refine congrArg (List.map Prod.snd) (List.filter_congr fun e he => ?_)
  show (p e.2 && q e) = p e.2
  cases hq : q e with
  | false => rw [h e he hq, Bool.and_false]
  | true => rw [Bool.and_true]

/-! ## Values under their own keys -/

/-- Each value is filed under its own key, and one under each. -/
structure Filed (key : α → κ) (m : List (κ × α)) : Prop where
  nodup : (keys m).Nodup
  own : ∀ e ∈ m, key e.2 = e.1

variable {key : α → κ}

namespace Filed

omit [DecidableEq κ] in
theorem nil : Filed key ([] : List (κ × α)) where
  nodup := List.nodup_nil
  own := by simp

omit [DecidableEq κ] in
theorem tail {e : κ × α} (h : Filed key (e :: m)) : Filed key m where
  nodup := (List.nodup_cons.1 h.nodup).2
  own e' he' := h.own e' (List.mem_cons_of_mem e he')

theorem find?_eq (h : Filed key m) (k : κ) : find? k m = (values m).find? (key · = k) := by
  induction m with
  | nil => rfl
  | cons e rest ih =>
    obtain ⟨k', w⟩ := e
    have hown : key w = k' := h.own (k', w) List.mem_cons_self
    have hrest := ih h.tail
    show (if k = k' then some w else find? k rest) = (w :: values rest).find? (key · = k)
    by_cases hk : k = k'
    · rw [if_pos hk, List.find?_cons_of_pos (by simp [hown, hk])]
    · rw [if_neg hk, List.find?_cons_of_neg (by simp [hown, Ne.symm hk]), hrest]

theorem find?_of_mem_values (h : Filed key m) (hv : v ∈ values m) : find? (key v) m = some v := by
  obtain ⟨e, he, rfl⟩ := List.mem_map.1 hv
  rw [h.own e he]
  exact find?_of_mem h.nodup he

/-- What is found is filed under what was looked for. -/
theorem key_of_find? (h : Filed key m) (hf : find? k m = some v) : key v = k :=
  h.own (k, v) (mem_of_find? hf)

theorem put (h : Filed key m) (hv : key v = k) : Filed key (put k v m) where
  nodup := nodup_keys_put h.nodup
  own := by
    intro e he
    obtain ⟨k', w⟩ := e
    have hf := find?_of_mem (nodup_keys_put h.nodup) he
    by_cases hk : k' = k
    · rw [hk, find?_put_self] at hf
      obtain rfl := Option.some.inj hf
      rw [hv, hk]
    · rw [find?_put_of_ne hk] at hf
      exact h.key_of_find? hf

theorem drop (h : Filed key m) (k : κ) : Filed key (drop k m) where
  nodup := nodup_keys_drop k h.nodup
  own e he := h.own e ((drop_sublist k m).subset he)

omit [DecidableEq κ] in
theorem filter (h : Filed key m) (p : κ × α → Bool) : Filed key (m.filter p) where
  nodup := h.nodup.sublist (List.filter_sublist.map Prod.fst)
  own e he := h.own e (List.mem_filter.1 he).1

/-- A value that is replaced keeps its place. -/
theorem values_put_of_some (h : Filed key m) (hf : find? k m = some w) :
    values (Assoc.put k v m) = (values m).map fun r => if key r = k then v else r := by
  induction m with
  | nil => cases hf
  | cons e rest ih =>
    obtain ⟨k', w'⟩ := e
    have hown : key w' = k' := h.own (k', w') List.mem_cons_self
    obtain ⟨hnew, -⟩ := List.nodup_cons.1 h.nodup
    rw [find?_cons] at hf
    rw [Assoc.put]
    by_cases hk : k = k'
    · rw [if_pos hk]
      have hsame : (values rest).map (fun r => if key r = k then v else r) = values rest := by
        conv => rhs; rw [← List.map_id (values rest)]
        refine List.map_congr_left fun r hr => ?_
        obtain ⟨e, he, rfl⟩ := List.mem_map.1 hr
        rw [if_neg]
        · rfl
        · intro he'
          refine hnew (List.mem_map.2 ⟨e, he, ?_⟩)
          rw [← h.tail.own e he, he', hk]
      show v :: values rest = (if key w' = k then v else w') :: (values rest).map _
      rw [if_pos (hown.trans hk.symm), hsame]
    · rw [if_neg hk] at hf ⊢
      show w' :: values (Assoc.put k v rest) = (if key w' = k then v else w') :: (values rest).map _
      rw [if_neg (by rw [hown]; exact Ne.symm hk), ih h.tail hf]

theorem values_drop (h : Filed key m) (k : κ) :
    values (Assoc.drop k m) = (values m).filter (key · ≠ k) := by
  rw [drop_eq_filter]
  unfold values
  rw [List.filter_map]
  refine congrArg (List.map Prod.snd) (List.filter_congr fun e he => ?_)
  show decide (k ≠ e.1) = decide (key e.2 ≠ k)
  rw [h.own e he]
  exact decide_eq_decide.2 ne_comm

end Filed

/-! ## Values in any order -/

/-- Values, each filed under its own key. -/
def index (key : α → κ) (l : List α) : List (κ × α) := l.map fun v => (key v, v)

section

variable {l l' : List α}

omit [DecidableEq κ] in
theorem values_index (key : α → κ) (l : List α) : values (index key l) = l := by
  unfold values index
  rw [List.map_map]
  exact List.map_id l

omit [DecidableEq κ] in
theorem filed_index (h : (l.map key).Nodup) : Filed key (index key l) where
  nodup := by
    unfold keys index
    rw [List.map_map]
    exact h
  own := by
    intro e he
    obtain ⟨v, -, rfl⟩ := List.mem_map.1 he
    rfl

theorem find?_index_eq_none (h : ∀ v ∈ l, key v ≠ k) : find? k (index key l) = none := by
  refine find?_eq_none_iff.2 fun hmem => ?_
  obtain ⟨e, he, hk⟩ := List.mem_map.1 hmem
  obtain ⟨v, hv, rfl⟩ := List.mem_map.1 he
  exact h v hv hk

theorem find?_index_eq_some (hf : find? k (index key l) = some v) : v ∈ l ∧ key v = k := by
  obtain ⟨w, hw, he⟩ := List.mem_map.1 (mem_of_find? hf)
  obtain ⟨rfl, rfl⟩ := Prod.mk.inj he
  exact ⟨hw, rfl⟩

/-- What has a key is found wherever it stands, for nothing else has the key. -/
theorem find?_of_perm (h : (l.map key).Nodup) (hp : l'.Perm l) (k : κ) :
    l'.find? (key · = k) = find? k (index key l) := by
  have h' : (l'.map key).Nodup := (hp.map key).nodup_iff.2 h
  have hfind := (filed_index h').find?_eq k
  rw [values_index] at hfind
  rw [← hfind]
  apply Option.ext
  intro v
  rw [← mem_iff_find? (filed_index h').nodup, ← mem_iff_find? (filed_index h).nodup]
  exact (hp.map fun v => (key v, v)).mem_iff

/-! ## Lists whose values have keys -/

theorem find?_filter_entries (hm : (keys m).Nodup) (p : κ × α → Bool) (k : κ) :
    find? k (m.filter p) = (find? k m).filter fun v => p (k, v) := by
  have hf : (keys (m.filter p)).Nodup := hm.sublist (List.filter_sublist.map Prod.fst)
  apply Option.ext
  intro v
  rw [← mem_iff_find? hf, List.mem_filter, mem_iff_find? hm, Option.filter_eq_some_iff]

theorem find?_filter (hm : (keys m).Nodup) (p : α → Bool) (k : κ) :
    find? k (m.filter fun e => p e.2) = (find? k m).filter p :=
  find?_filter_entries hm (fun e => p e.2) k

theorem find?_filter_values (h : (l.map key).Nodup) (p : α → Bool) (k : κ) :
    (l.filter p).find? (key · = k) = (l.find? (key · = k)).filter p := by
  have hp : ((l.filter p).map key).Nodup := h.sublist (List.filter_sublist.map key)
  have hindex : index key (l.filter p) = (index key l).filter fun e => p e.2 := by
    unfold index
    rw [List.filter_map]
    rfl
  rw [find?_of_perm hp (List.Perm.refl _), find?_of_perm h (List.Perm.refl _), hindex]
  exact find?_filter (filed_index h).nodup p k

theorem find?_snoc (key : α → κ) {l : List α} {v : α} (h : l.find? (key · = key v) = none) (k : κ) :
    (l ++ [v]).find? (key · = k) = if k = key v then some v else l.find? (key · = k) := by
  rw [List.find?_append]
  by_cases hk : k = key v
  · subst hk
    rw [if_pos rfl, h]
    simp
  · rw [if_neg hk, List.find?_cons_of_neg (by simpa using Ne.symm hk)]
    simp

theorem find?_remove (key : α → κ) (l : List α) (k k' : κ) :
    (l.filter (key · ≠ k)).find? (key · = k') = if k' = k then none else l.find? (key · = k') := by
  rw [List.find?_filter]
  by_cases hk : k' = k
  · rw [if_pos hk, List.find?_eq_none]
    intro v _
    simp [hk]
  · rw [if_neg hk]
    congr 1
    funext v
    by_cases hv : key v = k'
    · simp [hv, hk]
    · simp [hv]

/-- What is replaced by a value with the same key is found as that value. -/
theorem find?_map_replace (key : α → κ) (l : List α) (v : α) (k : κ) :
    (l.map fun x => if key x = key v then v else x).find? (key · = k)
      = if k = key v then (l.find? (key · = k)).map fun _ => v else l.find? (key · = k) := by
  have hkeep : ((fun x => decide (key x = k)) ∘ fun x => if key x = key v then v else x)
      = fun x => decide (key x = k) := by
    funext x
    by_cases hx : key x = key v
    · simp [hx]
    · simp [hx]
  rw [List.find?_map, hkeep]
  cases hf : l.find? (key · = k) with
  | none => simp
  | some x =>
    have hx : key x = k := by simpa using List.find?_some hf
    rw [Option.map_some, hx, Option.map_some]
    split <;> rfl

end

end Workflow.Assoc
