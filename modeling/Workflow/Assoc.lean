/-!
# Association lists in insertion order

A finite map is a list of pairs.  Writing to a key that is present keeps its
place, a new key goes to the end, so a map is read back in the order its keys
were first written.

    find? k (put k v m) = some v                    (find?_put_self)
    k ≠ k' → find? k (put k' v m) = find? k m       (find?_put_of_ne)
    find? k (drop k m) = none                       (find?_drop_self)
    k ≠ k' → find? k (drop k' m) = find? k m        (find?_drop_of_ne)
-/

namespace Workflow.Assoc

variable {κ α : Type} [DecidableEq κ]

/-! ## Operations -/

def find? (k : κ) : List (κ × α) → Option α
  | [] => none
  | (k', v) :: rest => if k = k' then some v else find? k rest

def contains (k : κ) (m : List (κ × α)) : Bool := (find? k m).isSome

def put (k : κ) (v : α) : List (κ × α) → List (κ × α)
  | [] => [(k, v)]
  | (k', w) :: rest => if k = k' then (k', v) :: rest else (k', w) :: put k v rest

def drop (k : κ) : List (κ × α) → List (κ × α)
  | [] => []
  | (k', w) :: rest => if k = k' then drop k rest else (k', w) :: drop k rest

def keys (m : List (κ × α)) : List κ := m.map Prod.fst

def values (m : List (κ × α)) : List α := m.map Prod.snd

/-- The map that a sequence of writes leaves. -/
def ofList (entries : List (κ × α)) : List (κ × α) :=
  entries.foldl (fun m e => put e.1 e.2 m) []

/-! ## Lemmas -/

@[simp] theorem find?_put_self (k : κ) (v : α) (m : List (κ × α)) :
    find? k (put k v m) = some v := by
  induction m with
  | nil => simp [put, find?]
  | cons e rest ih =>
    obtain ⟨k', w⟩ := e
    by_cases h : k = k'
    · simp [put, find?, h]
    · simp [put, find?, h, ih]

theorem find?_put_of_ne {k k' : κ} (h : k ≠ k') (v : α) (m : List (κ × α)) :
    find? k (put k' v m) = find? k m := by
  induction m with
  | nil => simp [put, find?, h]
  | cons e rest ih =>
    obtain ⟨k'', w⟩ := e
    by_cases h' : k' = k''
    · subst h'
      simp [put, find?, h]
    · by_cases h'' : k = k'' <;> simp [put, find?, h', h'', ih]

@[simp] theorem find?_drop_self (k : κ) (m : List (κ × α)) : find? k (drop k m) = none := by
  induction m with
  | nil => rfl
  | cons e rest ih =>
    obtain ⟨k', w⟩ := e
    by_cases h : k = k'
    · simp [drop, h]
      simpa [h] using ih
    · simp [drop, find?, h, ih]

theorem find?_drop_of_ne {k k' : κ} (h : k ≠ k') (m : List (κ × α)) :
    find? k (drop k' m) = find? k m := by
  induction m with
  | nil => rfl
  | cons e rest ih =>
    obtain ⟨k'', w⟩ := e
    by_cases h' : k' = k''
    · subst h'
      simp [drop, find?, h, ih]
    · by_cases h'' : k = k'' <;> simp [drop, find?, h', h'', ih]

end Workflow.Assoc
