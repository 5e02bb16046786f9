/-!
# Lists in the order of their keys

Pairs are kept in the order of their keys, each key once; keys are compared character by character.

## Main definitions

* `insertKey`, `byKey`: pairs put in their places.

## Main results

* `mem_of_mem_byKey`, `mem_byKey`: no pair is made up, and a pair whose key is its own is kept.
* `exists_mem_byKey`: each key is kept.
* `byKey_perm`: pairs with distinct keys are put in another order only.
-/

namespace FlowDoc.Text

/-- Puts a pair in its place among pairs in the order of their keys; an equal key takes the new
value. -/
def insertKey {α : Type} (key : String) (value : α) : List (String × α) → List (String × α)
  | [] => [(key, value)]
  | (k, v) :: rest =>
    if key < k then (key, value) :: (k, v) :: rest
    else if k = key then (key, value) :: rest
    else (k, v) :: insertKey key value rest

/-- The pairs in the order of their keys; of a repeated key the last value holds. -/
def byKey {α : Type} (pairs : List (String × α)) : List (String × α) :=
  pairs.foldl (fun done (key, value) => insertKey key value done) []

section Members

variable {α : Type} {pairs : List (String × α)} {p : String × α}

theorem mem_of_mem_insertKey {key : String} {value : α} (h : p ∈ insertKey key value pairs) :
    p = (key, value) ∨ p ∈ pairs := by
  induction pairs with
  | nil => exact .inl (List.mem_singleton.mp h)
  | cons q pairs ih =>
    obtain ⟨k, v⟩ := q
    rw [insertKey] at h
    split at h
    · exact List.mem_cons.mp h
    · split at h
      · exact (List.mem_cons.mp h).imp_right (List.mem_cons_of_mem _)
      · rcases List.mem_cons.mp h with rfl | h
        · exact .inr List.mem_cons_self
        · exact (ih h).imp_right (List.mem_cons_of_mem _)

/-- No pair is made up. -/
theorem mem_of_mem_byKey (h : p ∈ byKey pairs) : p ∈ pairs := by
  -- Pairs that are there stay, or give way to pairs that come in.
  have hfold : ∀ done : List (String × α),
      p ∈ pairs.foldl (fun done (key, value) => insertKey key value done) done →
        p ∈ done ∨ p ∈ pairs := by
    clear h
    induction pairs with
    | nil => exact fun done h => .inl h
    | cons q pairs ih =>
      intro done h
      rcases ih _ h with h | h
      · rcases mem_of_mem_insertKey h with rfl | h
        · exact .inr List.mem_cons_self
        · exact .inl h
      · exact .inr (List.mem_cons_of_mem _ h)
  rcases hfold [] h with h | h
  · cases h
  · exact h

theorem mem_insertKey_self (key : String) (value : α) (pairs : List (String × α)) :
    (key, value) ∈ insertKey key value pairs := by
  induction pairs with
  | nil => exact List.mem_cons_self
  | cons q pairs ih =>
    obtain ⟨k, v⟩ := q
    rw [insertKey]
    split
    · exact List.mem_cons_self
    · split
      · exact List.mem_cons_self
      · exact List.mem_cons_of_mem _ ih

theorem mem_insertKey_of_ne {key : String} {value : α} (h : p ∈ pairs) (hne : p.1 ≠ key) :
    p ∈ insertKey key value pairs := by
  induction pairs with
  | nil => cases h
  | cons q pairs ih =>
    obtain ⟨k, v⟩ := q
    rw [insertKey]
    split
    · exact List.mem_cons_of_mem _ h
    · rcases List.mem_cons.mp h with rfl | h
      · rw [if_neg hne]
        exact List.mem_cons_self
      · split
        · exact List.mem_cons_of_mem _ h
        · exact List.mem_cons_of_mem _ (ih h)

/-- A pair is kept if no other one has its key. -/
theorem mem_byKey (h : p ∈ pairs) (hown : ∀ q ∈ pairs, q.1 = p.1 → q = p) : p ∈ byKey pairs := by
  have hfold : ∀ done : List (String × α), p ∈ done ∨ p ∈ pairs →
      p ∈ pairs.foldl (fun done (key, value) => insertKey key value done) done := by
    clear h
    induction pairs with
    | nil =>
      intro done h
      exact h.resolve_right List.not_mem_nil
    | cons q pairs ih =>
      intro done h
      refine ih (fun r hr => hown r (List.mem_cons_of_mem _ hr)) _ ?_
      by_cases hq : q = p
      · exact .inl (hq ▸ mem_insertKey_self q.1 q.2 done)
      · rcases h with h | h
        · -- The pair that comes in has another key.
          have hne : p.1 ≠ q.1 := fun hkey => hq (hown q List.mem_cons_self hkey.symm)
          exact .inl (mem_insertKey_of_ne h hne)
        · rcases List.mem_cons.mp h with rfl | h
          · exact absurd rfl hq
          · exact .inr h
  exact hfold [] (.inr h)

/-- Each key is kept, with one of its values. -/
theorem exists_mem_byKey {key : String} (h : key ∈ pairs.map (·.1)) :
    ∃ value, (key, value) ∈ byKey pairs := by
  have hfold : ∀ done : List (String × α),
      (∃ value, (key, value) ∈ done) ∨ key ∈ pairs.map (·.1) → ∃ value, (key, value) ∈
        pairs.foldl (fun done (key, value) => insertKey key value done) done := by
    clear h
    induction pairs with
    | nil => exact fun done h => h.resolve_right List.not_mem_nil
    | cons q pairs ih =>
      intro done h
      refine ih _ ?_
      by_cases hq : key = q.1
      · exact .inl ⟨q.2, hq ▸ mem_insertKey_self q.1 q.2 done⟩
      · rcases h with ⟨value, h⟩ | h
        · exact .inl ⟨value, mem_insertKey_of_ne h hq⟩
        · exact .inr ((List.mem_cons.mp h).resolve_left hq)
  exact hfold [] (.inr h)

theorem insertKey_perm {key : String} (value : α) (h : key ∉ pairs.map (·.1)) :
    (insertKey key value pairs).Perm ((key, value) :: pairs) := by
  induction pairs with
  | nil => exact .refl _
  | cons q pairs ih =>
    obtain ⟨k, v⟩ := q
    rw [List.map_cons, List.mem_cons, not_or] at h
    rw [insertKey]
    split
    · exact .refl _
    · rw [if_neg (Ne.symm h.1)]
      exact ((ih h.2).cons (k, v)).trans (.swap _ _ _)

/-- **Pairs with distinct keys are put in another order only.** -/
theorem byKey_perm (h : (pairs.map (·.1)).Nodup) : (byKey pairs).Perm pairs := by
  have hfold : ∀ done : List (String × α), ((pairs ++ done).map (·.1)).Nodup →
      (pairs.foldl (fun done (key, value) => insertKey key value done) done).Perm
        (pairs ++ done) := by
    clear h
    -- Induction on the pairs that come in, for any pairs that are done.
    induction pairs with
    | nil => exact fun done _ => .refl done
    | cons q pairs ih =>
      intro done h
      obtain ⟨key, value⟩ := q
      rw [List.cons_append, List.map_cons, List.nodup_cons] at h
      have hkey : key ∉ done.map (·.1) := by
        intro hmem
        refine h.1 ?_
        rw [List.map_append]
        exact List.mem_append_right _ hmem
      -- The pair that comes in stands among those that are done.
      have hperm : (pairs ++ insertKey key value done).Perm ((key, value) :: (pairs ++ done)) :=
        ((insertKey_perm value hkey).append_left pairs).trans List.perm_middle
      refine (ih _ ?_).trans hperm
      rw [(hperm.map _).nodup_iff, List.map_cons, List.nodup_cons]
      exact h
  have hperm := hfold [] (by rwa [List.append_nil])
  rwa [List.append_nil] at hperm

end Members

end FlowDoc.Text
