import FlowDoc.Proofs.Payload.Fields
import FlowDoc.Proofs.Payload.Printing

/-!
# What a bag holds of its pairs

A bag into which pairs were inserted one by one holds each key once, at the place at which it was
first inserted and with the value that was inserted last; under `other` it holds all values, in
order. Pairs whose keys are distinct are the entries of their bag as they stand.

## Main definitions

* `Bag.valuesOf`: the values of a key among some pairs
* `Bag.latest`: the value that a key has after pairs were inserted one by one

## Main results

* `get?_insert`, `getElem?_insertEntry_of_ne`: values and places after one more pair
* `get?_ofList`, `map_fst_ofList`: the values and the keys after some pairs
* `eq_ofList_iff`: the pairs that are the entries of their bag
* `ofList_history`: what a bag holds after any history of insertions
-/

namespace FlowDoc

namespace Bag

/-- The values of a key, in order. -/
def valuesOf (pairs : List (String × String)) (key : String) : List String :=
  (pairs.filter (·.1 = key)).map (·.2)

/-- Values as one text, if there are any. -/
def joined (values : List String) : Option String :=
  if values = [] then none else some (", ".intercalate values)

/-- The value that a key has after the pairs were inserted: the last one, and under `other` all of
them, joined by a comma and a blank. -/
def latest (pairs : List (String × String)) (key : String) : Option String :=
  if key = otherKey then joined (valuesOf pairs key) else (valuesOf pairs key).getLast?

/-! ## One more pair -/

/-- A key has no value where no entry has it. -/
theorem get?_eq_none_iff (bag : Bag) (key : String) :
    bag.get? key = none ↔ key ∉ bag.entries.map (·.1) := by
  rw [get?, List.lookup_eq_none_iff, List.mem_map]
  constructor
  · rintro h ⟨e, he, rfl⟩
    exact bne_iff_ne.mp (h e he) rfl
  · intro h e he
    exact bne_iff_ne.mpr fun hkey => h ⟨e, he, hkey.symm⟩

/-- The value of a key after a pair with this key was inserted. -/
def merged (key value : String) : Option String → String
  | some former => if key = otherKey then former ++ ", " ++ value else value
  | none => value

theorem lookup_cons_eq (k key value : String) (entries : List (String × String)) :
    ((key, value) :: entries).lookup k = if k = key then some value else entries.lookup k := by
  rw [List.lookup_cons]
  split_ifs with hk
  · rw [beq_iff_eq.mpr hk]
  · rw [beq_false_of_ne hk]

theorem lookup_insertEntry (key value k : String) (entries : List (String × String)) :
    (insertEntry key value entries).lookup k =
      if k = key then some (merged key value (entries.lookup key)) else entries.lookup k := by
  induction entries with
  | nil =>
    rw [insertEntry, lookup_cons_eq]
    rfl
  | cons e entries ih =>
    obtain ⟨key', former⟩ := e
    rw [insertEntry]
    by_cases hkey : key' = key
    · -- The entry is the first one with this key, so its value is the one that changes.
      subst hkey
      rw [if_pos rfl, lookup_cons_eq, lookup_cons_eq, if_pos rfl, lookup_cons_eq]
      by_cases hk : k = key'
      · rw [if_pos hk, if_pos hk, merged]
      · rw [if_neg hk, if_neg hk, if_neg hk]
    · rw [if_neg hkey, lookup_cons_eq, ih, lookup_cons_eq, if_neg (Ne.symm hkey), lookup_cons_eq]
      by_cases hk : k = key
      · rw [if_neg (hk ▸ Ne.symm hkey), if_pos hk, if_pos hk]
      · rw [if_neg hk, if_neg hk]

/-- **One more pair** changes the value of its key and no other one. -/
theorem get?_insert (bag : Bag) (key value k : String) :
    (bag.insert key value).get? k =
      if k = key then some (merged key value (bag.get? key)) else bag.get? k :=
  lookup_insertEntry key value k bag.entries

/-- The entry of another key stays as it is and where it is, and no such entry comes in. -/
theorem getElem?_insertEntry_of_ne {key k : String} (hne : k ≠ key) (value v : String)
    (entries : List (String × String)) (i : Nat) :
    (insertEntry key value entries)[i]? = some (k, v) ↔ entries[i]? = some (k, v) := by
  induction entries generalizing i with
  | nil =>
    cases i with
    | zero => simp [insertEntry, Ne.symm hne]
    | succ i => simp [insertEntry]
  | cons e entries ih =>
    rw [insertEntry]
    by_cases hkey : e.1 = key
    · rw [if_pos hkey]
      cases i with
      | zero =>
        -- The key itself stands here, before and after.
        have hother : e.1 ≠ k := fun h => hne (h.symm.trans hkey)
        simp [Prod.ext_iff, hother]
      | succ i => exact Iff.rfl
    · rw [if_neg hkey]
      cases i with
      | zero => exact Iff.rfl
      | succ i => exact ih i

/-! ## All pairs -/

theorem ofList_concat (pairs : List (String × String)) (pair : String × String) :
    ofList (pairs ++ [pair]) = (ofList pairs).insert pair.1 pair.2 := by
  rw [ofList_eq_insertAll, insertAll_append]
  rfl

theorem valuesOf_concat (pairs : List (String × String)) (pair : String × String) (key : String) :
    valuesOf (pairs ++ [pair]) key =
      if pair.1 = key then valuesOf pairs key ++ [pair.2] else valuesOf pairs key := by
  rw [valuesOf, List.filter_append]
  split_ifs with hkey
  · simp [hkey, valuesOf]
  · simp [hkey, valuesOf]

theorem intercalate_concat (separator last : String) {values : List String} (h : values ≠ []) :
    separator.intercalate (values ++ [last]) =
      separator.intercalate values ++ separator ++ last := by
  induction values with
  | nil => exact absurd rfl h
  | cons value values ih =>
    cases values with
    | nil => simp
    | cons next values =>
      have hrest := ih (List.cons_ne_nil _ _)
      rw [List.cons_append] at hrest
      rw [List.cons_append, List.cons_append, String.intercalate_cons_cons, hrest,
        String.intercalate_cons_cons]
      simp only [String.append_assoc]

theorem joined_concat (values : List String) (last : String) :
    joined (values ++ [last]) = some (merged otherKey last (joined values)) := by
  by_cases h : values = []
  · subst h
    rw [List.nil_append, joined, if_neg (List.cons_ne_nil _ _), String.intercalate_singleton]
    rfl
  · rw [joined, if_neg (by simp), intercalate_concat _ _ h, joined, if_neg h]
    rfl

theorem latest_concat (pairs : List (String × String)) (pair : String × String) (key : String) :
    latest (pairs ++ [pair]) key =
      if key = pair.1 then some (merged pair.1 pair.2 (latest pairs pair.1))
      else latest pairs key := by
  by_cases hkey : key = pair.1
  · subst hkey
    rw [if_pos rfl, latest, latest, valuesOf_concat, if_pos rfl]
    generalize valuesOf pairs pair.1 = values
    by_cases hother : pair.1 = otherKey
    · rw [if_pos hother, if_pos hother, joined_concat, hother]
    · rw [if_neg hother, if_neg hother, List.getLast?_concat]
      cases values.getLast? with
      | none => rfl
      | some former => rw [merged, if_neg hother]
  · rw [if_neg hkey, latest, valuesOf_concat, if_neg (Ne.symm hkey), ← latest]

/-- **The values after some pairs** are the latest ones. -/
theorem get?_ofList (pairs : List (String × String)) (key : String) :
    (ofList pairs).get? key = latest pairs key := by
  -- The last pair is the one that was inserted last.
  induction pairs using List.reverseRecOn generalizing key with
  | nil =>
    rw [latest]
    split_ifs
    · rfl
    · rfl
  | append_singleton pairs pair ih =>
    rw [ofList_concat, get?_insert, latest_concat, ih, ih]

/-- **The keys after some pairs** are the inserted ones, each where it was first inserted. -/
theorem map_fst_ofList (pairs : List (String × String)) :
    (ofList pairs).entries.map (·.1) = (pairs.map (·.1)).eraseDups := by
  induction pairs using List.reverseRecOn with
  | nil => rfl
  | append_singleton pairs pair ih =>
    rw [ofList_concat, insert, map_fst_insertEntry, ih, List.map_append, List.map_singleton,
      List.eraseDups_append]
    simp only [List.mem_eraseDups]
    split_ifs with hmem
    · -- A key that was inserted before is no new one.
      have hold : [pair.1].removeAll (pairs.map (·.1)) = [] := by
        simp [List.removeAll, hmem]
      rw [hold, List.eraseDups_nil, List.append_nil]
    · have hnew : [pair.1].removeAll (pairs.map (·.1)) = [pair.1] := by
        simp [List.removeAll, hmem]
      rw [hnew]
      rfl

theorem nodup_ofList (pairs : List (String × String)) :
    ((ofList pairs).entries.map (·.1)).Nodup := by
  rw [ofList_eq_insertAll]
  exact nodup_insertAll List.nodup_nil

/-- **The pairs that are the entries of their bag** are those with distinct keys. -/
theorem eq_ofList_iff {pairs : List (String × String)} :
    (⟨pairs⟩ : Bag) = ofList pairs ↔ (pairs.map (·.1)).Nodup := by
  constructor
  · intro h
    have hnodup := nodup_ofList pairs
    rwa [← h] at hnodup
  · intro h
    induction pairs using List.reverseRecOn with
    | nil => rfl
    | append_singleton pairs pair ih =>
      rw [List.map_append, List.nodup_append_comm] at h
      obtain ⟨hnew, hrest⟩ := List.nodup_cons.mp h
      rw [ofList_concat, ← ih hrest, insert, insertEntry_of_notMem _ hnew]

/-- **What a bag holds after any history of insertions**: its keys are the distinct inserted ones in
the order of their first insertion, so that none is repeated and their number is the size of the
bag. A key other than `other` has the value that was inserted last, `other` has all its values in
order, joined by a comma and a blank, and a key that was never inserted has none. One more
insertion, into whatever bag, changes neither the value nor the place of another key. -/
theorem ofList_history (pairs : List (String × String)) :
    let bag := ofList pairs
    bag.entries.map (·.1) = (pairs.map (·.1)).eraseDups ∧
      (bag.entries.map (·.1)).Nodup ∧
      bag.size = (pairs.map (·.1)).eraseDups.length ∧
      (∀ key, key ≠ otherKey → bag.get? key = (valuesOf pairs key).getLast?) ∧
      bag.get? otherKey = joined (valuesOf pairs otherKey) ∧
      (∀ key, bag.get? key = none ↔ key ∉ pairs.map (·.1)) ∧
      ∀ (former : Bag) (key value k : String), k ≠ key →
        (former.insert key value).get? k = former.get? k ∧
          ∀ (i : Nat) (v : String), (former.insert key value).entries[i]? = some (k, v) ↔
            former.entries[i]? = some (k, v) := by
  intro bag
  have hkeys : bag.entries.map (·.1) = (pairs.map (·.1)).eraseDups := map_fst_ofList pairs
  refine ⟨hkeys, nodup_ofList pairs, ?_, fun key hkey => ?_, ?_, fun key => ?_,
    fun former key value k hk => ⟨?_, ?_⟩⟩
  · rw [← hkeys, List.length_map]
    rfl
  · rw [get?_ofList, latest, if_neg hkey]
  · rw [get?_ofList, latest, if_pos rfl]
  · rw [get?_eq_none_iff, hkeys, List.mem_eraseDups]
  · rw [get?_insert, if_neg hk]
  · exact fun i v => getElem?_insertEntry_of_ne hk value v former.entries i

end Bag

end FlowDoc
