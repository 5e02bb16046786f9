import Mathlib.Data.List.Nodup
import FlowDoc.Json.Value

/-!
# Keys in other spellings and members in other orders

The keys of a value may be spelled in other cases and the members of its objects may be put in other
orders, at any depth. Where no object has two keys that differ in case only, a lookup meets the same
member in both values, whichever comes first: what is found under a key in one is found in the
other, again in other spellings and orders.

## Main definitions

* `Respelled`: a value with keys in other cases and members in other orders
* `KeysApart`: no object has two keys that differ in case only

## Main results

* `Respelled.keysApart`: keys stay apart
* `Respelled.string?`, `Respelled.array?`: texts and items
* `Respelled.field?`, `Respelled.stringField?`: what is found under a key
-/

namespace FlowDoc.Json

/-! ## Spellings and orders -/

/-- The second value is the first one with some keys in other cases, and the members of some objects
in other orders, at any depth. -/
inductive Respelled : Json → Json → Prop
  | refl (d) : Respelled d d
  | trans {d d' d''} (h : Respelled d d') (h' : Respelled d' d'') : Respelled d d''
  /-- A key in another case. -/
  | key {k k'} (before value after) (h : k.toLower = k'.toLower) :
    Respelled (.object (before ++ (k, value) :: after)) (.object (before ++ (k', value) :: after))
  /-- Members in another order. -/
  | order {members members'} (h : members.Perm members') :
    Respelled (.object members) (.object members')
  /-- Inside the value of a member. -/
  | member {value value'} (before k after) (h : Respelled value value') :
    Respelled (.object (before ++ (k, value) :: after)) (.object (before ++ (k, value') :: after))
  /-- Inside an item. -/
  | item {value value'} (before after) (h : Respelled value value') :
    Respelled (.array (before ++ value :: after)) (.array (before ++ value' :: after))

/-- No object in the value has two keys that differ in case only. -/
inductive KeysApart : Json → Prop
  | null : KeysApart .null
  | bool (b) : KeysApart (.bool b)
  | number (n) : KeysApart (.number n)
  | string (s) : KeysApart (.string s)
  | array {items} (h : ∀ item ∈ items, KeysApart item) : KeysApart (.array items)
  | object {members} (apart : (members.map (·.1.toLower)).Nodup)
    (h : ∀ m ∈ members, KeysApart m.2) : KeysApart (.object members)

section Respelled

variable {d d' : Json} {items items' : List Json} {members members' : List (String × Json)}

/-- Inside all items of an array. -/
theorem respelled_items (before : List Json) (h : List.Forall₂ Respelled items items') :
    Respelled (.array (before ++ items)) (.array (before ++ items')) := by
  induction h generalizing before with
  | nil => exact .refl _
  | @cons value value' items items' hvalue _ ih =>
    have hrest := ih (before ++ [value'])
    rw [List.append_assoc, List.append_assoc, List.singleton_append] at hrest
    exact (Respelled.item before items hvalue).trans hrest

/-- All members of an object, each with its key in another case. -/
theorem respelled_members (before : List (String × Json))
    (h : List.Forall₂ (fun m m' => m.1.toLower = m'.1.toLower ∧ Respelled m.2 m'.2)
      members members') :
    Respelled (.object (before ++ members)) (.object (before ++ members')) := by
  induction h generalizing before with
  | nil => exact .refl _
  | @cons m m' members members' hm _ ih =>
    obtain ⟨key, value⟩ := m
    obtain ⟨key', value'⟩ := m'
    have hrest := ih (before ++ [(key', value')])
    rw [List.append_assoc, List.append_assoc, List.singleton_append] at hrest
    exact ((Respelled.key before value members hm.1).trans
      (.member before key' members hm.2)).trans hrest

theorem keysApart_array_iff : KeysApart (.array items) ↔ ∀ item ∈ items, KeysApart item := by
  constructor
  · intro h
    cases h with
    | array h => exact h
  · exact .array

theorem keysApart_object_iff :
    KeysApart (.object members) ↔
      (members.map (·.1.toLower)).Nodup ∧ ∀ m ∈ members, KeysApart m.2 := by
  constructor
  · intro h
    cases h with
    | object apart h => exact ⟨apart, h⟩
  · exact fun h => .object h.1 h.2

/-- **Keys stay apart** in other spellings and orders. -/
theorem Respelled.keysApart (h : Respelled d d') (hapart : KeysApart d) : KeysApart d' := by
  induction h with
  | refl => exact hapart
  | trans _ _ ih ih' => exact ih' (ih hapart)
  | key before value after h =>
    simp only [keysApart_object_iff, List.map_append, List.map_cons, List.forall_mem_append,
      List.forall_mem_cons, h] at hapart ⊢
    exact hapart
  | order h =>
    rw [keysApart_object_iff] at hapart ⊢
    exact ⟨(h.map _).nodup hapart.1, fun m hm => hapart.2 m (h.mem_iff.mpr hm)⟩
  | member before k after _ ih =>
    simp only [keysApart_object_iff, List.map_append, List.map_cons, List.forall_mem_append,
      List.forall_mem_cons] at hapart ⊢
    obtain ⟨apart, hbefore, hvalue, hafter⟩ := hapart
    exact ⟨apart, hbefore, ih hvalue, hafter⟩
  | item before after _ ih =>
    simp only [keysApart_array_iff, List.forall_mem_append, List.forall_mem_cons] at hapart ⊢
    obtain ⟨hbefore, hvalue, hafter⟩ := hapart
    exact ⟨hbefore, ih hvalue, hafter⟩

/-! ## Texts and items -/

theorem Respelled.string? (h : Respelled d d') : d'.string? = d.string? := by
  induction h with
  | refl => rfl
  | trans _ _ ih ih' => exact ih'.trans ih
  | key => rfl
  | order => rfl
  | member => rfl
  | item => rfl

/-- **What is made of the items of an array** stays as it is and in its order, when what is made of
one item does. -/
theorem Respelled.filterMap_array? {β : Type} {f : Json → Option β}
    (hf : ∀ v v', Respelled v v' → KeysApart v → f v' = f v) (h : Respelled d d')
    (hapart : KeysApart d) :
    (d'.array?.getD []).filterMap f = (d.array?.getD []).filterMap f := by
  induction h with
  | refl => rfl
  | trans h _ ih ih' => exact (ih' (h.keysApart hapart)).trans (ih hapart)
  | key => rfl
  | order => rfl
  | member => rfl
  | item before after h =>
    have hvalue := keysApart_array_iff.mp hapart _ (List.mem_append_right _ List.mem_cons_self)
    simp only [Json.array?, Option.getD_some, List.filterMap_append, List.filterMap_cons,
      hf _ _ h hvalue]

/-! ## Lookups -/

/-- With keys apart, a lookup finds the only member there is. -/
theorem find?_key_eq_some_iff (apart : (members.map (·.1.toLower)).Nodup) {key : String}
    {m : String × Json} :
    members.find? (fun m => m.1.toLower == key) = some m ↔ m ∈ members ∧ m.1.toLower = key := by
  constructor
  · intro h
    have hkey := List.find?_some h
    exact ⟨List.mem_of_find?_eq_some h, by simpa using hkey⟩
  · rintro ⟨hm, hkey⟩
    cases hfind : members.find? fun m => m.1.toLower == key with
    | none =>
      have hnone := List.find?_eq_none.mp hfind m hm
      simp [hkey] at hnone
    | some m' =>
      have hkey' := List.find?_some hfind
      have hsame : m'.1.toLower = m.1.toLower := by
        rw [hkey]
        simpa using hkey'
      rw [List.inj_on_of_nodup_map apart (List.mem_of_find?_eq_some hfind) hm hsame]

theorem field?_of_perm (h : members.Perm members') (apart : (members.map (·.1.toLower)).Nodup)
    (key : String) : (object members').field? key = (object members).field? key := by
  have apart' : (members'.map (·.1.toLower)).Nodup := (h.map _).nodup apart
  have hfind : members'.find? (fun m => m.1.toLower == key.toLower) =
      members.find? fun m => m.1.toLower == key.toLower := by
    ext m
    rw [find?_key_eq_some_iff apart', find?_key_eq_some_iff apart,
      h.mem_iff]
  exact congrArg (Option.map (·.2)) hfind

theorem keysApart_of_field? (hapart : KeysApart d) {key : String} {v : Json}
    (h : d.field? key = some v) : KeysApart v := by
  obtain ⟨m, hm, rfl⟩ := Option.map_eq_some_iff.mp h
  have hmem := List.mem_of_find?_eq_some hm
  cases hapart with
  | object _ hvalues => exact hvalues m hmem
  | null | bool | number | string | array => cases hmem

/-- **What is found under a key**: nothing in both values, or a value and the same value in other
spellings and orders. -/
theorem Respelled.field? (h : Respelled d d') (hapart : KeysApart d) (key : String) :
    (d.field? key = none ∧ d'.field? key = none) ∨
      ∃ v v', d.field? key = some v ∧ d'.field? key = some v' ∧ Respelled v v' := by
  have hsame : ∀ {d d' : Json}, d'.field? key = d.field? key →
      (d.field? key = none ∧ d'.field? key = none) ∨
        ∃ v v', d.field? key = some v ∧ d'.field? key = some v' ∧ Respelled v v' := by
    intro d d' h
    cases hv : d.field? key with
    | none => exact .inl ⟨rfl, by rw [h, hv]⟩
    | some v => exact .inr ⟨v, v, rfl, by rw [h, hv], .refl v⟩
  -- Only a change inside the value of a member, and changes in a row, are not of this kind.
  induction h with
  | refl => exact hsame rfl
  | trans h _ ih ih' =>
    rcases ih hapart with ⟨hnone, hnone'⟩ | ⟨v, v', hv, hv', hr⟩
    · rcases ih' (h.keysApart hapart) with ⟨-, hnone''⟩ | ⟨v, v', hv, -, -⟩
      · exact .inl ⟨hnone, hnone''⟩
      · rw [hnone'] at hv
        cases hv
    · rcases ih' (h.keysApart hapart) with ⟨hnone, -⟩ | ⟨w, w', hw, hw', hr'⟩
      · rw [hnone] at hv'
        cases hv'
      · rw [hv'] at hw
        obtain rfl := Option.some.inj hw
        exact .inr ⟨v, w', hv, hw', hr.trans hr'⟩
  | key before value after h =>
    -- Lookups compare keys without regard to case.
    refine hsame ?_
    simp only [Json.field?, members, List.find?_append, List.find?_cons, h]
    cases before.find? fun m => m.1.toLower == key.toLower with
    | some m => rfl
    | none =>
      rw [Option.none_or, Option.none_or]
      split <;> rfl
  | order h => exact hsame (field?_of_perm h (keysApart_object_iff.mp hapart).1 key)
  | @member value value' before k after h =>
    -- The lookup stops before the member, at it or behind it.
    simp only [Json.field?, members, List.find?_append, List.find?_cons]
    cases before.find? fun m => m.1.toLower == key.toLower with
    | some m => exact .inr ⟨m.2, m.2, rfl, rfl, .refl _⟩
    | none =>
      rw [Option.none_or, Option.none_or]
      split
      · exact .inr ⟨value, value', rfl, rfl, h⟩
      · cases after.find? fun m => m.1.toLower == key.toLower with
        | some m => exact .inr ⟨m.2, m.2, rfl, rfl, .refl _⟩
        | none => exact .inl ⟨rfl, rfl⟩
  | item => exact hsame rfl

theorem Respelled.stringField? (h : Respelled d d') (hapart : KeysApart d) (key : String) :
    d'.stringField? key = d.stringField? key := by
  rw [Json.stringField?, Json.stringField?]
  rcases h.field? hapart key with ⟨hnone, hnone'⟩ | ⟨v, v', hv, hv', hr⟩
  · rw [hnone, hnone']
  · rw [hv, hv']
    exact hr.string?

end Respelled

end FlowDoc.Json
