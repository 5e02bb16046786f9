import FlowDoc.Graph.Json
import FlowDoc.Proofs.Bag.History
import FlowDoc.Proofs.Json.Members

/-!
# Bags that are read

A bag is read from the object texts whose members are strings, with these members as its entries. So
it is the bag of the members inserted one by one where no key is repeated, and only there: a
repeated key keeps both entries, and the first one is found. A bag that was made by insertions, and
by reading objects without repeated keys, holds the latest value of each key.

## Main definitions

* `Bag.Reached`: the bags that are made from pairs

## Main results

* `Bag.ofJson_eq_ok_iff`: the texts that a bag is read from
* `Bag.Reached.eq_ofList`: a bag that is made from pairs is the bag of the pairs
* `Bag.ofJson_agrees_ofList`: when reading and inserting agree
-/

namespace FlowDoc

namespace Bag

open Json Json.Decoder

/-! ## Reading -/

theorem foldl_push (pairs : List (String × String)) (done : Array (String × String)) :
    pairs.foldl (fun done pair => done.push (pair.1, pair.2)) done = done ++ pairs.toArray := by
  induction pairs generalizing done with
  | nil => exact Array.append_empty.symm
  | cons pair pairs ih =>
    rw [List.foldl_cons, ih, ← Array.toList_inj]
    simp

/-- The entries of a bag are the members of its object. -/
theorem members_eq_ok_iff
    {member : Array (String × String) → String → Decoder (Array (String × String))}
    (hmember : ∀ done key cs, member done key cs =
      valued Decoder.string cs >>= fun p => .ok (done.push (key, p.1), p.2))
    {cs rest : List Char} {done : Array (String × String)} :
    Decoder.members #[] member cs = .ok (done, rest) ↔
      StringMembers true cs done.toList rest := by
  rw [Decoder.members, membersFrom_eq_ok_iff
    (fun (done : Array (String × String)) key value => done.push (key, value)) hmember
    (Nat.lt_succ_self _)]
  constructor
  · rintro ⟨pairs, h, rfl⟩
    rwa [foldl_push, Array.empty_append]
  · intro h
    refine ⟨done.toList, h, ?_⟩
    rw [foldl_push, Array.empty_append, Array.toArray_toList]

theorem decoder_eq_ok_iff {cs rest : List Char} {bag : Bag} :
    Bag.decoder cs = .ok (bag, rest) ↔
      ∃ body, skipSpace cs = '\x7b' :: body ∧ StringMembers true body bag.entries rest := by
  constructor
  · intro h
    unfold Bag.decoder at h
    split at h
    · rename_i body hbody
      obtain ⟨⟨done, rest'⟩, hmembers, h⟩ := bind_eq_ok_iff.mp h
      obtain ⟨rfl, rfl⟩ := Prod.mk.inj (Except.ok.inj h)
      exact ⟨body, hbody, (members_eq_ok_iff (fun _ _ _ => rfl)).mp hmembers⟩
    · exact absurd h mismatched_ne_ok
  · rintro ⟨body, hbody, h⟩
    have hentries : StringMembers true body bag.entries.toArray.toList rest := h
    rw [Bag.decoder, hbody]
    exact bind_eq_ok_iff.mpr ⟨_, (members_eq_ok_iff fun _ _ _ => rfl).mpr hentries, rfl⟩

/-- **The texts that a bag is read from** are those of an object whose members are strings, and the
members are the entries. -/
theorem ofJson_eq_ok_iff {text : String} {bag : Bag} :
    ofJson text = .ok bag ↔ membersOf text = .ok (stringMembers bag.entries) := by
  rw [membersOf_eq_ok_iff]
  constructor
  · intro h
    obtain ⟨⟨bag', rest⟩, hdecode, h⟩ := bind_eq_ok_iff.mp h
    obtain ⟨_, hend, h⟩ := bind_eq_ok_iff.mp h
    obtain rfl := Except.ok.inj h
    obtain ⟨body, hbody, hmembers⟩ := decoder_eq_ok_iff.mp hdecode
    exact ⟨body, rest, hbody, hmembers, lift_eq_ok_iff.mp hend⟩
  · rintro ⟨body, rest, hbody, hmembers, hend⟩
    have hdecode := decoder_eq_ok_iff.mpr ⟨body, hbody, hmembers⟩
    exact bind_eq_ok_iff.mpr ⟨_, hdecode, bind_eq_ok_iff.mpr ⟨_, lift_of_ok hend, rfl⟩⟩

/-! ## Reading and inserting -/

/-- The bags that are made from pairs: by inserting them one by one, or by reading an object that
repeats no key. -/
inductive Reached : List (String × String) → Bag → Prop where
  | new : Reached [] empty
  | insert {pairs : List (String × String)} {bag : Bag} (key value : String)
    (former : Reached pairs bag) : Reached (pairs ++ [(key, value)]) (bag.insert key value)
  | collect (pairs : List (String × String)) : Reached pairs (ofList pairs)
  | decode {text : String} {bag : Bag} (read : ofJson text = .ok bag)
    (distinct : (bag.entries.map (·.1)).Nodup) : Reached bag.entries bag

/-- **A bag that is made from pairs** is the bag of the pairs. -/
theorem Reached.eq_ofList {pairs : List (String × String)} {bag : Bag} (h : Reached pairs bag) :
    bag = ofList pairs := by
  induction h with
  | new => rfl
  | insert key value _ ih => rw [ofList_concat, ih]
  | collect pairs => rfl
  | decode read distinct => exact eq_ofList_iff.mpr distinct

/-- **Reading agrees with inserting** where no key is repeated, and only there. However a bag is
made from pairs, by insertions and by reading such objects, its keys are distinct and each has its
latest value. As a value, the text is the object of the pairs. -/
theorem ofJson_agrees_ofList {text : String} {pairs : List (String × String)}
    (h : membersOf text = .ok (stringMembers pairs)) :
    Json.read text = .ok (.ofMembers (stringMembers pairs)) ∧ ofJson text = .ok ⟨pairs⟩ ∧
      (ofJson text = .ok (ofList pairs) ↔ (pairs.map (·.1)).Nodup) ∧
      ∀ (history : List (String × String)) (bag : Bag), Reached history bag →
        (bag.entries.map (·.1)).Nodup ∧ ∀ key, bag.get? key = latest history key := by
  have hread : ofJson text = .ok ⟨pairs⟩ := ofJson_eq_ok_iff.mpr h
  refine ⟨read_of_membersOf h, hread, ?_, fun history bag hbag => ?_⟩
  · rw [hread, ← eq_ofList_iff]
    exact ⟨Except.ok.inj, congrArg _⟩
  · rw [hbag.eq_ofList]
    exact ⟨nodup_ofList history, get?_ofList history⟩

/-- An object without repeated keys. -/
def distinctText : String := "\x7b\"k\":\"1\",\"other\":\"2\"\x7d"

/-- An object that repeats its key. -/
def repeatedText : String := "\x7b\"k\":\"1\",\"k\":\"2\"\x7d"

theorem ofJson_distinctText :
    membersOf distinctText = .ok (stringMembers [("k", "1"), ("other", "2")]) ∧
      ofJson distinctText = .ok (ofList [("k", "1"), ("other", "2")]) := by
  have hread : ofJson distinctText = .ok ⟨[("k", "1"), ("other", "2")]⟩ := by decide +kernel
  have hmembers := ofJson_eq_ok_iff.mp hread
  obtain ⟨-, -, hagrees, -⟩ := ofJson_agrees_ofList hmembers
  exact ⟨hmembers, hagrees.mpr (by decide)⟩

/-- Of a repeated key the first value is found, though it is not the latest one. -/
theorem ofJson_repeatedText :
    membersOf repeatedText = .ok (stringMembers [("k", "1"), ("k", "2")]) ∧
      ofJson repeatedText = .ok ⟨[("k", "1"), ("k", "2")]⟩ ∧
      ofList [("k", "1"), ("k", "2")] = ⟨[("k", "2")]⟩ ∧
      (⟨[("k", "1"), ("k", "2")]⟩ : Bag).get? "k" = some "1" ∧
      latest [("k", "1"), ("k", "2")] "k" = some "2" := by
  have hread : ofJson repeatedText = .ok ⟨[("k", "1"), ("k", "2")]⟩ := by decide +kernel
  refine ⟨ofJson_eq_ok_iff.mp hread, hread, ?_, ?_, ?_⟩
  · decide
  · decide
  · decide

end Bag

end FlowDoc
