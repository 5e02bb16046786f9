import FlowDoc.Proofs.Json.Decoding

/-!
# Objects of strings

The members of an object are read one after the other, in the order of the text. A member that is
a string has one reading, which leaves less of the text than there was, so the bounds of the readers
are never met. The reader of values and a decoder that takes in strings therefore read the same
members.

## Main definitions

* `StringMember`, `StringMembers`: the members of an object that are strings
* `membersOf`: the members of an object that is a whole text, in the order of the text

## Main results

* `suffix_of_readString`: what a string leaves unread
* `readMembersWith_eq_ok_iff`: what the reader of values reads
* `membersFrom_eq_ok_iff`: what a decoder takes in
* `read_of_membersOf`: the object that the members are read as
-/

namespace FlowDoc.Json

/-! ## What is left unread -/

theorem skipSpace_suffix (cs : List Char) : skipSpace cs <:+ cs :=
  List.dropWhile_suffix _

theorem suffix_of_readHexUnit {cs rest : List Char} {n : Nat}
    (h : readHexUnit cs = .ok (n, rest)) : rest <:+ cs := by
  rw [readHexUnit] at h
  split_ifs at h
  split at h
  · obtain ⟨-, rfl⟩ := Prod.mk.inj (Except.ok.inj h)
    exact List.drop_suffix 4 cs
  · cases h

theorem suffix_of_readLowSurrogate {high : Nat} {cs rest : List Char} {c : Char}
    (h : readLowSurrogate high cs = .ok (c, rest)) : rest <:+ cs := by
  unfold readLowSurrogate at h
  split at h
  · cases h
  · cases h
  · obtain ⟨⟨low, rest'⟩, hlow, h⟩ := bind_eq_ok_iff.mp h
    dsimp only at h
    split_ifs at h
    obtain ⟨-, rfl⟩ := Prod.mk.inj (Except.ok.inj h)
    have hunit := suffix_of_readHexUnit hlow
    exact (hunit.trans (List.suffix_cons _ _)).trans (List.suffix_cons _ _)
  · cases h
  · cases h

theorem suffix_of_readEscape {purpose : Purpose} {cs rest : List Char} {c : Char}
    (h : readEscape purpose cs = .ok (c, rest)) : rest <:+ cs := by
  unfold readEscape at h
  split at h
  case h_1 => cases h
  case h_10 cs =>
    obtain ⟨⟨n, rest'⟩, hunit, h⟩ := bind_eq_ok_iff.mp h
    have hsuffix := (suffix_of_readHexUnit hunit).trans (List.suffix_cons 'u' cs)
    cases purpose with
    | skip =>
      obtain ⟨-, rfl⟩ := Prod.mk.inj (Except.ok.inj h)
      exact hsuffix
    | keep =>
      dsimp only at h
      split_ifs at h
      · exact (suffix_of_readLowSurrogate h).trans hsuffix
      · obtain ⟨-, rfl⟩ := Prod.mk.inj (Except.ok.inj h)
        exact hsuffix
  case h_11 => cases h
  -- The other escapes are one character.
  all_goals
    obtain ⟨-, rfl⟩ := Prod.mk.inj (Except.ok.inj h)
    exact List.suffix_cons _ _

theorem suffix_of_readChars {purpose : Purpose} {fuel : Nat} {cs text rest : List Char}
    (h : readChars purpose fuel cs = .ok (text, rest)) : rest <:+ cs := by
  fun_induction readChars purpose fuel cs generalizing text with
  | case1 cs => cases h
  | case2 fuel => cases h
  | case3 fuel cs =>
    obtain ⟨-, rfl⟩ := Prod.mk.inj (Except.ok.inj h)
    exact List.suffix_cons _ _
  | case4 fuel cs ih =>
    obtain ⟨⟨c, after⟩, hescape, h⟩ := bind_eq_ok_iff.mp h
    obtain ⟨⟨more, rest'⟩, hmore, h⟩ := bind_eq_ok_iff.mp h
    obtain ⟨-, rfl⟩ := Prod.mk.inj (Except.ok.inj h)
    exact (ih _ hmore).trans ((suffix_of_readEscape hescape).trans (List.suffix_cons _ _))
  | case5 fuel c cs _ _ hcontrol => cases h
  | case6 fuel c cs _ _ hcontrol ih =>
    obtain ⟨⟨more, rest'⟩, hmore, h⟩ := bind_eq_ok_iff.mp h
    obtain ⟨-, rfl⟩ := Prod.mk.inj (Except.ok.inj h)
    exact (ih hmore).trans (List.suffix_cons _ _)

/-- **What a string leaves unread** is the end of the text. -/
theorem suffix_of_readString {purpose : Purpose} {cs rest : List Char} {s : String}
    (h : readString purpose cs = .ok (s, rest)) : rest <:+ cs := by
  obtain ⟨⟨text, rest'⟩, hchars, h⟩ := bind_eq_ok_iff.mp h
  obtain ⟨-, rfl⟩ := Prod.mk.inj (Except.ok.inj h)
  exact suffix_of_readChars hchars

theorem cons_suffix_of_skipSpace {c : Char} {cs rest : List Char}
    (h : skipSpace cs = c :: rest) : c :: rest <:+ cs :=
  h ▸ skipSpace_suffix cs

theorem suffix_of_readToKey {first : Bool} {cs rest : List Char}
    (h : readToKey first cs = .ok (true, rest)) : '\"' :: rest <:+ cs := by
  unfold readToKey at h
  split at h
  · cases h
  · rename_i c after hafter
    have hsuffix := cons_suffix_of_skipSpace hafter
    split_ifs at h with hclosed hfirst hquote hcomma
    · cases h
    · obtain ⟨-, rfl⟩ := Prod.mk.inj (Except.ok.inj h)
      exact hquote ▸ hsuffix
    · split at h
      · cases h
      · rename_i d more hmore
        split_ifs at h with hquote
        obtain ⟨-, rfl⟩ := Prod.mk.inj (Except.ok.inj h)
        have hkey := cons_suffix_of_skipSpace hmore
        exact hquote ▸ hkey.trans ((List.suffix_cons c after).trans hsuffix)

theorem suffix_of_readColon {cs rest : List Char} (h : readColon cs = .ok rest) :
    ':' :: rest <:+ cs := by
  unfold readColon at h
  split at h
  · cases h
  · rename_i after hafter
    obtain rfl := Except.ok.inj h
    exact cons_suffix_of_skipSpace hafter
  · cases h

/-! ## One member -/

/-- A value that is a string was read as one. -/
theorem readValueWith_string_iff {purpose : Purpose} (fuel depth : Nat) {cs rest : List Char}
    {s : String} :
    readValueWith purpose (fuel + 1) depth cs = .ok (.string s, rest) ↔
      ∃ body, skipSpace cs = '\"' :: body ∧ readString purpose body = .ok (s, rest) := by
  constructor
  · intro h
    rw [readValueWith] at h
    split at h
    case h_1 => cases h
    case h_5 body hbody =>
      obtain ⟨⟨s', rest'⟩, hread, h⟩ := bind_eq_ok_iff.mp h
      obtain ⟨hvalue, rfl⟩ := Prod.mk.inj (Except.ok.inj h)
      obtain rfl := Json.string.inj hvalue
      exact ⟨body, hbody, hread⟩
    -- Any other first character is that of another value.
    case h_6 | h_7 | h_8 =>
      split_ifs at h
      obtain ⟨_, -, h⟩ := bind_eq_ok_iff.mp h
      cases h
    all_goals
      obtain ⟨_, -, h⟩ := bind_eq_ok_iff.mp h
      cases h
  · rintro ⟨body, hbody, hread⟩
    rw [readValueWith, hbody]
    exact bind_eq_ok_iff.mpr ⟨_, hread, rfl⟩

theorem Decoder.lift_eq_ok_iff {α : Type} {outcome : Except Fault α} {a : α} :
    lift outcome = .ok a ↔ outcome = .ok a := by
  cases outcome with
  | error fault => exact ⟨fun h => (nomatch h), fun h => (nomatch h)⟩
  | ok b => exact ⟨fun h => congrArg _ (Except.ok.inj h), lift_of_ok⟩

/-- Nothing comes of a value of the wrong kind. -/
theorem Decoder.mismatched_ne_ok {α : Type} {cs rest : List Char} {a : α} :
    mismatched cs ≠ .ok (a, rest) := by
  intro h
  unfold mismatched at h
  split at h
  · cases h
  · cases h
  · obtain ⟨_, -, h⟩ := bind_eq_ok_iff.mp h
    cases h

/-- A decoder of strings reads a string where one stands. -/
theorem Decoder.string_eq_ok_iff {cs rest : List Char} {s : String} :
    Decoder.string cs = .ok (s, rest) ↔
      ∃ body, skipSpace cs = '\"' :: body ∧ readString .keep body = .ok (s, rest) := by
  constructor
  · intro h
    unfold Decoder.string at h
    split at h
    · rename_i body hbody
      exact ⟨body, hbody, lift_eq_ok_iff.mp h⟩
    · exact absurd h mismatched_ne_ok
  · rintro ⟨body, hbody, hread⟩
    rw [Decoder.string, hbody]
    exact lift_of_ok hread

/-- The text goes on with a member that is a string. -/
inductive StringMember (first : Bool) (cs : List Char) : String × String → List Char → Prop where
  | intro {key value : String} {body afterKey afterColon text rest : List Char}
    (toKey : readToKey first cs = .ok (true, body))
    (readKey : readString .keep body = .ok (key, afterKey))
    (colon : readColon afterKey = .ok afterColon)
    (quote : skipSpace afterColon = '\"' :: text)
    (readValue : readString .keep text = .ok (value, rest)) :
    StringMember first cs (key, value) rest

/-- The key and its quote are gone from what the next members are read from. -/
theorem StringMember.length_lt {first : Bool} {cs rest : List Char} {pair : String × String}
    (h : StringMember first cs pair rest) : rest.length < cs.length := by
  obtain @⟨key, value, body, afterKey, afterColon, text, _, toKey, readKey, colon, quote,
    readValue⟩ := h
  have hbody := (suffix_of_readToKey toKey).length_le
  have hkey := (suffix_of_readString readKey).length_le
  have hcolon := (suffix_of_readColon colon).length_le
  have htext := (cons_suffix_of_skipSpace quote).length_le
  have hvalue := (suffix_of_readString readValue).length_le
  simp only [List.length_cons] at hbody hcolon htext
  omega

/-! ## All members -/

/-- The text goes on with members that are strings, and closes the object. -/
inductive StringMembers :
    (first : Bool) → List Char → List (String × String) → List Char → Prop where
  | close {first : Bool} {cs rest : List Char} (toEnd : readToKey first cs = .ok (false, rest)) :
    StringMembers first cs [] rest
  | more {first : Bool} {cs after rest : List Char} {pair : String × String}
    {pairs : List (String × String)} (member : StringMember first cs pair after)
    (others : StringMembers false after pairs rest) :
    StringMembers first cs (pair :: pairs) rest

/-- Pairs as the members of an object. -/
def stringMembers (pairs : List (String × String)) : List (String × Json) :=
  pairs.map fun pair => (pair.1, .string pair.2)

/-- **What the reader of values reads** as members that are strings. -/
theorem readMembersWith_eq_ok_iff {fuel depth : Nat} {first : Bool} {cs rest : List Char}
    {pairs : List (String × String)} (hfuel : cs.length < fuel) :
    readMembersWith .keep fuel depth first cs = .ok (stringMembers pairs, rest) ↔
      StringMembers first cs pairs rest := by
  -- Each member takes one step of the bound and at least one character, so that the bound is never
  -- met.
  induction fuel generalizing first cs pairs with
  | zero => exact absurd hfuel (Nat.not_lt_zero _)
  | succ fuel ih =>
    constructor
    · intro h
      rw [readMembersWith] at h
      obtain ⟨⟨more, body⟩, toKey, h⟩ := bind_eq_ok_iff.mp h
      cases more with
      | false =>
        obtain ⟨hpairs, rfl⟩ := Prod.mk.inj (Except.ok.inj h)
        obtain rfl := List.map_eq_nil_iff.mp hpairs.symm
        exact .close toKey
      | true =>
        obtain ⟨⟨key, afterKey⟩, readKey, h⟩ := bind_eq_ok_iff.mp h
        obtain ⟨afterColon, colon, h⟩ := bind_eq_ok_iff.mp h
        obtain ⟨⟨json, after⟩, readJson, h⟩ := bind_eq_ok_iff.mp h
        obtain ⟨⟨members, rest'⟩, others, h⟩ := bind_eq_ok_iff.mp h
        obtain ⟨hpairs, rfl⟩ := Prod.mk.inj (Except.ok.inj h)
        obtain ⟨⟨_, value⟩, pairs, rfl, hpair, rfl⟩ := List.map_eq_cons_iff.mp hpairs.symm
        obtain ⟨rfl, rfl⟩ := Prod.mk.inj hpair
        cases fuel with
        | zero => cases others
        | succ fuel =>
          obtain ⟨text, quote, readValue⟩ := (readValueWith_string_iff fuel depth).mp readJson
          have member : StringMember first cs _ after := .intro toKey readKey colon quote readValue
          have hshorter := Nat.lt_of_lt_of_le member.length_lt (Nat.le_of_lt_succ hfuel)
          exact .more member ((ih hshorter).mp others)
    · intro h
      rw [readMembersWith]
      cases h with
      | close toEnd => exact bind_eq_ok_iff.mpr ⟨_, toEnd, rfl⟩
      | @more _ _ after _ _ pairs member others =>
        have hshorter := member.length_lt
        obtain @⟨key, value, body, afterKey, afterColon, text, _, toKey, readKey, colon, quote,
          readValue⟩ := member
        -- The value is read with what is left of the bound.
        obtain ⟨fuel, rfl⟩ : ∃ n, fuel = n + 1 :=
          Nat.exists_eq_succ_of_ne_zero (by omega)
        have readJson := (readValueWith_string_iff fuel depth).mpr ⟨text, quote, readValue⟩
        have readOthers := (ih (by omega)).mpr others
        refine bind_eq_ok_iff.mpr ⟨_, toKey, ?_⟩
        refine bind_eq_ok_iff.mpr ⟨_, readKey, ?_⟩
        refine bind_eq_ok_iff.mpr ⟨_, colon, ?_⟩
        refine bind_eq_ok_iff.mpr ⟨_, readJson, ?_⟩
        exact bind_eq_ok_iff.mpr ⟨_, readOthers, rfl⟩

namespace Decoder

variable {σ : Type} {member : σ → String → Decoder σ} (take : σ → String → String → σ)

/-- **What a decoder takes in** as members that are strings, one by one. -/
theorem membersFrom_eq_ok_iff
    (hmember : ∀ s key cs, member s key cs =
      valued string cs >>= fun p => .ok (take s key p.1, p.2))
    {steps : Nat} {first : Bool} {cs rest : List Char} {s s' : σ} (hsteps : cs.length < steps) :
    membersFrom member steps first s cs = .ok (s', rest) ↔
      ∃ pairs, StringMembers first cs pairs rest ∧
        s' = pairs.foldl (fun s pair => take s pair.1 pair.2) s := by
  induction steps generalizing first cs s with
  | zero => exact absurd hsteps (Nat.not_lt_zero _)
  | succ steps ih =>
    constructor
    · intro h
      rw [membersFrom] at h
      obtain ⟨⟨more, body⟩, toKey, h⟩ := bind_eq_ok_iff.mp h
      cases more with
      | false =>
        obtain ⟨rfl, rfl⟩ := Prod.mk.inj (Except.ok.inj h)
        exact ⟨[], .close (lift_eq_ok_iff.mp toKey), rfl⟩
      | true =>
        obtain ⟨⟨key, afterKey⟩, readKey, h⟩ := bind_eq_ok_iff.mp h
        obtain ⟨⟨s₁, after⟩, hstep, h⟩ := bind_eq_ok_iff.mp h
        rw [hmember] at hstep
        obtain ⟨⟨value, after'⟩, hvalued, hstep⟩ := bind_eq_ok_iff.mp hstep
        obtain ⟨rfl, rfl⟩ := Prod.mk.inj (Except.ok.inj hstep)
        obtain ⟨afterColon, colon, hstring⟩ := bind_eq_ok_iff.mp hvalued
        obtain ⟨text, quote, readValue⟩ := string_eq_ok_iff.mp hstring
        have member : StringMember first cs (key, value) after' :=
          .intro (lift_eq_ok_iff.mp toKey) (lift_eq_ok_iff.mp readKey) (lift_eq_ok_iff.mp colon)
            quote readValue
        have hshorter := Nat.lt_of_lt_of_le member.length_lt (Nat.le_of_lt_succ hsteps)
        obtain ⟨pairs, others, rfl⟩ := (ih hshorter).mp h
        exact ⟨(key, value) :: pairs, .more member others, rfl⟩
    · rintro ⟨pairs, h, rfl⟩
      rw [membersFrom]
      cases h with
      | close toEnd => exact bind_eq_ok_iff.mpr ⟨_, lift_of_ok toEnd, rfl⟩
      | @more _ _ after _ pair pairs member others =>
        have hshorter := Nat.lt_of_lt_of_le member.length_lt (Nat.le_of_lt_succ hsteps)
        obtain @⟨key, value, body, afterKey, afterColon, text, _, toKey, readKey, colon, quote,
          readValue⟩ := member
        have hstring := string_eq_ok_iff.mpr ⟨text, quote, readValue⟩
        have hvalued : valued string afterKey = .ok (value, after) :=
          bind_eq_ok_iff.mpr ⟨_, lift_of_ok colon, hstring⟩
        have readOthers := (ih hshorter).mpr ⟨pairs, others, rfl⟩
        refine bind_eq_ok_iff.mpr ⟨_, lift_of_ok toKey, ?_⟩
        refine bind_eq_ok_iff.mpr ⟨_, lift_of_ok readKey, ?_⟩
        refine bind_eq_ok_iff.mpr ⟨(take s key value, after), ?_, readOthers⟩
        rw [hmember]
        exact bind_eq_ok_iff.mpr ⟨_, hvalued, rfl⟩

end Decoder

/-! ## Whole texts -/

/-- The members of an object that is a whole text, in the order of the text. -/
def membersOf (text : String) : Except Fault (List (String × Json)) :=
  match skipSpace text.toList with
  | '\x7b' :: rest => do
    let (members, rest) ← readMembersWith .keep (2 * text.toList.length + 1) 1 true rest
    readEnd rest
    return members
  | rest => .error (.upon .noValue rest)

/-- **The object of the members** is what the text is read as. -/
theorem read_of_membersOf {text : String} {members : List (String × Json)}
    (h : membersOf text = .ok members) : read text = .ok (.ofMembers members) := by
  unfold membersOf at h
  split at h
  · rename_i body hbody
    obtain ⟨⟨members', rest⟩, hmembers, h⟩ := bind_eq_ok_iff.mp h
    obtain ⟨_, hend, h⟩ := bind_eq_ok_iff.mp h
    obtain rfl := Except.ok.inj h
    have hvalue : readValue .keep text.toList = .ok (.ofMembers members', rest) := by
      rw [readValue, readValueWith, hbody]
      exact bind_eq_ok_iff.mpr ⟨_, hmembers, rfl⟩
    have hdocument : readDocument text.toList = .ok (.ofMembers members') :=
      bind_eq_ok_iff.mpr ⟨_, hvalue, bind_eq_ok_iff.mpr ⟨_, hend, rfl⟩⟩
    rw [read, hdocument]
  · cases h

theorem membersOf_eq_ok_iff {text : String} {pairs : List (String × String)} :
    membersOf text = .ok (stringMembers pairs) ↔
      ∃ body rest, skipSpace text.toList = '\x7b' :: body ∧
        StringMembers true body pairs rest ∧ readEnd rest = .ok () := by
  constructor
  · intro h
    unfold membersOf at h
    split at h
    · rename_i body hbody
      obtain ⟨⟨members, rest⟩, hmembers, h⟩ := bind_eq_ok_iff.mp h
      obtain ⟨_, hend, h⟩ := bind_eq_ok_iff.mp h
      obtain rfl := Except.ok.inj h
      have hlength := (cons_suffix_of_skipSpace hbody).length_le
      rw [List.length_cons] at hlength
      exact ⟨body, rest, hbody, (readMembersWith_eq_ok_iff (by omega)).mp hmembers, hend⟩
    · cases h
  · rintro ⟨body, rest, hbody, hmembers, hend⟩
    have hlength := (cons_suffix_of_skipSpace hbody).length_le
    rw [List.length_cons] at hlength
    have hread : readMembersWith .keep (2 * text.toList.length + 1) 1 true body =
        .ok (stringMembers pairs, rest) :=
      (readMembersWith_eq_ok_iff (by omega)).mpr hmembers
    rw [membersOf, hbody]
    exact bind_eq_ok_iff.mpr ⟨_, hread, bind_eq_ok_iff.mpr ⟨_, hend, rfl⟩⟩

end FlowDoc.Json
