import FlowDoc.Json.Decode
import FlowDoc.Proofs.Json.Layout

/-!
# Decoders read what was written

A decoder reads a text as a value when it yields this value and the rest wherever the text stands,
behind blanks and before anything that no number goes on into. Strings and words are read so from
their texts; arrays are when their items are, and objects when each member is taken in by the state
that the members before it led to.

## Main definitions

* `Reads`: a decoder reads a text as a value
* `Takes`: the states before and after the members of an object

## Main results

* `reads_string`, `reads_word`, `reads_nullable`, `reads_list`: the decoders and their texts
* `once_of_reads`: the value of a member that stands once
* `members_enclosed`: the members of an object
* `all_of_reads`: a whole text
* `reads_array`, `reads_object`: arrays and records in a layout
-/

namespace FlowDoc

namespace Json.Decoder

variable {α σ : Type}

/-- The decoder reads the text as the value, behind any blanks and whatever follows. -/
structure Reads (d : Decoder α) (text : List Char) (a : α) : Prop where
  solid : Solid text
  decode : ∀ {cs rest : List Char}, skipSpace cs = text ++ rest → EndsNumber rest →
    d cs = .ok (a, rest)

section Reads

variable {d : Decoder α} {text : List Char} {a : α}

theorem Reads.decode_append (h : Reads d text a) {rest : List Char} (hrest : EndsNumber rest) :
    d (text ++ rest) = .ok (a, rest) :=
  h.decode (h.solid.skipSpace_eq spaces_nil rest) hrest

/-- **A whole text is decoded.** -/
theorem all_of_reads (h : Reads d text a) : all d (String.ofList text) = .ok a := by
  have hend : EndsNumber [] := fun c hc => nomatch hc
  have hdecode := h.decode_append hend
  rw [List.append_nil] at hdecode
  rw [all, String.toList_ofList]
  exact bind_eq_ok_iff.mpr ⟨_, hdecode, rfl⟩

end Reads

/-! ## Strings and words -/

theorem lift_of_ok {outcome : Except Fault α} {a : α} (h : outcome = .ok a) :
    lift outcome = .ok a := by
  rw [h]
  rfl

theorem reads_string (s : String) : Reads string (quoted s) s where
  solid := ⟨'\"', _, rfl, by decide, by decide⟩
  decode {cs rest} hcs _ := by
    have hquoted : quoted s ++ rest = '\"' :: (s.toList.flatMap escapeChar ++ '\"' :: rest) := by
      simp [quoted]
    rw [string, hcs, hquoted]
    exact lift_of_ok (readString_escaped s rest)

theorem reads_word {n : Nat} (h : n < wordBound) : Reads word (Nat.toDigits 10 n) n := by
  obtain ⟨d, ds, hds⟩ := List.exists_cons_of_ne_nil (Nat.toDigits_ne_nil (b := 10) (n := n))
  have hd : d.isDigit = true :=
    Nat.isDigit_of_mem_toDigits (by decide) (Nat.le_refl 10) (by rw [hds]; exact List.mem_cons_self)
  refine ⟨⟨d, ds, hds, ?_, ?_⟩, fun {cs rest} hcs hrest => ?_⟩
  · -- A blank would end the number before it starts.
    by_contra hspace
    have hends := EndsNumber.of_isSpace (c := d) (by simpa using hspace) [] d rfl
    rw [hends.1] at hd
    cases hd
  · rintro rfl
    exact absurd hd (by decide)
  · have hread := readNumber_toDigits h hrest
    rw [hds, List.cons_append] at hread hcs
    rw [word, hcs]
    dsimp only
    rw [if_pos hd]
    exact bind_eq_ok_iff.mpr ⟨_, lift_of_ok hread, rfl⟩

/-- A string where nothing might stand. -/
theorem reads_nullable (s : String) : Reads (nullable string) (quoted s) (some s) where
  solid := (reads_string s).solid
  decode {cs rest} hcs hrest := by
    have hstring : string (quoted s ++ rest) = .ok (s, rest) :=
      (reads_string s).decode_append hrest
    rw [nullable, hcs]
    exact bind_eq_ok_iff.mpr ⟨_, hstring, rfl⟩

/-! ## Containers -/

section Containers

variable {gap last : List Char}

/-- No number goes on into what follows a part of a container. -/
theorem endsNumber_following (gap : List Char) (hlast : Spaces last) {closing : Char}
    (hclosing : closing = ']' ∨ closing = '\x7d') (parts : List (List Char)) (rest : List Char) :
    EndsNumber (following gap last closing parts ++ rest) := by
  cases parts with
  | nil =>
    rw [following, List.append_assoc]
    refine EndsNumber.append hlast ?_
    intro c hc
    obtain rfl : closing = c := Option.some.inj hc
    rcases hclosing with rfl | rfl
    · decide
    · decide
  | cons part parts =>
    intro c hc
    obtain rfl : ',' = c := Option.some.inj hc
    decide

variable (hgap : Spaces gap) (hlast : Spaces last)

include hgap hlast

theorem items_following {item : Decoder α} {parts : List (List Char)} {as : List α}
    (h : List.Forall₂ (Reads item) parts as) {fuel : Nat} (hfuel : parts.length < fuel)
    (rest : List Char) :
    items item fuel false (following gap last ']' parts ++ rest) = .ok (as, rest) := by
  induction h generalizing fuel with
  | nil =>
    obtain ⟨fuel, rfl⟩ := Nat.exists_eq_succ_of_ne_zero (Nat.ne_of_gt hfuel)
    have hend : readToItem false (last ++ ']' :: rest) = .ok (false, rest) := by
      rw [readToItem, skipSpace_append hlast, skipSpace_cons (by decide)]
      rfl
    rw [following, List.append_assoc, List.singleton_append]
    exact bind_eq_ok_iff.mpr ⟨_, lift_of_ok hend, rfl⟩
  | @cons part a parts as hpart _ ih =>
    obtain ⟨fuel, rfl⟩ :=
      Nat.exists_eq_succ_of_ne_zero (Nat.ne_of_gt (Nat.zero_lt_of_lt hfuel))
    have hnext := (readToItem_solid hpart.solid hgap (following gap last ']' parts ++ rest)).2
    have hitem := hpart.decode_append (endsNumber_following gap hlast (.inl rfl) parts rest)
    have hrest := ih (Nat.lt_of_succ_lt_succ hfuel)
    rw [following]
    simp only [List.cons_append, List.append_assoc]
    refine bind_eq_ok_iff.mpr ⟨_, lift_of_ok hnext, ?_⟩
    refine bind_eq_ok_iff.mpr ⟨_, hitem, ?_⟩
    exact bind_eq_ok_iff.mpr ⟨_, hrest, rfl⟩

theorem items_enclosed {item : Decoder α} {parts : List (List Char)} {as : List α}
    (h : List.Forall₂ (Reads item) parts as) {fuel : Nat} (hfuel : parts.length < fuel)
    (rest : List Char) :
    items item fuel true (enclosed gap last ']' parts ++ rest) = .ok (as, rest) := by
  obtain ⟨fuel, rfl⟩ := Nat.exists_eq_succ_of_ne_zero (Nat.ne_of_gt (Nat.zero_lt_of_lt hfuel))
  cases h with
  | nil => rfl
  | @cons part a parts as hpart hparts =>
    have hnext := (readToItem_solid hpart.solid hgap (following gap last ']' parts ++ rest)).1
    have hitem := hpart.decode_append (endsNumber_following gap hlast (.inl rfl) parts rest)
    have hrest := items_following hgap hlast hparts (Nat.lt_of_succ_lt_succ hfuel) rest
    rw [enclosed]
    simp only [List.append_assoc]
    refine bind_eq_ok_iff.mpr ⟨_, lift_of_ok hnext, ?_⟩
    refine bind_eq_ok_iff.mpr ⟨_, hitem, ?_⟩
    exact bind_eq_ok_iff.mpr ⟨_, hrest, rfl⟩

/-- **An array is read when its items are.** -/
theorem reads_list {item : Decoder α} {parts : List (List Char)} {as : List α}
    (h : List.Forall₂ (Reads item) parts as) :
    Reads (list item) ('[' :: enclosed gap last ']' parts) as where
  solid := ⟨'[', _, rfl, by decide, by decide⟩
  decode {cs rest} hcs _ := by
    have hlength := length_le_enclosed gap last ']' parts
    rw [list, hcs]
    have hfuel : parts.length < (enclosed gap last ']' parts ++ rest).length + 1 := by
      rw [List.length_append]
      omega
    exact items_enclosed hgap hlast h hfuel rest

/-! ## Objects -/

omit hgap hlast

/-- The states before and after some members of an object: each member is its key and what stands
behind it, which the state takes in. -/
inductive Takes (member : σ → String → Decoder σ) : σ → List (List Char) → σ → Prop
  | nil (s : σ) : Takes member s [] s
  | cons {s s' s'' : σ} {key : String} {value : List Char} {parts : List (List Char)}
      (step : ∀ rest, EndsNumber rest → member s key (value ++ rest) = .ok (s', rest))
      (more : Takes member s' parts s'') : Takes member s ((quoted key ++ value) :: parts) s''

theorem Takes.append {member : σ → String → Decoder σ} {s s' s'' : σ}
    {parts parts' : List (List Char)} (h : Takes member s parts s')
    (h' : Takes member s' parts' s'') : Takes member s (parts ++ parts') s'' := by
  induction h with
  | nil => exact h'
  | cons step _ ih => exact .cons step (ih h')

theorem readToKey_quoted (key : String) (hgap : Spaces gap) (rest : List Char) :
    readToKey true (gap ++ (quoted key ++ rest)) =
        .ok (true, key.toList.flatMap escapeChar ++ '\"' :: rest) ∧
      readToKey false (',' :: (gap ++ (quoted key ++ rest))) =
        .ok (true, key.toList.flatMap escapeChar ++ '\"' :: rest) := by
  have hskip := (reads_string key).solid.skipSpace_eq hgap rest
  have hquoted : quoted key ++ rest =
      '\"' :: (key.toList.flatMap escapeChar ++ '\"' :: rest) := by
    simp [quoted]
  rw [hquoted] at hskip ⊢
  constructor
  · rw [readToKey, hskip]
    rfl
  · rw [readToKey, skipSpace_cons (by decide)]
    dsimp only
    rw [if_neg (by decide), if_neg Bool.false_ne_true, if_pos rfl, hskip]
    rfl

include hgap hlast

variable {member : σ → String → Decoder σ} {s s' : σ} {parts : List (List Char)}

theorem membersFrom_following (h : Takes member s parts s') {fuel : Nat}
    (hfuel : parts.length < fuel) (rest : List Char) :
    membersFrom member fuel false s (following gap last '\x7d' parts ++ rest) = .ok (s', rest) := by
  induction h generalizing fuel with
  | nil s =>
    obtain ⟨fuel, rfl⟩ := Nat.exists_eq_succ_of_ne_zero (Nat.ne_of_gt hfuel)
    have hend : readToKey false (last ++ '\x7d' :: rest) = .ok (false, rest) := by
      rw [readToKey, skipSpace_append hlast, skipSpace_cons (by decide)]
      rfl
    rw [following, List.append_assoc, List.singleton_append]
    exact bind_eq_ok_iff.mpr ⟨_, lift_of_ok hend, rfl⟩
  | @cons s s' s'' key value parts step more ih =>
    obtain ⟨fuel, rfl⟩ :=
      Nat.exists_eq_succ_of_ne_zero (Nat.ne_of_gt (Nat.zero_lt_of_lt hfuel))
    have hnext := (readToKey_quoted key hgap
      (value ++ (following gap last '\x7d' parts ++ rest))).2
    have hmember := step _ (endsNumber_following gap hlast (.inr rfl) parts rest)
    have hrest := ih (Nat.lt_of_succ_lt_succ hfuel)
    rw [following]
    simp only [List.cons_append, List.append_assoc]
    refine bind_eq_ok_iff.mpr ⟨_, lift_of_ok hnext, ?_⟩
    refine bind_eq_ok_iff.mpr ⟨_, lift_of_ok (readString_escaped key _), ?_⟩
    exact bind_eq_ok_iff.mpr ⟨_, hmember, hrest⟩

/-- **The members of an object are taken in one by one.** -/
theorem members_enclosed (h : Takes member s parts s') (rest : List Char) :
    members s member (enclosed gap last '\x7d' parts ++ rest) = .ok (s', rest) := by
  have hlength := length_le_enclosed gap last '\x7d' parts
  rw [members]
  cases h with
  | nil s => rfl
  | @cons s s' s'' key value parts step more =>
    have hnext := (readToKey_quoted key hgap
      (value ++ (following gap last '\x7d' parts ++ rest))).1
    have hmember := step _ (endsNumber_following gap hlast (.inr rfl) parts rest)
    have hfuel : parts.length <
        (enclosed gap last '\x7d' ((quoted key ++ value) :: parts) ++ rest).length := by
      rw [List.length_cons] at hlength
      rw [List.length_append]
      omega
    have hrest := membersFrom_following hgap hlast more hfuel rest
    rw [enclosed] at hrest ⊢
    simp only [List.append_assoc] at hrest ⊢
    refine bind_eq_ok_iff.mpr ⟨_, lift_of_ok hnext, ?_⟩
    refine bind_eq_ok_iff.mpr ⟨_, lift_of_ok (readString_escaped key _), ?_⟩
    exact bind_eq_ok_iff.mpr ⟨_, hmember, hrest⟩

omit hgap hlast

/-- The value of a member, behind its colon. -/
theorem valued_of_reads {d : Decoder α} {text : List Char} {a : α} (h : Reads d text a)
    (hgap : Spaces gap) {rest : List Char} (hrest : EndsNumber rest) :
    valued d (':' :: (gap ++ text) ++ rest) = .ok (a, rest) := by
  have hcolon : readColon (':' :: (gap ++ (text ++ rest))) = .ok (gap ++ (text ++ rest)) := by
    rw [readColon, skipSpace_cons (by decide)]
    rfl
  rw [List.cons_append, List.append_assoc]
  exact bind_eq_ok_iff.mpr ⟨_, lift_of_ok hcolon, h.decode (h.solid.skipSpace_eq hgap rest) hrest⟩

/-- The value of a member that did not stand before. -/
theorem once_of_reads {d : Decoder α} {text : List Char} {a : α} (h : Reads d text a)
    (hgap : Spaces gap) {rest : List Char} (hrest : EndsNumber rest) :
    once none d (':' :: (gap ++ text) ++ rest) = .ok (some a, rest) :=
  bind_eq_ok_iff.mpr ⟨_, valued_of_reads h hgap hrest, rfl⟩

/-- A record is read from an object when its members are. -/
theorem reads_record {ofMembers ofFields : Decoder α} {text : List Char} {a : α}
    (h : ∀ rest, ofMembers (text ++ rest) = .ok (a, rest)) :
    Reads (record ofMembers ofFields) ('\x7b' :: text) a where
  solid := ⟨'\x7b', _, rfl, by decide, by decide⟩
  decode {cs rest} hcs _ := by
    rw [record, hcs]
    exact h rest

end Containers

/-! ## Values in a layout -/

section Layout

variable (l : Layout) (level : Nat)

theorem reads_natural {n : Nat} (h : n < wordBound) :
    Reads word (l.write level (.natural n)) n := by
  rw [l.write_natural]
  exact reads_word h

theorem reads_text (s : String) : Reads string (l.write level (.string s)) s := by
  rw [l.write_string]
  exact reads_string s

theorem reads_optional (s : String) :
    Reads (nullable string) (l.write level (.string s)) (some s) := by
  rw [l.write_string]
  exact reads_nullable s

theorem reads_array {item : Decoder α} {f : α → Json} {as : List α}
    (h : ∀ a ∈ as, Reads item (l.write (level + 1) (f a)) a) :
    Reads (list item) (l.write level (.array (as.map f))) as := by
  rw [l.write_array, List.map_map]
  refine reads_list (l.spaces_gap _) (l.spaces_gap _) ?_
  rw [List.forall₂_map_left_iff, List.forall₂_same]
  exact h

variable {member : σ → String → Decoder σ} {s s' s'' : σ}

/-- The next member of an object, which did not stand before. -/
theorem Takes.field {d : Decoder α} {json : Json} {a : α} {key : String}
    {members : List (String × Json)}
    {take : Option α × List Char → Except DecodeError (σ × List Char)}
    (h : Reads d (l.write level json) a) (hstep : ∀ cs, member s key cs = once none d cs >>= take)
    (htake : ∀ rest, take (some a, rest) = .ok (s', rest))
    (more : Takes member s' (members.map (l.member level)) s'') :
    Takes member s (((key, json) :: members).map (l.member level)) s'' := by
  refine .cons (fun rest hrest => ?_) more
  rw [hstep]
  exact bind_eq_ok_iff.mpr ⟨_, once_of_reads h l.spaces_afterColon hrest, htake rest⟩

/-- A record is read when its members are, one after the other. -/
theorem reads_object {ofFields : Decoder α} {members : List (String × Json)} {a : α}
    {make : σ × List Char → Except DecodeError (α × List Char)} (s' : σ)
    (h : Takes member s (members.map (l.member (level + 1))) s')
    (hmake : ∀ rest, make (s', rest) = .ok (a, rest)) :
    Reads (record (fun cs => Decoder.members s member cs >>= make) ofFields)
      (l.write level (.object members)) a := by
  rw [l.write_object]
  refine reads_record fun rest => bind_eq_ok_iff.mpr ⟨_, ?_, hmake rest⟩
  exact members_enclosed (l.spaces_gap _) (l.spaces_gap _) h rest

end Layout

end Json.Decoder

end FlowDoc
