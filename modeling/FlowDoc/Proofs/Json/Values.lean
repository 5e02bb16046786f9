import FlowDoc.Proofs.Json.Decoding
import FlowDoc.Proofs.Json.Spelling

/-!
# Values are read back

A value that is written in a layout is read back, up to the order of the members of its objects: the
reader puts these in the order of their keys. The bound of the reader is no less than the length of
the text, which is no less than the number of its parts, so it is never met.

## Main definitions

* `ReadBack`, `Readable`: values whose texts are read as values
* `ReadsAs`: the reader of values reads a text as a value
* `Layout.WritesScalars`: a layout with the texts of scalars

## Main results

* `readsAs_array`, `readsAs_object`: arrays are read when their items are, and objects when their
  members are
* `exists_readsAs_write`: a value is read back
* `exists_read_write`: so is a whole document
-/

namespace FlowDoc.Json

/-! ## Texts that are read as values -/

/-- The reader of values reads the text as the value, behind any blanks and whatever follows, when
its bound is no less than the length of the text. -/
structure ReadsAs (depth : Nat) (text : List Char) (json : Json) : Prop where
  solid : Solid text
  read : ∀ {fuel : Nat} {cs rest : List Char}, text.length ≤ fuel → skipSpace cs = text ++ rest →
    EndsNumber rest → readValueWith .keep fuel depth cs = .ok (json, rest)

section Scalars

variable {depth : Nat}

/-- A bound that is no less than the length of a text is not used up. -/
theorem Solid.exists_fuel {text : List Char} (h : Solid text) {fuel : Nat}
    (hfuel : text.length ≤ fuel) : ∃ n, fuel = n + 1 := by
  obtain ⟨c, cs, rfl, -⟩ := h
  exact Nat.exists_eq_succ_of_ne_zero (by rw [List.length_cons] at hfuel; omega)

theorem readsAs_null : ReadsAs depth "null".toList .null where
  solid := ⟨'n', _, rfl, by decide, by decide⟩
  read {fuel cs rest} hfuel hcs _ := by
    obtain ⟨fuel, rfl⟩ := Nat.exists_eq_succ_of_ne_zero (Nat.ne_of_gt (Nat.zero_lt_of_lt hfuel))
    rw [readValueWith, hcs]
    rfl

theorem readsAs_bool (b : Bool) : ReadsAs depth (boolText b).toList (.bool b) := by
  have hsolid : Solid (boolText b).toList := by
    cases b with
    | false => exact ⟨'f', _, rfl, by decide, by decide⟩
    | true => exact ⟨'t', _, rfl, by decide, by decide⟩
  refine ⟨hsolid, fun {fuel cs rest} hfuel hcs _ => ?_⟩
  obtain ⟨fuel, rfl⟩ := hsolid.exists_fuel hfuel
  rw [readValueWith, hcs]
  cases b <;> rfl

theorem readsAs_string (s : String) : ReadsAs depth (quoted s) (.string s) where
  solid := (Decoder.reads_string s).solid
  read {fuel cs rest} hfuel hcs _ := by
    obtain ⟨fuel, rfl⟩ := (Decoder.reads_string s).solid.exists_fuel hfuel
    have hquoted : quoted s ++ rest = '\"' :: (s.toList.flatMap escapeChar ++ '\"' :: rest) := by
      simp [quoted]
    rw [readValueWith, hcs, hquoted]
    exact bind_eq_ok_iff.mpr ⟨_, readString_escaped s rest, rfl⟩

/-- The number is read back from its text, whatever follows it. -/
structure ReadBack (n : Number) : Prop where
  starts : ∃ c cs, (numberText n).toList = c :: cs ∧ (c = '-' ∨ c.isDigit = true)
  read : ∀ rest, EndsNumber rest →
    readNumber .keep ((numberText n).toList ++ rest) = .ok (n, rest)

/-- Every natural number of 64 bits is. -/
theorem readBack_natural {n : Nat} (h : n < wordBound) : ReadBack (.natural n) := by
  have htext : (numberText (.natural n)).toList = Nat.toDigits 10 n := by
    rw [numberText, Nat.toString_eq_repr, Nat.toList_repr]
  obtain ⟨d, ds, hds⟩ := List.exists_cons_of_ne_nil (Nat.toDigits_ne_nil (b := 10) (n := n))
  have hd : d.isDigit = true :=
    Nat.isDigit_of_mem_toDigits (by decide) (Nat.le_refl 10) (by rw [hds]; exact List.mem_cons_self)
  refine ⟨⟨d, ds, by rw [htext, hds], .inr hd⟩, fun rest hrest => ?_⟩
  rw [htext]
  exact readNumber_toDigits h hrest

/-- What a number starts with starts no other value. -/
theorem ne_of_starts {c : Char} (h : c = '-' ∨ c.isDigit = true) :
    ∀ d ∈ [' ', '\n', '\t', '\r', ']', 'n', 't', 'f', '\"', '[', '\x7b'], c ≠ d := by
  rintro d hd rfl
  revert hd
  rcases h with rfl | hdigit
  · decide
  · intro hd
    have hnone : ∀ d ∈ [' ', '\n', '\t', '\r', ']', 'n', 't', 'f', '\"', '[', '\x7b'],
        d.isDigit = false := by simp
    rw [hnone c hd] at hdigit
    cases hdigit

theorem readsAs_number {n : Number} (h : ReadBack n) :
    ReadsAs depth (numberText n).toList (.number n) := by
  obtain ⟨c, ds, htext, hc⟩ := h.starts
  have hne := ne_of_starts hc
  have hspace : isSpace c = false := by
    simp [isSpace, hne]
  have hsolid : Solid (numberText n).toList := ⟨c, ds, htext, hspace, hne ']' (by decide)⟩
  refine ⟨hsolid, fun {fuel cs rest} hfuel hcs hrest => ?_⟩
  obtain ⟨fuel, rfl⟩ := hsolid.exists_fuel hfuel
  have hread := h.read rest hrest
  rw [htext, List.cons_append] at hread hcs
  rw [readValueWith, hcs]
  split
  case h_1 heq => cases heq
  case h_8 heq =>
    obtain ⟨rfl, rfl⟩ := List.cons.inj heq
    rw [if_pos hc]
    exact bind_eq_ok_iff.mpr ⟨_, hread, rfl⟩
  -- The other cases are those of the values that start with another character.
  all_goals
    rename_i heq
    exact absurd (List.cons.inj heq).1 (hne _ (by decide))

end Scalars

/-! ## Containers -/

section Containers

variable {depth : Nat} {gap last : List Char} (hgap : Spaces gap) (hlast : Spaces last)

include hlast

/-- One item, and what follows it. -/
theorem readItemsWith_of_readsAs {part cs rest : List Char} {json : Json} {items : List Json}
    {fuel : Nat} {first : Bool} {parts : List (List Char)} (hpart : ReadsAs depth part json)
    (hnext : readToItem first cs = .ok (true, part ++ (following gap last ']' parts ++ rest)))
    (hfuel : part.length ≤ fuel)
    (hrest : readItemsWith .keep fuel depth false (following gap last ']' parts ++ rest) =
      .ok (items, rest)) :
    readItemsWith .keep (fuel + 1) depth first cs = .ok (json :: items, rest) := by
  have hends := Decoder.endsNumber_following gap hlast (.inl rfl) parts rest
  have hskip := hpart.solid.skipSpace_eq spaces_nil (following gap last ']' parts ++ rest)
  have hitem := hpart.read hfuel hskip hends
  rw [readItemsWith]
  refine bind_eq_ok_iff.mpr ⟨_, hnext, ?_⟩
  refine bind_eq_ok_iff.mpr ⟨_, hitem, ?_⟩
  exact bind_eq_ok_iff.mpr ⟨_, hrest, rfl⟩

include hgap

theorem readItemsWith_following {parts : List (List Char)} {items : List Json}
    (h : List.Forall₂ (ReadsAs depth) parts items) {fuel : Nat}
    (hfuel : (following gap last ']' parts).length ≤ fuel) (rest : List Char) :
    readItemsWith .keep fuel depth false (following gap last ']' parts ++ rest) =
      .ok (items, rest) := by
  -- Each item has a comma before it, so what the bound loses with an item is there in the text.
  induction h generalizing fuel with
  | nil =>
    rw [following, List.length_append, List.length_singleton] at hfuel
    obtain ⟨fuel, rfl⟩ := Nat.exists_eq_succ_of_ne_zero (n := fuel) (by omega)
    have hend : readToItem false (last ++ ']' :: rest) = .ok (false, rest) := by
      rw [readToItem, skipSpace_append hlast, skipSpace_cons (by decide)]
      rfl
    rw [following, List.append_assoc, List.singleton_append, readItemsWith]
    exact bind_eq_ok_iff.mpr ⟨_, hend, rfl⟩
  | @cons part json parts items hpart _ ih =>
    rw [following, List.length_cons, List.length_append, List.length_append] at hfuel
    obtain ⟨fuel, rfl⟩ := Nat.exists_eq_succ_of_ne_zero (n := fuel) (by omega)
    have hnext := (readToItem_solid hpart.solid hgap (following gap last ']' parts ++ rest)).2
    rw [following]
    simp only [List.cons_append, List.append_assoc]
    exact readItemsWith_of_readsAs hlast hpart hnext (by omega) (ih (by omega))

/-- **An array is read when its items are.** -/
theorem readsAs_array {parts : List (List Char)} {items : List Json} (hdepth : depth < depthBound)
    (h : List.Forall₂ (ReadsAs (depth + 1)) parts items) :
    ReadsAs depth ('[' :: enclosed gap last ']' parts) (.array items) where
  solid := ⟨'[', _, rfl, by decide, by decide⟩
  read {fuel cs rest} hfuel hcs _ := by
    rw [List.length_cons] at hfuel
    obtain ⟨fuel, rfl⟩ := Nat.exists_eq_succ_of_ne_zero (n := fuel) (by omega)
    have hopen : ¬ (Purpose.keep = .keep ∧ depthBound ≤ depth) :=
      fun h => absurd h.2 (Nat.not_le.mpr hdepth)
    have hitems : readItemsWith .keep fuel (depth + 1) true (enclosed gap last ']' parts ++ rest) =
        .ok (items, rest) := by
      cases h with
      | nil =>
        obtain ⟨fuel, rfl⟩ := Nat.exists_eq_succ_of_ne_zero (n := fuel)
          (by rw [enclosed, List.length_singleton] at hfuel; omega)
        rw [readItemsWith]
        rfl
      | @cons part json parts items hpart hparts =>
        obtain ⟨c, more, hc, -⟩ := hpart.solid
        have hlength := length_le_following gap last ']' parts
        have hpos : 0 < part.length := by rw [hc]; exact Nat.succ_pos _
        rw [enclosed, List.length_append, List.length_append] at hfuel
        obtain ⟨fuel, rfl⟩ := Nat.exists_eq_succ_of_ne_zero (n := fuel) (by omega)
        have hnext := (readToItem_solid hpart.solid hgap (following gap last ']' parts ++ rest)).1
        have hfollowing : (following gap last ']' parts).length ≤ fuel := by omega
        have hrest := readItemsWith_following hgap hlast hparts hfollowing rest
        rw [enclosed]
        simp only [List.append_assoc]
        exact readItemsWith_of_readsAs hlast hpart hnext (by omega) hrest
    rw [readValueWith, hcs, List.cons_append]
    exact (if_neg hopen).trans (bind_eq_ok_iff.mpr ⟨_, hitems, rfl⟩)

omit hgap hlast

/-- The text of a member: its key, and its value behind a colon and blanks. -/
def memberText (afterColon : List Char) (field : String × List Char) : List Char :=
  quoted field.1 ++ (':' :: (afterColon ++ field.2))

/-- The text of a member is read as the member. -/
def ReadsAsMember (depth : Nat) (field : String × List Char) (m : String × Json) : Prop :=
  field.1 = m.1 ∧ ReadsAs depth field.2 m.2

variable {afterColon : List Char} (hcolon : Spaces afterColon)

include hlast hcolon

/-- One member, and what follows it. -/
theorem readMembersWith_of_readsAs {field : String × List Char} {m : String × Json}
    {cs rest : List Char} {members : List (String × Json)} {fuel : Nat} {first : Bool}
    {parts : List (List Char)} (hfield : ReadsAsMember depth field m)
    (hnext : readToKey first cs = .ok (true, field.1.toList.flatMap escapeChar ++ '\"' ::
      (':' :: (afterColon ++ (field.2 ++ (following gap last '\x7d' parts ++ rest))))))
    (hfuel : field.2.length ≤ fuel)
    (hrest : readMembersWith .keep fuel depth false (following gap last '\x7d' parts ++ rest) =
      .ok (members, rest)) :
    readMembersWith .keep (fuel + 1) depth first cs = .ok (m :: members, rest) := by
  obtain ⟨key, text⟩ := field
  obtain ⟨_, json⟩ := m
  obtain ⟨rfl, hread⟩ := hfield
  have hends := Decoder.endsNumber_following gap hlast (.inr rfl) parts rest
  have hskip := hread.solid.skipSpace_eq hcolon (following gap last '\x7d' parts ++ rest)
  have hvalue := hread.read hfuel hskip hends
  have hcolon :
      readColon (':' :: (afterColon ++ (text ++ (following gap last '\x7d' parts ++ rest)))) =
        .ok (afterColon ++ (text ++ (following gap last '\x7d' parts ++ rest))) := by
    rw [readColon, skipSpace_cons (by decide)]
    rfl
  rw [readMembersWith]
  refine bind_eq_ok_iff.mpr ⟨_, hnext, ?_⟩
  refine bind_eq_ok_iff.mpr ⟨_, readString_escaped key _, ?_⟩
  refine bind_eq_ok_iff.mpr ⟨_, hcolon, ?_⟩
  refine bind_eq_ok_iff.mpr ⟨_, hvalue, ?_⟩
  exact bind_eq_ok_iff.mpr ⟨_, hrest, rfl⟩

include hgap

theorem readMembersWith_following {fields : List (String × List Char)}
    {members : List (String × Json)} (h : List.Forall₂ (ReadsAsMember depth) fields members)
    {fuel : Nat}
    (hfuel : (following gap last '\x7d' (fields.map (memberText afterColon))).length ≤ fuel)
    (rest : List Char) :
    readMembersWith .keep fuel depth false
      (following gap last '\x7d' (fields.map (memberText afterColon)) ++ rest) =
        .ok (members, rest) := by
  induction h generalizing fuel with
  | nil =>
    rw [List.map_nil, following, List.length_append, List.length_singleton] at hfuel
    obtain ⟨fuel, rfl⟩ := Nat.exists_eq_succ_of_ne_zero (n := fuel) (by omega)
    have hend : readToKey false (last ++ '\x7d' :: rest) = .ok (false, rest) := by
      rw [readToKey, skipSpace_append hlast, skipSpace_cons (by decide)]
      rfl
    rw [List.map_nil, following, List.append_assoc, List.singleton_append, readMembersWith]
    exact bind_eq_ok_iff.mpr ⟨_, hend, rfl⟩
  | @cons field m fields members hfield _ ih =>
    rw [List.map_cons, following, List.length_cons, List.length_append, List.length_append,
      memberText, List.length_append, List.length_cons, List.length_append] at hfuel
    obtain ⟨fuel, rfl⟩ := Nat.exists_eq_succ_of_ne_zero (n := fuel) (by omega)
    have hnext := (Decoder.readToKey_quoted field.1 hgap (':' :: (afterColon ++ (field.2 ++
      (following gap last '\x7d' (fields.map (memberText afterColon)) ++ rest))))).2
    rw [List.map_cons, following, memberText]
    simp only [List.cons_append, List.append_assoc]
    exact readMembersWith_of_readsAs hlast hcolon hfield hnext (by omega) (ih (by omega))

/-- **An object is read when its members are.** -/
theorem readsAs_object {fields : List (String × List Char)} {members : List (String × Json)}
    (hdepth : depth < depthBound)
    (h : List.Forall₂ (ReadsAsMember (depth + 1)) fields members) :
    ReadsAs depth ('\x7b' :: enclosed gap last '\x7d' (fields.map (memberText afterColon)))
      (.ofMembers members) where
  solid := ⟨'\x7b', _, rfl, by decide, by decide⟩
  read {fuel cs rest} hfuel hcs _ := by
    rw [List.length_cons] at hfuel
    obtain ⟨fuel, rfl⟩ := Nat.exists_eq_succ_of_ne_zero (n := fuel) (by omega)
    have hopen : ¬ (Purpose.keep = .keep ∧ depthBound ≤ depth) :=
      fun h => absurd h.2 (Nat.not_le.mpr hdepth)
    have hmembers : readMembersWith .keep fuel (depth + 1) true
        (enclosed gap last '\x7d' (fields.map (memberText afterColon)) ++ rest) =
          .ok (members, rest) := by
      cases h with
      | nil =>
        obtain ⟨fuel, rfl⟩ := Nat.exists_eq_succ_of_ne_zero (n := fuel)
          (by rw [List.map_nil, enclosed, List.length_singleton] at hfuel; omega)
        rw [readMembersWith]
        rfl
      | @cons field m fields members hfield hfields =>
        rw [List.map_cons, enclosed, List.length_append, List.length_append, memberText,
          List.length_append, List.length_cons, List.length_append] at hfuel
        obtain ⟨fuel, rfl⟩ := Nat.exists_eq_succ_of_ne_zero (n := fuel) (by omega)
        have hnext := (Decoder.readToKey_quoted field.1 hgap (':' :: (afterColon ++ (field.2 ++
          (following gap last '\x7d' (fields.map (memberText afterColon)) ++ rest))))).1
        have hlength := length_le_following gap last '\x7d' (fields.map (memberText afterColon))
        have hfollowing :
            (following gap last '\x7d' (fields.map (memberText afterColon))).length ≤ fuel := by
          omega
        have hrest := readMembersWith_following hgap hlast hcolon hfields hfollowing rest
        rw [List.map_cons, enclosed, memberText]
        simp only [List.append_assoc, List.cons_append]
        exact readMembersWith_of_readsAs hlast hcolon hfield hnext (by omega) hrest
    rw [readValueWith, hcs, List.cons_append]
    exact (if_neg hopen).trans (bind_eq_ok_iff.mpr ⟨_, hmembers, rfl⟩)

end Containers

/-! ## Values in a layout -/

/-- A value that is read back when it is written at a depth: its numbers are read back, and no part
of it is nested too deep. -/
inductive Readable : (depth : Nat) → Json → Prop
  | null (depth) : Readable depth .null
  | bool (depth b) : Readable depth (.bool b)
  | number {n} (depth) (h : ReadBack n) : Readable depth (.number n)
  | string (depth s) : Readable depth (.string s)
  | array {depth items} (hdepth : depth < depthBound)
    (h : ∀ item ∈ items, Readable (depth + 1) item) : Readable depth (.array items)
  | object {depth members} (hdepth : depth < depthBound)
    (h : ∀ m ∈ members, Readable (depth + 1) m.2) : Readable depth (.object members)

theorem readable_array_iff {depth : Nat} {items : List Json} :
    Readable depth (.array items) ↔
      depth < depthBound ∧ ∀ item ∈ items, Readable (depth + 1) item := by
  constructor
  · intro h
    cases h with
    | array hdepth h => exact ⟨hdepth, h⟩
  · exact fun h => .array h.1 h.2

theorem readable_object_iff {depth : Nat} {members : List (String × Json)} :
    Readable depth (.object members) ↔
      depth < depthBound ∧ ∀ m ∈ members, Readable (depth + 1) m.2 := by
  constructor
  · intro h
    cases h with
    | object hdepth h => exact ⟨hdepth, h⟩
  · exact fun h => .object h.1 h.2

/-- Other spellings and orders are read back as well. -/
theorem Respelled.readable {d d' : Json} (h : Respelled d d') {depth : Nat}
    (hd : Readable depth d) : Readable depth d' := by
  induction h generalizing depth with
  | refl => exact hd
  | trans _ _ ih ih' => exact ih' (ih hd)
  | key before value after =>
    simp only [readable_object_iff, List.forall_mem_append, List.forall_mem_cons] at hd ⊢
    exact hd
  | order h =>
    rw [readable_object_iff] at hd ⊢
    exact ⟨hd.1, fun m hm => hd.2 m (h.mem_iff.mpr hm)⟩
  | member before k after _ ih =>
    simp only [readable_object_iff, List.forall_mem_append, List.forall_mem_cons] at hd ⊢
    obtain ⟨hdepth, hbefore, hvalue, hafter⟩ := hd
    exact ⟨hdepth, hbefore, ih hvalue, hafter⟩
  | item before after _ ih =>
    simp only [readable_array_iff, List.forall_mem_append, List.forall_mem_cons] at hd ⊢
    obtain ⟨hdepth, hbefore, hvalue, hafter⟩ := hd
    exact ⟨hdepth, hbefore, ih hvalue, hafter⟩

/-- The layout has the texts of scalars at each level. -/
structure Layout.WritesScalars (l : Layout) : Prop where
  write_null (level : Nat) : l.write level .null = "null".toList
  write_bool (level : Nat) (b : Bool) : l.write level (.bool b) = (boolText b).toList
  write_number (level : Nat) (n : Number) : l.write level (.number n) = (numberText n).toList

theorem Layout.writesScalars_oneLine : oneLine.WritesScalars where
  write_null _ := congrArg String.toList (compact.eq_1)
  write_bool _ b := congrArg String.toList (compact.eq_2 b)
  write_number _ n := congrArg String.toList (compact.eq_3 n)

theorem Layout.writesScalars_manyLines : manyLines.WritesScalars where
  write_null level := congrArg String.toList (prettyAt.eq_1 level)
  write_bool level b := congrArg String.toList (prettyAt.eq_2 level b)
  write_number level n := congrArg String.toList (prettyAt.eq_3 level n)

theorem Layout.ofList_oneLine (d : Json) : String.ofList (oneLine.write 0 d) = d.compact :=
  String.ofList_toList

theorem Layout.ofList_manyLines (d : Json) : String.ofList (manyLines.write 0 d) = d.pretty :=
  String.ofList_toList

section Layout

variable {l : Layout} (hl : l.WritesScalars)

include hl

/-- **A value is read back**, up to the order of the members of its objects. -/
theorem exists_readsAs_write {depth : Nat} {d : Json} (h : Readable depth d) (hapart : KeysApart d)
    (level : Nat) : ∃ e, ReadsAs depth (l.write level d) e ∧ Respelled d e := by
  -- The depth and the level go down into the value together, though each starts where it may.
  induction h generalizing level with
  | null =>
    rw [hl.write_null]
    exact ⟨_, readsAs_null, .refl _⟩
  | bool depth b =>
    rw [hl.write_bool]
    exact ⟨_, readsAs_bool b, .refl _⟩
  | number depth h =>
    rw [hl.write_number]
    exact ⟨_, readsAs_number h, .refl _⟩
  | string depth s =>
    rw [l.write_string]
    exact ⟨_, readsAs_string s, .refl _⟩
  | @array depth items hdepth _ ih =>
    obtain ⟨es, hes⟩ := exists_forall₂ fun item hitem =>
      ih item hitem (keysApart_array_iff.mp hapart item hitem) (level + 1)
    have hread : List.Forall₂ (ReadsAs (depth + 1)) (items.map (l.write (level + 1))) es := by
      rw [List.forall₂_map_left_iff]
      exact hes.imp fun _ _ h => h.1
    rw [l.write_array]
    refine ⟨.array es, readsAs_array (l.spaces_gap _) (l.spaces_gap _) hdepth hread, ?_⟩
    exact respelled_items [] (hes.imp fun _ _ h => h.2)
  | @object depth members hdepth _ ih =>
    obtain ⟨hkeys, hvalues⟩ := keysApart_object_iff.mp hapart
    obtain ⟨es, hes⟩ : ∃ es, List.Forall₂ (fun (m e : String × Json) => m.1 = e.1 ∧
        ReadsAs (depth + 1) (l.write (level + 1) m.2) e.2 ∧ Respelled m.2 e.2) members es := by
      refine exists_forall₂ fun m hm => ?_
      obtain ⟨e, he⟩ := ih m hm (hvalues m hm) (level + 1)
      exact ⟨(m.1, e), rfl, he⟩
    have hread : List.Forall₂ (ReadsAsMember (depth + 1))
        (members.map fun m => (m.1, l.write (level + 1) m.2)) es := by
      rw [List.forall₂_map_left_iff]
      exact hes.imp fun _ _ h => ⟨h.1, h.2.1⟩
    have hobject : l.write level (.object members) =
        '\x7b' :: enclosed (l.gap (level + 1)) (l.gap level) '\x7d'
          ((members.map fun m => (m.1, l.write (level + 1) m.2)).map
            (memberText l.afterColon)) := by
      rw [l.write_object, List.map_map]
      rfl
    -- The keys are those of the members, so none is repeated.
    have hsame : members.map (·.1) = es.map (·.1) := by
      rw [← List.forall₂_eq_eq_eq, List.forall₂_map_left_iff, List.forall₂_map_right_iff]
      exact hes.imp fun _ _ h => h.1
    have hnodup : (es.map (·.1)).Nodup := by
      rw [← hsame]
      refine List.Nodup.of_map String.toLower ?_
      rwa [List.map_map]
    rw [hobject]
    refine ⟨.ofMembers es, readsAs_object (l.spaces_gap _) (l.spaces_gap _) l.spaces_afterColon
      hdepth hread, ?_⟩
    refine (respelled_members [] (hes.imp fun _ _ h => ⟨congrArg _ h.1, h.2.2⟩)).trans ?_
    exact .order (Text.byKey_perm hnodup).symm

/-- **A whole document is read back.** -/
theorem exists_read_write {d : Json} (h : Readable 0 d) (hapart : KeysApart d) :
    ∃ e, Json.read (String.ofList (l.write 0 d)) = .ok e ∧ Respelled d e := by
  obtain ⟨e, hread, he⟩ := exists_readsAs_write hl h hapart 0
  have hskip := hread.solid.skipSpace_eq spaces_nil []
  have hend : EndsNumber [] := fun c hc => by cases hc
  rw [List.nil_append, List.append_nil] at hskip
  have hvalue : readValue .keep (l.write 0 d) = .ok (e, []) := by
    refine hread.read (by omega) ?_ hend
    rw [List.append_nil, hskip]
  have hdocument : readDocument (l.write 0 d) = .ok e :=
    bind_eq_ok_iff.mpr ⟨_, hvalue, rfl⟩
  refine ⟨e, ?_, he⟩
  rw [Json.read, String.toList_ofList, hdocument]

end Layout

end FlowDoc.Json
