import FlowDoc.Proofs.Json.Scalars

/-!
# Layouts of a document

A document is written on one line or over many. The two layouts differ in the blanks between the
parts of containers and after the colons alone, so what is read back from one is read back from the
other by the same argument.

## Main definitions

* `Solid`: how the texts of values start
* `following`, `enclosed`: the parts of a container, with the blanks around them
* `Layout`: a way to write values
* `Layout.oneLine`, `Layout.manyLines`: the two layouts

## Main results

* `enclosed_eq`: the parts of a container are joined by commas
* `skipSpace_append`: blanks are passed over up to the text that they stand before
-/

namespace FlowDoc

namespace Json

/-! ## Blanks -/

/-- A text of blanks. -/
def Spaces (cs : List Char) : Prop :=
  ∀ c ∈ cs, isSpace c = true

theorem spaces_nil : Spaces [] :=
  fun _ hc => absurd hc List.not_mem_nil

theorem skipSpace_append {gap : List Char} (hgap : Spaces gap) (cs : List Char) :
    skipSpace (gap ++ cs) = skipSpace cs :=
  List.dropWhile_append_of_pos hgap

theorem skipSpace_cons {c : Char} (hc : isSpace c = false) (cs : List Char) :
    skipSpace (c :: cs) = c :: cs :=
  List.dropWhile_cons_of_neg (by rw [hc]; exact Bool.false_ne_true)

/-- A number ends before a blank. -/
theorem EndsNumber.of_isSpace {c : Char} (hc : isSpace c = true) (cs : List Char) :
    EndsNumber (c :: cs) := by
  intro d hd
  obtain rfl : c = d := Option.some.inj hd
  simp only [isSpace, Bool.or_eq_true, beq_iff_eq] at hc
  rcases hc with ((rfl | rfl) | rfl) | rfl
  · decide
  · decide
  · decide
  · decide

theorem EndsNumber.append {gap cs : List Char} (hgap : Spaces gap) (hcs : EndsNumber cs) :
    EndsNumber (gap ++ cs) := by
  cases gap with
  | nil => exact hcs
  | cons c gap => exact .of_isSpace (hgap c List.mem_cons_self) _

/-- The text starts with neither a blank nor the end of an array, as that of every value does. -/
def Solid (cs : List Char) : Prop :=
  ∃ c more, cs = c :: more ∧ isSpace c = false ∧ c ≠ ']'

/-- Blanks before such a text are passed over. -/
theorem Solid.skipSpace_eq {gap text : List Char} (h : Solid text) (hgap : Spaces gap)
    (rest : List Char) : skipSpace (gap ++ (text ++ rest)) = text ++ rest := by
  obtain ⟨c, cs, rfl, hc, -⟩ := h
  rw [skipSpace_append hgap]
  exact skipSpace_cons hc _

/-- The next item of an array is read from where its text starts. -/
theorem readToItem_solid {gap part : List Char} (h : Solid part) (hgap : Spaces gap)
    (rest : List Char) :
    readToItem true (gap ++ (part ++ rest)) = .ok (true, part ++ rest) ∧
      readToItem false (',' :: (gap ++ (part ++ rest))) = .ok (true, part ++ rest) := by
  have hskip := h.skipSpace_eq hgap rest
  obtain ⟨c, cs, rfl, hspace, hbracket⟩ := h
  rw [List.cons_append] at hskip ⊢
  constructor
  · rw [readToItem, hskip]
    dsimp only
    rw [if_neg hbracket, if_pos rfl]
  · rw [readToItem, skipSpace_cons (by decide)]
    dsimp only
    rw [if_neg (by decide), if_neg Bool.false_ne_true, if_pos rfl, hskip]
    dsimp only
    rw [if_neg hbracket]

/-! ## Containers -/

section Enclosed

variable (gap last : List Char) (closing : Char)

/-- What follows a part of a container: the other parts, each behind a comma, and the closing
bracket. -/
def following : List (List Char) → List Char
  | [] => last ++ [closing]
  | part :: parts => ',' :: (gap ++ (part ++ following parts))

/-- What follows the opening bracket of a container. -/
def enclosed : List (List Char) → List Char
  | [] => [closing]
  | part :: parts => gap ++ (part ++ following gap last closing parts)

theorem intercalate_append_eq (part : List Char) (parts : List (List Char)) :
    (',' :: gap).intercalate (part :: parts) ++ (last ++ [closing]) =
      part ++ following gap last closing parts := by
  induction parts generalizing part with
  | nil => rw [List.intercalate_singleton, following]
  | cons next parts ih =>
    rw [List.intercalate_cons_cons, List.append_assoc, ih, following]
    simp

/-- The parts of a container are joined by commas. -/
theorem enclosed_eq {parts : List (List Char)} (h : parts ≠ []) :
    enclosed gap last closing parts =
      gap ++ (',' :: gap).intercalate parts ++ last ++ [closing] := by
  obtain ⟨part, parts, rfl⟩ := List.exists_cons_of_ne_nil h
  rw [enclosed, ← intercalate_append_eq]
  simp only [List.append_assoc]

theorem length_le_following (parts : List (List Char)) :
    parts.length < (following gap last closing parts).length := by
  induction parts with
  | nil => simp [following]
  | cons part parts ih =>
    simp only [following, List.length_cons, List.length_append]
    omega

theorem length_le_enclosed (parts : List (List Char)) :
    parts.length ≤ (enclosed gap last closing parts).length := by
  cases parts with
  | nil => exact Nat.zero_le _
  | cons part parts =>
    have hlength := length_le_following gap last closing parts
    simp only [enclosed, List.length_cons, List.length_append]
    omega

end Enclosed

/-! ## Layouts -/

/-- The text of a string literal. -/
def quoted (s : String) : List Char :=
  '\"' :: (s.toList.flatMap escapeChar ++ ['\"'])

theorem toList_quote (s : String) : (quote s).toList = quoted s := by
  simp [quote, quoted]

/-- A way to write values, where a value may stand at any level of nesting. -/
structure Layout where
  /-- The text of a value at a level. -/
  write : (level : Nat) → Json → List Char
  /-- The blanks before the parts of a container whose parts are at a level. -/
  gap : (level : Nat) → List Char
  /-- The blanks after the colon of a member. -/
  afterColon : List Char
  spaces_gap (level : Nat) : Spaces (gap level)
  spaces_afterColon : Spaces afterColon
  write_natural (level n : Nat) : write level (.natural n) = Nat.toDigits 10 n
  write_string (level : Nat) (s : String) : write level (.string s) = quoted s
  write_array (level : Nat) (items : List Json) :
    write level (.array items) =
      '[' :: enclosed (gap (level + 1)) (gap level) ']' (items.map (write (level + 1)))
  write_object (level : Nat) (members : List (String × Json)) :
    write level (.object members) =
      '\x7b' :: enclosed (gap (level + 1)) (gap level) '\x7d'
        (members.map fun m => quoted m.1 ++ (':' :: (afterColon ++ write (level + 1) m.2)))

namespace Layout

/-- The text of a member at a level. -/
def member (l : Layout) (level : Nat) (m : String × Json) : List Char :=
  quoted m.1 ++ (':' :: (l.afterColon ++ l.write level m.2))

theorem compactItems_eq (items : List Json) : compactItems items = items.map compact := by
  induction items with
  | nil => rfl
  | cons item items ih => rw [compactItems, ih, List.map_cons]

theorem compactMembers_eq (members : List (String × Json)) :
    compactMembers members = members.map fun m => quote m.1 ++ ":" ++ compact m.2 := by
  induction members with
  | nil => rfl
  | cons m members ih => rw [compactMembers, ih, List.map_cons]

theorem enclosed_nil (closing : Char) (parts : List (List Char)) :
    enclosed [] [] closing parts = [','].intercalate parts ++ [closing] := by
  cases parts with
  | nil => rfl
  | cons part parts => simp [enclosed_eq]

/-- A document on one line. -/
def oneLine : Layout where
  write _ json := (compact json).toList
  gap _ := []
  afterColon := []
  spaces_gap _ _ hc := absurd hc List.not_mem_nil
  spaces_afterColon _ hc := absurd hc List.not_mem_nil
  write_natural _ n := by
    rw [natural, compact, numberText, Nat.toString_eq_repr, Nat.toList_repr]
  write_string _ s := by
    rw [compact, toList_quote]
  write_array _ items := by
    rw [compact, compactItems_eq, enclosed_nil]
    simp [String.toList_intercalate, Function.comp_def]
  write_object _ members := by
    rw [compact, compactMembers_eq, enclosed_nil]
    simp [String.toList_intercalate, Function.comp_def, toList_quote]

theorem prettyItems_eq (level : Nat) (items : List Json) :
    prettyItems level items = items.map (prettyAt level) := by
  induction items with
  | nil => rfl
  | cons item items ih => rw [prettyItems, ih, List.map_cons]

theorem prettyMembers_eq (level : Nat) (members : List (String × Json)) :
    prettyMembers level members = members.map fun m => quote m.1 ++ ": " ++ prettyAt level m.2 := by
  induction members with
  | nil => rfl
  | cons m members ih => rw [prettyMembers, ih, List.map_cons]

theorem spaces_newLine (level : Nat) : Spaces (newLine level).toList := by
  intro c hc
  simp only [newLine, String.toList_append, String.toList_ofList, List.mem_append,
    List.mem_replicate] at hc
  rcases hc with hc | ⟨-, rfl⟩
  · obtain rfl : c = '\n' := by simpa using hc
    decide
  · decide

theorem toList_enclose (level : Nat) (opening closing : Char) (parts : List String) :
    (enclose level opening.toString closing.toString parts).toList =
      opening :: enclosed (newLine (level + 1)).toList (newLine level).toList closing
        (parts.map String.toList) := by
  cases parts with
  | nil => simp [enclose, enclosed]
  | cons part parts =>
    rw [enclosed_eq _ _ _ (by simp)]
    simp [enclose, String.toList_intercalate]

/-- A document over many lines. -/
def manyLines : Layout where
  write level json := (prettyAt level json).toList
  gap level := (newLine level).toList
  afterColon := [' ']
  spaces_gap := spaces_newLine
  spaces_afterColon c hc := by
    obtain rfl := List.mem_singleton.mp hc
    decide
  write_natural _ n := by
    rw [natural, prettyAt, numberText, Nat.toString_eq_repr, Nat.toList_repr]
  write_string _ s := by
    rw [prettyAt, toList_quote]
  write_array level items := by
    rw [prettyAt, prettyItems_eq]
    refine (toList_enclose level '[' ']' _).trans ?_
    rw [List.map_map]
    rfl
  write_object level members := by
    rw [prettyAt, prettyMembers_eq]
    refine (toList_enclose level '\x7b' '\x7d' _).trans ?_
    simp [Function.comp_def, toList_quote]

end Layout

end Json

end FlowDoc
