import FlowDoc.Proofs.Payload.Fields

/-!
# What is passed over in a payload

Besides the bag a payload yields what a reader should be told about: the values in brackets that no
key stands before, and the text after the closing bracket of the node. Both can be told from the
text alone. The brackets are those of the fields that the text before the closing bracket is divided
into, and the text after it is what is left when blanks at its start are left out.

## Main definitions

* `groups`: the brackets of a field
* `lacksKey`: no key stands before a bracket
* `keylessValues`: the values in the brackets of a text that have no key

## Main results

* `closesNode_of_scan`: the closing bracket of the node is found where it is
* `keyless_of_scan`: the values without a key
* `trailing_of_scan`: the text after the node
-/

namespace FlowDoc.Payload

/-! ## Brackets without a key -/

/-- The brackets of a field: the text before each, and the text inside it. -/
def groups : List (List Char) → List (List Char × List Char)
  | before :: inside :: rest => (before, inside) :: groups rest
  | [_] => []
  | [] => []

/-- Nothing is left of the text before a bracket when it is trimmed and stripped of the colons at
its end. -/
def lacksKey (before : List Char) : Bool :=
  (Text.trim ((Text.trim before).rdropWhile (· == ':'))).isEmpty

/-- The values in the brackets of a field that have no key. -/
def fieldKeyless (field : List (List Char)) : List String :=
  ((groups field).filter fun g => lacksKey g.1).map fun g => String.ofList (Text.trim g.2)

/-- The values in the brackets of a text that stand outside others and have no key, in order. -/
def keylessValues (text : List Marked) : List String :=
  (((fields 0 text).flatMap groups).filter fun g => lacksKey g.1).map
    fun g => String.ofList (Text.trim g.2)

theorem keylessValues_eq (text : List Marked) :
    keylessValues text = (fields 0 text).flatMap fieldKeyless := by
  rw [keylessValues, List.filter_flatMap, List.map_flatMap]
  rfl

theorem lacksKey_iff (before : String) :
    lacksKey before.toList = true ↔ bracketKey before = "" := by
  rw [lacksKey, List.isEmpty_iff, ← String.toList_inj, toList_bracketKey]
  rfl

namespace Scan

theorem keyless_addField (reading : Reading) (s : Scan) (field : String) :
    (s.addField reading field).keyless = s.keyless := by
  unfold addField
  extract_lets
  split_ifs
  · rfl
  · cases reading <;> rfl

theorem keyless_addBracketed (s : Scan) (key value : String) :
    (s.addBracketed key value).keyless =
      s.keyless ++ fieldKeyless [key.toList, value.toList] := by
  rw [addBracketed]
  by_cases h : bracketKey key = ""
  · have hvalue : fieldKeyless [key.toList, value.toList] = [Text.trimmed value] := by
      simp [fieldKeyless, groups, (lacksKey_iff key).mpr h, Text.trimmed]
    rw [if_pos h, hvalue]
  · have hnone : fieldKeyless [key.toList, value.toList] = [] := by
      simp [fieldKeyless, groups, (lacksKey_iff key).not.mpr h]
    rw [if_neg h, hnone, List.append_nil]

theorem keyless_addParts (s : Scan) (field : List (List Char)) :
    (s.addParts field).keyless = s.keyless ++ fieldKeyless field := by
  fun_induction addParts s field with
  | case1 s before inside rest ih =>
    have hcons : fieldKeyless (before :: inside :: rest) =
        fieldKeyless [before, inside] ++ fieldKeyless rest := by
      simp only [fieldKeyless, groups, ← List.map_append, ← List.filter_append,
        List.singleton_append]
    rw [ih, keyless_addBracketed, String.toList_ofList, String.toList_ofList, hcons,
      List.append_assoc]
  | case2 s text =>
    rw [keyless_addField]
    exact (List.append_nil _).symm
  | case3 s => exact (List.append_nil _).symm

theorem keyless_foldl_addParts (s : Scan) (fields : List (List (List Char))) :
    (fields.foldl addParts s).keyless = s.keyless ++ fields.flatMap fieldKeyless := by
  induction fields generalizing s with
  | nil => exact (List.append_nil _).symm
  | cons field fields ih =>
    rw [List.foldl_cons, ih, keyless_addParts, List.append_assoc, List.flatMap_cons]

end Scan

namespace Place

variable {p p' : Place} {m : Marked}

/-- A payload that is read verbatim has no brackets of its own. -/
theorem keyless_within_verbatim (p : Place) (m : Marked) :
    (p.within .verbatim m).done.keyless = p.done.keyless := by
  rw [within_eq]
  split_ifs with hopens hcloses hcomma
  -- Whatever its depth, a bracket is one more character of the expression.
  · rw [openBracket, if_neg (by simp)]
    rfl
  · rw [closeBracket]
    split
    · exact Scan.keyless_addField .verbatim p.done p.field
    · rw [if_neg (by simp)]
      rfl
  · exact absurd hcomma.2.2 (by decide)
  · rfl

theorem keyless_step_verbatim (h : step .verbatim p m = .ok p') :
    p'.done.keyless = p.done.keyless := by
  rw [step] at h
  split_ifs at h
  · rw [beyond_eq] at h
    split_ifs at h
    · obtain rfl := Except.ok.inj h
      rfl
    · obtain rfl := Except.ok.inj h
      rfl
  · obtain rfl := Except.ok.inj h
    exact keyless_within_verbatim p m

theorem keyless_run_verbatim {ms : List Marked} (h : ms.foldlM (step .verbatim) {} = .ok p) :
    p.done.keyless = [] :=
  foldlM_invariant (P := fun q : Place => q.done.keyless = [])
    (fun _ _ _ _ hq hstep => (keyless_step_verbatim hstep).trans hq) h rfl

end Place

/-! ## The text after the node -/

theorem dropWhile_blank_of_literal {m : Marked} {ms : List Marked} (hm : m.literal = true)
    (hblank : Text.isBlank m.char = false) :
    ((m :: ms).dropWhile Marked.blank).map Marked.char =
      Text.trimStart ((m :: ms).map Marked.char) := by
  rw [List.dropWhile_cons_of_neg (by simp [Marked.blank, hm]), Text.trimStart, List.map_cons,
    List.dropWhile_cons_of_neg (by simp [hblank])]

/-- A text that starts outside literal spans starts with the same blanks as its marked characters:
a literal span starts with a character that is not blank. -/
theorem Spans.map_dropWhile_blank {cs : List Char} {ms : List Marked} {last : Literal}
    (h : Spans cs ms last) :
    (ms.dropWhile Marked.blank).map Marked.char = Text.trimStart (ms.map Marked.char) := by
  have hquote : isLineBreak quoteMark = false := by decide
  have hslash : isLineBreak '/' = false := by decide
  induction h with
  | nil => rfl
  | lineBreak _ _ ih => exact ih
  | @plain c cs ms last _ _ _ _ ih =>
    cases hc : Text.isBlank c with
    | true =>
      rw [List.dropWhile_cons_of_pos (by simp [Marked.blank, hc]), Text.trimStart, List.map_cons,
        List.dropWhile_cons_of_pos hc]
      exact ih
    | false =>
      rw [List.dropWhile_cons_of_neg (by simp [Marked.blank, hc]), Text.trimStart, List.map_cons,
        List.dropWhile_cons_of_neg (by simp [hc])]
  | string =>
    rw [literals_cons hquote, List.cons_append]
    exact dropWhile_blank_of_literal rfl (by decide)
  | openString =>
    rw [literals_cons hquote]
    exact dropWhile_blank_of_literal rfl (by decide)
  | openEscape =>
    rw [literals_cons hquote]
    exact dropWhile_blank_of_literal rfl (by decide)
  | comment =>
    rw [literals_cons hslash, List.cons_append]
    exact dropWhile_blank_of_literal rfl (by decide)
  | openComment =>
    rw [literals_cons hslash]
    exact dropWhile_blank_of_literal rfl (by decide)

/-- What follows the closing bracket of the node starts outside literal spans. -/
theorem NodeClose.exists_spans_after {content : List Char} {ms before after : List Marked}
    {close : Marked} {last : Literal} (h : NodeClose ms before close after)
    (hspans : Spans content ms last) : ∃ rest, Spans rest after last := by
  have hmark := hspans.mark_eq
  rw [h.split] at hmark
  obtain ⟨_, rest, -, -, hrest⟩ :=
    exists_of_mark_append hmark (Marked.literal_eq_false_of_closes h.closes)
  exact ⟨rest, spans_iff.mpr hrest⟩

/-! ## Whole payloads -/

section Scan

variable {reading : Reading} {content : String} {ms before after : List Marked} {close : Marked}
  {s : Scan}

/-- The closing bracket of the node is found only where there is one. -/
theorem closesNode_of_scan (h : scan reading content = .ok s)
    (hspans : Spans content.toList ms .outside) (hclosed : s.closed = true) : ClosesNode ms := by
  by_contra hopen
  obtain ⟨p, -, -, hp, rfl⟩ := scan_eq_of_open h hspans hopen
  rw [Place.endField, Scan.closed_addField, hp.closed_eq] at hclosed
  cases hclosed

/-- **The text after the node** starts with its first character that is not blank. -/
theorem trailing_of_scan (h : scan reading content = .ok s)
    (hspans : Spans content.toList ms .outside) (hclose : NodeClose ms before close after) :
    s.trailing.toList = Text.trimStart (after.map Marked.char) := by
  obtain ⟨p, -, -, rfl⟩ := scan_eq_of_nodeClose h hspans hclose
  -- The scanner leaves out blanks outside literal spans only, but a span starts with no blank.
  obtain ⟨rest, hrest⟩ := hclose.exists_spans_after hspans
  rw [← hrest.map_dropWhile_blank]
  simp [Place.trailingAfter]

/-- **The values without a key** are those of the brackets before the closing bracket of the
node. -/
theorem keyless_of_scan (h : scan .pairs content = .ok s)
    (hspans : Spans content.toList ms .outside) (hclose : NodeClose ms before close after) :
    s.keyless = keylessValues before := by
  obtain ⟨p, hrun, hp, rfl⟩ := scan_eq_of_nodeClose h hspans hclose
  show (p.endField .pairs).done.keyless = keylessValues before
  rw [Place.done_endField_eq hp (nodeClose_iff.mp hclose).2.2 hrun, Scan.keyless_foldl_addParts,
    keylessValues_eq]
  rfl

/-- A payload that is read verbatim has no values without a key. -/
theorem keyless_of_scan_verbatim (h : scan .verbatim content = .ok s)
    (hspans : Spans content.toList ms .outside) (hclose : NodeClose ms before close after) :
    s.keyless = [] := by
  obtain ⟨p, hrun, -, rfl⟩ := scan_eq_of_nodeClose h hspans hclose
  show (p.endField .verbatim).done.keyless = []
  rw [Place.endField, Scan.keyless_addField, Place.keyless_run_verbatim hrun]

end Scan

end FlowDoc.Payload
