import FlowDoc.Proofs.Payload.Findings
import FlowDoc.Proofs.Script.Outcome

/-!
# The expressions of filters

The payload of a filter is one expression: the text before the bracket that closes the node, or the
whole payload where none does. Brackets, commas and colons divide nothing in it, strings and
comments stay, and nothing is left out but line breaks and the blanks at its ends. The bracket that
closes the node is told by the text before it alone, which closes all the brackets that it opens.

## Main definitions

* `EndsNode`: a text at the start of a payload, up to the bracket that closes the node
* `NodeText`: the text of a payload that belongs to the node
* `expressionEntries`: the entries of an expression

## Main results

* `exists_nodeText`, `NodeText.unique`: every payload has one text that belongs to the node
* `scan_verbatim`: a payload that is read verbatim is this text
* `filter_expressions`: the payloads and the nodes of filters
-/

namespace FlowDoc

namespace Payload

/-! ## The text of a node -/

/-- The payload starts with the text and a bracket that closes the node after it: read up to there,
no other bracket does. -/
def EndsNode (content text : List Char) : Prop :=
  ∃ close rest ms, content = text ++ close :: rest ∧ Spans text ms .outside ∧
    NodeClose (ms ++ [⟨close, false⟩]) ms ⟨close, false⟩ []

/-- The text of a payload that belongs to the node: what stands before the bracket that closes it,
or the whole payload where there is no such bracket. -/
inductive NodeText (content : List Char) : List Char → Prop where
  | closed {text : List Char} (ends : EndsNode content text) : NodeText content text
  | whole (unclosed : ∀ text, ¬ EndsNode content text) : NodeText content content

section NodeText

variable {content text text' : List Char} {ms : List Marked} {last : Literal}

/-- A closing bracket after a text that ends outside literal spans belongs to none. -/
theorem mark_append_close {before : List Marked} {close : Char}
    (h : mark .outside text = (before, .outside))
    (hclose : Marked.closes ⟨close, false⟩ = true) (rest : List Char) :
    mark .outside (text ++ close :: rest) =
      (before ++ ⟨close, false⟩ :: (mark .outside rest).1, (mark .outside rest).2) := by
  have hbracket : close = ')' ∨ close = ']' := by simpa [Marked.closes] using hclose
  have hplain : close ≠ '/' ∧ close ≠ '*' ∧ close ≠ quoteMark ∧ isLineBreak close = false := by
    rcases hbracket with rfl | rfl
    · decide
    · decide
  obtain ⟨hslash, hstar, hquote, hbreak⟩ := hplain
  have hlast : (mark .outside text).2 = .outside := by rw [h]
  have hcons : mark .outside (close :: rest) =
      (⟨close, false⟩ :: (mark .outside rest).1, (mark .outside rest).2) := by
    rw [mark_cons (fun _ hc => absurd hc hslash) (fun _ hc => absurd hc hstar), hbreak,
      Literal.step, if_neg hquote]
    rfl
  have hapart : Apart text (close :: rest) := fun _ hhead => hstar (Option.some.inj hhead)
  rw [mark_append hlast hapart, h, hcons]

/-- The bracket that closes the node is the one that is found among the marked characters. -/
theorem endsNode_iff (hspans : Spans content ms last) :
    EndsNode content text ↔ ∃ before close after rest, NodeClose ms before close after ∧
      mark .outside text = (before, .outside) ∧ content = text ++ close.char :: rest := by
  constructor
  · rintro ⟨close, rest, before, rfl, htext, hnode⟩
    obtain ⟨-, hcloses, hdepth⟩ := nodeClose_iff.mp hnode
    have hms := (mark_append_close htext.mark_eq hcloses rest).symm.trans hspans.mark_eq
    refine ⟨before, ⟨close, false⟩, (mark .outside rest).1, rest, ?_, htext.mark_eq, rfl⟩
    exact nodeClose_iff.mpr ⟨(congrArg Prod.fst hms).symm, hcloses, hdepth⟩
  · rintro ⟨before, ⟨c, literal⟩, after, rest, hnode, htext, rfl⟩
    obtain ⟨-, hcloses, hdepth⟩ := nodeClose_iff.mp hnode
    obtain rfl : literal = false := Marked.literal_eq_false_of_closes hcloses
    refine ⟨c, rest, before, rfl, spans_iff.mpr htext, ?_⟩
    exact nodeClose_iff.mpr ⟨rfl, hcloses, hdepth⟩

theorem EndsNode.isPrefix (h : EndsNode content text) : text <+: content := by
  obtain ⟨close, rest, -, hsplit, -⟩ := h
  exact ⟨close :: rest, hsplit.symm⟩

/-- A text before the bracket that closes the node goes on in no other one. -/
theorem EndsNode.eq_of_isPrefix (h : EndsNode content text) (h' : EndsNode content text')
    (hle : text <+: text') : text' = text := by
  obtain ⟨more, rfl⟩ := hle
  obtain ⟨ms, last, hspans⟩ := exists_spans content
  obtain ⟨before, close, after, rest, hnode, hmark, hsplit⟩ := (endsNode_iff hspans).mp h
  obtain ⟨before', close', after', rest', hnode', hmark', hsplit'⟩ := (endsNode_iff hspans).mp h'
  obtain ⟨rfl, rfl, rfl⟩ := hnode.unique hnode'
  cases more with
  | nil => exact List.append_nil text
  | cons c more =>
    -- The longer text would hold the bracket, and so one more marked character.
    rw [hsplit, List.append_assoc] at hsplit'
    obtain ⟨rfl, -⟩ := List.cons.inj (List.append_cancel_left hsplit')
    have hcloses : Marked.closes ⟨close'.char, false⟩ = true := by
      rw [← Marked.literal_eq_false_of_closes hnode.closes]
      exact hnode.closes
    rw [mark_append_close hmark hcloses more] at hmark'
    have hlength := congrArg List.length (Prod.mk.inj hmark').1
    simp at hlength

/-- **A payload has one text that belongs to the node.** -/
theorem NodeText.unique (h : NodeText content text) (h' : NodeText content text') :
    text' = text := by
  cases h with
  | whole unclosed =>
    cases h' with
    | whole => rfl
    | closed ends => exact absurd ends (unclosed _)
  | closed ends =>
    cases h' with
    | whole unclosed => exact absurd ends (unclosed _)
    | closed ends' =>
      -- Both texts start the payload, so one of them starts the other one.
      rcases List.prefix_or_prefix_of_prefix ends.isPrefix ends'.isPrefix with hle | hle
      · exact ends.eq_of_isPrefix ends' hle
      · exact (ends'.eq_of_isPrefix ends hle).symm

/-- The text that belongs to the node is marked as what is before its closing bracket. -/
theorem exists_nodeText (hspans : Spans content ms .outside) :
    ∃ text, NodeText content text ∧ IsContent ms (mark .outside text).1 := by
  by_cases hcloses : ClosesNode ms
  · obtain ⟨before, close, after, hnode⟩ := hcloses
    have hmark := hspans.mark_eq
    rw [hnode.split] at hmark
    obtain ⟨text, rest, hsplit, htext, -⟩ :=
      exists_of_mark_append hmark (Marked.literal_eq_false_of_closes hnode.closes)
    refine ⟨text, .closed ?_, .inl ⟨close, after, ?_⟩⟩
    · exact (endsNode_iff hspans).mpr ⟨before, close, after, rest, hnode, htext, hsplit⟩
    · rwa [htext]
  · refine ⟨content, .whole fun text hends => hcloses ?_, .inr ⟨?_, hcloses⟩⟩
    · obtain ⟨before, close, after, -, hnode, -⟩ := (endsNode_iff hspans).mp hends
      exact ⟨before, close, after, hnode⟩
    · rw [hspans.mark_eq]

end NodeText

/-! ## Reading a payload verbatim -/

/-- The entries of an expression: its text under `other`, trimmed, or none where it is blank. -/
def expressionEntries (text : List Char) : List (String × String) :=
  if Text.blank text then [] else [(otherKey, String.ofList (Text.trim text))]

theorem entries_addField_verbatim (text : List Char) :
    (Scan.addField .verbatim {} (String.ofList text)).attributes.entries =
      expressionEntries text := by
  have hblank : Text.trimmed (String.ofList text) = "" ↔ Text.blank text = true := by
    rw [trimmed_eq_empty_iff, String.toList_ofList]
  rw [Scan.addField.eq_def, expressionEntries]
  dsimp only
  by_cases h : Text.blank text = true
  · rw [if_pos (hblank.mpr h), if_pos h]
  · rw [if_neg (hblank.not.mpr h), if_neg h, Text.trimmed, String.toList_ofList]
    rfl

/-- **A payload that is read verbatim** is the text that belongs to the node, without line breaks
and trimmed, and no value in it lacks a key. -/
theorem scan_verbatim {content : String} {s : Scan} (h : scan .verbatim content = .ok s) :
    ∃ text, NodeText content.toList text ∧ s.keyless = [] ∧
      s.attributes.entries = expressionEntries (withoutBreaks text) := by
  obtain ⟨ms, last, hspans⟩ := exists_spans content.toList
  obtain rfl := last_eq_of_scan h hspans
  obtain ⟨text, hnode, hcontent⟩ := exists_nodeText hspans
  refine ⟨text, hnode, ?_, ?_⟩
  · by_cases hcloses : ClosesNode ms
    · obtain ⟨before, close, after, hclose⟩ := hcloses
      exact keyless_of_scan_verbatim h hspans hclose
    · obtain ⟨p, -, hrun, -, rfl⟩ := scan_eq_of_open h hspans hcloses
      rw [Place.endField, Scan.keyless_addField, Place.keyless_run_verbatim hrun]
  · obtain ⟨p, hdepth, hrun, -, hattributes⟩ := exists_run_content h hspans hcontent
    -- Whatever its depth, the scanner collects the text.
    have hstart : ({} : Place).depth = 0 + 0 := rfl
    have hreading : Reading.verbatim = .pairs → 0 < 0 := fun h => by cases h
    have hcollect := Place.foldlM_step_of_depthAfter? hreading hstart rfl hdepth
    obtain rfl := Except.ok.inj (hrun.symm.trans hcollect)
    rw [hattributes, ← entries_addField_verbatim, withoutBreaks, ← map_char_mark .outside text,
      Place.endField, Place.collect, String.empty_append]

end Payload

/-! ## Filters -/

namespace Script

open Payload (filterKeyword NodeText withoutBreaks expressionEntries)

theorem kind_eq_filter {node : Node} (h : node.nodeType = filterKeyword) : node.kind = .filter := by
  rw [Node.kind, h]
  rfl

/-- The condition of a filter is the one value in its bag. -/
theorem filterExpression?_eq {node : Node} (h : node.nodeType = filterKeyword) {text : List Char}
    (hentries : node.attributes.entries = expressionEntries text) :
    node.filterExpression? =
      if Text.blank text then none else some (String.ofList (Text.trim text)) := by
  rw [Node.filterExpression?, if_pos (kind_eq_filter h), Bag.other?, Bag.get?, hentries,
    expressionEntries]
  split_ifs
  · rfl
  · rfl

/-- The filters of a script have the bags that their payloads are read as. -/
theorem exists_scan_of_filter {script : String} {p : Parsed} (hp : Parsed.ofScript script = .ok p)
    {k : Nat} {node : Node} (hnode : p.graph.nodes[k]? = some node)
    (hfilter : node.nodeType = filterKeyword) :
    ∃ r statement payload, (Records.ofScript script).records[k]? = some r ∧
      Statement.ofRecord r = .ok statement ∧
      Payload.scan .verbatim statement.payload = .ok payload ∧
      node.attributes = payload.attributes := by
  have hk : k < (Records.ofScript script).records.length := by
    rw [← size_ofScript hp]
    exact (Array.getElem?_eq_some_iff.mp hnode).1
  have hr := List.getElem?_eq_getElem hk
  obtain ⟨d, node', hread, hnode', -, -, htype, hattributes, -⟩ := exists_node_ofScript hp hr
  obtain rfl := Option.some.inj (hnode.symm.trans hnode')
  obtain @⟨statement, payload, hstatement, hscan, -⟩ := hread
  have hreading : Payload.Reading.ofType statement.nodeType = .verbatim :=
    if_pos (htype.symm.trans hfilter)
  rw [hreading] at hscan
  exact ⟨_, statement, payload, hr, hstatement, hscan, hattributes⟩

/-- **The expressions of filters.** A payload that is read as that of a filter has one text that
belongs to the node, up to the bracket that closes it or to its end. This text, without line breaks
and trimmed, is the only entry of the bag, unless it is blank, and no value lacks a key. So the
condition of a filter in a script is that text of its record's payload. -/
theorem filter_expressions :
    (∀ (content : String) (s : Payload.Scan),
      Payload.scan (.ofType filterKeyword) content = .ok s →
      ∃ text, NodeText content.toList text ∧
        (∀ text', NodeText content.toList text' → text' = text) ∧
        s.attributes.entries = expressionEntries (withoutBreaks text) ∧ s.keyless = []) ∧
    ∀ (script : String) (p : Parsed), Parsed.ofScript script = .ok p →
      ∀ (k : Nat) (node : Node), p.graph.nodes[k]? = some node → node.nodeType = filterKeyword →
      ∃ r statement text, (Records.ofScript script).records[k]? = some r ∧
        Statement.ofRecord r = .ok statement ∧ NodeText statement.payload.toList text ∧
        node.filterExpression? =
          if Text.blank (withoutBreaks text) then none
          else some (String.ofList (Text.trim (withoutBreaks text))) := by
  constructor
  · intro content s h
    obtain ⟨text, hnode, hkeyless, hentries⟩ := Payload.scan_verbatim h
    exact ⟨text, hnode, fun text' => hnode.unique, hentries, hkeyless⟩
  · intro script p hp k node hnode hfilter
    obtain ⟨r, statement, payload, hr, hstatement, hscan, hattributes⟩ :=
      exists_scan_of_filter hp hnode hfilter
    obtain ⟨text, htext, -, hentries⟩ := Payload.scan_verbatim hscan
    refine ⟨r, statement, text, hr, hstatement, htext, filterExpression?_eq hfilter ?_⟩
    rw [hattributes, hentries]

/-- The payload of a filter with brackets and marks of every kind, and a word after the node. -/
def nestedExpression : String :=
  " f(a[1], b: ')') == 'c,\r\n(' /* ] */,\n d :: e ) word "

/-- A script with a filter of this payload and one whose payload is blank. -/
def filterScript : String :=
  "In filter(\n \n) ~> All\nAll filter(" ++ nestedExpression ++ "~> Some\nsource() ~> In"

/-- What is read of `nestedExpression`. -/
def nestedScan : Payload.Scan where
  attributes := ⟨[("other", "f(a[1], b: ')') == 'c,(' /* ] */, d :: e")]⟩
  closed := true
  trailing := "word "

/-- What is read of `filterScript`. -/
def filterParsed : Parsed :=
  { graph :=
      { nodes :=
          #[{ id := 0, name := "All", nodeType := "filter", parents := #[2], children := #[1],
              span := Span.lines 1 3 },
            { id := 1, name := "Some", nodeType := "filter", attributes := nestedScan.attributes,
              parents := #[0], span := Span.lines 4 6 },
            { id := 2, name := "In", nodeType := "source", children := #[0],
              span := Span.lines 7 7 }]
        edges := #[⟨2, 0, none⟩, ⟨0, 1, none⟩] }
    warnings := [⟨.trailingContent "Some" "word", Span.lines 4 6⟩] }

theorem filter_expressions_filterScript :
    Payload.scan (.ofType filterKeyword) nestedExpression = .ok nestedScan ∧
      (∃ text, NodeText nestedExpression.toList text ∧
        nestedScan.attributes.entries = expressionEntries (withoutBreaks text)) ∧
      Parsed.ofScript filterScript = .ok filterParsed ∧
      (filterParsed.graph.nodes.map Node.filterExpression?) =
        #[none, some "f(a[1], b: ')') == 'c,(' /* ] */, d :: e", none] ∧
      ∃ r statement text, (Records.ofScript filterScript).records[1]? = some r ∧
        Statement.ofRecord r = .ok statement ∧ NodeText statement.payload.toList text ∧
        some "f(a[1], b: ')') == 'c,(' /* ] */, d :: e" =
          if Text.blank (withoutBreaks text) then none
          else some (String.ofList (Text.trim (withoutBreaks text))) := by
  have hscan : Payload.scan (.ofType filterKeyword) nestedExpression = .ok nestedScan := by
    decide +kernel
  have hparsed : Parsed.ofScript filterScript = .ok filterParsed :=
    ofScript_eq_ok_iff_evaluate.mpr (by decide +kernel)
  obtain ⟨text, htext, -, hentries, -⟩ := filter_expressions.1 _ _ hscan
  refine ⟨hscan, ⟨text, htext, hentries⟩, hparsed, by decide +kernel, ?_⟩
  exact filter_expressions.2 _ _ hparsed 1 _ rfl rfl

end Script

end FlowDoc
