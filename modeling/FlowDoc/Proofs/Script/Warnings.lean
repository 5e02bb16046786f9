import FlowDoc.Proofs.Payload.Findings
import FlowDoc.Proofs.Script.Outcome

/-!
# The warnings about a script

A script that is read comes with warnings about what was passed over: the text after its last
marker line, and in each record the text after the closing bracket of the node and the brackets
without a key. Which warnings these are is told by the text of the script alone. They stand in the
order of the records, with those about the last lines of the script before all others.

## Main definitions

* `passedOver`: what is passed over in a payload
* `Warned`: the warnings about a record
* `leftoverWarnings`: the warnings about the lines that no record was cut from

## Main results

* `findings_eq`: the reader finds what is passed over, and nothing else
* `warnings_ofScript`: the warnings about a script
-/

namespace FlowDoc.Script

open Payload (Marked Spans NodeClose keylessValues)

/-! ## The warnings about a record -/

/-- What is passed over in a payload, which has a text before and one after the closing bracket of
the node: the latter unless it is blank, and the brackets without a key in the former unless it is
read verbatim. -/
def passedOver (s : Statement) (before after : List Marked) : List Finding :=
  (if Text.blank (after.map Marked.char) then []
    else [.trailingContent s.name (String.ofList (Text.trim (after.map Marked.char)))]) ++
  if s.nodeType = Payload.filterKeyword then []
  else (keylessValues before).map fun value => .emptyAttributeKey s.name value

/-- The warnings about a record that is a statement whose payload closes its node. Each carries the
lines of the record. -/
inductive Warned (r : Record) : List Warning → Prop where
  | intro {s : Statement} {ms before after : List Marked} {close : Marked}
      (statement : Statement.ofRecord r = .ok s) (spans : Spans s.payload.toList ms .outside)
      (closes : NodeClose ms before close after) :
      Warned r ((passedOver s before after).map fun finding => ⟨finding, r.span⟩)

section Record

variable {r : Record} {ws : List Warning}

/-- The text of a record determines the warnings about it. -/
theorem Warned.rightUnique : Relator.RightUnique Warned := by
  rintro r ws ws' ⟨statement, spans, closes⟩ ⟨statement', spans', closes'⟩
  obtain rfl := Except.ok.inj (statement.symm.trans statement')
  obtain ⟨rfl, -⟩ := Prod.mk.inj (spans.mark_eq.symm.trans spans'.mark_eq)
  obtain ⟨rfl, -, rfl⟩ := closes.unique closes'
  rfl

/-- **The reader finds what is passed over**, and nothing else. -/
theorem findings_eq {s : Statement} {payload : Payload.Scan} {ms before after : List Marked}
    {close : Marked} (hscan : Payload.scan (.ofType s.nodeType) s.payload = .ok payload)
    (hspans : Spans s.payload.toList ms .outside) (hclose : NodeClose ms before close after) :
    Declaration.findings s.name payload = passedOver s before after := by
  have htext := Payload.trailing_of_scan hscan hspans hclose
  -- Blanks at the start of the text after the node do not tell, for it is trimmed.
  have hblank : payload.trailing = "" ↔ Text.blank (after.map Marked.char) = true := by
    rw [← String.toList_inj, htext, String.toList_empty, Text.trimStart_eq_nil_iff]
  have htrimmed : Text.trimmed payload.trailing =
      String.ofList (Text.trim (after.map Marked.char)) := by
    rw [Text.trimmed, htext, Text.trim_trimStart]
  have hkeyless : payload.keyless =
      if s.nodeType = Payload.filterKeyword then [] else keylessValues before := by
    split_ifs with hfilter
    · have hreading : Payload.Reading.ofType s.nodeType = .verbatim := if_pos hfilter
      rw [hreading] at hscan
      exact Payload.keyless_of_scan_verbatim hscan hspans hclose
    · have hreading : Payload.Reading.ofType s.nodeType = .pairs := if_neg hfilter
      rw [hreading] at hscan
      exact Payload.keyless_of_scan hscan hspans hclose
  rw [Declaration.findings, passedOver, hkeyless, htrimmed]
  simp only [hblank]
  congr 1
  split_ifs
  · rfl
  · rfl

theorem warned_of_ofRecord {d : Declaration} (h : Declaration.ofRecord r = .ok (d, ws)) :
    Warned r ws := by
  obtain ⟨s, payload, statement, hscan, hclosed, -, rfl⟩ := ofRecord_eq_ok_iff.mp h
  -- A payload that was read ends outside literal spans, and it closes its node.
  obtain ⟨ms, last, hspans⟩ := Payload.exists_spans s.payload.toList
  obtain rfl := Payload.last_eq_of_scan hscan hspans
  obtain ⟨before, close, after, hclose⟩ := Payload.closesNode_of_scan hscan hspans hclosed
  rw [findings_eq hscan hspans hclose]
  exact .intro statement hspans hclose

end Record

/-! ## The warnings about a script -/

open Records (restLines lastMarker linesOf)

/-- The warning about the lines after the last marker line, unless they are blank. -/
def leftoverWarnings (script : String) : List Warning :=
  let rest := ['\n'].intercalate (restLines script)
  if Text.blank rest then []
  else [⟨.trailingText (String.ofList (Text.trim rest)),
    ⟨⟨lastMarker script + 1, 1⟩, ⟨(linesOf script).length, 1⟩⟩⟩]

theorem toList_leftover (script : String) :
    (Records.ofScript script).leftover.toList = leftoverWarnings script := by
  rw [Records.leftover_ofScript, leftoverWarnings]
  split_ifs
  · rfl
  · rfl

/-- **The warnings about a script** that is read are those about its last lines and then, record by
record, those about what is passed over in the records. There are no others. -/
theorem warnings_ofScript {script : String} {p : Parsed} (h : Parsed.ofScript script = .ok p) :
    ∃ wss, List.Forall₂ Warned (Records.ofScript script).records wss ∧
      (∀ wss', List.Forall₂ Warned (Records.ofScript script).records wss' → wss' = wss) ∧
      p.warnings = leftoverWarnings script ++ wss.flatten := by
  obtain ⟨declared, hdeclared, -, hwarnings⟩ := ofScript_eq_ok_iff_declarations.mp h
  have hwarned : List.Forall₂ Warned (Records.ofScript script).records (declared.map (·.2)) := by
    rw [List.forall₂_map_right_iff]
    exact (mapM_eq_ok_iff.mp hdeclared).imp fun _ _ hread => warned_of_ofRecord hread
  refine ⟨_, hwarned, fun wss' hwss' => ?_, ?_⟩
  · exact List.right_unique_forall₂' Warned.rightUnique hwss' hwarned
  · rw [hwarnings, toList_leftover, List.flatMap_def]

/-- A script with findings of each kind: a comment and a word after payloads, brackets without a key
in two records, also such as a filter reads, and two last lines. -/
def findingsScript : String :=
  "source(a: 1, [x]) /* ) */ ~> src\nsrc filter((a), (b)) \n ~> some\n" ++
    "some derive((x, y), : (z)) word ~> d\nlast\nlines"

/-- What is read of `findingsScript`. -/
def findingsParsed : Parsed :=
  { graph :=
      { nodes :=
          #[{ id := 0, name := "src", nodeType := "source",
              attributes := ⟨[("a", "1"), ("other", "x")]⟩, children := #[1],
              span := Span.lines 1 1 },
            { id := 1, name := "some", nodeType := "filter",
              attributes := ⟨[("other", "(a), (b)")]⟩, parents := #[0], children := #[2],
              span := Span.lines 2 3 },
            { id := 2, name := "d", nodeType := "derive", attributes := ⟨[("other", "x, y, z")]⟩,
              parents := #[1], span := Span.lines 4 4 }]
        edges := #[⟨0, 1, none⟩, ⟨1, 2, none⟩] }
    warnings :=
      [⟨.trailingText "last\nlines", Span.lines 5 6⟩,
       ⟨.trailingContent "src" "/* ) */", Span.lines 1 1⟩,
       ⟨.emptyAttributeKey "src" "x", Span.lines 1 1⟩,
       ⟨.trailingContent "d" "word", Span.lines 4 4⟩,
       ⟨.emptyAttributeKey "d" "x, y", Span.lines 4 4⟩,
       ⟨.emptyAttributeKey "d" "z", Span.lines 4 4⟩] }

theorem warnings_ofScript_findingsScript :
    Parsed.ofScript findingsScript = .ok findingsParsed ∧
      leftoverWarnings findingsScript = findingsParsed.warnings.take 1 ∧
      ∃ wss, List.Forall₂ Warned (Records.ofScript findingsScript).records wss ∧
        wss.flatten = findingsParsed.warnings.drop 1 := by
  have h : Parsed.ofScript findingsScript = .ok findingsParsed :=
    ofScript_eq_ok_iff_evaluate.mpr (by decide +kernel)
  have hleftover : leftoverWarnings findingsScript = findingsParsed.warnings.take 1 := by
    decide +kernel
  obtain ⟨wss, hwarned, -, hwarnings⟩ := warnings_ofScript h
  refine ⟨h, hleftover, wss, hwarned, ?_⟩
  rw [hleftover] at hwarnings
  nth_rewrite 1 [← List.take_append_drop 1 findingsParsed.warnings] at hwarnings
  exact (List.append_cancel_left hwarnings).symm

end FlowDoc.Script
