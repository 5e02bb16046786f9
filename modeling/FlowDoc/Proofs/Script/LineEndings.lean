import FlowDoc.Proofs.Payload.Scanning
import FlowDoc.Proofs.Script.Outcome
import FlowDoc.Proofs.Text.Returns

/-!
# Line endings

Lines may end with a carriage return and a line feed. The return comes last in a line, so it ends up
behind the name of a marker line, where it is trimmed, or before a line feed in a body. There it
separates no words that the line feed does not separate, and the payload scanner drops both. Only
the text after the last declaration keeps its returns in what is reported about it.

## Main definitions

* `Warning.SameButReturns`: warnings that differ in carriage returns only
* `Record.Returned`: a record and the same record with returns in its body

## Main results

* `mark_returned`, `ofRecord_returned`, `ofLines_ended`: what the returns leave as it is, in a
  payload, a record and the lines of a script
* `ofScript_withReturns`: the outcome of a script with carriage returns
-/

namespace FlowDoc

/-- Warnings of one kind about the same lines, whose wording is the same without carriage
returns. -/
structure Warning.SameButReturns (w w' : Warning) : Prop where
  code_eq : w'.finding.code = w.finding.code
  span_eq : w'.span = w.span
  message_eq : Text.withoutReturns w'.finding.message = Text.withoutReturns w.finding.message

theorem Warning.SameButReturns.refl (w : Warning) : w.SameButReturns w :=
  ⟨rfl, rfl, rfl⟩

theorem Warning.SameButReturns.trailingText {text text' : List Char} (span : Span)
    (h : text'.filter (· != '\r') = text.filter (· != '\r')) :
    Warning.SameButReturns ⟨.trailingText (String.ofList text), span⟩
      ⟨.trailingText (String.ofList text'), span⟩ := by
  refine ⟨rfl, rfl, ?_⟩
  unfold Finding.message
  simp only [Text.withoutReturns, String.toList_append, List.filter_append, String.toList_ofList, h]

/-! ## Payloads -/

namespace Payload

open Text (Returned)

/-- A return before a line feed makes no comment mark of the characters around it. -/
theorem head?_returned {xs ys : List Char} (h : Returned xs ys) {c : Char} (hc : c ≠ '\r')
    (hxs : xs.head? ≠ some c) : ys.head? ≠ some c := by
  cases h with
  | nil => exact hxs
  | cons d h => exact hxs
  | feed h =>
    intro heq
    exact hc (Option.some.inj heq).symm

/-- Returns before line feeds are dropped with them. -/
theorem mark_returned {literal : Literal} {xs ys : List Char} (h : Returned xs ys) :
    mark literal ys = mark literal xs := by
  -- One case for each way in which the text without returns is marked from its start.
  fun_induction mark literal xs generalizing ys with
  | case1 literal =>
    cases h
    rfl
  | case2 cs marked last hmark ih =>
    obtain _ | ⟨_, _ | ⟨_, h⟩⟩ := h
    rw [mark, ih h, hmark]
  | case3 cs marked last hmark ih =>
    obtain _ | ⟨_, _ | ⟨_, h⟩⟩ := h
    rw [mark, ih h, hmark]
  | case4 literal c cs hopen hclose hbreak ih =>
    cases h with
    | cons _ h => rw [mark_cons_of_break hbreak, ih h]
    | feed h => rw [mark_cons_of_break (by decide), mark_cons_of_break (by decide), ih h]
  | case5 literal c cs hopen hclose hbreak inside next hstep marked last hmark ih =>
    cases h with
    | feed h => exact absurd (by decide) hbreak
    | cons _ h =>
      rw [mark_cons, if_neg hbreak, hstep, ih h, hmark]
      · intro hliteral hc
        refine head?_returned h (by decide) fun hhead => ?_
        obtain ⟨ds, rfl⟩ := List.head?_eq_some_iff.mp hhead
        exact hopen ds hliteral hc rfl
      · intro hliteral hc
        refine head?_returned h (by decide) fun hhead => ?_
        obtain ⟨ds, rfl⟩ := List.head?_eq_some_iff.mp hhead
        exact hclose ds hliteral hc rfl

theorem scan_returned (reading : Reading) {content content' : String}
    (h : Returned content.toList content'.toList) :
    scan reading content' = scan reading content := by
  rw [scan, scan, mark_returned h]

end Payload

namespace Script

open Text (Returned Ended)

/-! ## Records -/

/-- A record and the same record with returns before line feeds of its body. -/
structure Record.Returned (r r' : Record) : Prop where
  label_eq : r'.label = r.label
  body : Text.Returned r.body.toList r'.body.toList
  span_eq : r'.span = r.span

theorem definitionWords_returned {xs ys : List Char} (h : Returned xs ys) :
    Statement.definitionWords ys = Statement.definitionWords xs := by
  rw [Statement.definitionWords, Statement.definitionWords,
    (h.filter (p := (· != ',')) (by decide) (by decide)).words_eq]

/-- A statement and the same statement with returns in what it was read from. -/
structure Statement.Returned (s s' : Statement) : Prop where
  name_eq : s'.name = s.name
  inputs_eq : s'.inputs = s.inputs
  nodeType_eq : s'.nodeType = s.nodeType
  payload : Text.Returned s.payload.toList s'.payload.toList

/-- The words of a statement do not hold the returns around them. -/
theorem Statement.ofRecord_returned {r r' : Record} (h : r.Returned r') :
    (∃ e, Statement.ofRecord r = .error e ∧ Statement.ofRecord r' = .error e) ∨
      ∃ s s', Statement.ofRecord r = .ok s ∧ Statement.ofRecord r' = .ok s' ∧ s.Returned s' := by
  unfold Statement.ofRecord
  rw [h.label_eq, h.span_eq]
  dsimp only
  by_cases hname : canonicalName r.label = ""
  · rw [if_pos hname, if_pos hname]
    exact .inl ⟨_, rfl, rfl⟩
  · rw [if_neg hname, if_neg hname]
    have hcut := h.body.cut_singleton (c := '(') (by decide) (by decide)
    generalize Text.cut ['('] r.body.toList = o, Text.cut ['('] r'.body.toList = o' at hcut
    cases hcut with
    | none => exact .inl ⟨_, rfl, rfl⟩
    | @some p q hpq =>
      obtain ⟨definition, payload⟩ := p
      obtain ⟨definition', payload'⟩ := q
      dsimp only
      rw [definitionWords_returned hpq.1]
      cases (Statement.definitionWords definition).getLast? with
      | none => exact .inl ⟨_, rfl, rfl⟩
      | some nodeType =>
        refine .inr ⟨_, _, rfl, rfl, ⟨rfl, rfl, rfl, ?_⟩⟩
        rw [String.toList_ofList, String.toList_ofList]
        exact hpq.2

/-- **A record is read alike with returns in its body**, or fails alike. -/
theorem ofRecord_returned {r r' : Record} (h : r.Returned r') :
    Declaration.ofRecord r' = Declaration.ofRecord r := by
  rw [Declaration.ofRecord, Declaration.ofRecord, h.span_eq]
  rcases Statement.ofRecord_returned h with ⟨e, he, he'⟩ | ⟨s, s', hs, hs', hss'⟩
  · rw [he, he']
  · rw [hs, hs']
    dsimp only [bind, Except.bind]
    rw [hss'.nodeType_eq, hss'.name_eq, hss'.inputs_eq, Payload.scan_returned _ hss'.payload]

/-! ## Lines -/

/-- What is left over is reported alike, apart from the returns in it. -/
theorem leftoverOf_returned {first last : Nat} {body body' : List Char}
    (h : Returned body body') :
    List.Forall₂ Warning.SameButReturns (Records.leftoverOf first last body).toList
      (Records.leftoverOf first last body').toList := by
  have hnil := h.trim_eq_nil_iff
  have hsame := h.filter_trim
  rw [Records.leftoverOf, Records.leftoverOf]
  generalize Text.trim body = text, Text.trim body' = text' at hnil hsame
  cases text with
  | nil =>
    rw [hnil.mpr rfl]
    exact .nil
  | cons c cs =>
    cases text' with
    | nil => cases hnil.mp rfl
    | cons c' cs' => exact .cons (.trailingText _ hsame) .nil

/-- **Lines with returns at their ends are cut into the same records**, with returns in their
bodies. -/
theorem ofLines_ended {first line : Nat} {body body' : List Char} {texts texts' : List (List Char)}
    (hbody : Returned body body') (htexts : List.Forall₂ Ended texts texts') :
    List.Forall₂ Record.Returned (Records.ofLines first line body texts).records
        (Records.ofLines first line body' texts').records ∧
      List.Forall₂ Warning.SameButReturns
        (Records.ofLines first line body texts).leftover.toList
        (Records.ofLines first line body' texts').leftover.toList := by
  induction htexts generalizing first line body body' with
  | nil => exact ⟨.nil, leftoverOf_returned hbody⟩
  | @cons text text' texts texts' htext _ ih =>
    have hcut : Option.Rel _ (Text.cut marker text) (Text.cut marker text') :=
      htext.cut (by decide) (by decide)
    rw [Records.ofLines, Records.ofLines]
    generalize Text.cut marker text = o, Text.cut marker text' = o' at hcut
    cases hcut with
    | none =>
      -- The line joins the body, and its line feed takes up the return.
      refine ih ?_
      rw [List.append_assoc, List.append_assoc]
      exact hbody.append htext.returned
    | @some p q hpq =>
      obtain ⟨before, label⟩ := p
      obtain ⟨before', label'⟩ := q
      -- The return ends up behind the name, where it is trimmed.
      obtain ⟨rfl, hlabel⟩ := hpq
      obtain ⟨hrecords, hleftover⟩ := @ih (line + 1) (line + 1) [] [] (.refl [])
      refine ⟨.cons ⟨?_, ?_, rfl⟩ hrecords, hleftover⟩
      · exact congrArg String.ofList hlabel.trim_eq
      · simp only [String.toList_ofList, List.append_assoc]
        exact hbody.append (.refl _)

/-- The records of a script with carriage returns are its records, with returns in their bodies. -/
theorem ofScript_ended (script : String) :
    List.Forall₂ Record.Returned (Records.ofScript script).records
        (Records.ofScript (Text.withReturns script)).records ∧
      List.Forall₂ Warning.SameButReturns (Records.ofScript script).leftover.toList
        (Records.ofScript (Text.withReturns script)).leftover.toList := by
  rw [Records.ofScript, Records.ofScript]
  refine ofLines_ended (.refl []) ?_
  rw [Text.lines_filter (by decide), Text.lines_filter (by decide), List.forall₂_map_left_iff,
    List.forall₂_map_right_iff]
  exact (Text.lines_withReturns script).imp fun _ _ hline => hline.filter (by decide)

theorem declarations_returned {rs rs' : List Record} (h : List.Forall₂ Record.Returned rs rs') :
    declarations rs' = declarations rs := by
  induction h with
  | nil => rfl
  | cons hr _ ih =>
    rw [declarations, declarations] at ih ⊢
    rw [List.mapM_cons, List.mapM_cons, ofRecord_returned hr, ih]

/-! ## The outcome -/

/-- **Carriage returns before line feeds do not change what a script says.** With them it fails with
the same error, or it yields the same graph and the same warnings, whose wording differs in carriage
returns only. -/
theorem ofScript_withReturns (script : String) :
    (∃ e, Parsed.ofScript script = .error e ∧
      Parsed.ofScript (Text.withReturns script) = .error e) ∨
    ∃ p p', Parsed.ofScript script = .ok p ∧ Parsed.ofScript (Text.withReturns script) = .ok p' ∧
      p'.graph = p.graph ∧ List.Forall₂ Warning.SameButReturns p.warnings p'.warnings := by
  obtain ⟨hrecords, hleftover⟩ := ofScript_ended script
  have hdeclared := declarations_returned hrecords
  cases hp : Parsed.ofScript script with
  | error e =>
    refine .inl ⟨e, rfl, ?_⟩
    rw [ofScript_eq_error_iff_declarations] at hp ⊢
    rw [hdeclared]
    exact hp
  | ok p =>
    obtain ⟨declared, hds, hgraph, hwarnings⟩ := ofScript_eq_ok_iff_declarations.mp hp
    let p' : Parsed :=
      { graph := p.graph
        warnings := (Records.ofScript (Text.withReturns script)).leftover.toList ++
          declared.flatMap (·.2) }
    have hp' : Parsed.ofScript (Text.withReturns script) = .ok p' :=
      ofScript_eq_ok_iff_declarations.mpr ⟨declared, hdeclared.trans hds, hgraph, rfl⟩
    refine .inr ⟨p, p', rfl, hp', rfl, ?_⟩
    rw [hwarnings]
    exact List.rel_append hleftover (List.forall₂_same.mpr fun w _ => .refl w)

/-- Text after the last declaration is reported with its returns. -/
example : Parsed.ofScript (Text.withReturns "source() ~> s\nx\ny") =
    .ok
      { graph :=
          { nodes := #[{ id := 0, name := "s", nodeType := "source", span := Span.lines 1 1 }] }
        warnings := [⟨.trailingText "x\r\ny", Span.lines 2 3⟩] } := by cbv

end Script

end FlowDoc
