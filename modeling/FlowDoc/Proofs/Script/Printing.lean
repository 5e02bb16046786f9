import Mathlib.Data.List.Infix
import FlowDoc.Proofs.Payload.Printing
import FlowDoc.Proofs.Script.Outcome

/-!
# Printing a script

Declarations are printed one a line: the references, the node type, the payload in brackets, the
marker and the name. Read as a script, the lines are the declarations again. The marker is looked
for from the start of a line, so nothing before it may look like it: no payload, and not the last
reference with the blank that follows it.

## Main definitions

* `Declaration.line`, `scriptOf`: declarations as a script writes them
* `Declaration.WellFormed`: what the parts of a declaration must be like
* `Declaration.Unmarked`: a last reference that makes up no marker

## Main results

* `WellFormed.ofRecord_record`: a line is read back as its declaration
* `ofScript_scriptOf`: a printed script is read back
* `ofScript_markedDeclaration`: a last reference that makes up a marker
-/

namespace FlowDoc.Script

/-! ## Declarations as a script writes them -/

namespace Declaration

/-- The references and the node type. -/
def definition (inputs : List String) (nodeType : String) : String :=
  (if inputs = [] then "" else ", ".intercalate inputs ++ " ") ++ nodeType

/-- The payload of a declaration. -/
def payload (d : Declaration) : String :=
  Payload.printed (.ofType d.nodeType) d.attributes

/-- The line of a declaration. -/
def line (d : Declaration) : String :=
  definition d.inputs d.nodeType ++ "(" ++ d.payload ++ ") ~> " ++ d.name

end Declaration

/-- The script of declarations, one a line. -/
def scriptOf (ds : List Declaration) : String :=
  "\n".intercalate (ds.map (·.line))

/-- Declarations with the lines that a script writes them on. -/
def onLines (ds : List Declaration) : List Declaration :=
  (ds.zipIdx 1).map fun (d, k) => { d with span := Span.lines k k }

/-- A word of a definition. -/
def IsWord (word : String) : Prop :=
  word ≠ "" ∧ ∀ c ∈ word.toList, Text.isBlank c = false ∧ c ≠ ',' ∧ c ≠ '('

instance (word : String) : Decidable (IsWord word) :=
  -- Decided by going through the text, not through all characters.
  letI := List.decidableBAll (fun c => Text.isBlank c = false ∧ c ≠ ',' ∧ c ≠ '(') word.toList
  inferInstanceAs (Decidable (_ ∧ _))

namespace Declaration

/-- A declaration whose parts are read back from their texts. -/
structure WellFormed (d : Declaration) : Prop where
  name_ne_empty : d.name ≠ ""
  name_trimmed : Text.trimmed d.name = d.name
  name_chars : ∀ c ∈ d.name.toList, c ≠ '@' ∧ c ≠ '\t' ∧ c ≠ '\n'
  nodeType : IsWord d.nodeType
  inputs : ∀ reference ∈ d.inputs, IsWord reference
  attributes : Payload.Printable (.ofType d.nodeType) d.attributes
  payload_chars : ∀ c ∈ d.payload.toList, c ≠ '\t' ∧ Payload.isLineBreak c = false
  payload_marker : ¬ marker <:+: d.payload.toList

/-- No last reference makes up a marker with the blank after it. -/
def Unmarked (d : Declaration) : Prop :=
  ∀ reference, d.inputs.getLast? = some reference → ¬ marker.dropLast <:+ reference.toList

instance (d : Declaration) : Decidable d.WellFormed :=
  letI := List.decidableBAll (fun c => c ≠ '@' ∧ c ≠ '\t' ∧ c ≠ '\n') d.name.toList
  letI := List.decidableBAll (fun c => c ≠ '\t' ∧ Payload.isLineBreak c = false) d.payload.toList
  decidable_of_iff
    ((d.name ≠ "" ∧ Text.trimmed d.name = d.name ∧
        ∀ c ∈ d.name.toList, c ≠ '@' ∧ c ≠ '\t' ∧ c ≠ '\n') ∧
      (IsWord d.nodeType ∧ ∀ reference ∈ d.inputs, IsWord reference) ∧
      Payload.Printable (.ofType d.nodeType) d.attributes ∧
      (∀ c ∈ d.payload.toList, c ≠ '\t' ∧ Payload.isLineBreak c = false) ∧
      ¬ marker <:+: d.payload.toList)
    ⟨fun ⟨⟨h₁, h₂, h₃⟩, ⟨h₄, h₅⟩, h₆, h₇, h₈⟩ => ⟨h₁, h₂, h₃, h₄, h₅, h₆, h₇, h₈⟩,
      fun ⟨h₁, h₂, h₃, h₄, h₅, h₆, h₇, h₈⟩ => ⟨⟨h₁, h₂, h₃⟩, ⟨h₄, h₅⟩, h₆, h₇, h₈⟩⟩

instance (d : Declaration) : Decidable d.Unmarked :=
  inferInstanceAs (Decidable (∀ _, d.inputs.getLast? = some _ → _))

end Declaration

/-! ## The definition -/

section Definition

open Declaration (definition)

variable {inputs : List String} {nodeType : String}

theorem toList_definition_nil (nodeType : String) :
    (definition [] nodeType).toList = nodeType.toList := by
  simp [definition]

theorem toList_definition_singleton (reference nodeType : String) :
    (definition [reference] nodeType).toList = reference.toList ++ ' ' :: nodeType.toList := by
  simp [definition]

theorem toList_definition_cons_cons (reference reference' : String) (inputs : List String)
    (nodeType : String) :
    (definition (reference :: reference' :: inputs) nodeType).toList =
      reference.toList ++ ',' :: ' ' :: (definition (reference' :: inputs) nodeType).toList := by
  simp [definition]

theorem IsWord.toList_ne_nil {word : String} (h : IsWord word) : word.toList ≠ [] := by
  simpa using h.1

theorem IsWord.filter_comma {word : String} (h : IsWord word) :
    word.toList.filter (· != ',') = word.toList := by
  rw [List.filter_eq_self]
  intro c hc
  simpa using (h.2 c hc).2.1

theorem IsWord.not_mem {word : String} (h : IsWord word) {c : Char}
    (hc : Text.isBlank c = true ∨ c = '(') : c ∉ word.toList := by
  intro hmem
  obtain ⟨hblank, -, hopen⟩ := h.2 c hmem
  rcases hc with hc | hc
  · rw [hblank] at hc
    cases hc
  · exact hopen hc

theorem IsWord.words_eq {word : String} (h : IsWord word) :
    Text.words word.toList = [word.toList] :=
  Text.words_of_word h.toList_ne_nil fun c hc => (h.2 c hc).1

/-- The words of a definition are the references and the node type. -/
theorem definitionWords_definition (htype : IsWord nodeType) (h : ∀ r ∈ inputs, IsWord r) :
    Statement.definitionWords (definition inputs nodeType).toList = inputs ++ [nodeType] := by
  induction inputs with
  | nil =>
    rw [Statement.definitionWords, toList_definition_nil, htype.filter_comma, htype.words_eq]
    simp
  | cons r inputs ih =>
    obtain ⟨hr, hrest⟩ := List.forall_mem_cons.mp h
    rw [Statement.definitionWords] at ih ⊢
    cases inputs with
    | nil =>
      rw [toList_definition_singleton, List.filter_append, List.filter_cons_of_pos rfl,
        hr.filter_comma, htype.filter_comma, Text.words_append_blank rfl, hr.words_eq,
        htype.words_eq]
      simp
    | cons r' inputs =>
      rw [toList_definition_cons_cons, List.filter_append, List.filter_cons_of_neg (by simp),
        List.filter_cons_of_pos rfl, hr.filter_comma, Text.words_append_blank rfl, hr.words_eq,
        List.map_append, ih hrest]
      simp

/-- A definition holds the characters of its words, commas and blanks. -/
theorem forall_mem_definition {p : Char → Prop} (hcomma : p ',') (hblank : p ' ')
    (htype : ∀ c ∈ nodeType.toList, p c) (h : ∀ r ∈ inputs, ∀ c ∈ r.toList, p c) :
    ∀ c ∈ (definition inputs nodeType).toList, p c := by
  induction inputs with
  | nil => rwa [toList_definition_nil]
  | cons r inputs ih =>
    obtain ⟨hr, hrest⟩ := List.forall_mem_cons.mp h
    cases inputs with
    | nil =>
      rw [toList_definition_singleton]
      exact List.forall_mem_append.mpr ⟨hr, List.forall_mem_cons.mpr ⟨hblank, htype⟩⟩
    | cons r' inputs =>
      rw [toList_definition_cons_cons]
      exact List.forall_mem_append.mpr ⟨hr, List.forall_mem_cons.mpr ⟨hcomma,
        List.forall_mem_cons.mpr ⟨hblank, ih hrest⟩⟩⟩

theorem not_mem_definition (htype : IsWord nodeType) (h : ∀ r ∈ inputs, IsWord r) :
    '(' ∉ (definition inputs nodeType).toList := fun hmem =>
  forall_mem_definition (p := (· ≠ '(')) (by decide) (by decide) (fun c hc => (htype.2 c hc).2.2)
    (fun r hr c hc => ((h r hr).2 c hc).2.2) '(' hmem rfl

theorem IsWord.not_marker {word : String} (h : IsWord word) : ¬ marker <:+: word.toList :=
  fun hin => h.not_mem (.inl rfl) (hin.subset (by decide : ' ' ∈ marker))

/-- A marker around a blank ends with it. -/
theorem marker_append_blank {xs ys : List Char} (h : marker <:+: xs ++ ' ' :: ys) :
    marker <:+: xs ∨ marker.dropLast <:+ xs ∨ marker <:+: ys := by
  rcases List.infix_append_iff.mp h with hin | hin | ⟨ms, ms', hsplit, htail, hhead⟩
  · exact .inl hin
  · rcases List.infix_cons_iff.mp hin with hhead | hin
    · obtain ⟨t, ht, -⟩ := (List.prefix_cons_iff.mp hhead).resolve_left (by decide)
      exact absurd (List.head_eq_of_cons_eq ht) (by decide)
    · exact .inr (.inr hin)
  · rcases List.prefix_cons_iff.mp hhead with rfl | ⟨t, rfl, -⟩
    · rw [List.append_nil] at hsplit
      exact .inl (hsplit ▸ htail.isInfix)
    · -- The only blank of the marker is its last character.
      have hms : ms = marker.dropLast := by
        rcases ms with _ | ⟨a, _ | ⟨b, _ | ⟨c, ms⟩⟩⟩ <;> simp_all [marker, eq_comm]
      exact .inr (.inl (hms ▸ htail))

/-- No marker is found in a definition. -/
theorem not_marker_definition (htype : IsWord nodeType) (h : ∀ r ∈ inputs, IsWord r)
    (hlast : ∀ r, inputs.getLast? = some r → ¬ marker.dropLast <:+ r.toList) :
    ¬ marker <:+: (definition inputs nodeType).toList := by
  induction inputs with
  | nil =>
    rw [toList_definition_nil]
    exact htype.not_marker
  | cons r inputs ih =>
    obtain ⟨hr, hrest⟩ := List.forall_mem_cons.mp h
    cases inputs with
    | nil =>
      rw [toList_definition_singleton]
      intro hin
      rcases marker_append_blank hin with hin | htail | hin
      · exact hr.not_marker hin
      · exact hlast r rfl htail
      · exact htype.not_marker hin
    | cons r' inputs =>
      rw [toList_definition_cons_cons]
      intro hin
      rcases Text.infix_append_cons (by decide) (by decide) hin with hin | hin
      · exact hr.not_marker hin
      · -- The comma keeps the reference before it apart from the blank after it.
        have hblank : marker <:+: [] ++ ' ' :: (definition (r' :: inputs) nodeType).toList := hin
        rcases marker_append_blank hblank with hin | htail | hin
        · exact absurd hin (by decide)
        · exact absurd htail (by decide)
        · exact ih hrest hlast hin

end Definition

/-! ## Lines -/

namespace Declaration

/-- The record of a declaration on the line numbered `k`. -/
def record (d : Declaration) (k : Nat) : Record :=
  { label := d.name
    body := definition d.inputs d.nodeType ++ "(" ++ d.payload ++ ") \n"
    span := Span.lines k k }

variable {d : Declaration}

theorem toList_line (d : Declaration) :
    d.line.toList = ((definition d.inputs d.nodeType).toList ++ '(' ::
      (d.payload.toList ++ ')' :: [' '])) ++ marker ++ d.name.toList := by
  simp [line, marker]

theorem toList_body (d : Declaration) (k : Nat) :
    (d.record k).body.toList = (definition d.inputs d.nodeType).toList ++ '(' ::
      (d.payload.toList ++ [')', ' ', '\n']) := by
  simp [record]

/-- The line of a declaration is cut before its name. -/
theorem WellFormed.cut_line (h : d.WellFormed) (hlast : d.Unmarked) :
    Text.cut marker d.line.toList =
      some ((definition d.inputs d.nodeType).toList ++ '(' :: (d.payload.toList ++ ')' :: [' ']),
        d.name.toList) := by
  rw [toList_line]
  refine Text.cut_append _ (by decide) fun hin => ?_
  rw [List.append_assoc, List.cons_append, List.append_assoc, List.cons_append] at hin
  -- The brackets of the payload are no part of a marker.
  rcases Text.infix_append_cons (by decide) (by decide) hin with hin | hin
  · exact not_marker_definition h.nodeType h.inputs hlast hin
  · rcases Text.infix_append_cons (by decide) (by decide) hin with hin | hin
    · exact h.payload_marker hin
    · exact absurd hin (by decide)

theorem WellFormed.trim_name (h : d.WellFormed) : Text.trim d.name.toList = d.name.toList := by
  rw [← Text.toList_trimmed, h.name_trimmed]

theorem WellFormed.canonicalName_eq (h : d.WellFormed) : canonicalName d.name = d.name := by
  have hcut : Text.cut ['@'] d.name.toList = none := by
    by_contra hsome
    have hin := Text.cut_ne_none_iff.mp hsome
    exact (h.name_chars '@' (hin.subset (List.mem_singleton_self _))).1 rfl
  rw [canonicalName, hcut]
  exact h.name_trimmed

theorem WellFormed.ofRecord_eq (h : d.WellFormed) (k : Nat) :
    Statement.ofRecord (d.record k) =
      .ok
        { name := d.name
          definition := definition d.inputs d.nodeType
          inputs := d.inputs
          nodeType := d.nodeType
          payload := String.ofList (d.payload.toList ++ [')', ' ', '\n']) } := by
  have hcut : Text.cut ['('] (d.record k).body.toList =
      some ((definition d.inputs d.nodeType).toList, d.payload.toList ++ [')', ' ', '\n']) := by
    rw [toList_body]
    exact Text.cut_singleton _ (not_mem_definition h.nodeType h.inputs)
  have hname : canonicalName (d.record k).label = d.name := h.canonicalName_eq
  rw [Statement.ofRecord, hname, if_neg h.name_ne_empty, hcut]
  simp [definitionWords_definition h.nodeType h.inputs]

/-- **A line is read back as its declaration**, without a warning. -/
theorem WellFormed.ofRecord_record (h : d.WellFormed) (k : Nat) :
    ofRecord (d.record k) = .ok ({ d with span := Span.lines k k }, []) := by
  have hscan := Payload.scan_printed h.attributes fun c hc => (h.payload_chars c hc).2
  exact ofRecord_eq_ok_iff.mpr ⟨_, _, h.ofRecord_eq k, hscan, rfl, rfl, rfl⟩

end Declaration

/-! ## Scripts -/

section Script

open Declaration (definition)

variable {ds : List Declaration}

theorem IsWord.chars {word : String} (h : IsWord word) :
    ∀ c ∈ word.toList, c ≠ '\t' ∧ c ≠ '\n' := by
  intro c hc
  have hblank := (h.2 c hc).1
  constructor
  · rintro rfl
    cases hblank
  · rintro rfl
    cases hblank

/-- A line holds no tab and no line feed. -/
theorem Declaration.WellFormed.line_chars {d : Declaration} (h : d.WellFormed) :
    ∀ c ∈ d.line.toList, c ≠ '\t' ∧ c ≠ '\n' := by
  have hdefinition : ∀ c ∈ (definition d.inputs d.nodeType).toList, c ≠ '\t' ∧ c ≠ '\n' :=
    forall_mem_definition (by decide) (by decide) h.nodeType.chars fun r hr => (h.inputs r hr).chars
  have hpayload : ∀ c ∈ d.payload.toList, c ≠ '\t' ∧ c ≠ '\n' := by
    intro c hc
    obtain ⟨htab, hbreak⟩ := h.payload_chars c hc
    refine ⟨htab, ?_⟩
    rintro rfl
    cases hbreak
  have hname : ∀ c ∈ d.name.toList, c ≠ '\t' ∧ c ≠ '\n' := fun c hc => (h.name_chars c hc).2
  rw [Declaration.toList_line]
  simp only [List.forall_mem_append, List.forall_mem_cons]
  refine ⟨⟨⟨hdefinition, by decide, hpayload, by decide, by decide, by simp⟩, ?_⟩, hname⟩
  simp [marker]

/-- The lines of a script are the lines of its declarations. -/
theorem lines_scriptOf (h : ∀ d ∈ ds, d.WellFormed) (hne : ds ≠ []) :
    Text.lines ((scriptOf ds).toList.filter (· != '\t')) = ds.map (·.line.toList) := by
  have hlines : Text.lines (scriptOf ds).toList = ds.map (·.line.toList) := by
    rw [scriptOf, String.toList_intercalate, List.map_map, Text.lines]
    refine List.splitOn_intercalate '\n' ?_ (by simpa using hne)
    intro l hl hmem
    obtain ⟨d, hd, rfl⟩ := List.mem_map.mp hl
    exact ((h d hd).line_chars '\n' hmem).2 rfl
  rw [Text.lines_filter rfl, hlines, List.map_map]
  refine List.map_congr_left fun d hd => List.filter_eq_self.mpr fun c hc => ?_
  simpa using ((h d hd).line_chars c hc).1

/-- The lines of declarations are cut into their records. -/
theorem ofLines_map_line (h : ∀ d ∈ ds, d.WellFormed ∧ d.Unmarked) (k : Nat) :
    Records.ofLines k k [] (ds.map (·.line.toList)) =
      ⟨(ds.zipIdx k).map fun (d, k) => d.record k, none⟩ := by
  induction ds generalizing k with
  | nil => rfl
  | cons d ds ih =>
    obtain ⟨⟨hd, hlast⟩, hrest⟩ := List.forall_mem_cons.mp h
    have hlabel : String.ofList (Text.trim d.name.toList) = (d.record k).label := by
      rw [hd.trim_name, String.ofList_toList]
      rfl
    have hbody : String.ofList ([] ++ ((definition d.inputs d.nodeType).toList ++ '(' ::
        (d.payload.toList ++ ')' :: [' '])) ++ ['\n']) = (d.record k).body := by
      apply String.toList_injective
      simp [Declaration.toList_body]
    rw [List.map_cons, Records.ofLines, hd.cut_line hlast]
    dsimp only
    rw [hlabel, hbody, ih hrest, List.zipIdx_cons, List.map_cons]
    rfl

/-- **A printed script is cut into the records of its declarations**, and nothing is left over. -/
theorem ofScript_records (h : ∀ d ∈ ds, d.WellFormed ∧ d.Unmarked) :
    Records.ofScript (scriptOf ds) = ⟨(ds.zipIdx 1).map fun (d, k) => d.record k, none⟩ := by
  by_cases hne : ds = []
  · subst hne
    rfl
  · rw [Records.ofScript, lines_scriptOf (fun d hd => (h d hd).1) hne, ofLines_map_line h]

theorem declarations_records (h : ∀ d ∈ ds, d.WellFormed) :
    declarations ((ds.zipIdx 1).map fun (d, k) => d.record k) =
      .ok ((onLines ds).map (·, [])) := by
  rw [declarations, mapM_eq_ok_iff, onLines, List.forall₂_map_right_iff,
    List.forall₂_map_right_iff, List.forall₂_map_left_iff, List.forall₂_same]
  rintro ⟨d, k⟩ hd
  exact (h d (List.fst_mem_of_mem_zipIdx hd)).ofRecord_record k

/-- **A printed script is read back** as its declarations on their lines, without a warning, and
what is read is their graph or the fault in their wiring. -/
theorem ofScript_scriptOf (ds : List Declaration) (h : ∀ d ∈ ds, d.WellFormed ∧ d.Unmarked) :
    (Records.ofScript (scriptOf ds)).leftover = none ∧
    declarations (Records.ofScript (scriptOf ds)).records = .ok ((onLines ds).map (·, [])) ∧
    Parsed.ofScript (scriptOf ds) = (graphOf (onLines ds)).map fun graph => ⟨graph, []⟩ := by
  have hrecords := ofScript_records h
  have hdeclared := declarations_records fun d hd => (h d hd).1
  refine ⟨by rw [hrecords], by rw [hrecords, hdeclared], ?_⟩
  have hmap : ((onLines ds).map fun d => (d, ([] : List Warning))).map (·.1) = onLines ds := by
    rw [List.map_map]
    exact List.map_id _
  have hwarnings : ((onLines ds).map fun d => (d, ([] : List Warning))).flatMap (·.2) = [] := by
    rw [List.flatMap_map]
    simp
  have hread : Parsed.ofScript (scriptOf ds) =
      graphOf (((onLines ds).map fun d => (d, ([] : List Warning))).map (·.1)) >>= fun graph =>
        .ok ⟨graph, [] ++ ((onLines ds).map fun d => (d, ([] : List Warning))).flatMap (·.2)⟩ := by
    rw [Parsed.ofScript, hrecords]
    dsimp only
    rw [hdeclared]
    rfl
  rw [hread, hmap, hwarnings]
  cases graphOf (onLines ds) with
  | error e => rfl
  | ok graph => rfl

/-- A node that reads from itself and whose name makes up a marker with the blank after it. -/
def markedDeclaration : Declaration :=
  { name := "~>", nodeType := "t", inputs := ["~>"] }

/-- A last reference that makes up a marker ends the line's definition: the line is well formed and
its reference resolved, but what is read is a record without a bracket. -/
theorem ofScript_markedDeclaration :
    markedDeclaration.WellFormed ∧ (∃ graph, graphOf (onLines [markedDeclaration]) = .ok graph) ∧
    scriptOf [markedDeclaration] = "~> t() ~> ~>" ∧
    Parsed.ofScript (scriptOf [markedDeclaration]) =
      .error (.malformedRecord "t() ~> ~>" .noOpening (Span.lines 1 1)) := by
  refine ⟨?_, ⟨_, graphOf_of_resolvable ⟨?_, ?_⟩⟩, ?_, ?_⟩
  · decide +kernel
  · decide +kernel
  · decide +kernel
  · decide +kernel
  · decide +kernel

/-- Declarations with nested brackets, strings and comments in values, a filter, and references to
later nodes, repeated and with selectors. -/
def nestedDeclarations : List Declaration :=
  [{ name := "out (1)", nodeType := "sink", inputs := ["keep@yes", "src", "keep"],
     attributes := ⟨[("map", "[a(b), c], 'it\\'s )'"), ("other", ""), ("k /*(*/", "/* ) */ y")]⟩ },
   { name := "keep", nodeType := "filter", inputs := ["src"],
     attributes := ⟨[("other", "a(b) && c == ')', d")]⟩ },
   { name := "src", nodeType := "source" }]

theorem ofScript_nestedDeclarations :
    (∀ d ∈ nestedDeclarations, d.WellFormed ∧ d.Unmarked) ∧
    Parsed.ofScript (scriptOf nestedDeclarations) =
      (graphOf (onLines nestedDeclarations)).map fun graph => ⟨graph, []⟩ := by
  have h : ∀ d ∈ nestedDeclarations, d.WellFormed ∧ d.Unmarked := by decide +kernel
  exact ⟨h, (ofScript_scriptOf _ h).2.2⟩

end Script

end FlowDoc.Script
