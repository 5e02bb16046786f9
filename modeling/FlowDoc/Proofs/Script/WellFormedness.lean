import FlowDoc.Proofs.Payload.Entries
import FlowDoc.Proofs.Script.Outcome
import FlowDoc.Proofs.Script.Printing

/-!
# Well-formed graphs

Every graph that is read from a script can be written line by line: its names, node types, streams,
keys and values hold no line feed and no tab, and are trimmed where a reader of the script would not
see the difference. Each clause is due to another part of the reading. Names lose their selectors
and blanks when they are made canonical, node types and streams are words of a definition, and the
entries of a payload are those of `Bag.WellFormed`.

## Main definitions

* `Node.WellFormed`, `Graph.WellFormed`: what holds of every node and of every graph that is read

## Main results

* `canonicalName_chars`, `isWord_streamSelector`: what a reference names and selects
* `Records.chars_ofScript`: a record holds no tab, and its label no line feed
* `Reads.wellFormed`: the node of a record
* `wellFormed_of_mem_nodes`, `isWord_of_mem_edges`: the nodes and the streams of a script
* `wellFormed_ofScript`: the graph of a script
-/

namespace FlowDoc

/-! ## References -/

theorem trimmed_canonicalName (reference : String) :
    Text.trimmed (canonicalName reference) = canonicalName reference := by
  rw [canonicalName]
  split
  · exact Text.trimmed_ofList_trim _
  · exact Text.trimmed_trimmed _

/-- A canonical name holds characters of the reference, and no at sign. -/
theorem canonicalName_chars {reference : String} {c : Char}
    (hc : c ∈ (canonicalName reference).toList) : c ∈ reference.toList ∧ c ≠ '@' := by
  rw [canonicalName] at hc
  split at hc
  case h_1 base selector hcut =>
    rw [String.toList_ofList] at hc
    have hbase : c ∈ base := (Text.trim_sublist base).subset hc
    refine ⟨Text.mem_of_cut_singleton hcut (.inl hbase), ?_⟩
    rintro rfl
    exact Text.not_mem_of_cut_singleton hcut hbase
  case h_2 hcut =>
    rw [Text.toList_trimmed] at hc
    have hmem := (Text.trim_sublist _).subset hc
    refine ⟨hmem, ?_⟩
    rintro rfl
    obtain ⟨before, rest, hsplit⟩ := List.append_of_mem hmem
    exact Text.cut_eq_none_iff.mp hcut before rest (by simpa using hsplit)

namespace Script

/-- The stream that a word selects is a word. -/
theorem isWord_streamSelector {reference stream : String} (hword : IsWord reference)
    (h : streamSelector reference = some stream) : IsWord stream := by
  rw [streamSelector] at h
  split at h
  case h_2 => cases h
  case h_1 base selector hcut =>
    split at h
    · cases h
    case h_2 cs hne =>
      obtain rfl := Option.some.inj h
      constructor
      · simpa using hne
      · intro c hc
        rw [String.toList_ofList] at hc
        have hselector : c ∈ selector := (Text.trim_sublist selector).subset hc
        exact hword.2 c (Text.mem_of_cut_singleton hcut (.inr hselector))

/-! ## Records and statements -/

namespace Records

/-- A record among the lines that are cut: induction on the lines, where the body so far holds no
tab. -/
theorem chars_ofLines {first line : Nat} {body : List Char} {texts : List (List Char)}
    (hbody : ∀ c ∈ body, c ≠ '\t') (htexts : ∀ text ∈ texts, ∀ c ∈ text, c ≠ '\t' ∧ c ≠ '\n')
    {r : Record} (hr : r ∈ (ofLines first line body texts).records) :
    (∀ c ∈ r.label.toList, c ≠ '\t' ∧ c ≠ '\n') ∧ ∀ c ∈ r.body.toList, c ≠ '\t' := by
  induction texts generalizing first line body with
  | nil => simp [ofLines] at hr
  | cons text texts ih =>
    obtain ⟨htext, hrest⟩ := List.forall_mem_cons.mp htexts
    rw [ofLines] at hr
    split at hr
    case h_1 before label hcut =>
      have hsplit := Text.append_eq_of_cut hcut
      rcases List.mem_cons.mp hr with rfl | hr
      · constructor
        · intro c hc
          rw [String.toList_ofList] at hc
          have hlabel : c ∈ label := (Text.trim_sublist label).subset hc
          exact htext c (by simp [hsplit, hlabel])
        · intro c hc
          rw [String.toList_ofList] at hc
          rcases List.mem_append.mp hc with hc | hc
          · rcases List.mem_append.mp hc with hc | hc
            · exact hbody c hc
            · exact (htext c (by simp [hsplit, hc])).1
          · obtain rfl := List.mem_singleton.mp hc
            decide
      · exact ih (fun c hc => absurd hc List.not_mem_nil) hrest hr
    case h_2 =>
      refine ih (fun c hc => ?_) hrest hr
      rcases List.mem_append.mp hc with hc | hc
      · rcases List.mem_append.mp hc with hc | hc
        · exact hbody c hc
        · exact (htext c hc).1
      · obtain rfl := List.mem_singleton.mp hc
        decide

/-- **A record holds no tab, and its label no line feed.** -/
theorem chars_ofScript {script : String} {r : Record} (hr : r ∈ (ofScript script).records) :
    (∀ c ∈ r.label.toList, c ≠ '\t' ∧ c ≠ '\n') ∧ ∀ c ∈ r.body.toList, c ≠ '\t' := by
  refine chars_ofLines (fun c hc => absurd hc List.not_mem_nil) (fun text htext c hc => ?_) hr
  obtain ⟨hmem, hfeed⟩ := Text.mem_of_mem_lines htext hc
  have htab := (List.mem_filter.mp hmem).2
  exact ⟨by simpa using htab, hfeed⟩

end Records

namespace Statement

/-- The words of a definition without an opening bracket. -/
theorem isWord_of_mem_definitionWords {definition : List Char} (hopen : '(' ∉ definition)
    {word : String} (h : word ∈ definitionWords definition) : IsWord word := by
  obtain ⟨cs, hcs, rfl⟩ := List.mem_map.mp h
  constructor
  · simpa using Text.ne_nil_of_mem_words hcs
  · intro c hc
    rw [String.toList_ofList] at hc
    obtain ⟨hmem, hblank⟩ := Text.mem_of_mem_words hcs hc
    obtain ⟨hmem, hcomma⟩ := List.mem_filter.mp hmem
    refine ⟨hblank, by simpa using hcomma, ?_⟩
    rintro rfl
    exact hopen hmem

/-- The parts of a statement: its type is a word, its references are words, and its payload is a
part of the record's body. -/
theorem parts_of_ofRecord {r : Record} {s : Statement} (h : ofRecord r = .ok s) :
    IsWord s.nodeType ∧ (∀ reference ∈ s.inputs, IsWord reference) ∧
      ∀ c ∈ s.payload.toList, c ∈ r.body.toList := by
  unfold ofRecord at h
  extract_lets name at h
  split_ifs at h
  split at h
  · cases h
  case h_2 definition payload hcut =>
    have hword : ∀ word ∈ definitionWords definition, IsWord word := fun word =>
      isWord_of_mem_definitionWords (Text.not_mem_of_cut_singleton hcut)
    extract_lets words at h
    split at h
    · cases h
    case h_2 nodeType hlast =>
      obtain rfl := Except.ok.inj h
      refine ⟨hword _ (List.mem_of_getLast? hlast), ?_, ?_⟩
      · exact fun reference hreference => hword _ (List.mem_of_mem_dropLast hreference)
      · intro c hc
        rw [String.toList_ofList] at hc
        exact Text.mem_of_cut_singleton hcut (.inr hc)

end Statement

end Script

/-! ## Nodes and graphs -/

/-- A node with a name, a type and attributes as scripts declare them. -/
structure Node.WellFormed (n : Node) : Prop where
  name_ne_empty : n.name ≠ ""
  name_trimmed : Text.trimmed n.name = n.name
  name_chars : ∀ c ∈ n.name.toList, c ≠ '@' ∧ c ≠ '\t' ∧ c ≠ '\n'
  nodeType : Script.IsWord n.nodeType
  attributes : n.attributes.WellFormed
  filter : n.nodeType = Payload.filterKeyword → n.attributes.IsExpression

theorem Node.WellFormed.of_bare {n : Node} (h : n.bare.WellFormed) : n.WellFormed where
  name_ne_empty := h.name_ne_empty
  name_trimmed := h.name_trimmed
  name_chars := h.name_chars
  nodeType := h.nodeType
  attributes := h.attributes
  filter := h.filter

/-- A graph with distinct names and well-formed nodes, and with words for the streams of its
edges. -/
structure Graph.WellFormed (g : Graph) : Prop where
  names_nodup : (g.nodes.toList.map (·.name)).Nodup
  nodes : ∀ n ∈ g.nodes.toList, n.WellFormed
  streams : ∀ e ∈ g.edges.toList, ∀ stream, e.stream = some stream → Script.IsWord stream

namespace Script

theorem Reads.isWord_inputs {r : Record} {d : Declaration} (h : Reads r d) :
    ∀ reference ∈ d.inputs, IsWord reference := by
  obtain ⟨statement, -, -⟩ := h
  exact (Statement.parts_of_ofRecord statement).2.1

/-- **The node of a record is well formed.** -/
theorem Reads.wellFormed {script : String} {r : Record} (hr : r ∈ (Records.ofScript script).records)
    {d : Declaration} (h : Reads r d) (k : NodeId) : (d.node k).WellFormed := by
  have hname : (d.node k).name = canonicalName r.label := h.name_eq
  obtain ⟨hlabel, hbody⟩ := Records.chars_ofScript hr
  refine ⟨?_, ?_, ?_, ?_, ?_, fun hfilter => ?_⟩
  · rw [hname]
    exact h.name_ne_empty
  · rw [hname]
    exact trimmed_canonicalName _
  · rw [hname]
    intro c hc
    obtain ⟨hmem, hat⟩ := canonicalName_chars hc
    exact ⟨hat, hlabel c hmem⟩
  · obtain ⟨statement, -, -⟩ := h
    exact (Statement.parts_of_ofRecord statement).1
  · obtain ⟨statement, scanned, -⟩ := h
    have hpayload := (Statement.parts_of_ofRecord statement).2.2
    exact Payload.wellFormed_of_scan (fun c hc => hbody c (hpayload c hc)) scanned
  · obtain @⟨s, payload, -, scanned, -⟩ := h
    have hreading : Payload.Reading.ofType s.nodeType = .verbatim := if_pos hfilter
    rw [hreading] at scanned
    exact Payload.isExpression_of_scan scanned

section Parsed

variable {script : String} {p : Parsed}

theorem wellFormed_of_mem_nodes (h : Parsed.ofScript script = .ok p) {n : Node}
    (hn : n ∈ p.graph.nodes.toList) : n.WellFormed := by
  obtain ⟨ds, hreads, hgraph⟩ := exists_reads_of_ofScript h
  obtain ⟨k, hk⟩ := List.mem_iff_getElem?.mp hn
  rw [hgraph, Array.getElem?_toList] at hk
  have hbare := getElem?_wiredGraph_bare ds k
  rw [hk, Option.map_some, eq_comm, Option.map_eq_some_iff] at hbare
  obtain ⟨d, hd, hnode⟩ := hbare
  obtain ⟨r, hr, hread⟩ := exists_left_of_forall₂ hreads (List.mem_of_getElem? hd)
  exact .of_bare (hnode ▸ hread.wellFormed hr k)

/-- An edge carries the selector of a reference, which is a word of its definition. -/
theorem isWord_of_mem_edges (h : Parsed.ofScript script = .ok p) {e : Edge}
    (he : e ∈ p.graph.edges.toList) {stream : String} (hstream : e.stream = some stream) :
    IsWord stream := by
  obtain ⟨ds, hreads, hgraph⟩ := exists_reads_of_ofScript h
  rw [hgraph, edges_wiredGraph] at he
  obtain ⟨⟨d, k⟩, hd, he⟩ := List.mem_flatMap.mp he
  obtain ⟨reference, hreference, he⟩ := List.mem_filterMap.mp he
  obtain ⟨parent, -, rfl⟩ := Option.map_eq_some_iff.mp he
  obtain ⟨r, -, hread⟩ := exists_left_of_forall₂ hreads (List.fst_mem_of_mem_zipIdx hd)
  exact isWord_streamSelector (hread.isWord_inputs _ (mem_of_mem_eraseDupsBy hreference)) hstream

/-- The names of the nodes are those of the records, which are distinct. -/
theorem nodup_names_ofScript (h : Parsed.ofScript script = .ok p) :
    (p.graph.nodes.toList.map (·.name)).Nodup := by
  obtain ⟨ds, hreads, hgraph⟩ := exists_reads_of_ofScript h
  obtain ⟨-, hdistinct, -⟩ := exists_ofScript_eq_ok_iff.mp ⟨p, h⟩
  have hnames : (wiredGraph ds).nodes.toList.map (·.name) = declaredNames ds :=
    map_nodes_wiredGraph ds fun hbare => congrArg Node.name hbare
  rwa [hgraph, hnames, declaredNames_of_reads hreads]

/-- **Every graph that is read from a script is well formed.** -/
theorem wellFormed_ofScript (h : Parsed.ofScript script = .ok p) : p.graph.WellFormed := by
  refine ⟨nodup_names_ofScript h, fun n hn => wellFormed_of_mem_nodes h hn,
    fun e he stream hstream => ?_⟩
  exact isWord_of_mem_edges h he hstream

end Parsed

/-- A script with tabs and line breaks inside its payloads, and a filter that reads one stream. -/
def layoutScript : String :=
  "source(output(a as\tinteger),\r\n format: 'csv', [x], y) ~> In@raw \n" ++
    "In@Upd, In filter(a > 1 /* , */\n) ~> Out"

/-- What is read of `layoutScript`. -/
def layoutParsed : Parsed :=
  { graph :=
      { nodes :=
          #[{ id := 0, name := "In", nodeType := "source",
              attributes :=
                ⟨[("output", "a asinteger"), ("format", "'csv'"), ("other", "x, y")]⟩,
              children := #[1], span := Span.lines 1 2 },
            { id := 1, name := "Out", nodeType := "filter",
              attributes := ⟨[("other", "a > 1 /* , */")]⟩, parents := #[0],
              span := Span.lines 3 4 }]
        edges := #[⟨0, 1, some "Upd"⟩] }
    warnings := [⟨.emptyAttributeKey "In" "x", Span.lines 1 2⟩] }

theorem wellFormed_ofScript_layoutScript :
    Parsed.ofScript layoutScript = .ok layoutParsed ∧ layoutParsed.graph.WellFormed := by
  have h : Parsed.ofScript layoutScript = .ok layoutParsed :=
    ofScript_eq_ok_iff_evaluate.mpr (by decide +kernel)
  exact ⟨h, wellFormed_ofScript h⟩

end Script

end FlowDoc
