import FlowDoc.Proofs.Render.Keys
import FlowDoc.Proofs.Script.Streams
import FlowDoc.Proofs.Script.WellFormedness
import FlowDoc.Render.Markdown

/-!
# What a flowchart shows

The flowchart of a script shows every node and every edge on a line of its own, exactly once. The
edges are found through the children of the nodes and their streams through the ends of the edges,
so this rests on the consistency of the graph. That a line is one line rests on the names and the
streams that scripts declare, which hold no line feed.

## Main definitions

* `byNumber`: a list by the numbers of its elements
* `Graph.charted`: the edges of a graph in the order of its flowchart
* `Edge.line`, `Flowchart.shownNode`, `Flowchart.shownClick`: the lines that are shown

## Main results

* `byNumber_perm`, `filter_byNumber`, `pairwise_byNumber`: the elements by their numbers
* `edgeLines_eq`, `lines_eq`: the lines of the flowchart of a consistent graph
* `flowchart_ofScript`: the flowchart of a script, line by line
-/

namespace FlowDoc

/-! ## Elements by their numbers -/

section ByNumber

variable {α : Type} (f : α → Nat) (l : List α)

/-- The elements with numbers below `n`, by their numbers. -/
def byNumber (n : Nat) : List α :=
  (List.range n).flatMap fun k => l.filter (f · == k)

theorem byNumber_succ (n : Nat) :
    byNumber f l (n + 1) = byNumber f l n ++ l.filter (f · == n) := by
  rw [byNumber, List.range_succ, List.flatMap_append, ← byNumber, List.flatMap_singleton]

/-- Each element is there once, as often as in the list. -/
theorem byNumber_perm (n : Nat) : (byNumber f l n).Perm (l.filter (f · < n)) := by
  induction n with
  | zero => simp [byNumber]
  | succ n ih =>
    -- The numbers below `n + 1` are those below `n`, and `n`.
    have hsplit := List.filter_append_perm (f · < n) (l.filter (f · < n + 1))
    have hbelow : (l.filter (f · < n + 1)).filter (f · < n) = l.filter (f · < n) := by
      rw [List.filter_filter]
      refine List.filter_congr fun x _ => ?_
      rw [Bool.eq_iff_iff]
      simp only [Bool.and_eq_true, decide_eq_true_eq]
      omega
    have hat : (l.filter (f · < n + 1)).filter (fun x => !decide (f x < n)) =
        l.filter (f · == n) := by
      rw [List.filter_filter]
      refine List.filter_congr fun x _ => ?_
      rw [Bool.eq_iff_iff]
      simp only [Bool.and_eq_true, Bool.not_eq_true', decide_eq_true_eq, decide_eq_false_iff_not,
        beq_iff_eq]
      omega
    rw [hbelow, hat] at hsplit
    rw [byNumber_succ]
    exact (ih.append_right _).trans hsplit

variable {f l}

/-- The elements with one number stand in the order of the list. -/
theorem filter_byNumber {k n : Nat} (h : k < n) :
    (byNumber f l n).filter (f · == k) = l.filter (f · == k) := by
  induction n with
  | zero => omega
  | succ n ih =>
    rw [byNumber_succ, List.filter_append, List.filter_filter]
    rcases Nat.lt_succ_iff_lt_or_eq.mp h with hlt | rfl
    · have hnone : l.filter (fun x => f x == k && f x == n) = [] := by
        rw [List.filter_eq_nil_iff]
        intro x _
        simp only [Bool.and_eq_true, beq_iff_eq]
        omega
      rw [ih hlt, hnone, List.append_nil]
    · have hbelow : (byNumber f l k).filter (f · == k) = [] := by
        rw [List.filter_eq_nil_iff]
        intro x hx
        have hlt := (List.mem_filter.mp ((byNumber_perm f l k).mem_iff.mp hx)).2
        simp only [decide_eq_true_eq] at hlt
        simp only [beq_iff_eq]
        omega
      rw [hbelow, List.nil_append]
      simp only [Bool.and_self]

theorem pairwise_byNumber (n : Nat) : (byNumber f l n).Pairwise (f · ≤ f ·) := by
  rw [byNumber, List.pairwise_flatMap]
  constructor
  · intro k _
    refine List.pairwise_of_forall_mem_list fun x hx y hy => ?_
    have hx' := (List.mem_filter.mp hx).2
    have hy' := (List.mem_filter.mp hy).2
    rw [beq_iff_eq] at hx' hy'
    exact Nat.le_of_eq (hx'.trans hy'.symm)
  · refine List.pairwise_lt_range.imp fun {j k} hjk x hx y hy => ?_
    have hx' := (List.mem_filter.mp hx).2
    have hy' := (List.mem_filter.mp hy).2
    rw [beq_iff_eq] at hx' hy'
    omega

end ByNumber

/-! ## The edges of a flowchart -/

namespace Graph

/-- The edges by the nodes that they start from; those from one node in the order in which they
were drawn. -/
def charted (g : Graph) : List Edge :=
  byNumber Edge.source g.edges.toList g.size

namespace Consistent

variable {g : Graph}

theorem charted_perm (hg : g.Consistent) : g.charted.Perm g.edges.toList := by
  have hall : g.edges.toList.filter (·.source < g.size) = g.edges.toList := by
    rw [List.filter_eq_self]
    intro e he
    exact decide_eq_true (hg.source_lt e he)
  have hperm := byNumber_perm Edge.source g.edges.toList g.size
  rwa [hall] at hperm

/-- The edges from a node are in the order of its children. -/
theorem map_target_charted (hg : g.Consistent) {k : Nat} {node : Node}
    (h : g.nodes[k]? = some node) :
    (g.charted.filter (·.source == k)).map (·.target) = node.children.toList := by
  have hk : k < g.size := (Array.getElem?_eq_some_iff.mp h).1
  rw [charted, filter_byNumber hk, hg.children_eq h, targetsFrom]

theorem map_id_nodes (hg : g.Consistent) : g.nodes.toList.map (·.id) = List.range g.size := by
  apply List.ext_getElem?
  intro k
  rw [List.getElem?_map, Array.getElem?_toList]
  cases h : g.nodes[k]? with
  | none =>
    have hk : g.size ≤ k := Array.getElem?_eq_none_iff.mp h
    rw [Option.map_none, List.getElem?_eq_none (by rwa [List.length_range])]
  | some node =>
    have hk : k < g.size := (Array.getElem?_eq_some_iff.mp h).1
    rw [Option.map_some, hg.id_eq h, List.getElem?_range hk]

/-- What is said of the edges by the numbers of their ends may be said node by node. -/
theorem map_byNumber (hg : g.Consistent) {β : Type} (f : Edge → NodeId) (h : Edge → β) :
    (byNumber f g.edges.toList g.size).map h =
      g.nodes.toList.flatMap fun node => (g.edges.toList.filter (f · == node.id)).map h := by
  rw [byNumber, ← hg.map_id_nodes, List.flatMap_map, List.map_flatMap]

/-- No other edge joins the ends of an edge. -/
theorem filter_ends_eq (hg : g.Consistent) {e : Edge} (he : e ∈ g.edges.toList) :
    g.edges.toList.filter (·.ends == e.ends) = [e] := by
  have hends : (g.edges.toList.filter (·.ends == e.ends)).map Edge.ends = [e.ends] := by
    have hfilter : (g.edges.toList.filter (·.ends == e.ends)).map Edge.ends =
        g.pairs.filter (· == e.ends) := by
      rw [pairs, List.filter_map]
      rfl
    rw [hfilter, List.filter_beq,
      List.count_eq_one_of_mem hg.pairs_nodup (List.mem_map_of_mem he), List.replicate_one]
  obtain ⟨e', hone, -⟩ := List.map_eq_singleton_iff.mp hends
  have hmem : e ∈ g.edges.toList.filter (·.ends == e.ends) :=
    List.mem_filter.mpr ⟨he, beq_self_eq_true _⟩
  rw [hone, List.mem_singleton] at hmem
  rw [hone, hmem]

end Consistent

end Graph

/-! ## The lines of a flowchart -/

/-- The line of an edge, with the stream that it carries. -/
def Edge.line (e : Edge) : String :=
  match e.stream with
  | some stream => keyText e.source ++ "---|" ++ stream ++ "|" ++ keyText e.target
  | none => keyText e.source ++ "---" ++ keyText e.target

namespace Flowchart

/-- The line of the node at place `k`, in the shape and with the class of its style. -/
def shownNode (config : Config) (k : NodeId) (node : Node) : String :=
  let style := config.styleOf node.nodeType
  keyText k ++ style.shape.1 ++ node.name ++ style.shape.2 ++
    (style.className?.map (":::" ++ ·)).getD ""

/-- The line that binds clicks on the node at place `k`. -/
def shownClick (config : Config) (k : NodeId) : String :=
  "click " ++ keyText k ++ " " ++ config.clickCallback

/-- The lines of a chart without callbacks, in which each edge has the stream that it carries. -/
def shownLines (g : Graph) (config : Config) : List String :=
  [header config] ++ g.nodes.toList.mapIdx (shownNode config) ++ g.charted.map Edge.line ++
    classDefinitions

section Consistent

variable {g : Graph} (config : Config)

theorem map_nodeLine (hg : g.Consistent) :
    g.nodes.toList.map (nodeLine config) = g.nodes.toList.mapIdx (shownNode config) := by
  apply List.ext_getElem?
  intro k
  rw [List.getElem?_map, List.getElem?_mapIdx, Array.getElem?_toList]
  cases h : g.nodes[k]? with
  | none => rfl
  | some node =>
    rw [Option.map_some, Option.map_some, nodeLine, shownNode, hg.id_eq h]
    cases (config.styleOf node.nodeType).className? <;> rfl

theorem map_clickLine (hg : g.Consistent) :
    clickLines g config = (List.range g.size).map (shownClick config) := by
  rw [← hg.map_id_nodes, List.map_map]
  rfl

/-- The line of an edge shows the stream that this edge carries. -/
theorem edgeLine_eq (hg : g.Consistent) {e : Edge} (he : e ∈ g.edges.toList) :
    edgeLine g e.source e.target = e.line := by
  have hstream : streamOf? g e.source e.target = e.stream :=
    Script.streamOf?_of_filter_ends (hg.filter_ends_eq he)
  cases h : e.stream with
  | none => simp only [edgeLine, Edge.line, hstream, h]
  | some stream => simp only [edgeLine, Edge.line, hstream, h]

theorem edgeLines_eq (hg : g.Consistent) : edgeLines g = g.charted.map Edge.line := by
  -- The children of a node are the ends of the edges from it.
  have hnode : ∀ node ∈ g.nodes.toList, node.children.toList.map (edgeLine g node.id) =
      (g.edges.toList.filter (·.source == node.id)).map Edge.line := by
    intro node hnode
    obtain ⟨k, hk⟩ := List.mem_iff_getElem?.mp hnode
    rw [Array.getElem?_toList] at hk
    rw [hg.children_eq hk, hg.id_eq hk, Graph.targetsFrom, List.map_map]
    refine List.map_congr_left fun e he => ?_
    obtain ⟨he, hsource⟩ := List.mem_filter.mp he
    rw [Function.comp_apply, ← eq_of_beq hsource, edgeLine_eq hg he]
  rw [edgeLines, List.flatMap_congr hnode, Graph.charted, hg.map_byNumber]

theorem lines_eq (hg : g.Consistent) : lines g config = shownLines g config := by
  rw [lines, map_nodeLine config hg, edgeLines_eq hg, shownLines]

theorem length_shownLines (hg : g.Consistent) :
    (shownLines g config).length = 1 + g.size + g.edgeCount + 4 := by
  have hcharted : g.charted.length = g.edgeCount := hg.charted_perm.length_eq
  simp only [shownLines, List.length_append, List.length_singleton, List.length_mapIdx,
    List.length_map, Array.length_toList, hcharted, Graph.size]
  rfl

end Consistent

/-! ## One line each -/

/-- A key is a letter and digits. -/
theorem isDigit_of_mem_keyText {id : NodeId} {c : Char} (h : c ∈ (keyText id).toList) :
    c = 'N' ∨ c.isDigit = true := by
  rw [keyText, String.toList_append, List.mem_append] at h
  rcases h with h | h
  · exact .inl (List.mem_singleton.mp h)
  · have hdigits : c ∈ Nat.toDigits 10 (id + 1) := Nat.toList_repr ▸ h
    exact .inr (Nat.isDigit_of_mem_toDigits (by omega) (Nat.le_refl 10) hdigits)

theorem notMem_keyText {c : Char} (hletter : c ≠ 'N') (hdigit : ¬ c.isDigit = true) (id : NodeId) :
    c ∉ (keyText id).toList := by
  intro h
  rcases isDigit_of_mem_keyText h with hc | hc
  · exact hletter hc
  · exact hdigit hc

theorem feed_notMem_keyText (id : NodeId) : '\n' ∉ (keyText id).toList :=
  notMem_keyText (by decide) (by decide) id

theorem feed_notMem_shownNode (config : Config) (k : NodeId) {node : Node}
    (hname : '\n' ∉ node.name.toList) : '\n' ∉ (shownNode config k node).toList := by
  have hkey := feed_notMem_keyText k
  cases h : config.styleOf node.nodeType <;>
    simp [shownNode, h, Style.shape, Style.className?, Style.word, hkey, hname]

theorem feed_notMem_edgeLine {e : Edge}
    (hstream : ∀ stream, e.stream = some stream → '\n' ∉ stream.toList) :
    '\n' ∉ e.line.toList := by
  have hsource := feed_notMem_keyText e.source
  have htarget := feed_notMem_keyText e.target
  rw [Edge.line]
  cases h : e.stream with
  | none => simp [hsource, htarget]
  | some stream => simp [hsource, htarget, hstream stream h]

theorem feed_notMem_shownLines {g : Graph} (hg : g.Consistent) (config : Config)
    (hnames : ∀ node ∈ g.nodes.toList, '\n' ∉ node.name.toList)
    (hstreams : ∀ e ∈ g.edges.toList, ∀ stream, e.stream = some stream → '\n' ∉ stream.toList) :
    ∀ l ∈ shownLines g config, '\n' ∉ l.toList := by
  intro l hl
  simp only [shownLines, List.mem_append] at hl
  obtain ((hl | hl) | hl) | hl := hl
  · rw [List.mem_singleton.mp hl, header]
    cases config.direction <;> decide
  · obtain ⟨k, hk, rfl⟩ := List.mem_mapIdx.mp hl
    exact feed_notMem_shownNode config k (hnames _ (List.getElem_mem hk))
  · obtain ⟨e, he, rfl⟩ := List.mem_map.mp hl
    exact feed_notMem_edgeLine (hstreams e (hg.charted_perm.mem_iff.mp he))
  · revert l
    decide

theorem feed_notMem_shownClick {config : Config} (h : '\n' ∉ config.clickCallback.toList)
    (k : NodeId) : '\n' ∉ (shownClick config k).toList := by
  simp [shownClick, feed_notMem_keyText k, h]

end Flowchart

/-! ## The flowchart of a script -/

namespace Script

open Flowchart

/-- A script that fits into memory declares fewer nodes than there are words. -/
theorem size_lt_of_ofScript {script : String} {p : Parsed} (h : Parsed.ofScript script = .ok p)
    (hscript : script.length < wordBound) : p.graph.size < wordBound := by
  have hrecords := Records.length_records_le script
  rw [← size_ofScript h] at hrecords
  exact Nat.lt_of_le_of_lt hrecords hscript

/-- The numbers of the nodes of a script that fits into memory are words. -/
theorem nodeKey_ofScript {script : String} {p : Parsed} (h : Parsed.ofScript script = .ok p)
    (hscript : script.length < wordBound) {k : Nat} (hk : k < p.graph.size) :
    nodeKey k = .ok ("N" ++ toString (k + 1)) :=
  nodeKey_of_lt (Nat.lt_of_le_of_lt hk (size_lt_of_ofScript h hscript))

/-- **The flowchart of a script shows every node and every edge exactly once**, each on a line of
its own: after the header the nodes in order, then the edges by the nodes that they start from and
in the order of their children, each with its own stream, then the classes, and where callbacks are
asked for a click for every node. Without callbacks the clicks are left out and the rest is the
same, also within a markdown document. The nodes count from one, and if the script fits into memory
then all of them have names, so the charts and the document are drawn. -/
theorem flowchart_ofScript {script : String} {p : Parsed} (h : Parsed.ofScript script = .ok p)
    {config : Config} (hcallback : '\n' ∉ config.clickCallback.toList) :
    let g := p.graph
    let clicks := (List.range g.size).map (shownClick config)
    Text.lines (flowchartWithCallbacks g config).toList =
      (shownLines g config ++ clicks).map String.toList ++ [[]] ∧
    (shownLines g config ++ clicks).length = 1 + g.size + g.edgeCount + 4 + g.size ∧
    g.charted.Perm g.edges.toList ∧ g.charted.Pairwise (·.source ≤ ·.source) ∧
    (∀ k node, g.nodes[k]? = some node →
      (g.charted.filter (·.source == k)).map (·.target) = node.children.toList) ∧
    flowchart g config = Text.unlines (shownLines g config) ∧
    flowchartWithCallbacks g config = flowchart g config ++ Text.unlines clicks ∧
    markdown g config =
      "## Nodes\n\n" ++ String.join (g.nodes.toList.map (Markdown.nodeSection g config)) ++
        "\n## Flowchart\n\n::: mermaid\n" ++ flowchart g config ++ ":::\n" ∧
    (script.length < wordBound →
      (∀ k < g.size, nodeKey k = .ok ("N" ++ toString (k + 1))) ∧
      drawFlowchart g config = .ok (flowchart g config) ∧
      drawFlowchartWithCallbacks g config = .ok (flowchartWithCallbacks g config) ∧
      drawMarkdown g config = .ok (markdown g config)) := by
  intro g clicks
  have hg : g.Consistent := consistent_ofScript h
  have hnames : ∀ node ∈ g.nodes.toList, '\n' ∉ node.name.toList := fun node hnode hfeed =>
    ((wellFormed_of_mem_nodes h hnode).name_chars '\n' hfeed).2.2 rfl
  have hstreams : ∀ e ∈ g.edges.toList, ∀ stream, e.stream = some stream →
      '\n' ∉ stream.toList := by
    intro e he stream hstream hfeed
    have hblank := ((isWord_of_mem_edges h he hstream).2 '\n' hfeed).1
    revert hblank
    decide
  -- No line holds a line feed, so the text is divided into these lines.
  have hfeeds : ∀ l ∈ shownLines g config ++ clicks, '\n' ∉ l.toList := by
    intro l hl
    rcases List.mem_append.mp hl with hl | hl
    · exact feed_notMem_shownLines hg config hnames hstreams l hl
    · obtain ⟨k, -, rfl⟩ := List.mem_map.mp hl
      exact feed_notMem_shownClick hcallback k
  have hchart : flowchart g config = Text.unlines (shownLines g config) := by
    rw [flowchart, lines_eq config hg]
  have hclicks : flowchartWithCallbacks g config =
      Text.unlines (shownLines g config ++ clicks) := by
    rw [flowchartWithCallbacks, lines_eq config hg, map_clickLine config hg]
  refine ⟨?_, ?_, hg.charted_perm, pairwise_byNumber _, ?_, hchart, ?_, rfl, ?_⟩
  · rw [hclicks, Text.lines_unlines hfeeds]
  · rw [List.length_append, length_shownLines config hg, List.length_map, List.length_range]
  · exact fun k node hnode => hg.map_target_charted hnode
  · rw [hclicks, Text.unlines_append, hchart]
  · intro hscript
    have hdrawn := hg.naming_eq (size_lt_of_ofScript h hscript)
    exact ⟨fun k hk => nodeKey_ofScript h hscript hk, hdrawn _, hdrawn _, hdrawn _⟩

/-- A node that reads from two nodes that are declared after it, the later one first. -/
def forwardScript : String :=
  "B@High, A union(byName: true) ~> U\nsource(a: 1) ~> A\nsource(b: 2) ~> B"

/-- What is read of `forwardScript`. -/
def forwardParsed : Parsed :=
  { graph :=
      { nodes :=
          #[{ id := 0, name := "U", nodeType := "union", attributes := ⟨[("byName", "true")]⟩,
              parents := #[2, 1], span := Span.lines 1 1 },
            { id := 1, name := "A", nodeType := "source", attributes := ⟨[("a", "1")]⟩,
              children := #[0], span := Span.lines 2 2 },
            { id := 2, name := "B", nodeType := "source", attributes := ⟨[("b", "2")]⟩,
              children := #[0], span := Span.lines 3 3 }]
        edges := #[⟨2, 0, some "High"⟩, ⟨1, 0, none⟩] }
    warnings := [] }

theorem flowchart_ofScript_forwardScript :
    Parsed.ofScript forwardScript = .ok forwardParsed ∧
      '\n' ∉ ({} : Config).clickCallback.toList ∧
      Text.lines (flowchartWithCallbacks forwardParsed.graph {}).toList =
        (["flowchart TD", "N1(U):::C3", "N2[(A)]:::C1", "N3[(B)]:::C1", "N2---N1",
          "N3---|High|N1"] ++ classDefinitions ++
          ["click N1 doCb", "click N2 doCb", "click N3 doCb"]).map String.toList ++ [[]] := by
  have h : Parsed.ofScript forwardScript = .ok forwardParsed :=
    ofScript_eq_ok_iff_evaluate.mpr (by decide +kernel)
  have hcallback : '\n' ∉ ({} : Config).clickCallback.toList := by decide
  obtain ⟨hlines, -⟩ := flowchart_ofScript h hcallback
  refine ⟨h, hcallback, hlines.trans ?_⟩
  decide +kernel

end Script

end FlowDoc
