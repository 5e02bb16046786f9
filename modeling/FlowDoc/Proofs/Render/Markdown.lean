import FlowDoc.Proofs.Render.Flowchart
import FlowDoc.Proofs.Script.Order

/-!
# The wiring in a markdown document

A markdown document tells three times which node reads from which: in the input lines of the
sections, in their output lines, and in the edge lines of the flowchart. The first two come from
the parents and the children that each node lists, from which nodes that are not known are left
out, and the third from the edges. In the document of a script the three name the same pairs, each
pair once.

## Main definitions

* `Graph.inputNames`, `Graph.outputNames`: the names that the lines of one section link
* `Graph.inputLinks`, `Graph.outputLinks`, `Graph.drawnNames`: the pairs that a document names
* `Markdown.shownLinks`, `Markdown.shownSection`: a section by the names that it links

## Main results

* `Consistent.drawnNames_eq`, `Consistent.inputLinks_perm`: the pairs agree in a consistent graph
* `inputNames_ofScript`: the links of an input line in the order of the references
* `markdown_ofScript`: the document of a script and the pairs that it names
-/

namespace FlowDoc

/-! ## What a document names -/

namespace Graph

section Links

variable (g : Graph)

/-- The names that the input line of a node links. -/
def inputNames (k : NodeId) : List String :=
  (g.parentsOf k).map (·.name)

/-- The names that the output line of a node links. -/
def outputNames (k : NodeId) : List String :=
  (g.childrenOf k).map (·.name)

/-- The pairs of a linked node and the node whose input line links it. -/
def inputLinks : List (String × String) :=
  g.nodes.toList.flatMap fun node => (g.inputNames node.id).map (·, node.name)

/-- The pairs of a node and a node that its output line links. -/
def outputLinks : List (String × String) :=
  g.nodes.toList.flatMap fun node => (g.outputNames node.id).map (node.name, ·)

/-- The names of the nodes that an edge joins. -/
def endNames (e : Edge) : Option String × Option String :=
  (g.nameOf? e.source, g.nameOf? e.target)

/-- The names at the two ends of each edge line, in the order of the lines. -/
def drawnNames : List (Option String × Option String) :=
  g.charted.map g.endNames

end Links

/-! ## The pairs of a consistent graph -/

section Known

variable {g : Graph} {node : Node}

/-- Of known nodes none is left out. -/
theorem map_some_names {ids : List NodeId} (h : ∀ i ∈ ids, i < g.size) :
    ((ids.filterMap g.node?).map (·.name)).map some = ids.map g.nameOf? := by
  induction ids with
  | nil => rfl
  | cons i ids ih =>
    obtain ⟨hi, hids⟩ := List.forall_mem_cons.mp h
    have hnode : g.node? i = some g.nodes[i] := Array.getElem?_eq_getElem hi
    rw [List.filterMap_cons, hnode, List.map_cons, List.map_cons, ih hids, List.map_cons, nameOf?,
      hnode]
    rfl

/-- Where names are distinct, a name tells a section. -/
theorem mem_inputLinks_iff (hnames : (g.nodes.toList.map (·.name)).Nodup)
    (hnode : node ∈ g.nodes.toList) {a : String} :
    (a, node.name) ∈ g.inputLinks ↔ a ∈ g.inputNames node.id := by
  simp only [inputLinks, List.mem_flatMap, List.mem_map, Prod.mk.injEq]
  constructor
  · rintro ⟨node', hnode', a', ha, rfl, hname⟩
    rwa [List.inj_on_of_nodup_map hnames hnode hnode' hname.symm]
  · exact fun ha => ⟨node, hnode, a, ha, rfl, rfl⟩

theorem mem_outputLinks_iff (hnames : (g.nodes.toList.map (·.name)).Nodup)
    (hnode : node ∈ g.nodes.toList) {b : String} :
    (node.name, b) ∈ g.outputLinks ↔ b ∈ g.outputNames node.id := by
  simp only [outputLinks, List.mem_flatMap, List.mem_map, Prod.mk.injEq]
  constructor
  · rintro ⟨node', hnode', b', hb, hname, rfl⟩
    rwa [List.inj_on_of_nodup_map hnames hnode hnode' hname.symm]
  · exact fun hb => ⟨node, hnode, b, hb, rfl, rfl⟩

end Known

namespace Consistent

variable {g : Graph} {k : Nat} {node : Node}

theorem map_some_inputNames (hg : g.Consistent) (h : g.nodes[k]? = some node) :
    (g.inputNames k).map some = node.parents.toList.map g.nameOf? := by
  have hknown : ∀ i ∈ node.parents.toList, i < g.size := by
    intro i hi
    rw [hg.parents_eq h, sourcesTo] at hi
    obtain ⟨e, he, rfl⟩ := List.mem_map.mp hi
    exact hg.source_lt e (List.mem_of_mem_filter he)
  rw [inputNames, parentsOf, node?, h]
  exact map_some_names hknown

theorem map_some_outputNames (hg : g.Consistent) (h : g.nodes[k]? = some node) :
    (g.outputNames k).map some = node.children.toList.map g.nameOf? := by
  have hknown : ∀ i ∈ node.children.toList, i < g.size := by
    intro i hi
    rw [hg.children_eq h, targetsFrom] at hi
    obtain ⟨e, he, rfl⟩ := List.mem_map.mp hi
    exact hg.target_lt e (List.mem_of_mem_filter he)
  rw [outputNames, childrenOf, node?, h]
  exact map_some_names hknown

/-- What is told of the edges by the node at one end may be told by the sections, if each section
names the nodes at the other ends. -/
theorem map_byNumber_eq_names (hg : g.Consistent) {β : Type} (near far : Edge → NodeId)
    (pair : Option String → Option String → β) {names : NodeId → List String}
    (hnames : ∀ {k node}, g.nodes[k]? = some node →
      (names k).map some =
        (g.edges.toList.filter (near · == k)).map fun e => g.nameOf? (far e)) :
    (byNumber near g.edges.toList g.size).map
        (fun e => pair (g.nameOf? (near e)) (g.nameOf? (far e))) =
      g.nodes.toList.flatMap fun node =>
        (names node.id).map fun name => pair (some node.name) (some name) := by
  rw [hg.map_byNumber]
  refine List.flatMap_congr fun node hnode => ?_
  obtain ⟨k, hk⟩ := List.mem_iff_getElem?.mp hnode
  rw [Array.getElem?_toList] at hk
  have hname : g.nameOf? k = some node.name := by rw [nameOf?, node?, hk, Option.map_some]
  rw [hg.id_eq hk]
  calc (g.edges.toList.filter (near · == k)).map
        (fun e => pair (g.nameOf? (near e)) (g.nameOf? (far e)))
      = ((g.edges.toList.filter (near · == k)).map fun e => g.nameOf? (far e)).map
          (pair (some node.name)) := by
        rw [List.map_map]
        refine List.map_congr_left fun e he => ?_
        have hnear : near e = k := eq_of_beq (List.mem_filter.mp he).2
        rw [hnear, hname, Function.comp_apply]
    _ = (names k).map fun name => pair (some node.name) (some name) := by
        rw [← hnames hk, List.map_map]
        rfl

/-- The pairs of the input lines are the edges by the nodes that they lead to. -/
theorem map_some_inputLinks (hg : g.Consistent) :
    g.inputLinks.map (Prod.map some some) =
      (byNumber Edge.target g.edges.toList g.size).map g.endNames := by
  have hlinks := hg.map_byNumber_eq_names Edge.target Edge.source (fun b a => (a, b)) fun hk => by
    rw [hg.map_some_inputNames hk, hg.parents_eq hk, sourcesTo, List.map_map]
    rfl
  rw [inputLinks, List.map_flatMap]
  simp only [List.map_map]
  exact hlinks.symm

/-- The pairs of the output lines are those of the edge lines, in the same order. -/
theorem drawnNames_eq (hg : g.Consistent) :
    g.drawnNames = g.outputLinks.map (Prod.map some some) := by
  have hlinks := hg.map_byNumber_eq_names Edge.source Edge.target Prod.mk fun hk => by
    rw [hg.map_some_outputNames hk, hg.children_eq hk, targetsFrom, List.map_map]
    rfl
  rw [outputLinks, List.map_flatMap]
  simp only [List.map_map]
  exact hlinks

/-- The input lines and the output lines name the same pairs. -/
theorem inputLinks_perm (hg : g.Consistent) : g.inputLinks.Perm g.outputLinks := by
  have hinjective : Function.Injective (Prod.map (some (α := String)) (some (α := String))) :=
    Function.Injective.prodMap (fun _ _ => Option.some.inj) (fun _ _ => Option.some.inj)
  have htargets : (byNumber Edge.target g.edges.toList g.size).Perm g.edges.toList := by
    have hall : g.edges.toList.filter (·.target < g.size) = g.edges.toList :=
      List.filter_eq_self.mpr fun e he => decide_eq_true (hg.target_lt e he)
    have hbelow := byNumber_perm Edge.target g.edges.toList g.size
    rwa [hall] at hbelow
  rw [← List.map_perm_map_iff hinjective, hg.map_some_inputLinks, ← hg.drawnNames_eq, drawnNames]
  exact (htargets.trans hg.charted_perm.symm).map _

/-- Where names are distinct, no pair of names is drawn twice. -/
theorem nodup_drawnNames (hg : g.Consistent) (hnames : (g.nodes.toList.map (·.name)).Nodup) :
    g.drawnNames.Nodup := by
  have hplace : ∀ {i j : Nat}, i < g.size → g.nameOf? i = g.nameOf? j → i = j := by
    intro i j hi hij
    rw [nameOf?, nameOf?, node?, node?, ← Array.getElem?_toList, ← Array.getElem?_toList,
      ← List.getElem?_map, ← List.getElem?_map] at hij
    exact (List.getElem?_inj (by simpa [size] using hi) hnames).mp hij
  have hpairs : (g.charted.map Edge.ends).Nodup :=
    (hg.charted_perm.map Edge.ends).nodup_iff.mpr hg.pairs_nodup
  refine (List.Nodup.of_map _ hpairs).map_on fun e he e' he' hends => ?_
  obtain ⟨hsource, htarget⟩ := Prod.mk.inj hends
  have hmem := hg.charted_perm.mem_iff.mp he
  refine List.inj_on_of_nodup_map hpairs he he' (Prod.ext ?_ ?_)
  · exact hplace (hg.source_lt e hmem) hsource
  · exact hplace (hg.target_lt e hmem) htarget

end Consistent

end Graph

/-! ## The text of a document -/

namespace Markdown

/-- A link to the section with a heading. -/
def shownLink (name : String) : String :=
  "[" ++ name ++ "](#" ++ anchor name ++ ")"

/-- A line of links under a title; without links there is no line. -/
def shownLinks (title : String) (names : List String) : String :=
  if names = [] then "" else title ++ ": " ++ " ".intercalate (names.map shownLink) ++ "\n"

/-- The section of a node whose lines link these inputs and outputs. -/
def shownSection (config : Config) (node : Node) (inputs outputs : List String) : String :=
  "### " ++ node.name ++ "\n" ++ describe node.description ++
    "Type: " ++ config.labelOf node.nodeType ++ "\n" ++
    shownLinks "Input" inputs ++ shownLinks "Output" outputs ++ "\n"

theorem linkLine_eq (title : String) (nodes : List Node) :
    linkLine title nodes = shownLinks title (nodes.map (·.name)) := by
  cases nodes with
  | nil => rfl
  | cons node nodes =>
    have hsome : (node :: nodes).map (·.name) ≠ [] := List.cons_ne_nil _ _
    rw [shownLinks, if_neg hsome, List.map_map]
    rfl

theorem nodeSection_eq (g : Graph) (config : Config) (node : Node) :
    nodeSection g config node =
      shownSection config node (g.inputNames node.id) (g.outputNames node.id) := by
  delta nodeSection
  rw [linkLine_eq, linkLine_eq]
  rfl

/-- A line of links is left out exactly when there are none. -/
theorem shownLinks_eq_empty_iff {title : String} {names : List String} :
    shownLinks title names = "" ↔ names = [] := by
  rw [shownLinks]
  split
  case isTrue h => exact ⟨fun _ => h, fun _ => rfl⟩
  case isFalse h =>
    refine ⟨fun hline => ?_, fun hnames => absurd hnames h⟩
    have hlength := congrArg String.length hline
    simp at hlength

end Markdown

namespace Script

open Flowchart Markdown

/-! ## The document of a script -/

theorem map_canonicalName_firstInputs (d : Declaration) :
    d.firstInputs.map canonicalName = (d.inputs.map canonicalName).eraseDups := by
  rw [Declaration.firstInputs, ← List.filterMap_eq_map, List.eraseDups, eraseDupsBy_filterMap]
  · intro r s x y hr hs
    rw [← Option.some.inj hr, ← Option.some.inj hs]
  · intro r s hnone
    cases hnone

section Document

variable {script : String} {p : Parsed}

/-- The input line of a node links what its record refers to, in the order of the first references
to each. -/
theorem inputNames_ofScript (h : Parsed.ofScript script = .ok p) {k : Nat} {r : Record}
    {d : Declaration} (hr : (Records.ofScript script).records[k]? = some r) (hread : Reads r d) :
    p.graph.inputNames k = (d.inputs.map canonicalName).eraseDups := by
  obtain ⟨ds, hreads, hg⟩ := ofScript_eq_ok_iff.mp ⟨p, h, rfl⟩
  obtain ⟨hds, hgraph⟩ := graphOf_eq_ok_iff.mp hg
  obtain ⟨d', hd', hread'⟩ := exists_getElem?_of_forall₂ hreads hr
  obtain rfl := hread.unique hread'
  obtain ⟨node, hnode, -⟩ := exists_getElem?_wiredGraph hd'
  have hsome := (consistent_wiredGraph ds).map_some_inputNames hnode
  have hnames : d.firstInputs.map (fun r => some (canonicalName r)) =
      (d.inputs.map canonicalName).eraseDups.map some := by
    rw [← map_canonicalName_firstInputs, List.map_map]
    rfl
  rw [map_nameOf?_parents hds hd' hnode, hnames] at hsome
  rw [show p.graph = wiredGraph ds from hgraph]
  exact List.map_injective_iff.mpr (fun _ _ => Option.some.inj) hsome

/-- **The three views of the wiring in a document agree.** The document of a script is made of the
sections of its nodes, with the names that they link, and of the lines of its flowchart, in which
each edge stands with the keys of its ends. The output lines link exactly the pairs that the edge
lines draw, and in the same order; the input lines link the same pairs, and no pair is named twice
in any of the three. A line is left out exactly when it links nothing, and the input line of a node
links its parents in the order in which its record first names them. -/
theorem markdown_ofScript (h : Parsed.ofScript script = .ok p) (config : Config) :
    let g := p.graph
    markdown g config =
      "## Nodes\n\n" ++ String.join (g.nodes.toList.map fun node =>
        shownSection config node (g.inputNames node.id) (g.outputNames node.id)) ++
      "\n## Flowchart\n\n::: mermaid\n" ++
      Text.unlines ([header config] ++ g.nodes.toList.mapIdx (shownNode config) ++
        g.charted.map Edge.line ++ classDefinitions) ++ ":::\n" ∧
    (∀ a b, (a, b) ∈ g.inputLinks ↔ (a, b) ∈ g.outputLinks) ∧
    (∀ a b, (a, b) ∈ g.outputLinks ↔ (some a, some b) ∈ g.drawnNames) ∧
    g.drawnNames = g.outputLinks.map (Prod.map some some) ∧
    g.inputLinks.Nodup ∧ g.outputLinks.Nodup ∧ g.drawnNames.Nodup ∧
    (∀ node ∈ g.nodes.toList,
      (shownLinks "Input" (g.inputNames node.id) = "" ↔ ∀ a, (a, node.name) ∉ g.inputLinks) ∧
      (shownLinks "Output" (g.outputNames node.id) = "" ↔ ∀ b, (node.name, b) ∉ g.outputLinks)) ∧
    (∀ k r d, (Records.ofScript script).records[k]? = some r → Reads r d →
      g.inputNames k = (d.inputs.map canonicalName).eraseDups) ∧
    (g.nodes.toList.map (·.name)).Nodup ∧ g.nodes.toList.map (·.id) = List.range g.size ∧
    (script.length < wordBound → ∀ i < g.size, ∀ j < g.size, nodeKey i = nodeKey j → i = j) := by
  intro g
  have hg : g.Consistent := consistent_ofScript h
  have hnames : (g.nodes.toList.map (·.name)).Nodup := nodup_names_ofScript h
  have hperm : g.inputLinks.Perm g.outputLinks := hg.inputLinks_perm
  have hdrawn : g.drawnNames.Nodup := hg.nodup_drawnNames hnames
  have houtputs : g.outputLinks.Nodup := .of_map _ (hg.drawnNames_eq ▸ hdrawn)
  refine ⟨?_, fun a b => hperm.mem_iff, fun a b => ?_, hg.drawnNames_eq,
    hperm.nodup_iff.mpr houtputs, houtputs, hdrawn, fun node hnode => ⟨?_, ?_⟩,
    fun k r d hr hread => inputNames_ofScript h hr hread, hnames, hg.map_id_nodes, ?_⟩
  · rw [markdown, flowchart, lines_eq config hg,
      funext fun node => nodeSection_eq g config node]
    rfl
  · rw [hg.drawnNames_eq]
    simp
  · simp only [shownLinks_eq_empty_iff, Graph.mem_inputLinks_iff hnames hnode,
      List.eq_nil_iff_forall_not_mem]
  · simp only [shownLinks_eq_empty_iff, Graph.mem_outputLinks_iff hnames hnode,
      List.eq_nil_iff_forall_not_mem]
  · intro hscript i hi j hj hkey
    exact eq_of_nodeKey (nodeKey_ofScript h hscript hi)
      (hkey.symm.trans (nodeKey_ofScript h hscript hi))

end Document

/-- A node that reads from itself and from a node that reads from it, each under several names. -/
def loopScript : String :=
  "A, B@x, A@y join(on: 1) ~> A\nA@y, A sort(by: 2) ~> B"

/-- What is read of `loopScript`. -/
def loopParsed : Parsed :=
  { graph :=
      { nodes :=
          #[{ id := 0, name := "A", nodeType := "join", attributes := ⟨[("on", "1")]⟩,
              parents := #[0, 1], children := #[0, 1], span := Span.lines 1 1 },
            { id := 1, name := "B", nodeType := "sort", attributes := ⟨[("by", "2")]⟩,
              parents := #[0], children := #[0], span := Span.lines 2 2 }]
        edges := #[⟨0, 0, none⟩, ⟨1, 0, some "x"⟩, ⟨0, 1, some "y"⟩] }
    warnings := [] }

theorem markdown_ofScript_loopScript :
    Parsed.ofScript loopScript = .ok loopParsed ∧
      loopParsed.graph.inputLinks = [("A", "A"), ("B", "A"), ("A", "B")] ∧
      loopParsed.graph.inputLinks.Perm loopParsed.graph.outputLinks ∧
      loopParsed.graph.drawnNames.Nodup ∧
      markdown loopParsed.graph {} =
        "## Nodes\n\n" ++
          "### A\nType: Join\nInput: [A](#a) [B](#b)\nOutput: [A](#a) [B](#b)\n\n" ++
          "### B\nType: Sort\nInput: [A](#a)\nOutput: [A](#a)\n\n" ++
          "\n## Flowchart\n\n::: mermaid\n" ++
          Text.unlines (["flowchart TD", "N1(A):::C3", "N2[B]", "N1---N1", "N1---|y|N2",
            "N2---|x|N1"] ++ classDefinitions) ++ ":::\n" := by
  have h : Parsed.ofScript loopScript = .ok loopParsed :=
    ofScript_eq_ok_iff_evaluate.mpr (by decide +kernel)
  obtain ⟨htext, hlinks, -, -, hinputs, houtputs, hdrawn, -⟩ := markdown_ofScript h {}
  refine ⟨h, by decide +kernel, ?_, hdrawn, htext.trans ?_⟩
  · exact (List.perm_ext_iff_of_nodup hinputs houtputs).mpr fun pair => hlinks pair.1 pair.2
  · decide +kernel

end Script

end FlowDoc
