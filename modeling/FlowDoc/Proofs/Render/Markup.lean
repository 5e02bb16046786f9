import FlowDoc.Proofs.Render.Flowchart
import FlowDoc.Proofs.Render.Page
import FlowDoc.Proofs.Render.Summary

/-!
# Markup in the chart of a page

A page carries a chart and summaries of the same nodes. The texts in the summaries are escaped, and
those in the chart are not: a name or a stream with a `<` stands there as it is, inside the element
around the chart. What the chart writes of its own has no `<`, so the marks of a chart can be
counted in the names, the streams and the callback that it shows.

## Main results

* `count_less_shownLines`: the marks in the lines of a chart
* `chart_ofScript`: names and streams stand in a chart as they are, and every `<` is one of theirs
* `less_mem_chart_markupScript`: a node that ends the element around the chart
-/

namespace FlowDoc

namespace Text

theorem count_unlines {c : Char} (hc : c ≠ '\n') (ls : List String) :
    (unlines ls).toList.count c = (ls.map (·.toList.count c)).sum := by
  have hfeed : "\n".toList.count c = 0 := by
    rw [List.count_eq_zero]
    exact fun h => hc (List.mem_singleton.mp h)
  induction ls with
  | nil => rfl
  | cons l ls ih =>
    have hhead : (unlines (l :: ls)).toList = l.toList ++ "\n".toList ++ (unlines ls).toList := by
      simp [unlines, String.toList_join]
    rw [hhead, List.count_append, List.count_append, hfeed, ih, List.map_cons, List.sum_cons,
      Nat.add_zero]

end Text

namespace Flowchart

/-! ## The marks of each line -/

theorem count_less_keyText (id : NodeId) : (keyText id).toList.count '<' = 0 :=
  List.count_eq_zero.mpr (notMem_keyText (by decide) (by decide) id)

/-- A node shows the marks of its name. -/
theorem count_less_shownNode (config : Config) (k : NodeId) (node : Node) :
    (shownNode config k node).toList.count '<' = node.name.toList.count '<' := by
  have hkey := count_less_keyText k
  -- Neither the brackets nor the class of a style have any.
  cases h : config.styleOf node.nodeType <;>
    simp [shownNode, h, Style.shape, Style.className?, Style.word, hkey]

/-- An edge shows the marks of its stream. -/
theorem count_less_line (e : Edge) :
    e.line.toList.count '<' = (e.stream.getD "").toList.count '<' := by
  have hsource := count_less_keyText e.source
  have htarget := count_less_keyText e.target
  cases h : e.stream with
  | none => simp [Edge.line, h, hsource, htarget]
  | some stream => simp [Edge.line, h, hsource, htarget]

theorem count_less_shownClick (config : Config) (k : NodeId) :
    (shownClick config k).toList.count '<' = config.clickCallback.toList.count '<' := by
  simp [shownClick, count_less_keyText k]

/-! ## The marks of a chart -/

/-- The marks in the names of the nodes. -/
def nameMarks (g : Graph) : Nat :=
  (g.nodes.toList.map (·.name.toList.count '<')).sum

/-- The marks in the streams of the edges. -/
def streamMarks (g : Graph) : Nat :=
  (g.edges.toList.map fun e => (e.stream.getD "").toList.count '<').sum

section Consistent

variable {g : Graph} (config : Config)

theorem count_less_shownLines (hg : g.Consistent) :
    ((shownLines g config).map (·.toList.count '<')).sum = nameMarks g + streamMarks g := by
  have hheader : (header config).toList.count '<' = 0 := by
    rw [header]
    cases config.direction <;> decide
  have hclasses : (classDefinitions.map (·.toList.count '<')).sum = 0 := by decide
  have hnodes : (g.nodes.toList.mapIdx (shownNode config)).map (·.toList.count '<') =
      g.nodes.toList.map (·.name.toList.count '<') := by
    apply List.ext_getElem?
    intro k
    simp only [List.getElem?_map, List.getElem?_mapIdx, Option.map_map, Function.comp_def,
      count_less_shownNode]
  -- The edges are shown in another order than that in which they were drawn.
  have hedges : ((g.charted.map Edge.line).map (·.toList.count '<')).sum = streamMarks g := by
    have hmarks : (g.charted.map Edge.line).map (·.toList.count '<') =
        g.charted.map fun e => (e.stream.getD "").toList.count '<' := by
      simp only [List.map_map, Function.comp_def, count_less_line]
    rw [hmarks]
    exact (hg.charted_perm.map _).sum_nat
  simp only [shownLines, List.map_append, List.sum_append, hnodes, hedges, hclasses, List.map_cons,
    List.map_nil, List.sum_cons, List.sum_nil, hheader]
  simp [nameMarks]

theorem count_less_clickLines (g : Graph) :
    ((clickLines g config).map (·.toList.count '<')).sum =
      g.size * config.clickCallback.toList.count '<' := by
  have hline : ∀ node : Node, (clickLine config node).toList.count '<' =
      config.clickCallback.toList.count '<' := fun node => count_less_shownClick config node.id
  simp [clickLines, Function.comp_def, hline, Graph.size]

theorem count_less_flowchartWithCallbacks (hg : g.Consistent) :
    (flowchartWithCallbacks g config).toList.count '<' =
      nameMarks g + streamMarks g + g.size * config.clickCallback.toList.count '<' := by
  rw [flowchartWithCallbacks, Text.count_unlines (by decide), List.map_append, List.sum_append,
    lines_eq config hg, count_less_shownLines config hg, count_less_clickLines]

theorem isInfix_name_of_mem_nodes {node : Node} (h : node ∈ g.nodes.toList) :
    node.name.toList <:+: (flowchartWithCallbacks g config).toList := by
  have hline : nodeLine config node ∈ lines g config ++ clickLines g config := by
    simp only [lines, List.mem_append]
    exact .inl (.inl (.inl (.inr (List.mem_map_of_mem h))))
  refine List.IsInfix.trans ?_ (Text.isInfix_unlines hline)
  simp only [nodeLine, String.toList_append, List.append_assoc]
  rw [← List.append_assoc]
  exact List.infix_append' _ _ _

theorem isInfix_stream_of_mem_edges (hg : g.Consistent) {e : Edge} (h : e ∈ g.edges.toList)
    {stream : String} (hstream : e.stream = some stream) :
    stream.toList <:+: (flowchartWithCallbacks g config).toList := by
  have hline : e.line ∈ lines g config ++ clickLines g config := by
    rw [lines_eq config hg]
    simp only [shownLines, List.mem_append]
    exact .inl (.inl (.inr (List.mem_map_of_mem (hg.charted_perm.mem_iff.mpr h))))
  refine List.IsInfix.trans ?_ (Text.isInfix_unlines hline)
  simp only [Edge.line, hstream, String.toList_append, List.append_assoc]
  rw [← List.append_assoc]
  exact List.infix_append' _ _ _

end Consistent

/-- There are no marks where no name and no stream has one. -/
theorem marks_eq_zero_iff {g : Graph} :
    nameMarks g + streamMarks g = 0 ↔
      (∀ node ∈ g.nodes.toList, '<' ∉ node.name.toList) ∧
        ∀ e ∈ g.edges.toList, ∀ stream, e.stream = some stream → '<' ∉ stream.toList := by
  have hstream : ∀ e : Edge, (e.stream.getD "").toList.count '<' = 0 ↔
      ∀ stream, e.stream = some stream → '<' ∉ stream.toList := by
    intro e
    cases e.stream with
    | none => simp
    | some stream => simp [List.count_eq_zero]
  simp only [nameMarks, streamMarks, Nat.add_eq_zero_iff, List.sum_eq_zero_iff_forall_eq_nat,
    List.forall_mem_map, hstream, List.count_eq_zero]

end Flowchart

/-! ## The chart of a script -/

namespace Page

open Flowchart Script

theorem pageText_chart (g : Graph) (config : Config) :
    pageText g config .chart = flowchartWithCallbacks g config := rfl

theorem pageText_info (g : Graph) (config : Config) :
    pageText g config .info = (nodeInfo g).compact := rfl

/-- **The chart of a page shows names and streams as they are**: each stands in the chart with all
its characters, and each `<` of the chart is one of a name, of a stream or of the callback. So the
chart of a script is free of markup exactly when its names and streams are, where the callback
is. -/
theorem chart_ofScript {script : String} {p : Parsed} (h : Parsed.ofScript script = .ok p)
    (config : Config) :
    let g := p.graph
    let chart := (pageText g config .chart).toList
    (∀ node ∈ g.nodes.toList, node.name.toList <:+: chart) ∧
    (∀ e ∈ g.edges.toList, ∀ stream, e.stream = some stream → stream.toList <:+: chart) ∧
    chart.count '<' = (g.nodes.toList.map (·.name.toList.count '<')).sum +
      (g.edges.toList.map fun e => (e.stream.getD "").toList.count '<').sum +
      g.size * config.clickCallback.toList.count '<' ∧
    ('<' ∉ config.clickCallback.toList →
      ('<' ∉ chart ↔ (∀ node ∈ g.nodes.toList, '<' ∉ node.name.toList) ∧
        ∀ e ∈ g.edges.toList, ∀ stream, e.stream = some stream → '<' ∉ stream.toList)) := by
  intro g chart
  have hg : g.Consistent := consistent_ofScript h
  have hchart : chart = (flowchartWithCallbacks g config).toList := by
    rw [← pageText_chart]
  rw [hchart]
  have hcount : (flowchartWithCallbacks g config).toList.count '<' = nameMarks g + streamMarks g +
      g.size * config.clickCallback.toList.count '<' :=
    count_less_flowchartWithCallbacks config hg
  refine ⟨fun node hnode => isInfix_name_of_mem_nodes config hnode,
    fun e he stream hstream => isInfix_stream_of_mem_edges config hg he hstream, hcount,
    fun hcallback => ?_⟩
  -- With no marks in the callback those of the chart are those of the names and the streams.
  rw [← marks_eq_zero_iff, ← List.count_eq_zero, hcount, List.count_eq_zero.mpr hcallback,
    Nat.mul_zero, Nat.add_zero]

/-- A source whose name ends an element and starts another one. -/
def markupScript : String := "source(a: 1) ~> </pre><b>x</b>"

/-- The node of `markupScript`. -/
def markupNode : Node :=
  { id := 0, name := "</pre><b>x</b>", nodeType := "source", attributes := ⟨[("a", "1")]⟩,
    span := Span.lines 1 1 }

/-- What is read of `markupScript`. -/
def markupParsed : Parsed :=
  { graph := { nodes := #[markupNode] }
    warnings := [] }

theorem ofScript_markupScript : Parsed.ofScript markupScript = .ok markupParsed :=
  ofScript_eq_ok_iff_evaluate.mpr (by rfl)

theorem chart_ofScript_markupScript :
    Parsed.ofScript markupScript = .ok markupParsed ∧
      (pageText markupParsed.graph {} .chart).toList.count '<' = 3 := by
  obtain ⟨-, -, hcount, -⟩ := chart_ofScript ofScript_markupScript {}
  refine ⟨ofScript_markupScript, ?_⟩
  rw [hcount]
  decide

/-- **A node that ends the element around the chart**: its name is escaped in its summary, and it is
not in its line of the chart. -/
theorem less_mem_chart_markupScript :
    ∃ p, Parsed.ofScript markupScript = .ok p ∧
      '<' ∈ (pageText p.graph {} .chart).toList ∧
      "</pre>".toList <:+: (pageText p.graph {} .chart).toList ∧
      ¬ "</pre>".toList <:+: (pageText p.graph {} .info).toList := by
  have hnode : markupNode ∈ markupParsed.graph.nodes.toList := List.mem_singleton_self markupNode
  have hname : "</pre>".toList <:+: markupNode.name.toList := by decide
  have hchart : "</pre>".toList <:+: (pageText markupParsed.graph {} .chart).toList := by
    rw [pageText_chart]
    exact hname.trans (isInfix_name_of_mem_nodes {} hnode)
  have hmark : '<' ∈ "</pre>".toList := by decide
  refine ⟨markupParsed, ofScript_markupScript, hchart.subset hmark, hchart, ?_⟩
  -- The name is part of a summary, which has tags of its own only.
  rw [pageText_info]
  apply (tagged_compact_nodeInfo markupParsed.graph).not_isInfix
  · rfl
  · decide

end Page

end FlowDoc
