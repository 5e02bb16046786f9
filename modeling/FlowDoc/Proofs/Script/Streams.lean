import FlowDoc.Proofs.Script.Resolution
import FlowDoc.Render.Flowchart

/-!
# Streams of edges

A declaration may refer to one node several times and select another stream of it each time. One
edge is drawn all the same. Its stream is the one that the first of these references selects, and
with this stream a flowchart labels the edge.

## Main results

* `filter_ends_wiredGraph`: the one edge between two nodes
* `label_mem_lines`: the line of an edge with a stream in a flowchart
* `graphOf_streams`: every reference is shown by an edge, which has the stream of the first
  reference to the same node
* `graphOf_repeatedStream`: a second stream of the same node is lost
-/

namespace FlowDoc.Script

section WiredGraph

variable {ds : List Declaration} {k : Nat} {d : Declaration} {name : String} {p : NodeId}

/-- **The edge between two nodes** is that of the first reference from one to the other. -/
theorem filter_ends_wiredGraph (hd : ds[k]? = some d) (hp : idOf? ds name = some p) :
    (wiredGraph ds).edges.toList.filter (·.ends == (p, k)) =
      (d.inputs.find? (canonicalName · == name)).toList.map fun r =>
        ⟨p, k, streamSelector r⟩ := by
  have hends : (fun e : Edge => e.ends == (p, k)) = fun e => e.source == p && e.target == k := rfl
  rw [hends, ← List.filter_filter, edgesTo_wiredGraph hd, Wiring.inputEdges, List.filter_filterMap,
    ← filter_eraseDupsBy, ← Declaration.firstInputs, ← List.filterMap_eq_map,
    List.filterMap_filter]
  refine List.filterMap_congr fun r _ => ?_
  by_cases hr : canonicalName r = name
  · simp [hr, hp]
  · -- A reference to another node draws no edge from this one.
    have hne : ∀ q, idOf? ds (canonicalName r) = some q → q ≠ p := by
      rintro q hq rfl
      exact hr (idOf?_inj hq hp)
    cases hq : idOf? ds (canonicalName r) with
    | none => simp [hr]
    | some q => simp [hr, hne q hq]

end WiredGraph

section Flowchart

variable {g : Graph} {p k : NodeId} {e : Edge}

theorem streamOf?_of_filter_ends (h : g.edges.toList.filter (·.ends == (p, k)) = [e]) :
    Flowchart.streamOf? g p k = e.stream := by
  have hends : (fun e : Edge => decide (e.source = p ∧ e.target = k)) = (·.ends == (p, k)) := by
    funext e
    rw [Bool.eq_iff_iff, decide_eq_true_iff, beq_iff_eq, Edge.ends, Prod.mk.injEq]
  rw [Flowchart.streamOf?, hends, Array.findRev?_eq_find?_reverse, ← Array.find?_toList,
    Array.toList_reverse, ← List.head?_filter, List.filter_reverse, h]
  rfl

/-- The line of an edge is shown where the node that it starts from lists the other as a child. -/
theorem edgeLine_mem_lines (hg : g.Consistent) (h : (p, k) ∈ g.pairs) (config : Config) :
    Flowchart.edgeLine g p k ∈ Flowchart.lines g config := by
  obtain ⟨e, he, hends⟩ := List.mem_map.mp h
  obtain ⟨rfl, rfl⟩ := Prod.mk.inj hends
  have hlt : e.source < g.nodes.size := hg.source_lt e he
  have hnode : g.nodes[e.source]? = some g.nodes[e.source] := Array.getElem?_eq_getElem hlt
  have hchild : e.target ∈ g.nodes[e.source].children.toList := by
    rw [hg.children_eq hnode]
    exact Graph.mem_pairs_iff_targetsFrom.mp h
  have hedge : Flowchart.edgeLine g e.source e.target ∈ Flowchart.edgeLines g := by
    refine List.mem_flatMap.mpr ⟨g.nodes[e.source], Array.getElem_mem_toList _, ?_⟩
    rw [hg.id_eq hnode]
    exact List.mem_map_of_mem hchild
  exact List.mem_append_left _ (List.mem_append_right _ hedge)

/-- A flowchart labels an edge with its stream. -/
theorem label_mem_lines (hg : g.Consistent)
    (h : g.edges.toList.filter (·.ends == (p, k)) = [e]) {stream : String}
    (hstream : e.stream = some stream) (config : Config) :
    keyText p ++ "---|" ++ stream ++ "|" ++ keyText k ∈ Flowchart.lines g config := by
  have he : e ∈ g.edges.toList.filter (·.ends == (p, k)) := by
    rw [h]
    exact List.mem_singleton_self e
  obtain ⟨hmem, hends⟩ := List.mem_filter.mp he
  have hpair : (p, k) ∈ g.pairs := List.mem_map.mpr ⟨e, hmem, eq_of_beq hends⟩
  have hline := edgeLine_mem_lines hg hpair config
  rw [Flowchart.edgeLine, streamOf?_of_filter_ends h, hstream] at hline
  exact hline

end Flowchart

/-- **Every reference is shown by one edge.** Its stream is the one that the first reference of the
declaration to the same node selects, and a flowchart labels the edge with it. So no stream is lost
that the first reference to a node selects, and a repeated reference adds none. -/
theorem graphOf_streams {ds : List Declaration} {g : Graph} (h : graphOf ds = .ok g) {k : Nat}
    {d : Declaration} (hd : ds[k]? = some d) {r : String} (hr : r ∈ d.inputs) :
    ∃ p first, (g.findNode? (canonicalName r)).map (·.id) = some p ∧
      d.inputs.find? (canonicalName · == canonicalName r) = some first ∧
      g.edges.toList.filter (·.ends == (p, k)) = [⟨p, k, streamSelector first⟩] ∧
      ∀ stream, streamSelector first = some stream → ∀ config,
        keyText p ++ "---|" ++ stream ++ "|" ++ keyText k ∈ Flowchart.lines g config := by
  obtain ⟨hds, rfl⟩ := graphOf_eq_ok_iff.mp h
  obtain ⟨p, hp⟩ := exists_idOf? (hds.resolved d (List.mem_of_getElem? hd) r hr)
  have hfirst : (d.inputs.find? (canonicalName · == canonicalName r)).isSome = true :=
    List.find?_isSome.mpr ⟨r, hr, beq_self_eq_true _⟩
  obtain ⟨first, hfirst⟩ := Option.isSome_iff_exists.mp hfirst
  have hedge := filter_ends_wiredGraph hd hp
  rw [hfirst] at hedge
  refine ⟨p, first, ?_, hfirst, hedge, fun stream hstream config => ?_⟩
  · exact (map_id_findNode?_wiredGraph ds _).trans hp
  · exact label_mem_lines (consistent_wiredGraph ds) hedge hstream config

/-- A node that reads two streams of a split, one reference after the other. -/
def streamReader : Declaration :=
  { name := "U", nodeType := "union", inputs := ["S@Insert", "S@Update", "S"] }

/-- A split and a node that reads two of its streams. -/
def splitDeclarations : List Declaration :=
  [{ name := "S", nodeType := "split" }, streamReader]

/-- The graph of a split and a node that reads two of its streams: its one edge has the first. -/
def splitGraph : Graph :=
  { nodes :=
      #[{ id := 0, name := "S", nodeType := "split", children := #[1] },
        { id := 1, name := "U", nodeType := "union", parents := #[0] }]
    edges := #[⟨0, 1, some "Insert"⟩] }

theorem graphOf_splitDeclarations : graphOf splitDeclarations = .ok splitGraph := by
  refine graphOf_eq_ok_iff.mpr ⟨⟨?_, ?_⟩, ?_⟩
  · decide
  · decide +kernel
  · decide +kernel

theorem graphOf_streams_splitGraph :
    graphOf splitDeclarations = .ok splitGraph ∧ splitDeclarations[1]? = some streamReader ∧
      "S@Update" ∈ streamReader.inputs ∧
      ∃ p first, (splitGraph.findNode? (canonicalName "S@Update")).map (·.id) = some p ∧
        streamReader.inputs.find? (canonicalName · == canonicalName "S@Update") = some first ∧
        splitGraph.edges.toList.filter (·.ends == (p, 1)) = [⟨p, 1, streamSelector first⟩] ∧
        ∀ stream, streamSelector first = some stream → ∀ config,
          keyText p ++ "---|" ++ stream ++ "|" ++ keyText 1 ∈
            Flowchart.lines splitGraph config := by
  have h := graphOf_splitDeclarations
  have hr : "S@Update" ∈ streamReader.inputs := by decide
  exact ⟨h, rfl, hr, graphOf_streams h rfl hr⟩

/-- A second stream of the same node is lost: the reference is resolved and selects a stream, which
no edge has. -/
theorem graphOf_repeatedStream :
    graphOf splitDeclarations = .ok splitGraph ∧ splitDeclarations[1]? = some streamReader ∧
      "S@Update" ∈ streamReader.inputs ∧
      (splitGraph.findNode? (canonicalName "S@Update")).map (·.id) = some 0 ∧
      streamSelector "S@Update" = some "Update" ∧
      ∀ e ∈ splitGraph.edges.toList, ¬ (e.ends = (0, 1) ∧ e.stream = some "Update") := by
  refine ⟨graphOf_splitDeclarations, rfl, ?_, ?_, ?_, ?_⟩
  · decide
  · decide +kernel
  · decide +kernel
  · decide

end FlowDoc.Script
