import FlowDoc.Proofs.Render.Markdown

/-!
# Where the links of a document lead

A link carries the name of a node and the anchor of its section. The names of a script are distinct,
so that a link names one node, whose section has the anchor. An anchor keeps neither the case of
letters nor the difference between blanks and hyphens: where the names of two nodes differ in
nothing else, their sections share an anchor, and a link to one of them leads to both.

## Main definitions

* `Markdown.SameHeading`: names that an anchor does not tell apart
* `Graph.named`, `Graph.headed`: the nodes with a name, and those whose sections have an anchor

## Main results

* `anchor_eq_anchor_iff`: which names share an anchor
* `headed_eq_singleton_iff`: the nodes whose section is the only one with its anchor
* `links_ofScript`: what each link of the document of a script leads to
* `sharedAnchor_ofScript`: two nodes of a script with one anchor
-/

namespace FlowDoc

namespace Markdown

/-- The characters are the same but for a blank in the place of a hyphen. -/
def SameInAnchor (c d : Char) : Prop :=
  c = d ∨ (c = ' ' ∧ d = '-') ∨ (c = '-' ∧ d = ' ')

/-- The names agree in lower case, but for blanks in the place of hyphens. -/
def SameHeading (a b : String) : Prop :=
  List.Forall₂ SameInAnchor (Text.lower a).toList (Text.lower b).toList

theorem anchorChar_eq_iff {c d : Char} :
    (if c = ' ' then '-' else c) = (if d = ' ' then '-' else d) ↔ SameInAnchor c d := by
  unfold SameInAnchor
  constructor
  · intro h
    split_ifs at h with hc hd hd
    · exact .inl (hc.trans hd.symm)
    · exact .inr (.inl ⟨hc, h.symm⟩)
    · exact .inr (.inr ⟨h, hd⟩)
    · exact .inl h
  · rintro (rfl | ⟨rfl, rfl⟩ | ⟨rfl, rfl⟩) <;> rfl

/-- **The names that share an anchor** agree in lower case, but for blanks in the place of
hyphens. -/
theorem anchor_eq_anchor_iff {a b : String} : anchor a = anchor b ↔ SameHeading a b := by
  rw [anchor, anchor, String.ofList_inj, SameHeading, ← List.forall₂_eq_eq_eq,
    List.forall₂_map_left_iff, List.forall₂_map_right_iff]
  constructor
  · exact List.Forall₂.imp fun _ _ => anchorChar_eq_iff.mp
  · exact List.Forall₂.imp fun _ _ => anchorChar_eq_iff.mpr

end Markdown

open Markdown

namespace Graph

variable {g : Graph} {node : Node}

/-- The nodes with this name. -/
def named (g : Graph) (name : String) : List Node :=
  g.nodes.toList.filter (·.name = name)

/-- The nodes whose sections have this anchor. -/
def headed (g : Graph) (target : String) : List Node :=
  g.nodes.toList.filter (anchor ·.name = target)

/-- The only element of a list that has a property. -/
theorem filter_eq_singleton_iff {α : Type} {p : α → Bool} {xs : List α} (hxs : xs.Nodup) {x : α}
    (hx : x ∈ xs) (hp : p x = true) : xs.filter p = [x] ↔ ∀ y ∈ xs, y ≠ x → p y = false := by
  constructor
  · intro h y hy hne
    by_contra hpy
    have hmem : y ∈ xs.filter p := List.mem_filter.mpr ⟨hy, by simpa using hpy⟩
    rw [h] at hmem
    exact hne (List.mem_singleton.mp hmem)
  · intro h
    have hperm : (xs.filter p).Perm [x] := by
      refine (List.perm_ext_iff_of_nodup (hxs.filter p) (List.nodup_singleton x)).mpr fun y => ?_
      rw [List.mem_filter, List.mem_singleton]
      constructor
      · rintro ⟨hy, hpy⟩
        by_contra hne
        rw [h y hy hne] at hpy
        cases hpy
      · rintro rfl
        exact ⟨hx, hp⟩
    exact List.perm_singleton.mp hperm

section Distinct

variable (hnames : (g.nodes.toList.map (·.name)).Nodup) (hnode : node ∈ g.nodes.toList)
include hnames hnode

theorem named_eq_singleton : g.named node.name = [node] := by
  refine (filter_eq_singleton_iff (.of_map _ hnames) hnode (by simp)).mpr fun other hother hne => ?_
  have hname : other.name ≠ node.name :=
    fun h => hne (List.inj_on_of_nodup_map hnames hother hnode h)
  simpa using hname

/-- Where names are distinct, the section of a node is the only one with its anchor exactly when no
other node has a name like its own. -/
theorem headed_eq_singleton_iff :
    g.headed (anchor node.name) = [node] ↔
      ∀ other ∈ g.nodes.toList, other ≠ node → ¬ SameHeading other.name node.name := by
  rw [headed, filter_eq_singleton_iff (.of_map _ hnames) hnode (by simp)]
  simp only [decide_eq_false_iff_not, anchor_eq_anchor_iff]

end Distinct

theorem mem_nodes_of_node? {i : NodeId} (h : g.node? i = some node) : node ∈ g.nodes.toList := by
  rw [node?, ← Array.getElem?_toList] at h
  exact List.mem_of_getElem? h

/-- What a section links are nodes of the graph. -/
theorem mem_nodes_of_linked {k : NodeId} (h : node ∈ g.parentsOf k ∨ node ∈ g.childrenOf k) :
    node ∈ g.nodes.toList := by
  rw [parentsOf, childrenOf] at h
  cases hk : g.node? k with
  | none => simp [hk] at h
  | some reader =>
    simp only [hk, List.mem_filterMap] at h
    rcases h with ⟨i, -, hi⟩ | ⟨i, -, hi⟩
    · exact mem_nodes_of_node? hi
    · exact mem_nodes_of_node? hi

end Graph

namespace Script

section Document

variable {script : String} {p : Parsed}

/-- **What the links of a document lead to.** The document of a script is made of the sections of
its nodes, which link the nodes that they read from and those that read from them, by their names
and anchors. A link names one node, and the section of that node has the anchor of the link. It is
the only one with this anchor exactly when no other node has a name that agrees with its own in
lower case, but for blanks in the place of hyphens; and two nodes share an anchor exactly when
their names agree in this way. -/
theorem links_ofScript (h : Parsed.ofScript script = .ok p) (config : Config) :
    let g := p.graph
    markdown g config =
      "## Nodes\n\n" ++ String.join (g.nodes.toList.map fun node =>
        shownSection config node ((g.parentsOf node.id).map (·.name))
          ((g.childrenOf node.id).map (·.name))) ++
      "\n## Flowchart\n\n::: mermaid\n" ++ flowchart g config ++ ":::\n" ∧
    (∀ k, ∀ target, target ∈ g.parentsOf k ∨ target ∈ g.childrenOf k →
      g.named target.name = [target] ∧ target ∈ g.headed (anchor target.name) ∧
      (g.headed (anchor target.name) = [target] ↔
        ∀ other ∈ g.nodes.toList, other ≠ target → ¬ SameHeading other.name target.name)) ∧
    (∀ a ∈ g.nodes.toList, ∀ b ∈ g.nodes.toList, a ≠ b →
      a.name ≠ b.name ∧ (anchor a.name = anchor b.name ↔ SameHeading a.name b.name)) := by
  intro g
  have hnames : (g.nodes.toList.map (·.name)).Nodup := nodup_names_ofScript h
  refine ⟨?_, fun k target hlinked => ?_, fun a ha b hb hne => ⟨fun hname => hne ?_, ?_⟩⟩
  · rw [markdown, funext fun node => nodeSection_eq g config node]
    rfl
  · have htarget : target ∈ g.nodes.toList := Graph.mem_nodes_of_linked hlinked
    refine ⟨Graph.named_eq_singleton hnames htarget, ?_,
      Graph.headed_eq_singleton_iff hnames htarget⟩
    exact List.mem_filter.mpr ⟨htarget, decide_eq_true rfl⟩
  · exact List.inj_on_of_nodup_map hnames ha hb hname
  · exact anchor_eq_anchor_iff

end Document

/-- A node from which two nodes read whose names differ in capitals and in a blank. -/
def blurredScript : String :=
  "source(a: 1) ~> src\nsrc sink(b: 2) ~> A b\nsrc sink(c: 3) ~> a-b"

/-- What is read of `blurredScript`. -/
def blurredParsed : Parsed :=
  { graph :=
      { nodes :=
          #[{ id := 0, name := "src", nodeType := "source", attributes := ⟨[("a", "1")]⟩,
              children := #[1, 2], span := Span.lines 1 1 },
            { id := 1, name := "A b", nodeType := "sink", attributes := ⟨[("b", "2")]⟩,
              parents := #[0], span := Span.lines 2 2 },
            { id := 2, name := "a-b", nodeType := "sink", attributes := ⟨[("c", "3")]⟩,
              parents := #[0], span := Span.lines 3 3 }]
        edges := #[⟨0, 1, none⟩, ⟨0, 2, none⟩] }
    warnings := [] }

theorem ofScript_blurredScript : Parsed.ofScript blurredScript = .ok blurredParsed :=
  ofScript_eq_ok_iff_evaluate.mpr (by decide +kernel)

theorem links_ofScript_blurredScript :
    Parsed.ofScript blurredScript = .ok blurredParsed ∧
      (∀ target ∈ blurredParsed.graph.parentsOf 1,
        blurredParsed.graph.headed (anchor target.name) = [target]) ∧
      ∀ target ∈ blurredParsed.graph.childrenOf 0,
        blurredParsed.graph.headed (anchor target.name) ≠ [target] := by
  have h : Parsed.ofScript blurredScript = .ok blurredParsed := ofScript_blurredScript
  obtain ⟨-, hlinks, -⟩ := links_ofScript h {}
  simp only [← anchor_eq_anchor_iff] at hlinks
  refine ⟨h, fun target htarget => ?_, fun target htarget hsingle => ?_⟩
  · refine (hlinks 1 target (.inl htarget)).2.2.mpr ?_
    revert target
    decide +kernel
  · have halone := (hlinks 0 target (.inr htarget)).2.2.mp hsingle
    revert target
    decide +kernel

/-- **A link may lead to two sections**: two nodes of a script whose names differ share an anchor,
and the output line of the node that they read from links both under it. -/
theorem sharedAnchor_ofScript :
    ∃ p, Parsed.ofScript blurredScript = .ok p ∧
      (∃ a b, p.graph.childrenOf 0 = [a, b] ∧ a.name ≠ b.name ∧ anchor a.name = anchor b.name ∧
        p.graph.headed (anchor a.name) = [a, b]) ∧
      linkLine "Output" (p.graph.childrenOf 0) =
        "Output: [A b](#a-b) [a-b](#a-b)\n" := by
  refine ⟨blurredParsed, ofScript_blurredScript, ⟨_, _, rfl, ?_⟩, ?_⟩
  · decide +kernel
  · decide +kernel

end Script

end FlowDoc
