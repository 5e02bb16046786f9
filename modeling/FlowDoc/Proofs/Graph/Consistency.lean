import Mathlib.Data.List.Induction
import Mathlib.Data.List.Nodup
import FlowDoc.Graph.Basic

/-!
# Consistency of a growing graph

A graph states which node reads from which three times: in its edges, in the parents of each node
and in the children of each node. The three agree on every graph that grows from the empty one by
adding nodes, drawing edges and describing nodes, whatever the order of these changes and whatever
numbers and names they carry.

## Main definitions

* `Graph.pairs`, `Graph.sourcesTo`, `Graph.targetsFrom`: what the edges say
* `Graph.Consistent`: the parents and children of all nodes are what the edges say
* `Graph.Change`, `Graph.ofChanges`: a change to a graph, and the graph after a list of changes

## Main results

* `Consistent.addNode`, `Consistent.connect`, `Consistent.describe`: each change keeps a graph
  consistent
* `Consistent.connectable_iff`: an edge may be drawn between known nodes that none joins yet
* `ofChanges_representation`: every graph after changes is consistent, and a change that is refused
  leaves it as it was
-/

namespace FlowDoc

/-- The nodes that an edge joins. -/
def Edge.ends (e : Edge) : NodeId × NodeId :=
  (e.source, e.target)

namespace Graph

/-! ## What the edges say -/

/-- The pairs of nodes that are joined, in the order of the edges. -/
def pairs (g : Graph) : List (NodeId × NodeId) :=
  g.edges.toList.map Edge.ends

/-- The nodes with an edge to `id`, in the order of the edges. -/
def sourcesTo (g : Graph) (id : NodeId) : List NodeId :=
  (g.edges.toList.filter (·.target == id)).map (·.source)

/-- The nodes with an edge from `id`, in the order of the edges. -/
def targetsFrom (g : Graph) (id : NodeId) : List NodeId :=
  (g.edges.toList.filter (·.source == id)).map (·.target)

theorem mem_pairs_iff_sourcesTo {g : Graph} {p c : NodeId} :
    (p, c) ∈ g.pairs ↔ p ∈ g.sourcesTo c := by
  simp only [pairs, Edge.ends, sourcesTo, List.mem_map, List.mem_filter, beq_iff_eq,
    Prod.mk.injEq]
  exact ⟨fun ⟨e, he, hp, hc⟩ => ⟨e, ⟨he, hc⟩, hp⟩, fun ⟨e, ⟨he, hc⟩, hp⟩ => ⟨e, he, hp, hc⟩⟩

theorem mem_pairs_iff_targetsFrom {g : Graph} {p c : NodeId} :
    (p, c) ∈ g.pairs ↔ c ∈ g.targetsFrom p := by
  simp only [pairs, Edge.ends, targetsFrom, List.mem_map, List.mem_filter, beq_iff_eq,
    Prod.mk.injEq]
  exact ⟨fun ⟨e, he, hp, hc⟩ => ⟨e, ⟨he, hp⟩, hc⟩, fun ⟨e, ⟨he, hp⟩, hc⟩ => ⟨e, he, hp, hc⟩⟩

theorem map_fst_filter_pairs (g : Graph) (id : NodeId) :
    (g.pairs.filter (·.2 == id)).map (·.1) = g.sourcesTo id := by
  simp only [pairs, Edge.ends, sourcesTo, List.filter_map, List.map_map, Function.comp_def]

theorem map_snd_filter_pairs (g : Graph) (id : NodeId) :
    (g.pairs.filter (·.1 == id)).map (·.2) = g.targetsFrom id := by
  simp only [pairs, Edge.ends, targetsFrom, List.filter_map, List.map_map, Function.comp_def]

/-- Of different pairs with one end in common the other ends differ. -/
theorem nodup_map_filter {l : List (NodeId × NodeId)} (h : l.Nodup)
    {near far : NodeId × NodeId → NodeId} (id : NodeId)
    (hends : ∀ x y, near x = near y → far x = far y → x = y) :
    ((l.filter (near · == id)).map far).Nodup := by
  refine List.Nodup.map_on ?_ (h.filter _)
  intro x hx y hy hfar
  simp only [List.mem_filter, beq_iff_eq] at hx hy
  exact hends x y (hx.2.trans hy.2.symm) hfar

theorem nodup_sourcesTo {g : Graph} (h : g.pairs.Nodup) (id : NodeId) : (g.sourcesTo id).Nodup := by
  rw [← map_fst_filter_pairs]
  exact nodup_map_filter h id fun _ _ hsnd hfst => Prod.ext hfst hsnd

theorem nodup_targetsFrom {g : Graph} (h : g.pairs.Nodup) (id : NodeId) :
    (g.targetsFrom id).Nodup := by
  rw [← map_snd_filter_pairs]
  exact nodup_map_filter h id fun _ _ hfst hsnd => Prod.ext hfst hsnd

/-! ## What a change does to nodes and edges -/

section Changes

variable (g : Graph)

@[simp] theorem size_empty : empty.size = 0 := rfl

@[simp] theorem size_addNode (name nodeType : String) (attributes : Bag) (span : Span) :
    (g.addNode name nodeType attributes span).size = g.size + 1 := by
  simp [addNode, size]

@[simp] theorem edges_addNode (name nodeType : String) (attributes : Bag) (span : Span) :
    (g.addNode name nodeType attributes span).edges = g.edges := rfl

theorem getElem?_addNode (name nodeType : String) (attributes : Bag) (span : Span) (i : Nat) :
    (g.addNode name nodeType attributes span).nodes[i]? =
      if i = g.size then some { id := g.size, name, nodeType, attributes, span }
      else g.nodes[i]? := by
  simp only [addNode, Array.getElem?_push]
  rfl

theorem connect_of_not_connectable {p c : NodeId} (stream : Option String)
    (h : g.connectable p c = false) : g.connect p c stream = g := by
  simp [connect, h]

variable {g}

theorem edges_connect {p c : NodeId} (stream : Option String) (h : g.connectable p c = true) :
    (g.connect p c stream).edges = g.edges.push ⟨p, c, stream⟩ := by
  simp [connect, h]

/-- Drawing an edge adds a parent at its target and a child at its source. -/
theorem getElem?_connect {p c : NodeId} (stream : Option String) (h : g.connectable p c = true)
    (i : Nat) :
    (g.connect p c stream).nodes[i]? = (g.nodes[i]?).map fun n =>
      { n with
        parents := if c = i then n.parents.push p else n.parents
        children := if p = i then n.children.push c else n.children } := by
  simp only [connect, h, if_true, Array.getElem?_modify]
  by_cases hp : p = i <;> by_cases hc : c = i <;> cases g.nodes[i]? <;> simp [hp, hc]

variable (g)

@[simp] theorem size_connect (p c : NodeId) (stream : Option String) :
    (g.connect p c stream).size = g.size := by
  unfold connect
  split <;> simp [size]

@[simp] theorem nodes_empty : empty.nodes = #[] := rfl

@[simp] theorem edges_empty : empty.edges = #[] := rfl

/-- The node at place `i` has the name, and none before it has. -/
def FirstNamed (name : String) (i : Nat) : Prop :=
  ∃ node, g.nodes[i]? = some node ∧ node.name = name ∧
    ∀ j < i, ∀ earlier, g.nodes[j]? = some earlier → earlier.name ≠ name

variable {g}

theorem indexOf?_eq_some_iff {name : String} {i : Nat} :
    g.indexOf? name = some i ↔ g.FirstNamed name i := by
  rw [indexOf?, Array.findIdx?_eq_some_iff_getElem]
  constructor
  · rintro ⟨hi, hname, hmin⟩
    refine ⟨g.nodes[i], Array.getElem?_eq_getElem hi, by simpa using hname, ?_⟩
    intro j hj earlier hearlier
    obtain ⟨hlt, rfl⟩ := Array.getElem?_eq_some_iff.mp hearlier
    simpa using hmin j hj
  · rintro ⟨node, hnode, hname, hmin⟩
    obtain ⟨hi, rfl⟩ := Array.getElem?_eq_some_iff.mp hnode
    refine ⟨hi, by simpa using hname, fun j hj => ?_⟩
    simpa using hmin j hj _ (Array.getElem?_eq_getElem (Nat.lt_trans hj hi))

theorem describe_of_firstNamed {name : String} {i : Nat} (description : String)
    (h : g.FirstNamed name i) :
    g.describe name description =
      { g with nodes := g.nodes.modify i fun n => { n with description := some description } } := by
  simp only [describe, indexOf?_eq_some_iff.mpr h]

theorem describe_of_isNone {name : String} (description : String)
    (h : (g.indexOf? name).isSome = false) : g.describe name description = g := by
  have hnone : g.indexOf? name = none := by simpa using h
  simp only [describe, hnone]

variable (g)

@[simp] theorem edges_describe (name description : String) :
    (g.describe name description).edges = g.edges := by
  unfold describe
  split <;> rfl

@[simp] theorem size_describe (name description : String) :
    (g.describe name description).size = g.size := by
  unfold describe
  split <;> simp [size]

/-- A description changes nothing else in any node. -/
theorem exists_getElem?_describe (name description : String) (i : Nat) :
    ∃ f : Node → Option String, (g.describe name description).nodes[i]? =
      (g.nodes[i]?).map fun n => { n with description := f n } := by
  unfold describe
  split
  case h_1 k hk =>
    by_cases h : k = i
    · exact ⟨fun _ => some description, by simp [Array.getElem?_modify, h]⟩
    · exact ⟨Node.description, by simp [Array.getElem?_modify, h]⟩
  case h_2 => exact ⟨Node.description, by simp⟩

end Changes

/-! ## Consistency -/

/-- The nodes are numbered in order, the edges join known nodes, no two nodes twice in one
direction, and the parents and children of each node are what the edges say. -/
structure Consistent (g : Graph) : Prop where
  id_eq : ∀ {i : Nat} {node : Node}, g.nodes[i]? = some node → node.id = i
  source_lt : ∀ e ∈ g.edges.toList, e.source < g.size
  target_lt : ∀ e ∈ g.edges.toList, e.target < g.size
  pairs_nodup : g.pairs.Nodup
  parents_eq : ∀ {i : Nat} {node : Node}, g.nodes[i]? = some node →
    node.parents.toList = g.sourcesTo i
  children_eq : ∀ {i : Nat} {node : Node}, g.nodes[i]? = some node →
    node.children.toList = g.targetsFrom i

namespace Consistent

variable {g : Graph}

theorem empty : Graph.empty.Consistent where
  id_eq h := by simp at h
  source_lt e he := by simp at he
  target_lt e he := by simp at he
  pairs_nodup := by simp [pairs]
  parents_eq h := by simp at h
  children_eq h := by simp at h

/-- No edge joins a node that is not there yet. -/
theorem sourcesTo_size (hg : g.Consistent) : g.sourcesTo g.size = [] := by
  rw [sourcesTo, List.map_eq_nil_iff, List.filter_eq_nil_iff]
  intro e he
  simpa using Nat.ne_of_lt (hg.target_lt e he)

theorem targetsFrom_size (hg : g.Consistent) : g.targetsFrom g.size = [] := by
  rw [targetsFrom, List.map_eq_nil_iff, List.filter_eq_nil_iff]
  intro e he
  simpa using Nat.ne_of_lt (hg.source_lt e he)

theorem addNode (hg : g.Consistent) (name nodeType : String) (attributes : Bag) (span : Span) :
    (g.addNode name nodeType attributes span).Consistent where
  id_eq {i node} h := by
    rw [getElem?_addNode] at h
    split_ifs at h with hi
    · obtain rfl := Option.some.inj h
      exact hi.symm
    · exact hg.id_eq h
  source_lt e he := by
    rw [size_addNode]
    exact Nat.lt_succ_of_lt (hg.source_lt e he)
  target_lt e he := by
    rw [size_addNode]
    exact Nat.lt_succ_of_lt (hg.target_lt e he)
  pairs_nodup := hg.pairs_nodup
  parents_eq {i node} h := by
    rw [getElem?_addNode] at h
    split_ifs at h with hi
    · obtain rfl := Option.some.inj h
      rw [hi]
      exact hg.sourcesTo_size.symm
    · exact hg.parents_eq h
  children_eq {i node} h := by
    rw [getElem?_addNode] at h
    split_ifs at h with hi
    · obtain rfl := Option.some.inj h
      rw [hi]
      exact hg.targetsFrom_size.symm
    · exact hg.children_eq h

theorem describe (hg : g.Consistent) (name description : String) :
    (g.describe name description).Consistent := by
  -- A node after the change is one from before it, with the same number, parents and children.
  have key : ∀ {i : Nat} {node : Node}, (g.describe name description).nodes[i]? = some node →
      ∃ old : Node, g.nodes[i]? = some old ∧ node.id = old.id ∧ node.parents = old.parents ∧
        node.children = old.children := by
    intro i node h
    obtain ⟨f, hf⟩ := exists_getElem?_describe g name description i
    rw [hf] at h
    obtain ⟨old, hold, rfl⟩ := Option.map_eq_some_iff.mp h
    exact ⟨old, hold, rfl, rfl, rfl⟩
  have hedges := edges_describe g name description
  refine ⟨fun h => ?_, ?_, ?_, ?_, fun h => ?_, fun h => ?_⟩
  · obtain ⟨old, hold, hid, -, -⟩ := key h
    rw [hid]
    exact hg.id_eq hold
  · rw [hedges, size_describe]
    exact hg.source_lt
  · rw [hedges, size_describe]
    exact hg.target_lt
  · rw [pairs, hedges]
    exact hg.pairs_nodup
  · obtain ⟨old, hold, -, hparents, -⟩ := key h
    rw [hparents, hg.parents_eq hold, sourcesTo, sourcesTo, hedges]
  · obtain ⟨old, hold, -, -, hchildren⟩ := key h
    rw [hchildren, hg.children_eq hold, targetsFrom, targetsFrom, hedges]

/-- The parents of a node, which alone are looked at, tell whether an edge joins two nodes. -/
theorem connected_iff (hg : g.Consistent) {p c : NodeId} (hc : c < g.size) :
    g.connected p c = true ↔ (p, c) ∈ g.pairs := by
  have hnode : g.nodes[c]? = some g.nodes[c] := Array.getElem?_eq_getElem hc
  rw [mem_pairs_iff_sourcesTo, ← hg.parents_eq hnode, connected, hnode]
  simp

/-- An edge may be drawn between known nodes that no edge joins yet. -/
theorem connectable_iff (hg : g.Consistent) {p c : NodeId} :
    g.connectable p c = true ↔ p < g.size ∧ c < g.size ∧ (p, c) ∉ g.pairs := by
  simp only [connectable, Bool.and_eq_true, decide_eq_true_eq, Bool.not_eq_true', and_assoc,
    ← Bool.not_eq_true]
  refine and_congr_right fun _ => and_congr_right fun hc => ?_
  rw [hg.connected_iff hc]

theorem connect (hg : g.Consistent) (p c : NodeId) (stream : Option String) :
    (g.connect p c stream).Consistent := by
  -- Either nothing changes, or one edge comes last.
  cases h : g.connectable p c with
  | false => rwa [connect_of_not_connectable g stream h]
  | true =>
    obtain ⟨hp, hc, hfresh⟩ := hg.connectable_iff.mp h
    have hedges : (g.connect p c stream).edges.toList = g.edges.toList ++ [⟨p, c, stream⟩] := by
      rw [edges_connect stream h, Array.toList_push]
    refine ⟨fun {i node} hn => ?_, ?_, ?_, ?_, fun {i node} hn => ?_, fun {i node} hn => ?_⟩
    · rw [getElem?_connect stream h] at hn
      obtain ⟨old, hold, rfl⟩ := Option.map_eq_some_iff.mp hn
      show old.id = i
      exact hg.id_eq hold
    · rw [hedges, size_connect]
      intro e he
      rcases List.mem_append.mp he with he | he
      · exact hg.source_lt e he
      · obtain rfl := List.mem_singleton.mp he
        exact hp
    · rw [hedges, size_connect]
      intro e he
      rcases List.mem_append.mp he with he | he
      · exact hg.target_lt e he
      · obtain rfl := List.mem_singleton.mp he
        exact hc
    · rw [pairs, hedges, List.map_append]
      exact List.nodup_append_comm.mp (List.nodup_cons.mpr ⟨hfresh, hg.pairs_nodup⟩)
    · -- The new edge is the last one to its target, where its source becomes the last parent.
      rw [getElem?_connect stream h] at hn
      obtain ⟨old, hold, rfl⟩ := Option.map_eq_some_iff.mp hn
      rw [sourcesTo, hedges, List.filter_append, List.map_append, ← sourcesTo,
        ← hg.parents_eq hold]
      by_cases hi : c = i <;> simp [hi]
    · rw [getElem?_connect stream h] at hn
      obtain ⟨old, hold, rfl⟩ := Option.map_eq_some_iff.mp hn
      rw [targetsFrom, hedges, List.filter_append, List.map_append, ← targetsFrom,
        ← hg.children_eq hold]
      by_cases hi : p = i <;> simp [hi]

/-- A node reads from another exactly when the other lists it as a child. -/
theorem mem_parents_iff (hg : g.Consistent) {p c : NodeId} {parent child : Node}
    (hp : g.nodes[p]? = some parent) (hc : g.nodes[c]? = some child) :
    p ∈ child.parents.toList ↔ c ∈ parent.children.toList := by
  rw [hg.parents_eq hc, hg.children_eq hp, ← mem_pairs_iff_sourcesTo, mem_pairs_iff_targetsFrom]

/-- The first node with a name is numbered with its place. -/
theorem map_id_findNode? (hg : g.Consistent) (name : String) :
    (g.findNode? name).map (·.id) = g.indexOf? name := by
  rw [findNode?, indexOf?, Array.find?_eq_bind_findIdx?_getElem?]
  cases h : g.nodes.findIdx? (·.name == name) with
  | none => rfl
  | some i =>
    obtain ⟨hlt, -⟩ := Array.findIdx?_eq_some_iff_getElem.mp h
    have hnode : g.nodes[i]? = some g.nodes[i] := Array.getElem?_eq_getElem hlt
    rw [Option.bind_some, hnode, Option.map_some, hg.id_eq hnode]

theorem nodup_parents (hg : g.Consistent) {i : Nat} {node : Node}
    (h : g.nodes[i]? = some node) : node.parents.toList.Nodup := by
  rw [hg.parents_eq h]
  exact nodup_sourcesTo hg.pairs_nodup i

theorem nodup_children (hg : g.Consistent) {i : Nat} {node : Node}
    (h : g.nodes[i]? = some node) : node.children.toList.Nodup := by
  rw [hg.children_eq h]
  exact nodup_targetsFrom hg.pairs_nodup i

end Consistent

/-! ## Graphs after changes -/

/-- A change to a graph. -/
inductive Change where
  /-- One more node. -/
  | addNode (name nodeType : String) (attributes : Bag) (span : Span)
  /-- An edge from `parent` to `child`. -/
  | connect (parent child : NodeId) (stream : Option String)
  /-- A description of the first node with a name. -/
  | describe (name description : String)

/-- The graph after a change. -/
def change (g : Graph) : Change → Graph
  | .addNode name nodeType attributes span => g.addNode name nodeType attributes span
  | .connect parent child stream => g.connect parent child stream
  | .describe name description => g.describe name description

/-- The graph that a list of changes makes of the empty one. -/
def ofChanges (changes : List Change) : Graph :=
  changes.foldl change empty

theorem Consistent.change {g : Graph} (hg : g.Consistent) (c : Change) :
    (g.change c).Consistent := by
  cases c with
  | addNode name nodeType attributes span => exact hg.addNode name nodeType attributes span
  | connect parent child stream => exact hg.connect parent child stream
  | describe name description => exact hg.describe name description

theorem consistent_ofChanges (changes : List Change) : (ofChanges changes).Consistent := by
  induction changes using List.reverseRecOn with
  | nil => exact Consistent.empty
  | append_singleton changes c ih =>
    rw [ofChanges, List.foldl_append]
    exact ih.change c

/-- **The three views of the wiring agree after any changes.** An edge is drawn exactly between
known nodes that none joins yet in that direction, a description goes to the first node with its
name and changes nothing else, and a refused change leaves the graph as it was. -/
theorem ofChanges_representation (changes : List Change) :
    let g := ofChanges changes
    g.Consistent ∧
    (∀ {p c : NodeId} {parent child : Node}, g.nodes[p]? = some parent → g.nodes[c]? = some child →
      (p ∈ child.parents.toList ↔ c ∈ parent.children.toList)) ∧
    (∀ {i : Nat} {node : Node}, g.nodes[i]? = some node →
      node.parents.toList.Nodup ∧ node.children.toList.Nodup) ∧
    (∀ p c stream,
      (g.connectable p c = true ↔ p < g.size ∧ c < g.size ∧ (p, c) ∉ g.pairs) ∧
      (g.connectable p c = true → (g.connect p c stream).edges = g.edges.push ⟨p, c, stream⟩) ∧
      (g.connectable p c = false → g.connect p c stream = g)) ∧
    (∀ name description,
      ((g.indexOf? name).isSome = true ↔ ∃ i, g.FirstNamed name i) ∧
      (∀ i, g.FirstNamed name i → g.describe name description =
        { g with
          nodes := g.nodes.modify i fun n => { n with description := some description } }) ∧
      ((g.indexOf? name).isSome = false → g.describe name description = g)) := by
  intro g
  have hg : g.Consistent := consistent_ofChanges changes
  refine ⟨hg, hg.mem_parents_iff, fun h => ⟨hg.nodup_parents h, hg.nodup_children h⟩, ?_, ?_⟩
  · exact fun p c stream => ⟨hg.connectable_iff, edges_connect stream,
      connect_of_not_connectable g stream⟩
  · intro name description
    refine ⟨?_, fun i => describe_of_firstNamed description, describe_of_isNone description⟩
    rw [Option.isSome_iff_exists]
    exact exists_congr fun i => indexOf?_eq_some_iff

end Graph

end FlowDoc
