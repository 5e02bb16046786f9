import Mathlib.Data.List.Perm.Basic
import FlowDoc.Evidence
import FlowDoc.Proofs.Script.Resolution

/-!
# The order of declarations

The order in which nodes are declared numbers them and orders the edges, but it does not change
what a graph says: with names in place of numbers, every node says the same of itself and reads from
the same nodes in the same order, and the edges are the same. Nor does the order change whether
declarations become a graph, or the kind of fault that they have.

## Main definitions

* `Graph.namedEdges`: the edges of a graph with names in place of numbers
* `Graph.Alike`: graphs that say the same

## Main results

* `namedEdges_wiredGraph`: the named edges of a graph are those of its declarations
* `graphOf_perm`: the outcome for declarations in another order
-/

namespace FlowDoc

/-! ## What a graph says -/

/-- An edge with the names of its ends. -/
structure NamedEdge where
  source : Option String
  target : Option String
  stream : Option String
deriving DecidableEq, Repr

namespace Graph

/-- The name of the node that a number names. -/
def nameOf? (g : Graph) (id : NodeId) : Option String :=
  (g.node? id).map (·.name)

/-- The edges of a graph with names in place of numbers. -/
def namedEdges (g : Graph) : List NamedEdge :=
  g.edges.toList.map fun e => ⟨g.nameOf? e.source, g.nameOf? e.target, e.stream⟩

end Graph

/-- Nodes of two graphs that say the same of themselves and, with names in place of numbers, have
the same parents in the same order and the same children in some order. -/
structure Node.Alike (g g' : Graph) (n n' : Node) : Prop where
  nodeType_eq : n'.nodeType = n.nodeType
  attributes_eq : n'.attributes = n.attributes
  description_eq : n'.description = n.description
  span_eq : n'.span = n.span
  parents_eq : n'.parents.toList.map g'.nameOf? = n.parents.toList.map g.nameOf?
  children_perm : (n.children.toList.map g.nameOf?).Perm (n'.children.toList.map g'.nameOf?)

/-- Graphs that say the same, whatever the numbers of their nodes. -/
structure Graph.Alike (g g' : Graph) : Prop where
  nodes : ∀ name, Option.Rel (Node.Alike g g') (g.findNode? name) (g'.findNode? name)
  edges : g.namedEdges.Perm g'.namedEdges
  evidence_eq : ∀ warnings, evidence ⟨g', warnings⟩ = evidence ⟨g, warnings⟩

/-- An error about a name that is declared twice. -/
def ScriptError.IsDuplicateName (e : ScriptError) : Prop :=
  ∃ name span first, e = .duplicateNodeName name span first

/-- An error about a reference that names no node. -/
def ScriptError.IsUnresolvedReference (e : ScriptError) : Prop :=
  ∃ node reference span, e = .unresolvedReference node reference span

/-! ## Node types -/

/-- Two texts may be put in their places in either order. -/
theorem insertText_comm (s t : String) (texts : List String) :
    insertText s (insertText t texts) = insertText t (insertText s texts) := by
  induction texts with
  | nil => grind [insertText]
  | cons text texts ih => grind [insertText]

theorem foldr_insertText_perm {types types' : List String} (h : types.Perm types') :
    types.foldr insertText [] = types'.foldr insertText [] := by
  have : LeftCommutative insertText := ⟨insertText_comm⟩
  exact h.foldr_eq []

namespace Script

/-! ## Named edges -/

/-- The edges that the references of a declaration draw. -/
def Declaration.namedInputs (d : Declaration) : List NamedEdge :=
  d.firstInputs.map fun r => ⟨some (canonicalName r), some d.name, streamSelector r⟩

section WiredGraph

variable {ds : List Declaration} {k : Nat} {d : Declaration}

theorem nameOf?_wiredGraph (ds : List Declaration) (k : Nat) :
    (wiredGraph ds).nameOf? k = (ds[k]?).map (·.name) := by
  have hbare := congrArg (Option.map Node.name) (getElem?_wiredGraph_bare ds k)
  rw [Option.map_map, Option.map_map] at hbare
  exact hbare

theorem nameOf?_of_idOf? {name : String} {id : NodeId} (h : idOf? ds name = some id) :
    (wiredGraph ds).nameOf? id = some name := by
  obtain ⟨d, hd, rfl⟩ := getElem?_of_idOf? h
  rw [nameOf?_wiredGraph, hd]
  rfl

/-- Where all references are resolved, what each one stands for may be told from its name. -/
theorem filterMap_firstInputs {β : Type} {f : String → NodeId → β} {f' : String → β}
    (hds : Resolvable ds) (hd : d ∈ ds)
    (hf : ∀ r id, (wiredGraph ds).nameOf? id = some (canonicalName r) → f r id = f' r) :
    d.firstInputs.filterMap (fun r => (idOf? ds (canonicalName r)).map (f r)) =
      d.firstInputs.map f' := by
  rw [← List.filterMap_eq_map]
  refine List.filterMap_congr fun r hr => ?_
  obtain ⟨id, hid⟩ := exists_idOf? (hds.resolved d hd r (mem_of_mem_eraseDupsBy hr))
  rw [hid, Option.map_some, hf r id (nameOf?_of_idOf? hid)]
  rfl

/-- **The named edges of a graph** are those of its declarations, in whatever places these are. -/
theorem namedEdges_wiredGraph (hds : Resolvable ds) :
    (wiredGraph ds).namedEdges = ds.flatMap Declaration.namedInputs := by
  have hblock : ∀ p ∈ ds.zipIdx, (Wiring.inputEdges ds p.2 p.1.firstInputs).map (fun e =>
      NamedEdge.mk ((wiredGraph ds).nameOf? e.source) ((wiredGraph ds).nameOf? e.target) e.stream) =
      p.1.namedInputs := by
    rintro ⟨d, k⟩ hd
    have hk : (wiredGraph ds).nameOf? k = some d.name := by
      rw [nameOf?_wiredGraph, List.mem_zipIdx_iff_getElem?.mp hd]
      rfl
    rw [Wiring.inputEdges, List.map_filterMap]
    simp only [Option.map_map]
    refine filterMap_firstInputs hds (List.fst_mem_of_mem_zipIdx hd) fun r id hid => ?_
    rw [Function.comp_apply, hid, hk]
  rw [Graph.namedEdges, edges_wiredGraph, List.map_flatMap, List.flatMap_congr hblock,
    ← List.flatMap_map Prod.fst, List.zipIdx_map_fst]

/-! ## Named nodes -/

/-- Where names are distinct, the name of a node is its alone. -/
theorem nameOf?_eq_some_iff (hds : Resolvable ds) (hd : ds[k]? = some d) {i : Nat} :
    (wiredGraph ds).nameOf? i = some d.name ↔ i = k := by
  have hname : (declaredNames ds)[k]? = some d.name := by
    rw [declaredNames, List.getElem?_map, hd]
    rfl
  have hlt : k < (declaredNames ds).length := (List.getElem?_eq_some_iff.mp hname).1
  rw [nameOf?_wiredGraph, ← List.getElem?_map, ← declaredNames, ← hname, eq_comm,
    List.getElem?_inj hlt hds.names_nodup, eq_comm]

/-- The node of a declaration is found by its name. -/
theorem findNode?_of_declaration (hds : Resolvable ds) (hd : ds[k]? = some d) :
    (wiredGraph ds).findNode? d.name = (wiredGraph ds).nodes[k]? := by
  obtain ⟨node, hnode, -⟩ := exists_getElem?_wiredGraph hd
  have hnamed : ∀ {i : Nat} {n : Node}, (wiredGraph ds).nodes[i]? = some n →
      (n.name = d.name ↔ i = k) := by
    intro i n hn
    rw [← nameOf?_eq_some_iff hds hd, Graph.nameOf?, Graph.node?, hn, Option.map_some,
      Option.some.injEq]
  obtain ⟨hlt, hget⟩ := Array.getElem?_eq_some_iff.mp hnode
  rw [hnode, Graph.findNode?, Array.find?_eq_some_iff_getElem]
  refine ⟨by simpa using hnamed hnode, k, hlt, hget, fun j hj => ?_⟩
  have hne := (hnamed (Array.getElem?_eq_getElem (Nat.lt_trans hj hlt))).not.mpr (Nat.ne_of_lt hj)
  simpa using hne

/-- The parents of a node by their names. -/
theorem map_nameOf?_parents (hds : Resolvable ds) {node : Node} (hd : ds[k]? = some d)
    (hnode : (wiredGraph ds).nodes[k]? = some node) :
    node.parents.toList.map (wiredGraph ds).nameOf? =
      d.firstInputs.map fun r => some (canonicalName r) := by
  rw [parents_wiredGraph hd hnode, eraseDups_inputIds, List.map_filterMap]
  exact filterMap_firstInputs hds (List.mem_of_getElem? hd) fun r id hid => hid

/-- The children of a node by their names: the ends of the edges that start at its name. -/
theorem map_nameOf?_children (hds : Resolvable ds) {node : Node} (hd : ds[k]? = some d)
    (hnode : (wiredGraph ds).nodes[k]? = some node) :
    node.children.toList.map (wiredGraph ds).nameOf? =
      ((wiredGraph ds).namedEdges.filter (·.source == some d.name)).map (·.target) := by
  rw [(consistent_wiredGraph ds).children_eq hnode, Graph.targetsFrom, Graph.namedEdges,
    List.filter_map, List.map_map, List.map_map]
  congr 1
  refine List.filter_congr fun e _ => ?_
  rw [Function.comp_apply, Bool.eq_iff_iff, beq_iff_eq, beq_iff_eq, nameOf?_eq_some_iff hds hd]

theorem nodeTypes_wiredGraph (ds : List Declaration) :
    nodeTypes (wiredGraph ds) = (ds.map (·.nodeType)).foldr insertText [] := by
  have htypes : (wiredGraph ds).nodes.toList.map (·.nodeType) = ds.map (·.nodeType) :=
    map_nodes_wiredGraph ds fun h => congrArg Node.nodeType h
  rw [← htypes, List.foldr_map]
  rfl

end WiredGraph

/-! ## Declarations in another order -/

section Perm

variable {ds ds' : List Declaration}

theorem Resolvable.perm (h : ds.Perm ds') (hds : Resolvable ds) : Resolvable ds' := by
  have hnames : (declaredNames ds).Perm (declaredNames ds') := h.map _
  refine ⟨hnames.nodup_iff.mp hds.names_nodup, fun d hd r hr => ?_⟩
  exact hnames.subset (hds.resolved d (h.mem_iff.mpr hd) r hr)

/-- A fault is a name declared twice exactly where the names are not distinct. -/
theorem WiringFault.kind {e : ScriptError} (h : WiringFault ds e) :
    ¬ (declaredNames ds).Nodup ∧ e.IsDuplicateName ∨
      (declaredNames ds).Nodup ∧ e.IsUnresolvedReference := by
  cases h with
  | @duplicate before after d first split distinct earlier same =>
    refine .inl ⟨fun hnodup => ?_, _, _, _, rfl⟩
    rw [split, declaredNames, List.map_append, List.map_cons, List.nodup_append'] at hnodup
    refine hnodup.2.2 (List.mem_map_of_mem earlier) ?_
    rw [same]
    exact List.mem_cons_self
  | unresolved distinct => exact .inr ⟨distinct, _, _, _, rfl⟩

theorem namedEdges_perm (h : ds.Perm ds') (hds : Resolvable ds) :
    (wiredGraph ds).namedEdges.Perm (wiredGraph ds').namedEdges := by
  rw [namedEdges_wiredGraph hds, namedEdges_wiredGraph (hds.perm h)]
  exact h.flatMap_right _

/-- The nodes of one declaration say the same wherever it stands. -/
theorem alike_of_getElem? (h : ds.Perm ds') (hds : Resolvable ds) {d : Declaration} {k k' : Nat}
    {node node' : Node} (hk : ds[k]? = some d) (hk' : ds'[k']? = some d)
    (hnode : (wiredGraph ds).nodes[k]? = some node)
    (hnode' : (wiredGraph ds').nodes[k']? = some node') :
    Node.Alike (wiredGraph ds) (wiredGraph ds') node node' := by
  have hds' := hds.perm h
  obtain ⟨n, hn, hbare⟩ := exists_getElem?_wiredGraph hk
  obtain rfl : n = node := Option.some.inj (hn.symm.trans hnode)
  obtain ⟨n', hn', hbare'⟩ := exists_getElem?_wiredGraph hk'
  obtain rfl : n' = node' := Option.some.inj (hn'.symm.trans hnode')
  -- All that a declaration says of its node but the number is the same at both places.
  have hfield : ∀ {α : Type} (f : Node → α), f (d.node k') = f (d.node k) →
      f n'.bare = f n.bare := fun f hf => by rw [hbare, hbare', hf]
  refine
    { nodeType_eq := hfield Node.nodeType rfl
      attributes_eq := hfield Node.attributes rfl
      description_eq := hfield Node.description rfl
      span_eq := hfield Node.span rfl
      parents_eq := ?_
      children_perm := ?_ }
  · rw [map_nameOf?_parents hds hk hnode, map_nameOf?_parents hds' hk' hnode']
  · -- The children stand in the order of the edges, which is another one.
    rw [map_nameOf?_children hds hk hnode, map_nameOf?_children hds' hk' hnode']
    exact ((namedEdges_perm h hds).filter _).map _

/-- The node of a name says the same in every order. -/
theorem findNode?_perm (h : ds.Perm ds') (hds : Resolvable ds) (name : String) :
    Option.Rel (Node.Alike (wiredGraph ds) (wiredGraph ds')) ((wiredGraph ds).findNode? name)
      ((wiredGraph ds').findNode? name) := by
  by_cases hname : name ∈ declaredNames ds
  · obtain ⟨d, hd, rfl⟩ := List.mem_map.mp hname
    obtain ⟨k, hk⟩ := List.getElem?_of_mem hd
    obtain ⟨k', hk'⟩ := List.getElem?_of_mem (h.mem_iff.mp hd)
    obtain ⟨node, hnode, -⟩ := exists_getElem?_wiredGraph hk
    obtain ⟨node', hnode', -⟩ := exists_getElem?_wiredGraph hk'
    rw [findNode?_of_declaration hds hk, findNode?_of_declaration (hds.perm h) hk', hnode, hnode']
    exact .some (alike_of_getElem? h hds hk hk' hnode hnode')
  · have hnone : ∀ {ds : List Declaration}, name ∉ declaredNames ds →
        (wiredGraph ds).findNode? name = none := by
      intro ds hname
      rw [← Option.map_eq_none_iff, map_id_findNode?_wiredGraph, idOf?_eq_none_iff.mpr hname]
    rw [hnone hname, hnone fun hname' => hname ((h.map _).mem_iff.mpr hname')]
    exact .none

theorem evidence_perm (h : ds.Perm ds') (hds : Resolvable ds) (warnings : List Warning) :
    evidence ⟨wiredGraph ds', warnings⟩ = evidence ⟨wiredGraph ds, warnings⟩ := by
  have hedges : (wiredGraph ds).edgeCount = (wiredGraph ds').edgeCount := by
    have hlength := (namedEdges_perm h hds).length_eq
    rwa [Graph.namedEdges, Graph.namedEdges, List.length_map, List.length_map] at hlength
  rw [evidence, evidence, nodeTypes_wiredGraph, nodeTypes_wiredGraph, size_wiredGraph,
    size_wiredGraph, h.length_eq, hedges, foldr_insertText_perm (h.map _)]

end Perm

/-- **The order of declarations does not change what they say.** In another order they have a fault
of the same kind, or they become a graph that says the same. -/
theorem graphOf_perm {ds ds' : List Declaration} (h : ds.Perm ds') :
    (∃ e e', graphOf ds = .error e ∧ graphOf ds' = .error e' ∧
      (e.IsDuplicateName ∧ e'.IsDuplicateName ∨
        e.IsUnresolvedReference ∧ e'.IsUnresolvedReference)) ∨
    ∃ g g', graphOf ds = .ok g ∧ graphOf ds' = .ok g' ∧ g.Alike g' := by
  by_cases hds : Resolvable ds
  · exact .inr ⟨_, _, graphOf_of_resolvable hds, graphOf_of_resolvable (hds.perm h),
      { nodes := findNode?_perm h hds
        edges := namedEdges_perm h hds
        evidence_eq := evidence_perm h hds }⟩
  · obtain ⟨e, he⟩ := exists_wiringFault hds
    obtain ⟨e', he'⟩ := exists_wiringFault fun hds' => hds (Resolvable.perm h.symm hds')
    refine .inl ⟨e, e', he.graphOf_eq, he'.graphOf_eq, ?_⟩
    -- Which of the two kinds it is, depends on the names alone.
    have hnames : (declaredNames ds).Nodup ↔ (declaredNames ds').Nodup := (h.map _).nodup_iff
    rcases he.kind with ⟨hnodup, hkind⟩ | ⟨hnodup, hkind⟩
    · rcases he'.kind with ⟨-, hkind'⟩ | ⟨hnodup', -⟩
      · exact .inl ⟨hkind, hkind'⟩
      · exact absurd (hnames.mpr hnodup') hnodup
    · rcases he'.kind with ⟨hnodup', -⟩ | ⟨-, hkind'⟩
      · exact absurd (hnames.mp hnodup) hnodup'
      · exact .inr ⟨hkind, hkind'⟩

/-- A join that is declared before what it reads from, and reads from itself. -/
def joinDeclarations : List Declaration :=
  [{ name := "J", nodeType := "join", inputs := ["S@hot", "K", "J", "S"], span := Span.lines 1 2 },
   { name := "K", nodeType := "sort", inputs := ["S"], span := Span.lines 3 3 },
   { name := "S", nodeType := "source", span := Span.lines 4 4 }]

theorem graphOf_perm_joinDeclarations :
    joinDeclarations.Perm joinDeclarations.reverse ∧
      ∃ g g', graphOf joinDeclarations = .ok g ∧ graphOf joinDeclarations.reverse = .ok g' ∧
        g.Alike g' := by
  have hperm : joinDeclarations.Perm joinDeclarations.reverse := (List.reverse_perm _).symm
  have hresolvable : Resolvable joinDeclarations := ⟨by decide, by decide +kernel⟩
  refine ⟨hperm, ?_⟩
  rcases graphOf_perm hperm with ⟨e, e', he, -⟩ | hok
  · rw [graphOf_of_resolvable hresolvable] at he
    cases he
  · exact hok

end Script

end FlowDoc
