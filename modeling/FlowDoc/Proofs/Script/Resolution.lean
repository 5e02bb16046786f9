import Mathlib.Data.Prod.Basic
import FlowDoc.Proofs.Graph.Drawing
import FlowDoc.Proofs.Traversal
import FlowDoc.Script.Wiring

/-!
# Resolving references

A list of declarations becomes a graph when no name is declared twice and every reference names a
declared node. The graph then has one node for each declaration, in order, and an edge for each
node that a declaration refers to, drawn at the first reference to it. Otherwise the first fault is
reported: a name declared twice before any reference, since all nodes are declared first.

## Main definitions

* `idOf?`: the number of the node that gets a name
* `Resolvable`: declarations that become a graph
* `WiringFault`: the fault that is reported for declarations that do not
* `inputIds`: the nodes that a declaration refers to, once for each reference
* `Declaration.firstInputs`: the first references of a declaration to each node

## Main results

* `graphOf_eq_ok_iff`, `graphOf_eq_error_iff`: the graph of declarations, or the fault in them
* `edges_wiredGraph`: the edges of the graph of declarations
* `graphOf_resolution`: every reference is resolved as by a search for its name, and the wiring is
  that of the references without their repetitions
-/

namespace FlowDoc.Script

/-! ## Names and numbers -/

/-- The names that declarations declare, in order. -/
def declaredNames (ds : List Declaration) : List String :=
  ds.map (·.name)

/-- The number of the node that gets a name: the place of the first declaration of that name. -/
def idOf? (ds : List Declaration) (name : String) : Option NodeId :=
  ds.findIdx? (·.name == name)

section IdOf

variable {ds : List Declaration} {name : String}

theorem idOf?_eq_none_iff : idOf? ds name = none ↔ name ∉ declaredNames ds := by
  simp [idOf?, declaredNames, List.findIdx?_eq_none_iff]

theorem exists_idOf? (h : name ∈ declaredNames ds) : ∃ id, idOf? ds name = some id := by
  rw [← Option.ne_none_iff_exists']
  exact fun hnone => idOf?_eq_none_iff.mp hnone h

theorem getElem?_of_idOf? {id : NodeId} (h : idOf? ds name = some id) :
    ∃ d, ds[id]? = some d ∧ d.name = name := by
  obtain ⟨hlt, hname, -⟩ := List.findIdx?_eq_some_iff_getElem.mp h
  exact ⟨ds[id], List.getElem?_eq_getElem hlt, by simpa using hname⟩

theorem idOf?_lt {id : NodeId} (h : idOf? ds name = some id) : id < ds.length := by
  obtain ⟨hlt, -⟩ := List.findIdx?_eq_some_iff_getElem.mp h
  exact hlt

theorem idOf?_inj {name' : String} {id : NodeId} (h : idOf? ds name = some id)
    (h' : idOf? ds name' = some id) : name = name' := by
  obtain ⟨d, hd, rfl⟩ := getElem?_of_idOf? h
  obtain ⟨d', hd', rfl⟩ := getElem?_of_idOf? h'
  rw [Option.some.inj (hd.symm.trans hd')]

theorem idOf?_concat (d : Declaration) (h : d.name ∉ declaredNames ds) :
    idOf? (ds ++ [d]) name = if d.name = name then some ds.length else idOf? ds name := by
  rw [idOf?, List.findIdx?_append]
  by_cases hd : d.name = name
  · have hnone : idOf? ds name = none := idOf?_eq_none_iff.mpr (hd ▸ h)
    rw [idOf?] at hnone
    simp [hnone, hd]
  · simp [hd, idOf?]

end IdOf

/-! ## Declaring all nodes -/

/-- The node of a declaration, before any edge is drawn. -/
def Declaration.node (d : Declaration) (id : NodeId) : Node :=
  { id, name := d.name, nodeType := d.nodeType, attributes := d.attributes, span := d.span }

/-- The graph of the nodes alone. -/
def bareGraph (ds : List Declaration) : Graph :=
  ds.foldl (fun g d => g.addNode d.name d.nodeType d.attributes d.span) {}

theorem bareGraph_concat (ds : List Declaration) (d : Declaration) :
    bareGraph (ds ++ [d]) = (bareGraph ds).addNode d.name d.nodeType d.attributes d.span := by
  rw [bareGraph, List.foldl_append]
  rfl

@[simp] theorem size_bareGraph (ds : List Declaration) : (bareGraph ds).size = ds.length := by
  induction ds using List.reverseRecOn with
  | nil => rfl
  | append_singleton ds d ih => simp [bareGraph_concat, ih]

theorem getElem?_bareGraph (ds : List Declaration) (i : Nat) :
    (bareGraph ds).nodes[i]? = (ds[i]?).map (·.node i) := by
  induction ds using List.reverseRecOn with
  | nil => simp [bareGraph]
  | append_singleton ds d ih =>
    rw [bareGraph_concat, Graph.getElem?_addNode, size_bareGraph, ih]
    split_ifs with hi
    · simp [hi, Declaration.node]
    · rcases Nat.lt_or_ge i ds.length with hlt | hge
      · rw [List.getElem?_append_left hlt]
      · have hout : (ds ++ [d]).length ≤ i := by simp; omega
        rw [List.getElem?_eq_none hge, List.getElem?_eq_none hout]

theorem consistent_bareGraph (ds : List Declaration) : (bareGraph ds).Consistent := by
  induction ds using List.reverseRecOn with
  | nil => exact Graph.Consistent.empty
  | append_singleton ds d ih =>
    rw [bareGraph_concat]
    exact ih.addNode _ _ _ _

@[simp] theorem pairs_bareGraph (ds : List Declaration) : (bareGraph ds).pairs = [] := by
  induction ds using List.reverseRecOn with
  | nil => rfl
  | append_singleton ds d ih => rwa [bareGraph_concat, Graph.pairs, Graph.edges_addNode]

namespace Wiring

/-- The index finds each name at the number of its node. -/
def Indexes (w : Wiring) (ds : List Declaration) : Prop :=
  ∀ name : String, w.index[name]? = idOf? ds name

/-- The state after the first pass over declarations. -/
structure Declared (w : Wiring) (ds : List Declaration) : Prop where
  graph_eq : w.graph = bareGraph ds
  indexes : w.Indexes ds

variable {w : Wiring} {ds : List Declaration} {d : Declaration}

theorem Declared.nil : Declared {} [] :=
  ⟨rfl, fun name => by simp [idOf?]⟩

theorem Declared.concat (h : w.Declared ds) (hd : d.name ∉ declaredNames ds) :
    ∃ w', w.declare d = .ok w' ∧ w'.Declared (ds ++ [d]) := by
  have hindex : w.index[d.name]? = none := by
    rw [h.indexes, idOf?_eq_none_iff]
    exact hd
  refine ⟨_, by rw [declare, hindex], ?_, fun name => ?_⟩
  · rw [h.graph_eq, bareGraph_concat]
  · rw [idOf?_concat d hd, ← h.indexes name, Std.HashMap.getElem?_insert, h.graph_eq]
    simp

/-- A name that is taken is reported with the span of the declaration that took it. -/
theorem Declared.declare_of_taken (h : w.Declared ds) (hds : (declaredNames ds).Nodup)
    {first : Declaration} (hfirst : first ∈ ds) (hname : first.name = d.name) :
    w.declare d = .error (.duplicateNodeName d.name d.span first.span) := by
  obtain ⟨id, hid⟩ := exists_idOf? (List.mem_map.mpr ⟨first, hfirst, hname⟩)
  obtain ⟨found, hfound, hsame⟩ := getElem?_of_idOf? hid
  obtain rfl : found = first :=
    List.inj_on_of_nodup_map hds (List.mem_of_getElem? hfound) hfirst (hsame.trans hname.symm)
  have hnode : w.graph.node? id = some (found.node id) := by
    rw [Graph.node?, h.graph_eq, getElem?_bareGraph, hfound]
    rfl
  have hindex : w.index[d.name]? = some id := (h.indexes d.name).trans hid
  rw [declare, hindex]
  simp [hnode, Declaration.node]

theorem foldlM_declare (h : (declaredNames ds).Nodup) :
    ∃ w : Wiring, ds.foldlM declare {} = .ok w ∧ w.Declared ds := by
  -- Induction on the declarations already read: the last one finds its name free.
  induction ds using List.reverseRecOn with
  | nil => exact ⟨{}, rfl, Declared.nil⟩
  | append_singleton ds d ih =>
    rw [declaredNames, List.map_append, List.nodup_append_comm] at h
    obtain ⟨hd, hds⟩ := List.nodup_cons.mp h
    obtain ⟨w, hw, hdone⟩ := ih hds
    obtain ⟨w', hw', hdone'⟩ := hdone.concat hd
    exact ⟨w', by rw [foldlM_append_of_ok hw, foldlM_cons_of_ok hw']; rfl, hdone'⟩

theorem foldlM_declare_of_duplicate {before after : List Declaration} {first : Declaration}
    (h : (declaredNames before).Nodup) (hfirst : first ∈ before) (hname : first.name = d.name) :
    (before ++ d :: after).foldlM declare {} =
      .error (.duplicateNodeName d.name d.span first.span) := by
  obtain ⟨w, hw, hdone⟩ := foldlM_declare h
  rw [foldlM_append_of_ok hw, foldlM_cons_of_error (hdone.declare_of_taken h hfirst hname)]

/-! ## Resolving the references -/

/-- The edges that references ask for at the node numbered `id`, repeated or not. -/
def inputEdges (ds : List Declaration) (id : NodeId) (references : List String) : List Edge :=
  references.filterMap fun r => (idOf? ds (canonicalName r)).map fun p => ⟨p, id, streamSelector r⟩

theorem target_of_mem_inputEdges {ds : List Declaration} {id : NodeId} {references : List String}
    {e : Edge} (h : e ∈ inputEdges ds id references) : e.target = id := by
  obtain ⟨r, -, h⟩ := List.mem_filterMap.mp h
  obtain ⟨p, -, rfl⟩ := Option.map_eq_some_iff.mp h
  rfl

theorem foldlM_wireInput {ds : List Declaration} {w : Wiring} (hw : w.Indexes ds) (id : NodeId)
    (d : Declaration) {references : List String}
    (h : ∀ r ∈ references, canonicalName r ∈ declaredNames ds) :
    references.foldlM (wireInput id d) w =
      .ok { w with graph := w.graph.connectAll (inputEdges ds id references) } := by
  induction references generalizing w with
  | nil => rfl
  | cons r references ih =>
    obtain ⟨hr, hrest⟩ := List.forall_mem_cons.mp h
    obtain ⟨p, hp⟩ := exists_idOf? hr
    have hindex : w.index[canonicalName r]? = some p := (hw _).trans hp
    have hstep : wireInput id d w r =
        .ok { w with graph := w.graph.connect p id (streamSelector r) } := by
      rw [wireInput, hindex]
    have hedges : inputEdges ds id (r :: references) =
        ⟨p, id, streamSelector r⟩ :: inputEdges ds id references := by
      simp [inputEdges, hp]
    rw [foldlM_cons_of_ok hstep, hedges]
    exact ih (w := { w with graph := w.graph.connect p id (streamSelector r) }) hw hrest

/-- The first reference to no node is reported as it is written. -/
theorem wire_of_unresolved {ds : List Declaration} {w : Wiring} (hw : w.Indexes ds) (id : NodeId)
    {d : Declaration} {seen rest : List String} {r : String}
    (hinputs : d.inputs = seen ++ r :: rest)
    (hseen : ∀ s ∈ seen, canonicalName s ∈ declaredNames ds)
    (hr : canonicalName r ∉ declaredNames ds) :
    w.wire (id, d) = .error (.unresolvedReference d.name r d.span) := by
  have hindex : w.index[canonicalName r]? = none := (hw _).trans (idOf?_eq_none_iff.mpr hr)
  rw [wire, hinputs, foldlM_append_of_ok (foldlM_wireInput hw id d hseen)]
  exact foldlM_cons_of_error (by rw [wireInput, hindex])

theorem foldlM_wire {ds : List Declaration} {w : Wiring} (hw : w.Indexes ds)
    {numbered : List (NodeId × Declaration)}
    (h : ∀ p ∈ numbered, ∀ r ∈ p.2.inputs, canonicalName r ∈ declaredNames ds) :
    numbered.foldlM wire w =
      .ok { w with
        graph := w.graph.connectAll (numbered.flatMap fun p => inputEdges ds p.1 p.2.inputs) } := by
  induction numbered generalizing w with
  | nil => rfl
  | cons p numbered ih =>
    obtain ⟨hp, hrest⟩ := List.forall_mem_cons.mp h
    have hstep : w.wire p =
        .ok { w with graph := w.graph.connectAll (inputEdges ds p.1 p.2.inputs) } :=
      foldlM_wireInput hw p.1 p.2 hp
    rw [foldlM_cons_of_ok hstep, List.flatMap_cons, Graph.connectAll_append]
    exact ih (w := { w with graph := w.graph.connectAll _ }) hw hrest

end Wiring

/-! ## The outcome -/

/-- No name is declared twice, and every reference names a declared node. -/
structure Resolvable (ds : List Declaration) : Prop where
  names_nodup : (declaredNames ds).Nodup
  resolved : ∀ d ∈ ds, ∀ r ∈ d.inputs, canonicalName r ∈ declaredNames ds

instance (ds : List Declaration) : Decidable (Resolvable ds) :=
  decidable_of_iff
    ((declaredNames ds).Nodup ∧ ∀ d ∈ ds, ∀ r ∈ d.inputs, canonicalName r ∈ declaredNames ds)
    ⟨fun h => ⟨h.1, h.2⟩, fun h => ⟨h.1, h.2⟩⟩

/-- The fault that is reported for declarations that are not resolvable. -/
inductive WiringFault (ds : List Declaration) : ScriptError → Prop where
  /-- The first declaration whose name an earlier one declares. -/
  | duplicate {before after : List Declaration} {d first : Declaration}
      (split : ds = before ++ d :: after) (distinct : (declaredNames before).Nodup)
      (earlier : first ∈ before) (same : first.name = d.name) :
      WiringFault ds (.duplicateNodeName d.name d.span first.span)
  /-- The first reference to no node, where all names are distinct. -/
  | unresolved {before after : List Declaration} {d : Declaration} {seen rest : List String}
      {r : String} (distinct : (declaredNames ds).Nodup) (split : ds = before ++ d :: after)
      (resolved : ∀ b ∈ before, ∀ s ∈ b.inputs, canonicalName s ∈ declaredNames ds)
      (inputs : d.inputs = seen ++ r :: rest)
      (known : ∀ s ∈ seen, canonicalName s ∈ declaredNames ds)
      (unknown : canonicalName r ∉ declaredNames ds) :
      WiringFault ds (.unresolvedReference d.name r d.span)

/-- All edges that the references of declarations ask for, repeated or not. -/
def requestedEdges (ds : List Declaration) : List Edge :=
  ds.zipIdx.flatMap fun p => Wiring.inputEdges ds p.2 p.1.inputs

section Outcome

variable {ds : List Declaration}

theorem graphOf_of_declared {w : Wiring} (hw : ds.foldlM Wiring.declare {} = .ok w) :
    graphOf ds = (ds.zipIdx.map fun (d, id) => (id, d)).foldlM Wiring.wire w >>=
      fun wired => .ok wired.graph := by
  rw [graphOf, hw]
  rfl

theorem graphOf_of_resolvable (h : Resolvable ds) :
    graphOf ds = .ok ((bareGraph ds).connectAll (requestedEdges ds)) := by
  obtain ⟨w, hw, hdone⟩ := Wiring.foldlM_declare h.names_nodup
  have hresolved : ∀ p ∈ ds.zipIdx.map (fun (d, id) => (id, d)), ∀ r ∈ p.2.inputs,
      canonicalName r ∈ declaredNames ds := by
    intro p hp
    obtain ⟨⟨d, id⟩, hd, rfl⟩ := List.mem_map.mp hp
    exact h.resolved d (List.fst_mem_of_mem_zipIdx hd)
  rw [graphOf_of_declared hw, Wiring.foldlM_wire hdone.indexes hresolved, hdone.graph_eq,
    requestedEdges, List.flatMap_map]
  rfl

theorem WiringFault.graphOf_eq {e : ScriptError} (h : WiringFault ds e) :
    graphOf ds = .error e := by
  cases h with
  | duplicate split distinct earlier same =>
    rw [graphOf, split, Wiring.foldlM_declare_of_duplicate distinct earlier same]
    rfl
  | @unresolved before after d seen rest r distinct split resolved inputs known unknown =>
    obtain ⟨w, hw, hdone⟩ := Wiring.foldlM_declare distinct
    have hnumbered : ds.zipIdx.map (fun (d, id) => (id, d)) =
        before.zipIdx.map (fun (d, id) => (id, d)) ++ (before.length, d) ::
          (after.zipIdx (before.length + 1)).map (fun (d, id) => (id, d)) := by
      rw [split, List.zipIdx_append, List.map_append, Nat.zero_add, List.zipIdx_cons, List.map_cons]
    have hresolved : ∀ p ∈ before.zipIdx.map (fun (d, id) => (id, d)), ∀ r ∈ p.2.inputs,
        canonicalName r ∈ declaredNames ds := by
      intro p hp
      obtain ⟨⟨d, id⟩, hd, rfl⟩ := List.mem_map.mp hp
      exact resolved d (List.fst_mem_of_mem_zipIdx hd)
    rw [graphOf_of_declared hw, hnumbered,
      foldlM_append_of_ok (Wiring.foldlM_wire hdone.indexes hresolved),
      foldlM_cons_of_error (Wiring.wire_of_unresolved _ before.length inputs known unknown)]
    · rfl
    · exact hdone.indexes

/-- A list with a repeated image has a first element whose image an earlier one has. -/
theorem exists_first_duplicate {α β : Type} {f : α → β} {l : List α} (h : ¬ (l.map f).Nodup) :
    ∃ before x after y, l = before ++ x :: after ∧ (before.map f).Nodup ∧ y ∈ before ∧
      f y = f x := by
  induction l using List.reverseRecOn with
  | nil => exact absurd List.nodup_nil h
  | append_singleton l x ih =>
    by_cases hl : (l.map f).Nodup
    · rw [List.map_append, List.nodup_append_comm] at h
      have hx : f x ∈ l.map f := by
        by_contra hx
        exact h (List.nodup_cons.mpr ⟨hx, hl⟩)
      obtain ⟨y, hy, hyx⟩ := List.mem_map.mp hx
      exact ⟨l, x, [], y, rfl, hl, hy, hyx⟩
    · obtain ⟨before, x', after, y, rfl, hbefore, hy, hyx⟩ := ih hl
      exact ⟨before, x', after ++ [x], y, by simp, hbefore, hy, hyx⟩

/-- A list in which a property fails somewhere has a first element where it fails. -/
theorem exists_first_failure {α : Type} {p : α → Prop} {l : List α} (h : ¬ ∀ x ∈ l, p x) :
    ∃ before x after, l = before ++ x :: after ∧ (∀ b ∈ before, p b) ∧ ¬ p x := by
  induction l with
  | nil => exact absurd (fun x hx => absurd hx List.not_mem_nil) h
  | cons x l ih =>
    by_cases hx : p x
    · obtain ⟨before, x', after, rfl, hbefore, hx'⟩ := ih fun hl =>
        h (List.forall_mem_cons.mpr ⟨hx, hl⟩)
      exact ⟨x :: before, x', after, rfl, List.forall_mem_cons.mpr ⟨hx, hbefore⟩, hx'⟩
    · exact ⟨[], x, l, rfl, by simp, hx⟩

theorem exists_wiringFault (h : ¬ Resolvable ds) : ∃ e, WiringFault ds e := by
  -- The first pass over the declarations fails before the second one starts.
  by_cases hnodup : (declaredNames ds).Nodup
  · have hsome : ¬ ∀ d ∈ ds, ∀ r ∈ d.inputs, canonicalName r ∈ declaredNames ds := fun hall =>
      h ⟨hnodup, hall⟩
    obtain ⟨before, d, after, hsplit, hbefore, hd⟩ := exists_first_failure hsome
    obtain ⟨seen, r, rest, hinputs, hseen, hr⟩ := exists_first_failure hd
    exact ⟨_, .unresolved hnodup hsplit hbefore hinputs hseen hr⟩
  · obtain ⟨before, d, after, first, hsplit, hbefore, hfirst, hname⟩ :=
      exists_first_duplicate hnodup
    exact ⟨_, .duplicate hsplit hbefore hfirst hname⟩

theorem graphOf_eq_ok_iff {g : Graph} :
    graphOf ds = .ok g ↔ Resolvable ds ∧ g = (bareGraph ds).connectAll (requestedEdges ds) := by
  constructor
  · intro h
    by_cases hds : Resolvable ds
    · rw [graphOf_of_resolvable hds] at h
      exact ⟨hds, (Except.ok.inj h).symm⟩
    · obtain ⟨e, he⟩ := exists_wiringFault hds
      rw [he.graphOf_eq] at h
      cases h
  · rintro ⟨hds, rfl⟩
    exact graphOf_of_resolvable hds

theorem graphOf_eq_error_iff {e : ScriptError} : graphOf ds = .error e ↔ WiringFault ds e := by
  refine ⟨fun h => ?_, WiringFault.graphOf_eq⟩
  by_cases hds : Resolvable ds
  · rw [graphOf_of_resolvable hds] at h
    cases h
  · obtain ⟨e', he'⟩ := exists_wiringFault hds
    obtain rfl : e' = e := Except.error.inj (he'.graphOf_eq.symm.trans h)
    exact he'

end Outcome

/-! ## The graph of resolvable declarations -/

/-- The references of a declaration that are its first ones to the node that they name. -/
def Declaration.firstInputs (d : Declaration) : List String :=
  d.inputs.eraseDupsBy fun r s => canonicalName r == canonicalName s

/-- The nodes that a declaration refers to, once for each reference that names one. -/
def inputIds (g : Graph) (d : Declaration) : List NodeId :=
  d.inputs.filterMap fun r => (g.findNode? (canonicalName r)).map (·.id)

/-- The graph of declarations, with an edge for each reference that names a node. -/
def wiredGraph (ds : List Declaration) : Graph :=
  (bareGraph ds).connectAll (requestedEdges ds)

section WiredGraph

variable (ds : List Declaration)

theorem consistent_wiredGraph : (wiredGraph ds).Consistent :=
  (consistent_bareGraph ds).connectAll _

@[simp] theorem size_wiredGraph : (wiredGraph ds).size = ds.length := by
  rw [wiredGraph, Graph.size_connectAll, size_bareGraph]

theorem getElem?_wiredGraph_bare (k : Nat) :
    ((wiredGraph ds).nodes[k]?).map Node.bare = (ds[k]?).map (·.node k) := by
  rw [wiredGraph, Graph.getElem?_connectAll_bare, getElem?_bareGraph, Option.map_map]
  rfl

/-- What nodes say apart from their numbers, parents and children, they say as their declarations
do. -/
theorem map_nodes_wiredGraph {α : Type} {f : Node → α} {f' : Declaration → α}
    (hf : ∀ {n : Node} {d : Declaration} {k : Nat}, n.bare = d.node k → f n = f' d) :
    (wiredGraph ds).nodes.toList.map f = ds.map f' := by
  apply List.ext_getElem?
  intro k
  have hbare := getElem?_wiredGraph_bare ds k
  rw [List.getElem?_map, List.getElem?_map, Array.getElem?_toList]
  generalize (wiredGraph ds).nodes[k]? = node, ds[k]? = d at hbare
  cases node with
  | none =>
    obtain rfl := Option.map_eq_none_iff.mp hbare.symm
    rfl
  | some n =>
    obtain ⟨d, rfl, hd⟩ := Option.map_eq_some_iff.mp hbare.symm
    exact congrArg some (hf hd.symm)

theorem names_wiredGraph : (wiredGraph ds).nodes.map (·.name) = (declaredNames ds).toArray := by
  rw [← Array.toList_inj, Array.toList_map]
  exact map_nodes_wiredGraph ds fun h => congrArg Node.name h

/-- The index of names finds what a search through the nodes finds. -/
theorem map_id_findNode?_wiredGraph (name : String) :
    ((wiredGraph ds).findNode? name).map (·.id) = idOf? ds name := by
  rw [(consistent_wiredGraph ds).map_id_findNode?, Graph.indexOf?, idOf?]
  have h : ((wiredGraph ds).nodes.map Node.name).findIdx? (· == name) =
      (wiredGraph ds).nodes.findIdx? ((· == name) ∘ Node.name) := Array.findIdx?_map
  rw [names_wiredGraph] at h
  simpa [declaredNames, Function.comp_def] using h.symm

theorem inputIds_wiredGraph (d : Declaration) :
    inputIds (wiredGraph ds) d = d.inputs.filterMap fun r => idOf? ds (canonicalName r) := by
  simp only [inputIds, map_id_findNode?_wiredGraph]

theorem requestedEdges_lt :
    ∀ e ∈ requestedEdges ds, e.source < (bareGraph ds).size ∧ e.target < (bareGraph ds).size := by
  intro e he
  obtain ⟨⟨d, k⟩, hd, he⟩ := List.mem_flatMap.mp he
  obtain ⟨r, -, he⟩ := List.mem_filterMap.mp he
  obtain ⟨id, hid, rfl⟩ := Option.map_eq_some_iff.mp he
  rw [size_bareGraph]
  exact ⟨idOf?_lt hid, List.snd_lt_of_mem_zipIdx hd⟩

/-- What the references of a declaration stand for, each node once, is what its first references to
the nodes stand for. -/
theorem eraseDupsBy_inputs {β : Type} {f : String → NodeId → β} {r : β → β → Bool}
    (hr : ∀ s t i j, r (f s i) (f t j) = (i == j)) (d : Declaration) :
    (d.inputs.filterMap fun s => (idOf? ds (canonicalName s)).map (f s)).eraseDupsBy r =
      d.firstInputs.filterMap fun s => (idOf? ds (canonicalName s)).map (f s) := by
  rw [Declaration.firstInputs, eraseDupsBy_filterMap]
  · intro s t x y hx hy
    obtain ⟨i, hi, rfl⟩ := Option.map_eq_some_iff.mp hx
    obtain ⟨j, hj, rfl⟩ := Option.map_eq_some_iff.mp hy
    rw [hr, Bool.eq_iff_iff, beq_iff_eq, beq_iff_eq]
    constructor
    · rintro rfl
      exact idOf?_inj hj hi
    · intro hname
      rw [hname, hi] at hj
      exact (Option.some.inj hj).symm
  · intro s t hs hname
    rw [Option.map_eq_none_iff] at hs ⊢
    rwa [eq_of_beq hname]

theorem eraseDups_inputIds (d : Declaration) :
    (inputIds (wiredGraph ds) d).eraseDups =
      d.firstInputs.filterMap fun r => idOf? ds (canonicalName r) := by
  have h := eraseDupsBy_inputs ds (f := fun _ id => id) (r := fun i j => i == j)
    (fun _ _ _ _ => rfl) d
  simp only [Option.map_id'] at h
  rw [inputIds_wiredGraph]
  exact h

/-- **The edges of a graph**: record by record the first reference to each node, with its stream. -/
theorem edges_wiredGraph :
    (wiredGraph ds).edges.toList =
      ds.zipIdx.flatMap fun p => Wiring.inputEdges ds p.2 p.1.firstInputs := by
  -- Edges of different records differ in the node that reads.
  have htags : ds.zipIdx.Pairwise fun a b => a.2 < b.2 := by
    rw [← List.pairwise_map (f := Prod.snd), List.zipIdx_map_snd]
    exact List.pairwise_lt_range'
  have hapart : ds.zipIdx.Pairwise fun a b =>
      ∀ x ∈ Wiring.inputEdges ds a.2 a.1.inputs, ∀ y ∈ Wiring.inputEdges ds b.2 b.1.inputs,
        (y.ends == x.ends) = false := by
    refine htags.imp fun {a b} hlt x hx y hy => ?_
    rw [beq_eq_false_iff_ne]
    intro hends
    have htarget := (Prod.mk.inj hends).2
    rw [Wiring.target_of_mem_inputEdges hx, Wiring.target_of_mem_inputEdges hy] at htarget
    exact Nat.ne_of_gt hlt htarget
  rw [wiredGraph, (consistent_bareGraph ds).edges_connectAll_of_bare (pairs_bareGraph ds)
    (requestedEdges_lt ds), requestedEdges, eraseDupsBy_flatMap hapart]
  refine congrArg (fun f => List.flatMap f ds.zipIdx) (funext fun p => ?_)
  exact eraseDupsBy_inputs ds (fun s t i j => by simp [Edge.ends]) p.1

/-- The pairs that edges join: record by record the nodes that it refers to, each once. -/
theorem pairs_wiredGraph :
    (wiredGraph ds).pairs =
      ds.zipIdx.flatMap fun p => (inputIds (wiredGraph ds) p.1).eraseDups.map (·, p.2) := by
  simp only [Graph.pairs, edges_wiredGraph, eraseDups_inputIds, Wiring.inputEdges, List.map_flatMap,
    List.map_filterMap, Option.map_map]
  rfl

end WiredGraph

/-! ## Reading the wiring back from the edges -/

section Tagged

variable {α β : Type} {ds : List α}

/-- Of lists whose elements are tagged with the place of their list, the elements with one tag are
the list at that place. -/
theorem filter_tag_eq {f : α → Nat → List β} {tag : β → Nat}
    (htag : ∀ a k, ∀ x ∈ f a k, tag x = k) {k : Nat} {d : α} (h : ds[k]? = some d) :
    (ds.zipIdx.flatMap fun p => f p.1 p.2).filter (tag · == k) = f d k := by
  obtain ⟨hlt, rfl⟩ := List.getElem?_eq_some_iff.mp h
  -- Only the list at place `k` is tagged with `k`: the others lie before it or after it.
  have hsplit : ds = ds.take k ++ ds[k] :: ds.drop (k + 1) := by
    rw [← List.drop_eq_getElem_cons hlt, List.take_append_drop]
  have hlength : (ds.take k).length = k := List.length_take_of_le (Nat.le_of_lt hlt)
  have hoff : ∀ {l : List (α × Nat)}, (∀ p ∈ l, p.2 ≠ k) →
      (l.flatMap fun p => f p.1 p.2).filter (tag · == k) = [] := by
    intro l hl
    rw [List.filter_eq_nil_iff]
    intro x hx
    obtain ⟨p, hp, hx⟩ := List.mem_flatMap.mp hx
    simpa [htag _ _ x hx] using hl p hp
  have hon : (f ds[k] k).filter (tag · == k) = f ds[k] k := by
    rw [List.filter_eq_self]
    intro x hx
    simpa using htag _ _ x hx
  conv_lhs => rw [hsplit]
  rw [List.zipIdx_append, List.zipIdx_cons, List.flatMap_append, List.flatMap_cons, hlength,
    List.filter_append, List.filter_append, Nat.zero_add, hon, hoff, hoff, List.nil_append,
    List.append_nil]
  · intro p hp
    have hge := List.le_snd_of_mem_zipIdx hp
    omega
  · intro p hp
    have hlt' := List.snd_lt_of_mem_zipIdx hp
    omega

/-- The tags of the lists that hold an element, where no list repeats one. -/
theorem filter_tagged_eq [BEq β] [LawfulBEq β] {f : α → List β} {l : List (α × Nat)} (b : β)
    (hf : ∀ a, (f a).Nodup) :
    ((l.flatMap fun p => (f p.1).map (·, p.2)).filter (·.1 == b)).map (·.2) =
      (l.filter fun p => (f p.1).contains b).map (·.2) := by
  induction l with
  | nil => rfl
  | cons p l ih =>
    -- A list without repetitions holds the element once or not at all.
    have hblock : (((f p.1).map (·, p.2)).filter (·.1 == b)).map (·.2) =
        if b ∈ f p.1 then [p.2] else [] := by
      rw [List.filter_map, List.map_map]
      show ((f p.1).filter (· == b)).map (fun _ => p.2) = _
      rw [List.filter_beq, List.map_replicate]
      split_ifs with hb
      · rw [List.count_eq_one_of_mem (hf p.1) hb, List.replicate_one]
      · rw [List.count_eq_zero_of_not_mem hb, List.replicate_zero]
    rw [List.flatMap_cons, List.filter_append, List.map_append, ih, hblock, List.filter_cons]
    by_cases hb : b ∈ f p.1 <;> simp [hb]

end Tagged

section WiredGraph

variable {ds : List Declaration} {k : Nat}

theorem exists_getElem?_wiredGraph {d : Declaration} (h : ds[k]? = some d) :
    ∃ node, (wiredGraph ds).nodes[k]? = some node ∧ node.bare = d.node k := by
  have hbare := getElem?_wiredGraph_bare ds k
  rw [h, Option.map_some] at hbare
  exact Option.map_eq_some_iff.mp hbare

/-- The edges to a node are those of its declaration. -/
theorem edgesTo_wiredGraph {d : Declaration} (h : ds[k]? = some d) :
    (wiredGraph ds).edges.toList.filter (·.target == k) =
      Wiring.inputEdges ds k d.firstInputs := by
  rw [edges_wiredGraph]
  exact filter_tag_eq (f := fun d k => Wiring.inputEdges ds k d.firstInputs)
    (fun _ _ _ => Wiring.target_of_mem_inputEdges) h

/-- The parents of a node are the nodes that its declaration refers to, in the order of the first
references to them. -/
theorem parents_wiredGraph {d : Declaration} {node : Node} (h : ds[k]? = some d)
    (hnode : (wiredGraph ds).nodes[k]? = some node) :
    node.parents.toList = (inputIds (wiredGraph ds) d).eraseDups := by
  rw [(consistent_wiredGraph ds).parents_eq hnode, Graph.sourcesTo, edgesTo_wiredGraph h,
    eraseDups_inputIds, Wiring.inputEdges, List.map_filterMap]
  simp only [Option.map_map, Function.comp_def, Option.map_id']

/-- The numbers and parents of all nodes, from the declarations. -/
theorem map_parents_wiredGraph :
    (wiredGraph ds).nodes.toList.map (fun n => (n.parents.toList, n.id)) =
      ds.zipIdx.map fun p => ((inputIds (wiredGraph ds) p.1).eraseDups, p.2) := by
  apply List.ext_getElem?
  intro k
  rw [List.getElem?_map, List.getElem?_map, List.getElem?_zipIdx, Array.getElem?_toList]
  cases h : ds[k]? with
  | none =>
    have hsize : (wiredGraph ds).nodes.size ≤ k :=
      Nat.le_trans (Nat.le_of_eq (size_wiredGraph ds)) (List.getElem?_eq_none_iff.mp h)
    rw [Array.getElem?_eq_none hsize]
    rfl
  | some d =>
    obtain ⟨node, hnode, hbare⟩ := exists_getElem?_wiredGraph h
    have hid : node.id = k := (consistent_wiredGraph ds).id_eq hnode
    rw [hnode]
    simp [parents_wiredGraph h hnode, hid]

/-- The children of a node are the nodes that list it as a parent, in order. -/
theorem children_wiredGraph {node : Node} (hnode : (wiredGraph ds).nodes[k]? = some node) :
    node.children.toList =
      ((wiredGraph ds).nodes.toList.filter fun n => n.parents.contains k).map (·.id) := by
  have hfilter : ((wiredGraph ds).nodes.toList.filter fun n => n.parents.contains k).map (·.id) =
      (((wiredGraph ds).nodes.toList.map fun n => (n.parents.toList, n.id)).filter
        fun p => p.1.contains k).map (·.2) := by
    rw [List.filter_map, List.map_map]
    simp [Function.comp_def]
  rw [hfilter, map_parents_wiredGraph, List.filter_map, List.map_map,
    (consistent_wiredGraph ds).children_eq hnode, ← Graph.map_snd_filter_pairs, pairs_wiredGraph,
    filter_tagged_eq (f := fun d => (inputIds (wiredGraph ds) d).eraseDups) k
      fun d => nodup_eraseDups _]
  rfl

/-- Where all references are resolved, each of them finds a node. -/
theorem map_findNode?_wiredGraph (h : Resolvable ds) {d : Declaration} (hd : d ∈ ds) :
    d.inputs.map (fun r => ((wiredGraph ds).findNode? (canonicalName r)).map (·.id)) =
      (inputIds (wiredGraph ds) d).map some := by
  have hresolved := h.resolved d hd
  simp only [inputIds, map_id_findNode?_wiredGraph]
  generalize d.inputs = references at hresolved ⊢
  induction references with
  | nil => rfl
  | cons r rest ih =>
    obtain ⟨hr, hrest⟩ := List.forall_mem_cons.mp hresolved
    obtain ⟨id, hid⟩ := exists_idOf? hr
    rw [List.map_cons, ih hrest, List.filterMap_cons, hid, List.map_cons]

end WiredGraph

/-- **References are resolved as by a search for their names.** Declarations become a graph exactly
when their names are distinct and every reference names one of them. Then the parents of a node are
the nodes that a search finds for its references, in the order of the first reference to each, the
edges are these pairs record by record, and the children of a node are the nodes that list it as a
parent. -/
theorem graphOf_resolution (ds : List Declaration) :
    ((∃ g, graphOf ds = .ok g) ↔ (declaredNames ds).Nodup ∧
      ∀ d ∈ ds, ∀ r ∈ d.inputs, canonicalName r ∈ declaredNames ds) ∧
    ∀ g, graphOf ds = .ok g →
      g.size = ds.length ∧
      (∀ k d, ds[k]? = some d → ∃ node, g.nodes[k]? = some node ∧
        node.id = k ∧ node.name = d.name ∧ node.nodeType = d.nodeType ∧
        node.attributes = d.attributes ∧ node.description = none ∧ node.span = d.span ∧
        node.parents.toList = (inputIds g d).eraseDups ∧
        node.children.toList =
          (g.nodes.toList.filter fun n => n.parents.contains k).map (·.id)) ∧
      (∀ d ∈ ds, d.inputs.map (fun r => (g.findNode? (canonicalName r)).map (·.id)) =
        (inputIds g d).map some) ∧
      g.pairs = ds.zipIdx.flatMap (fun p => (inputIds g p.1).eraseDups.map (·, p.2)) ∧
      ∃ w : Wiring, ds.foldlM Wiring.declare {} = .ok w ∧
        ∀ name : String, w.index[name]? = (g.findNode? name).map (·.id) := by
  refine ⟨⟨fun ⟨g, hg⟩ => ?_, fun ⟨hnodup, hresolved⟩ => ?_⟩, fun g hg => ?_⟩
  · obtain ⟨hds, -⟩ := graphOf_eq_ok_iff.mp hg
    exact ⟨hds.names_nodup, hds.resolved⟩
  · exact ⟨_, graphOf_of_resolvable ⟨hnodup, hresolved⟩⟩
  · obtain ⟨hds, rfl⟩ := graphOf_eq_ok_iff.mp hg
    refine ⟨size_wiredGraph ds, fun k d hd => ?_, fun d hd => map_findNode?_wiredGraph hds hd,
      pairs_wiredGraph ds, ?_⟩
    · obtain ⟨node, hnode, hbare⟩ := exists_getElem?_wiredGraph hd
      have hfield : ∀ {α : Type} (f : Node → α), f node.bare = f (d.node k) := fun f =>
        congrArg f hbare
      exact ⟨node, hnode, hfield Node.id, hfield Node.name, hfield Node.nodeType,
        hfield Node.attributes, hfield Node.description, hfield Node.span,
        parents_wiredGraph hd hnode, children_wiredGraph hnode⟩
    · obtain ⟨w, hw, hdone⟩ := Wiring.foldlM_declare hds.names_nodup
      refine ⟨w, hw, fun name => ?_⟩
      exact (hdone.indexes name).trans (map_id_findNode?_wiredGraph ds name).symm

end FlowDoc.Script
