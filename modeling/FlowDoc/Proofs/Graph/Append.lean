import FlowDoc.Proofs.Graph.Drawing

/-!
# Graphs one below the other

Two graphs become one when the nodes of the second are numbered after those of the first and its
spans lie further down in the script. No edge joins the two, so the result is consistent when both
graphs are.

## Main definitions

* `Span.below`: a span further down in a script
* `Node.moved`, `Edge.moved`: a node and an edge with other numbers
* `Graph.append`: two graphs one below the other

## Main results

* `Consistent.append`: two consistent graphs make a consistent graph
* `Consistent.ext`: the wiring of consistent graphs is told by their edges
-/

namespace FlowDoc

/-- A span some lines further down. -/
def Span.below (lines : Nat) (s : Span) : Span :=
  ⟨{ s.start with line := s.start.line + lines }, { s.stop with line := s.stop.line + lines }⟩

theorem Span.below_lines (lines first last : Nat) :
    (Span.lines first last).below lines = Span.lines (first + lines) (last + lines) := by
  simp [Span.below, Span.lines, Nat.add_max_add_right]

/-- A node whose number and connections are raised by `ids`, some lines further down. -/
def Node.moved (ids lines : Nat) (n : Node) : Node :=
  { n with
    id := n.id + ids
    parents := n.parents.map (· + ids)
    children := n.children.map (· + ids)
    span := n.span.below lines }

theorem Node.bare_moved (ids lines : Nat) (n : Node) :
    (n.moved ids lines).bare = n.bare.moved ids lines := by
  simp [Node.bare, Node.moved]

/-- An edge between nodes whose numbers are raised. -/
def Edge.moved (ids : Nat) (e : Edge) : Edge :=
  { e with source := e.source + ids, target := e.target + ids }

namespace Graph

/-- The nodes and edges of `g`, then those of `h`, numbered after them and `lines` further down. -/
def append (g h : Graph) (lines : Nat) : Graph :=
  { nodes := g.nodes ++ h.nodes.map (Node.moved g.size lines)
    edges := g.edges ++ h.edges.map (Edge.moved g.size) }

section Append

variable {g h : Graph} (lines : Nat)

@[simp] theorem size_append : (g.append h lines).size = g.size + h.size := by
  simp [append, size]

theorem edges_append :
    (g.append h lines).edges.toList = g.edges.toList ++ h.edges.toList.map (Edge.moved g.size) := by
  simp [append]

theorem getElem?_append_left {i : Nat} (hi : i < g.size) :
    (g.append h lines).nodes[i]? = g.nodes[i]? :=
  Array.getElem?_append_left hi

theorem getElem?_append_right (i : Nat) :
    (g.append h lines).nodes[g.size + i]? = (h.nodes[i]?).map (Node.moved g.size lines) := by
  show (g.nodes ++ h.nodes.map (Node.moved g.size lines))[g.nodes.size + i]? = _
  rw [Array.getElem?_append_right (Nat.le_add_right _ _), Array.getElem?_map,
    Nat.add_sub_cancel_left]

/-- A node of one of the two graphs. -/
theorem getElem?_append_cases {i : Nat} {node : Node}
    (hnode : (g.append h lines).nodes[i]? = some node) :
    (i < g.size ∧ g.nodes[i]? = some node) ∨
      ∃ j old, i = g.size + j ∧ h.nodes[j]? = some old ∧ node = old.moved g.size lines := by
  rcases Nat.lt_or_ge i g.size with hi | hi
  · exact .inl ⟨hi, (getElem?_append_left lines hi).symm.trans hnode⟩
  · obtain ⟨j, rfl⟩ := Nat.exists_eq_add_of_le hi
    rw [getElem?_append_right] at hnode
    obtain ⟨old, hold, rfl⟩ := Option.map_eq_some_iff.mp hnode
    exact .inr ⟨j, old, rfl, hold, rfl⟩

end Append

section MovedEdges

variable {near far : Edge → NodeId} {n : Nat} {es es' : List Edge} {i : Nat}

/-- The far ends of the edges at a node of the first graph. -/
theorem map_filter_moved_left (hnear : ∀ e, near (e.moved n) = near e + n) (hi : i < n) :
    ((es ++ es'.map (Edge.moved n)).filter (near · == i)).map far =
      (es.filter (near · == i)).map far := by
  have hnone : (es'.map (Edge.moved n)).filter (near · == i) = [] := by
    rw [List.filter_eq_nil_iff]
    intro e he
    obtain ⟨e, -, rfl⟩ := List.mem_map.mp he
    rw [hnear, beq_iff_eq]
    exact Nat.ne_of_gt (Nat.lt_add_left _ hi)
  rw [List.filter_append, hnone, List.append_nil]

/-- The far ends of the edges at a node of the second graph. -/
theorem map_filter_moved_right (hnear : ∀ e, near (e.moved n) = near e + n)
    (hfar : ∀ e, far (e.moved n) = far e + n) (hes : ∀ e ∈ es, near e < n) :
    ((es ++ es'.map (Edge.moved n)).filter (near · == n + i)).map far =
      ((es'.filter (near · == i)).map far).map (· + n) := by
  have hnone : es.filter (near · == n + i) = [] := by
    rw [List.filter_eq_nil_iff]
    intro e he
    rw [beq_iff_eq]
    exact Nat.ne_of_lt (Nat.lt_add_right _ (hes e he))
  have hsame : (fun e => near (Edge.moved n e) == n + i) = (near · == i) := by
    funext e
    rw [hnear, Nat.add_comm, Bool.eq_iff_iff, beq_iff_eq, beq_iff_eq, Nat.add_left_cancel_iff]
  rw [List.filter_append, hnone, List.nil_append, List.filter_map, List.map_map, List.map_map]
  simp only [Function.comp_def, hsame, hfar]

end MovedEdges

namespace Consistent

variable {g h : Graph}

/-- **Two consistent graphs one below the other are consistent.** -/
theorem append (hg : g.Consistent) (hh : h.Consistent) (lines : Nat) :
    (g.append h lines).Consistent := by
  have hpairs : (g.append h lines).pairs =
      g.pairs ++ h.pairs.map fun p => (p.1 + g.size, p.2 + g.size) := by
    simp only [pairs, edges_append, List.map_append, List.map_map]
    rfl
  refine ⟨fun {i node} hnode => ?_, ?_, ?_, ?_, fun {i node} hnode => ?_,
    fun {i node} hnode => ?_⟩
  · rcases getElem?_append_cases lines hnode with ⟨-, hold⟩ | ⟨j, old, rfl, hold, rfl⟩
    · exact hg.id_eq hold
    · show old.id + g.size = g.size + j
      rw [hh.id_eq hold, Nat.add_comm]
  · rw [edges_append, size_append]
    intro e he
    rcases List.mem_append.mp he with he | he
    · exact Nat.lt_add_right _ (hg.source_lt e he)
    · obtain ⟨e', he', rfl⟩ := List.mem_map.mp he
      show e'.source + g.size < g.size + h.size
      rw [Nat.add_comm]
      exact Nat.add_lt_add_left (hh.source_lt e' he') _
  · rw [edges_append, size_append]
    intro e he
    rcases List.mem_append.mp he with he | he
    · exact Nat.lt_add_right _ (hg.target_lt e he)
    · obtain ⟨e', he', rfl⟩ := List.mem_map.mp he
      show e'.target + g.size < g.size + h.size
      rw [Nat.add_comm]
      exact Nat.add_lt_add_left (hh.target_lt e' he') _
  · -- The pairs of the second graph are apart from those of the first.
    rw [hpairs, List.nodup_append']
    refine ⟨hg.pairs_nodup, hh.pairs_nodup.map ?_, ?_⟩
    · rintro ⟨p, c⟩ ⟨p', c'⟩ heq
      simpa using heq
    · intro x hx hx'
      obtain ⟨e, he, rfl⟩ := List.mem_map.mp hx
      obtain ⟨p, -, hp⟩ := List.mem_map.mp hx'
      have heq : p.1 + g.size = e.source := congrArg Prod.fst hp
      exact Nat.not_le_of_lt (hg.source_lt e he) (heq ▸ Nat.le_add_left _ _)
  · rcases getElem?_append_cases lines hnode with ⟨hi, hold⟩ | ⟨j, old, rfl, hold, rfl⟩
    · rw [hg.parents_eq hold, sourcesTo, sourcesTo, edges_append,
        map_filter_moved_left (fun _ => rfl) hi]
    · rw [sourcesTo, edges_append,
        map_filter_moved_right (fun _ => rfl) (fun _ => rfl) hg.target_lt, ← sourcesTo,
        ← hh.parents_eq hold]
      exact Array.toList_map
  · rcases getElem?_append_cases lines hnode with ⟨hi, hold⟩ | ⟨j, old, rfl, hold, rfl⟩
    · rw [hg.children_eq hold, targetsFrom, targetsFrom, edges_append,
        map_filter_moved_left (fun _ => rfl) hi]
    · rw [targetsFrom, edges_append,
        map_filter_moved_right (fun _ => rfl) (fun _ => rfl) hg.source_lt, ← targetsFrom,
        ← hh.children_eq hold]
      exact Array.toList_map

/-- Consistent graphs with the same edges are equal when their nodes are, apart from their parents
and children. -/
theorem ext (hg : g.Consistent) (hh : h.Consistent) (hedges : g.edges = h.edges)
    (hbare : ∀ i : Nat, (g.nodes[i]?).map Node.bare = (h.nodes[i]?).map Node.bare) : g = h := by
  have hnodes : g.nodes = h.nodes := by
    apply Array.ext_getElem?
    intro i
    have hi := hbare i
    cases hn : g.nodes[i]? with
    | none =>
      rw [hn, Option.map_none, eq_comm, Option.map_eq_none_iff] at hi
      rw [hi]
    | some n =>
      rw [hn, Option.map_some, eq_comm, Option.map_eq_some_iff] at hi
      obtain ⟨m, hm, hmn⟩ := hi
      rw [hm]
      have hparents : n.parents = m.parents := by
        rw [← Array.toList_inj, hg.parents_eq hn, hh.parents_eq hm, sourcesTo, sourcesTo, hedges]
      have hchildren : n.children = m.children := by
        rw [← Array.toList_inj, hg.children_eq hn, hh.children_eq hm, targetsFrom, targetsFrom,
          hedges]
      have hn' : n = { n.bare with parents := n.parents, children := n.children } := rfl
      rw [hn', hparents, hchildren, ← hmn]
      rfl
  cases g
  cases h
  cases hedges
  cases hnodes
  rfl

end Consistent

end Graph

end FlowDoc
