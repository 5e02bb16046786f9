import FlowDoc.Proofs.Graph.Consistency

/-!
# Drawing many edges

Edges are drawn one after the other, and an edge between nodes that are joined already is passed
over. What remains of a list of edges is the first of each pair of ends, in the order of the list.

## Main definitions

* `Graph.connectAll`: the graph after drawing a list of edges
* `Node.bare`: a node without its parents and children

## Main results

* `Consistent.edges_connectAll`: the edges that are drawn
* `getElem?_connectAll_bare`: no node changes apart from its parents and children
-/

namespace FlowDoc

/-! ## Lists without repetitions -/

section EraseDups

variable {α β : Type}

theorem mem_of_mem_eraseDupsBy {r : α → α → Bool} {l : List α} {x : α}
    (h : x ∈ l.eraseDupsBy r) : x ∈ l := by
  match l with
  | [] => exact h
  | a :: l =>
    rw [List.eraseDupsBy_cons, List.mem_cons] at h
    rcases h with rfl | h
    · exact List.mem_cons_self
    · exact List.mem_cons_of_mem _ (List.mem_of_mem_filter (mem_of_mem_eraseDupsBy h))
termination_by l.length
decreasing_by exact Nat.lt_succ_of_le (List.length_filter_le _ _)

/-- Where no element of the second list repeats one of the first, each loses its own
repetitions. -/
theorem eraseDupsBy_append {r : α → α → Bool} {xs ys : List α}
    (h : ∀ x ∈ xs, ∀ y ∈ ys, r y x = false) :
    (xs ++ ys).eraseDupsBy r = xs.eraseDupsBy r ++ ys.eraseDupsBy r := by
  match xs with
  | [] => rfl
  | x :: xs =>
    obtain ⟨hx, hxs⟩ := List.forall_mem_cons.mp h
    have hys : ys.filter (fun y => decide (r y x = false)) = ys := by
      rw [List.filter_eq_self]
      exact fun y hy => decide_eq_true (hx y hy)
    rw [List.cons_append, List.eraseDupsBy_cons, List.eraseDupsBy_cons, List.filter_append, hys,
      eraseDupsBy_append fun a ha => hxs a (List.mem_of_mem_filter ha), List.cons_append]
termination_by xs.length
decreasing_by exact Nat.lt_succ_of_le (List.length_filter_le _ _)

/-- Lists of which none repeats an element of another lose their repetitions one by one. -/
theorem eraseDupsBy_flatMap {r : β → β → Bool} {l : List α} {f : α → List β}
    (h : l.Pairwise fun a b => ∀ x ∈ f a, ∀ y ∈ f b, r y x = false) :
    (l.flatMap f).eraseDupsBy r = l.flatMap fun a => (f a).eraseDupsBy r := by
  induction l with
  | nil => rfl
  | cons a l ih =>
    obtain ⟨ha, hl⟩ := List.pairwise_cons.mp h
    rw [List.flatMap_cons, List.flatMap_cons, eraseDupsBy_append, ih hl]
    intro x hx y hy
    obtain ⟨b, hb, hy⟩ := List.mem_flatMap.mp hy
    exact ha b hb x hx y hy

/-- Where images repeat each other as the elements do, the images lose their repetitions as the
elements do. -/
theorem eraseDupsBy_filterMap {r : α → α → Bool} {r' : β → β → Bool} {f : α → Option β}
    (hsome : ∀ a b x y, f a = some x → f b = some y → r' y x = r b a)
    (hnone : ∀ a b, f a = none → r b a = true → f b = none) (l : List α) :
    (l.filterMap f).eraseDupsBy r' = (l.eraseDupsBy r).filterMap f := by
  match l with
  | [] => rfl
  | a :: l =>
    rw [List.eraseDupsBy_cons, List.filterMap_cons, List.filterMap_cons]
    have ih := eraseDupsBy_filterMap hsome hnone (l.filter fun b => decide (r b a = false))
    cases ha : f a with
    | none =>
      -- What repeats an element without image has no image either.
      rw [← ih, List.filterMap_filter]
      congr 1
      refine List.filterMap_congr fun b _ => ?_
      cases hb : r b a with
      | false => rfl
      | true => exact hnone a b ha hb
    | some x =>
      rw [List.eraseDupsBy_cons, ← ih, List.filter_filterMap, List.filterMap_filter]
      congr 2
      refine List.filterMap_congr fun b _ => ?_
      cases hb : f b with
      | none => simp
      | some y =>
        rw [Option.filter_some, hsome a b x y ha hb]
termination_by l.length
decreasing_by exact Nat.lt_succ_of_le (List.length_filter_le _ _)

variable [BEq β] [LawfulBEq β]

/-- The element that is kept of those with one image is the first of them. -/
theorem filter_eraseDupsBy (f : α → β) (b : β) (l : List α) :
    (l.eraseDupsBy fun x y => f x == f y).filter (f · == b) = (l.find? (f · == b)).toList := by
  match l with
  | [] => rfl
  | a :: l =>
    -- What is left after the first element with this image holds none with it.
    have hrest : (l.filter fun x => decide ((f x == f a) = false)).find? (f · == b) =
        if f a == b then none else l.find? (f · == b) := by
      split
      case isTrue ha =>
        rw [List.find?_eq_none]
        intro x hx
        rw [← eq_of_beq ha]
        simpa using (List.mem_filter.mp hx).2
      case isFalse ha =>
        rw [List.find?_filter]
        congr 1
        funext x
        rw [Bool.eq_iff_iff, decide_eq_true_iff, decide_eq_true_iff]
        refine ⟨And.right, fun hx => ⟨?_, hx⟩⟩
        rw [beq_eq_false_iff_ne]
        intro hxa
        exact ha (hxa ▸ hx)
    rw [List.eraseDupsBy_cons, List.filter_cons, filter_eraseDupsBy f b, hrest, List.find?_cons]
    cases f a == b <;> rfl
termination_by l.length
decreasing_by exact Nat.lt_succ_of_le (List.length_filter_le _ _)

theorem nodup_eraseDups (l : List β) : l.eraseDups.Nodup := by
  match l with
  | [] => exact List.nodup_nil
  | b :: l =>
    rw [List.eraseDups_cons, List.nodup_cons]
    exact ⟨by simp, nodup_eraseDups _⟩
termination_by l.length
decreasing_by exact Nat.lt_succ_of_le (List.length_filter_le _ _)

end EraseDups

/-- A node without its parents and children. -/
def Node.bare (n : Node) : Node :=
  { n with parents := #[], children := #[] }

namespace Graph

/-- The graph after drawing edges, in order. -/
def connectAll (g : Graph) (es : List Edge) : Graph :=
  es.foldl (fun g e => g.connect e.source e.target e.stream) g

variable {g : Graph}

@[simp] theorem connectAll_nil : g.connectAll [] = g := rfl

theorem connectAll_cons (e : Edge) (es : List Edge) :
    g.connectAll (e :: es) = (g.connect e.source e.target e.stream).connectAll es := rfl

theorem connectAll_append (es es' : List Edge) :
    g.connectAll (es ++ es') = (g.connectAll es).connectAll es' :=
  List.foldl_append

@[simp] theorem size_connectAll (es : List Edge) : (g.connectAll es).size = g.size := by
  induction es generalizing g with
  | nil => rfl
  | cons e es ih => rw [connectAll_cons, ih, size_connect]

theorem getElem?_connect_bare (p c : NodeId) (stream : Option String) (i : Nat) :
    ((g.connect p c stream).nodes[i]?).map Node.bare = (g.nodes[i]?).map Node.bare := by
  cases h : g.connectable p c with
  | false => rw [connect_of_not_connectable g stream h]
  | true =>
    rw [getElem?_connect stream h, Option.map_map]
    rfl

/-- Drawing edges changes nothing of a node but its parents and children. -/
theorem getElem?_connectAll_bare (es : List Edge) (i : Nat) :
    ((g.connectAll es).nodes[i]?).map Node.bare = (g.nodes[i]?).map Node.bare := by
  induction es generalizing g with
  | nil => rfl
  | cons e es ih => rw [connectAll_cons, ih, getElem?_connect_bare]

namespace Consistent

theorem connectAll (hg : g.Consistent) (es : List Edge) : (g.connectAll es).Consistent := by
  induction es generalizing g with
  | nil => exact hg
  | cons e es ih => exact ih (hg.connect e.source e.target e.stream)

/-- **The edges that are drawn**: of those that no edge joined before, the first of each pair of
ends. -/
theorem edges_connectAll (hg : g.Consistent) {es : List Edge}
    (h : ∀ e ∈ es, e.source < g.size ∧ e.target < g.size) :
    (g.connectAll es).edges.toList = g.edges.toList ++
      (es.filter fun e => e.ends ∉ g.pairs).eraseDupsBy fun a b => a.ends == b.ends := by
  induction es generalizing g with
  | nil => simp
  | cons e es ih =>
    obtain ⟨he, hes⟩ := List.forall_mem_cons.mp h
    rw [connectAll_cons, ih (hg.connect _ _ _) (by simpa using hes)]
    by_cases hmem : e.ends ∈ g.pairs
    · -- Its ends are joined: nothing is drawn, and the filter drops it.
      have hoff : g.connectable e.source e.target = false := by
        rw [← Bool.not_eq_true, hg.connectable_iff]
        exact fun hon => hon.2.2 hmem
      rw [connect_of_not_connectable g _ hoff]
      simp [hmem]
    · -- It is drawn, and from here on its ends are joined, so the filter drops all like it.
      have hon : g.connectable e.source e.target = true :=
        hg.connectable_iff.mpr ⟨he.1, he.2, hmem⟩
      have hpairs : (g.connect e.source e.target e.stream).pairs = g.pairs ++ [e.ends] := by
        rw [pairs, edges_connect _ hon, Array.toList_push, List.map_append]
        rfl
      rw [hpairs, edges_connect _ hon, Array.toList_push, List.append_assoc,
        List.filter_cons_of_pos (by simpa using hmem), List.eraseDupsBy_cons, List.filter_filter,
        List.singleton_append]
      congr 3
      exact List.filter_congr fun b _ => by simp [and_comm]

/-- Where no edge was drawn before, the first edge of each pair of ends is drawn. -/
theorem edges_connectAll_of_bare (hg : g.Consistent) {es : List Edge} (hnone : g.pairs = [])
    (h : ∀ e ∈ es, e.source < g.size ∧ e.target < g.size) :
    (g.connectAll es).edges.toList = es.eraseDupsBy fun a b => a.ends == b.ends := by
  have hedges : g.edges.toList = [] := by simpa [pairs] using hnone
  rw [hg.edges_connectAll h, hnone, hedges]
  simp

end Consistent

end Graph

end FlowDoc
