import FlowDoc.Proofs.Graph.Consistency
import FlowDoc.Proofs.Traversal
import FlowDoc.Render.Document
import Mathlib

/-!
# The names of nodes

A node has a name in a flowchart exactly when its number has a successor among the words, and no two
nodes share a name. A text is drawn exactly when all nodes that it names have one, and otherwise the
program stops. The nodes and children of a consistent graph are places in it, so such a graph is
drawn if its size is a word.

## Main results

* `nodeKey_eq_ok_iff`, `eq_of_nodeKey`: which nodes have names, and that names differ
* `naming_eq_ok_iff`: when a text is drawn
* `renderPage_eq_ok_iff`, `renderPage_eq_missing_iff`: when a page is written, and when its template
  is refused
* `Graph.Consistent.lt_of_mem_shownIds`: the numbers in the chart of a consistent graph
-/

namespace FlowDoc

/-! ## Names -/

section Names

variable {id id' : NodeId} {key : String}

/-- **A node has a name** exactly when its number has a successor among the words. -/
theorem nodeKey_eq_ok_iff : nodeKey id = .ok key ↔ id + 1 < wordBound ∧ keyText id = key := by
  rw [nodeKey]
  split_ifs with h
  · rw [Except.ok.injEq, and_iff_right h]
  · exact iff_of_false (fun heq => nomatch heq) fun hkey => h hkey.1

theorem nodeKey_of_lt (h : id + 1 < wordBound) : nodeKey id = .ok (keyText id) :=
  nodeKey_eq_ok_iff.mpr ⟨h, rfl⟩

theorem nodeKey_eq_error_iff {stop : Overflow} :
    nodeKey id = .error stop ↔ ¬ id + 1 < wordBound := by
  rw [nodeKey]
  split_ifs with h
  · exact iff_of_false (fun heq => nomatch heq) fun hnot => hnot h
  · exact iff_of_true rfl h

theorem keyText_injective : Function.Injective keyText := by
  intro id id' h
  exact Nat.succ.inj (Nat.repr_injective ((String.append_right_inj "N").mp h))

/-- **No two nodes share a name.** -/
theorem eq_of_nodeKey (h : nodeKey id = .ok key) (h' : nodeKey id' = .ok key) : id = id' := by
  obtain ⟨-, rfl⟩ := nodeKey_eq_ok_iff.mp h
  obtain ⟨-, hkey⟩ := nodeKey_eq_ok_iff.mp h'
  exact keyText_injective hkey.symm

end Names

/-! ## Texts that name nodes -/

section Naming

variable {ids : List NodeId} {text : String}

/-- **A text is drawn** exactly when all nodes that it names have names, and then as it is. -/
theorem naming_eq_ok_iff {drawn : String} :
    naming ids text = .ok drawn ↔ (∀ id ∈ ids, id + 1 < wordBound) ∧ text = drawn := by
  rw [naming, bind_eq_ok_iff]
  constructor
  · rintro ⟨keys, hkeys, h⟩
    refine ⟨fun id hid => ?_, Except.ok.inj h⟩
    obtain ⟨key, -, hkey⟩ := exists_right_of_forall₂ (mapM_eq_ok_iff.mp hkeys) hid
    exact (nodeKey_eq_ok_iff.mp hkey).1
  · rintro ⟨hids, rfl⟩
    refine ⟨ids.map keyText, mapM_eq_ok_iff.mpr ?_, rfl⟩
    rw [List.forall₂_map_right_iff, List.forall₂_same]
    exact fun id hid => nodeKey_of_lt (hids id hid)

/-- The program stops only if a node has no name. -/
theorem naming_eq_error_iff {stop : Overflow} :
    naming ids text = .error stop ↔ ∃ id ∈ ids, ¬ id + 1 < wordBound := by
  cases h : naming ids text with
  | ok drawn =>
    refine iff_of_false (fun heq => nomatch heq) ?_
    rintro ⟨id, hid, hnot⟩
    exact hnot ((naming_eq_ok_iff.mp h).1 id hid)
  | error stop' =>
    refine iff_of_true rfl ?_
    by_contra hall
    push Not at hall
    rw [naming_eq_ok_iff.mpr ⟨hall, rfl⟩] at h
    cases h

end Naming

/-! ## Documents -/

theorem drawnDocument_eq_ok_iff {drawn : Except Overflow String} {text : String} :
    drawnDocument drawn = .ok text ↔ drawn = .ok text := by
  cases drawn with
  | ok drawn =>
    rw [drawnDocument, Except.mapError, Except.ok.injEq, Except.ok.injEq]
  | error stop => exact iff_of_false (fun h => nomatch h) fun h => nomatch h

theorem drawnDocument_ne_missing (drawn : Except Overflow String) (placeholder : String) :
    drawnDocument drawn ≠ .error (.missingPlaceholder placeholder) := by
  cases drawn with
  | ok drawn => exact fun h => nomatch h
  | error stop => exact fun h => nomatch h

section Page

variable {g : Graph} {config : Config} {template : String}

/-- A page is written if its template has the placeholders and all nodes in its chart have names. -/
theorem renderPage_eq_ok_iff {text : String} :
    renderPage g config template = .ok text ↔
      page g config template = .ok text ∧ ∀ id ∈ g.shownIds, id + 1 < wordBound := by
  rw [renderPage]
  cases page g config template with
  | ok filled =>
    dsimp only
    rw [drawnDocument_eq_ok_iff, naming_eq_ok_iff, Except.ok.injEq, and_comm]
  | error placeholder => exact iff_of_false (fun h => nomatch h) fun h => nomatch h.1

/-- A template is refused for what it lacks, whatever the nodes are. -/
theorem renderPage_eq_missing_iff {placeholder : String} :
    renderPage g config template = .error (.missingPlaceholder placeholder) ↔
      page g config template = .error placeholder := by
  rw [renderPage]
  cases page g config template with
  | ok filled =>
    exact iff_of_false (drawnDocument_ne_missing _ placeholder) fun h => nomatch h
  | error lacking => simp only [Except.error.injEq, RenderError.missingPlaceholder.injEq]

end Page

namespace Graph

variable {g : Graph}

/-- The nodes and children of a consistent graph are places in it. -/
theorem Consistent.lt_of_mem_shownIds (hg : g.Consistent) {id : NodeId} (h : id ∈ g.shownIds) :
    id < g.size := by
  obtain ⟨node, hnode, hid⟩ := List.mem_flatMap.mp h
  obtain ⟨k, hk⟩ := List.mem_iff_getElem?.mp hnode
  rw [Array.getElem?_toList] at hk
  rcases List.mem_cons.mp hid with rfl | hchild
  · rw [hg.id_eq hk]
    exact (Array.getElem?_eq_some_iff.mp hk).1
  · rw [hg.children_eq hk] at hchild
    obtain ⟨e, he, rfl⟩ := List.mem_map.mp hchild
    exact hg.target_lt e (List.mem_filter.mp he).1

/-- A text about a consistent graph is drawn if the size of the graph is a word. -/
theorem Consistent.naming_eq (hg : g.Consistent) (hsize : g.size < wordBound) (text : String) :
    naming g.shownIds text = .ok text :=
  naming_eq_ok_iff.mpr
    ⟨fun _ hid => Nat.lt_of_le_of_lt (hg.lt_of_mem_shownIds hid) hsize, rfl⟩

end Graph

end FlowDoc
