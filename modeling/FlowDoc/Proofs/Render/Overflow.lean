import FlowDoc.Proofs.Graph.Words
import FlowDoc.Proofs.Render.Keys

/-!
# Where the program stops

The names of nodes count from one in all that is drawn of a graph: in the lines of the nodes and of
the edges, in the callbacks and in the data of a page. The numbers of nodes are words. A graph that
was built never comes to the greatest one, but a graph that is read may hold it. Nothing is drawn of
such a graph: the program stops at the successor of this number.

A text is drawn once all names in it are formed. This comes to the same as drawing it line by line
and forming each name where it stands, since nothing is left of what was drawn before a stop.

## Main definitions

* `greatestWord`: the word without a successor
* `Needs`: what is drawn where names can be formed, and stops the program otherwise
* `Flowchart.keyedLines`, `Flowchart.keyedClicks`, `Flowchart.keyedInfo`: the chart, its callbacks
  and the data of a page, with the names of nodes left open
* `Flowchart.spelledLines`, `Flowchart.spelledLinesWithCallbacks`, `Flowchart.spelledInfo`: the
  same, where each name is formed where it stands

## Main results

* `nodeKey_of_word`: the names of all words
* `Needs.bind`, `Needs.mapM`: what is drawn in parts
* `drawFlowchart_eq`, `drawFlowchartWithCallbacks_eq`, `drawNodeInfo_eq`: drawing line by line
* `mem_members_keyedInfo`: which names the data of a page has
* `keys_drawn`: the names in what is drawn, and where the program stops
* `stopped_greatestGraph`: a graph that is read, and of which nothing is drawn
-/

namespace FlowDoc

open Json Json.Decoder

/-! ## The greatest word -/

/-- The word that has no successor. -/
def greatestWord : Nat := 0xFFFFFFFFFFFFFFFF

theorem lt_iff_ne_greatestWord {id : Nat} (h : id < wordBound) :
    id + 1 < wordBound ↔ id ≠ greatestWord := by
  have hbound : wordBound = greatestWord + 1 := rfl
  omega

/-- **The name of a word** counts from one; the greatest word has none. -/
theorem nodeKey_of_word {id : NodeId} (h : id < wordBound) :
    nodeKey id = if id = greatestWord then .error ⟨⟩ else .ok ("N" ++ toString (id + 1)) := by
  split_ifs with hid
  · exact nodeKey_eq_error_iff.mpr fun hlt => (lt_iff_ne_greatestWord h).mp hlt hid
  · exact nodeKey_of_lt ((lt_iff_ne_greatestWord h).mpr hid)

/-- What names words is drawn unless the greatest word is one of them. -/
theorem naming_of_words {ids : List NodeId} (h : ∀ id ∈ ids, id < wordBound) (text : String) :
    naming ids text = if greatestWord ∈ ids then .error ⟨⟩ else .ok text := by
  split_ifs with hmem
  · exact naming_eq_error_iff.mpr ⟨greatestWord, hmem, by decide⟩
  · refine naming_eq_ok_iff.mpr ⟨fun id hid => ?_, rfl⟩
    rw [lt_iff_ne_greatestWord (h id hid)]
    exact ne_of_mem_of_not_mem hid hmem

/-- The numbers of which a chart shows the names are words. -/
theorem Graph.FitsWords.lt_of_mem_shownIds {g : Graph} (h : g.FitsWords) {id : NodeId}
    (hid : id ∈ g.shownIds) : id < wordBound := by
  obtain ⟨node, hnode, hid⟩ := List.mem_flatMap.mp hid
  rcases List.mem_cons.mp hid with rfl | hchild
  · exact (h.nodes node hnode).id
  · exact (h.nodes node hnode).children id hchild

/-! ## What needs names -/

/-- What is drawn needs names: it is this if they can be formed, and otherwise the program stops. -/
structure Needs {α : Type} (drawn : Except Overflow α) (names : Prop) (a : α) : Prop where
  of_names : names → drawn = .ok a
  of_not : ¬ names → drawn = .error ⟨⟩

namespace Needs

variable {α β γ : Type} {x y : Except Overflow α} {p q : Prop} {a : α} {b : β}

theorem nodeKey (id : NodeId) : Needs (nodeKey id) (id + 1 < wordBound) (keyText id) where
  of_names := nodeKey_of_lt
  of_not := nodeKey_eq_error_iff.mpr

theorem naming (ids : List NodeId) (text : String) :
    Needs (naming ids text) (∀ id ∈ ids, id + 1 < wordBound) text where
  of_names h := naming_eq_ok_iff.mpr ⟨h, rfl⟩
  of_not h := naming_eq_error_iff.mpr (by simpa using h)

/-- What is drawn in two parts needs the names of both. -/
theorem bind {f : α → Except Overflow β} (hx : Needs x p a) (hf : Needs (f a) q b) :
    Needs (x >>= f) (p ∧ q) b where
  of_names h := by
    rw [hx.of_names h.1]
    exact hf.of_names h.2
  of_not h := by
    -- Without the names of the first part, the second one is not begun.
    by_cases hp : p
    · rw [hx.of_names hp]
      exact hf.of_not fun hq => h ⟨hp, hq⟩
    · rw [hx.of_not hp]
      rfl

/-- What is put around something needs no names. -/
theorem bind_pure (hx : Needs x p a) (f : α → β) : Needs (x >>= fun a => pure (f a)) p (f a) where
  of_names h := by
    rw [hx.of_names h]
    rfl
  of_not h := by
    rw [hx.of_not h]
    rfl

/-- What is drawn of each element of a list needs the names of all. -/
theorem mapM {f : γ → Except Overflow α} {names : γ → Prop} {g : γ → α} (cs : List γ)
    (h : ∀ c, Needs (f c) (names c) (g c)) :
    Needs (cs.mapM f) (∀ c ∈ cs, names c) (cs.map g) := by
  induction cs with
  | nil => exact ⟨fun _ => rfl, fun hnot => absurd (List.forall_mem_nil _) hnot⟩
  | cons c cs ih =>
    rw [List.mapM_cons, List.map_cons, List.forall_mem_cons]
    exact (h c).bind (ih.bind_pure _)

/-- What needs the same names and is the same is drawn in the same way. -/
theorem eq_of_iff (hx : Needs x p a) (hy : Needs y q a) (h : p ↔ q) : x = y := by
  by_cases hp : p
  · rw [hx.of_names hp, hy.of_names (h.mp hp)]
  · rw [hx.of_not hp, hy.of_not fun hq => hp (h.mpr hq)]

end Needs

namespace Flowchart

/-! ## Charts with names -/

section Lines

variable (config : Config) (g : Graph)

/-- The line of a node with a name. -/
def namedNode (name : String) (node : Node) : String :=
  let style := config.styleOf node.nodeType
  name ++ style.shape.1 ++ node.name ++ style.shape.2 ++
    (style.className?.map (":::" ++ ·)).getD ""

/-- The line of the edge from one node to another, with the names of both. -/
def namedEdge (sourceName targetName : String) (source target : NodeId) : String :=
  match streamOf? g source target with
  | some stream => sourceName ++ "---|" ++ stream ++ "|" ++ targetName
  | none => sourceName ++ "---" ++ targetName

/-- The line that binds clicks on a node with a name. -/
def namedClick (name : String) : String :=
  "click " ++ name ++ " " ++ config.clickCallback

end Lines

section Keyed

variable (key : NodeId → String) (g : Graph) (config : Config)

/-- The lines of a chart without callbacks: the nodes, the edges from each of them to its children,
and the classes. -/
def keyedLines : List String :=
  [header config] ++ g.nodes.toList.map (fun node => namedNode config (key node.id) node) ++
    (g.nodes.toList.flatMap fun node => node.children.toList.map fun child =>
      namedEdge g (key node.id) (key child) node.id child) ++
    classDefinitions

/-- The lines of the callbacks. -/
def keyedClicks : List String :=
  g.nodes.toList.map fun node => namedClick config (key node.id)

/-- The data of a page: the summaries of the nodes, by their names. -/
def keyedInfo : List (String × Json) :=
  Text.byKey (g.nodes.toList.map fun node => (key node.id, .string (nodeSummary node)))

end Keyed

section Spelled

variable (g : Graph) (config : Config)

/-- The line of the edge from one node to another, where each name is formed where it stands. -/
def spelledEdge (source target : NodeId) : Except Overflow String := do
  return namedEdge g (← nodeKey source) (← nodeKey target) source target

/-- The lines of a chart without callbacks, where each name is formed where it stands. -/
def spelledLines : Except Overflow (List String) := do
  let nodes ← g.nodes.toList.mapM fun node => return namedNode config (← nodeKey node.id) node
  let edges ← g.nodes.toList.mapM fun node => node.children.toList.mapM (spelledEdge g node.id)
  return [header config] ++ nodes ++ edges.flatten ++ classDefinitions

/-- The lines of a chart with callbacks. -/
def spelledLinesWithCallbacks : Except Overflow (List String) := do
  let lines ← spelledLines g config
  let clicks ← g.nodes.toList.mapM fun node => return namedClick config (← nodeKey node.id)
  return lines ++ clicks

/-- The data of a page, where each name is formed where it stands. -/
def spelledInfo : Except Overflow (List (String × Json)) := do
  let members ← g.nodes.toList.mapM fun node =>
    return (← nodeKey node.id, .string (nodeSummary node))
  return Text.byKey members

end Spelled

section Drawn

variable (g : Graph) (config : Config)

theorem lines_eq_keyedLines : lines g config = keyedLines keyText g config := by
  have hnode : nodeLine config = fun node => namedNode config (keyText node.id) node := by
    funext node
    rw [nodeLine, namedNode]
    cases (config.styleOf node.nodeType).className? <;> rfl
  rw [lines, hnode]
  rfl

theorem forall_mem_shownIds {p : NodeId → Prop} :
    (∀ id ∈ g.shownIds, p id) ↔
      (∀ node ∈ g.nodes.toList, p node.id) ∧
        ∀ node ∈ g.nodes.toList, ∀ child ∈ node.children.toList, p node.id ∧ p child := by
  simp only [Graph.shownIds, List.forall_mem_flatMap, List.forall_mem_cons]
  constructor
  · intro h
    exact ⟨fun node hnode => (h node hnode).1,
      fun node hnode child hchild => ⟨(h node hnode).1, (h node hnode).2 child hchild⟩⟩
  · rintro ⟨hnodes, hedges⟩ node hnode
    exact ⟨hnodes node hnode, fun child hchild => (hedges node hnode child hchild).2⟩

theorem needs_spelledEdge (source target : NodeId) :
    Needs (spelledEdge g source target) (source + 1 < wordBound ∧ target + 1 < wordBound)
      (namedEdge g (keyText source) (keyText target) source target) := by
  refine (Needs.nodeKey source).bind ?_
  exact (Needs.nodeKey target).bind_pure (namedEdge g (keyText source) · source target)

theorem needs_spelledLines :
    Needs (spelledLines g config) (∀ id ∈ g.shownIds, id + 1 < wordBound)
      (keyedLines keyText g config) := by
  have hnode (node : Node) := (Needs.nodeKey node.id).bind_pure (namedNode config · node)
  have hedges (node : Node) := Needs.mapM node.children.toList (needs_spelledEdge g node.id)
  -- A node is named in its own line, and again in the line of each edge from it.
  rw [forall_mem_shownIds]
  exact (Needs.mapM _ hnode).bind ((Needs.mapM _ hedges).bind_pure _)

theorem needs_spelledLinesWithCallbacks :
    Needs (spelledLinesWithCallbacks g config) (∀ id ∈ g.shownIds, id + 1 < wordBound)
      (keyedLines keyText g config ++ keyedClicks keyText g config) := by
  have hclick (node : Node) := (Needs.nodeKey node.id).bind_pure (namedClick config)
  -- The callbacks name the nodes, and these are named already.
  have hnames : (∀ id ∈ g.shownIds, id + 1 < wordBound) ↔
      (∀ id ∈ g.shownIds, id + 1 < wordBound) ∧
        ∀ node ∈ g.nodes.toList, node.id + 1 < wordBound :=
    (and_iff_left_of_imp fun h => ((forall_mem_shownIds g).mp h).1).symm
  rw [hnames]
  exact (needs_spelledLines g config).bind ((Needs.mapM _ hclick).bind_pure _)

theorem needs_spelledInfo :
    Needs (spelledInfo g) (∀ node ∈ g.nodes.toList, node.id + 1 < wordBound)
      (keyedInfo keyText g) := by
  have hmember (node : Node) := (Needs.nodeKey node.id).bind_pure fun name =>
    (name, Json.string (nodeSummary node))
  exact (Needs.mapM _ hmember).bind_pure Text.byKey

/-- **Drawing line by line** comes to the chart. -/
theorem drawFlowchart_eq :
    drawFlowchart g config = Text.unlines <$> spelledLines g config := by
  have hdrawn := (needs_spelledLines g config).bind_pure Text.unlines
  rw [← lines_eq_keyedLines] at hdrawn
  rw [map_eq_pure_bind]
  exact (Needs.naming g.shownIds _).eq_of_iff hdrawn Iff.rfl

theorem drawFlowchartWithCallbacks_eq :
    drawFlowchartWithCallbacks g config =
      Text.unlines <$> spelledLinesWithCallbacks g config := by
  have hdrawn := (needs_spelledLinesWithCallbacks g config).bind_pure Text.unlines
  rw [← lines_eq_keyedLines] at hdrawn
  rw [map_eq_pure_bind]
  exact (Needs.naming g.shownIds _).eq_of_iff hdrawn Iff.rfl

theorem drawNodeInfo_eq :
    drawNodeInfo g = (fun members => (Json.object members).compact) <$> spelledInfo g := by
  have hdrawn := (needs_spelledInfo g).bind_pure fun members => (Json.object members).compact
  rw [map_eq_pure_bind]
  exact (Needs.naming _ _).eq_of_iff hdrawn List.forall_mem_map

end Drawn

/-- **The data of a page** has the names of the nodes, and no other names. -/
theorem mem_members_keyedInfo {key : NodeId → String} {g : Graph} {name : String} :
    (∃ summary, (name, summary) ∈ keyedInfo key g) ↔
      ∃ node ∈ g.nodes.toList, key node.id = name := by
  constructor
  · rintro ⟨summary, hmember⟩
    obtain ⟨node, hnode, hpair⟩ := List.mem_map.mp (Text.mem_of_mem_byKey hmember)
    exact ⟨node, hnode, (Prod.mk.inj hpair).1⟩
  · rintro ⟨node, hnode, rfl⟩
    refine Text.exists_mem_byKey ?_
    rw [List.map_map]
    exact List.mem_map_of_mem hnode

/-! ## The names of a graph -/

/-- **The names in what is drawn of a graph** whose numbers are words, as all numbers of a graph
that is read are. Each word has the name `N` with its successor, except for the greatest one, at
which the program stops; and names tell numbers apart. What is drawn is what comes of forming each
name where it stands. So the chart, with and without callbacks, is drawn unless it shows the
greatest word, and the data of a page unless a node has this number; the name in each node line, at
each end of an edge, in each click line and of each summary is then the one of the number that it
stands for. A graph that was built never shows the greatest word. -/
theorem keys_drawn {g : Graph} (h : g.FitsWords) (config : Config) :
    let key (id : NodeId) := "N" ++ toString (id + 1)
    let chart := keyedLines key g config
    let clicks := keyedClicks key g config
    (∀ id < wordBound, nodeKey id = if id = greatestWord then .error ⟨⟩ else .ok (key id)) ∧
    Function.Injective key ∧
    (drawFlowchart g config = Text.unlines <$> spelledLines g config ∧
      drawFlowchartWithCallbacks g config =
        Text.unlines <$> spelledLinesWithCallbacks g config ∧
      drawNodeInfo g = (fun members => (Json.object members).compact) <$> spelledInfo g) ∧
    drawFlowchart g config =
      (if greatestWord ∈ g.shownIds then .error ⟨⟩ else .ok (Text.unlines chart)) ∧
    drawFlowchartWithCallbacks g config =
      (if greatestWord ∈ g.shownIds then .error ⟨⟩ else .ok (Text.unlines (chart ++ clicks))) ∧
    drawNodeInfo g =
      (if ∃ node ∈ g.nodes.toList, node.id = greatestWord then .error ⟨⟩
        else .ok (Json.object (keyedInfo key g)).compact) ∧
    (∀ name, (∃ summary, (name, summary) ∈ keyedInfo key g) ↔
      ∃ node ∈ g.nodes.toList, key node.id = name) ∧
    (g.Consistent → g.size < wordBound → greatestWord ∉ g.shownIds) ∧
    ∀ (text : String) (read : Graph), Graph.ofJson text = .ok read → read.FitsWords := by
  intro key chart clicks
  have hchart : flowchart g config = Text.unlines chart := by
    rw [flowchart, lines_eq_keyedLines]
    rfl
  have hclicks : flowchartWithCallbacks g config = Text.unlines (chart ++ clicks) := by
    rw [flowchartWithCallbacks, lines_eq_keyedLines]
    rfl
  have hshown : ∀ id ∈ g.shownIds, id < wordBound := fun _ hid => h.lt_of_mem_shownIds hid
  have hnodes : ∀ id ∈ g.nodes.toList.map (·.id), id < wordBound :=
    List.forall_mem_map.mpr fun node hnode => (h.nodes node hnode).id
  refine ⟨fun id hid => nodeKey_of_word hid, keyText_injective,
    ⟨drawFlowchart_eq g config, drawFlowchartWithCallbacks_eq g config, drawNodeInfo_eq g⟩,
    ?_, ?_, ?_, fun _ => mem_members_keyedInfo, fun hg hsize hmem => ?_,
    fun text read hread => Graph.fitsWords_ofJson hread⟩
  · rw [drawFlowchart, naming_of_words hshown, hchart]
  · rw [drawFlowchartWithCallbacks, naming_of_words hshown, hclicks]
  · rw [drawNodeInfo, naming_of_words hnodes]
    simp only [List.mem_map]
    rfl
  · have hlt : greatestWord < g.size := hg.lt_of_mem_shownIds hmem
    revert hsize
    exact Nat.not_lt_of_le hlt

/-- The last word that has a name, as the number of a node and of its child. -/
def lastGraph : Graph :=
  { nodes := #[{ id := 18446744073709551614, name := "a", nodeType := "source",
                 children := #[18446744073709551614] }] }

theorem keys_drawn_lastGraph :
    lastGraph.FitsWords ∧
      drawFlowchartWithCallbacks lastGraph {} = .ok (Text.unlines
        (["flowchart TD", "N18446744073709551615[(a)]:::C1",
          "N18446744073709551615---N18446744073709551615"] ++ classDefinitions ++
          ["click N18446744073709551615 doCb"])) := by
  have h : lastGraph.FitsWords := by decide
  have hshown : greatestWord ∉ lastGraph.shownIds := by decide
  obtain ⟨-, -, -, -, hclicks, -⟩ := keys_drawn h {}
  refine ⟨h, ?_⟩
  rw [hclicks, if_neg hshown]
  rfl

/-- A graph whose node has the greatest word for a number. -/
def greatestGraph : Graph :=
  { nodes := #[{ id := greatestWord, name := "a", nodeType := "source", span := Span.lines 1 1 }] }

/-- **Nothing is drawn** of a graph that is read: the successor of the number of its node is no
word, so the node has no name. -/
theorem stopped_greatestGraph :
    Graph.ofJson greatestGraph.toJson.compact = .ok greatestGraph ∧
      nodeKey greatestWord = .error ⟨⟩ ∧
      drawFlowchart greatestGraph {} = .error ⟨⟩ ∧
      drawFlowchartWithCallbacks greatestGraph {} = .error ⟨⟩ ∧
      drawNodeInfo greatestGraph = .error ⟨⟩ := by
  refine ⟨?_, rfl, rfl, rfl, rfl⟩
  have hread (l : Layout) :
      Graph.ofJson (String.ofList (l.write 0 greatestGraph.toJson)) = .ok greatestGraph :=
    all_of_reads (Graph.reads l (by decide))
  have hcompact := hread Layout.oneLine
  simp only [Layout.oneLine, String.ofList_toList] at hcompact
  exact hcompact

end Flowchart

end FlowDoc
