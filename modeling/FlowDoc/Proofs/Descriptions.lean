import FlowDoc.Dataflow
import FlowDoc.Proofs.Script.Outcome

/-!
# Descriptions of nodes

A document describes nodes by name, in three sections and in any order. Loading it gives each node
the last description of its name and changes nothing else: without the descriptions the graph is
that of the script. This rests on the names of the nodes being distinct, since a description goes to
the first node of its name.

## Main definitions

* `Graph.undescribed`: a graph without its descriptions
* `lastDescription?`: what is said last about a name
* `Document.Describes`, `Document.entriesOf`: the entries of a document that describe nodes

## Main results

* `getElem?_describe`: one description
* `getElem?_describeAll`: all descriptions, in order
* `Document.descriptionOf?_eq_some_iff`, `Document.descriptions_ofJson`: what a document says
* `ofDocument_outcome`: a document is loaded exactly when it and its script can be read, with the
  graph of the script and the last description of each node
-/

namespace FlowDoc

/-- The graph without its descriptions. -/
def Graph.undescribed (g : Graph) : Graph :=
  { g with nodes := g.nodes.map fun n => { n with description := none } }

/-- What is said last about the node of a name. -/
def lastDescription? (descriptions : List (String × String)) (name : String) : Option String :=
  ((descriptions.filter fun d => canonicalName d.1 == name).getLast?).map (·.2)

theorem lastDescription?_concat (descriptions : List (String × String)) (d : String × String)
    (name : String) :
    lastDescription? (descriptions ++ [d]) name =
      if canonicalName d.1 = name then some d.2 else lastDescription? descriptions name := by
  rw [lastDescription?, List.filter_append]
  split_ifs with hd
  · simp [hd]
  · simp [hd, lastDescription?]

namespace Graph

/-- Whether no two nodes have one name. -/
def NamesDistinct (g : Graph) : Prop :=
  (g.nodes.map (·.name)).toList.Nodup

/-- In a graph with distinct names the first node of a name is the only one. -/
theorem indexOf?_eq_some_iff_of_distinct {g : Graph} (hg : g.NamesDistinct) {i : Nat} {node : Node}
    (hnode : g.nodes[i]? = some node) {name : String} :
    g.indexOf? name = some i ↔ node.name = name := by
  rw [indexOf?_eq_some_iff]
  constructor
  · rintro ⟨node', hnode', hname, -⟩
    rw [hnode] at hnode'
    rwa [Option.some.inj hnode']
  · intro hname
    refine ⟨node, hnode, hname, fun j hj earlier hearlier hsame => ?_⟩
    -- Two nodes of one name stand at one place.
    have hi : (g.nodes.map (·.name)).toList[i]? = some name := by
      rw [Array.getElem?_toList, Array.getElem?_map, hnode, Option.map_some, hname]
    have hj' : (g.nodes.map (·.name)).toList[j]? = some name := by
      rw [Array.getElem?_toList, Array.getElem?_map, hearlier, Option.map_some, hsame]
    have hlt : i < (g.nodes.map (·.name)).toList.length := (List.getElem?_eq_some_iff.mp hi).1
    exact Nat.ne_of_gt hj ((List.getElem?_inj hlt hg).mp (hi.trans hj'.symm))

/-- **One description** goes to the node of its name, and to no other. -/
theorem getElem?_describe {g : Graph} (hg : g.NamesDistinct) (name text : String) (i : Nat) :
    (g.describe name text).nodes[i]? = (g.nodes[i]?).map fun n =>
      { n with description := if n.name = name then some text else n.description } := by
  cases hnode : g.nodes[i]? with
  | none =>
    obtain ⟨f, hf⟩ := exists_getElem?_describe g name text i
    rw [hf, hnode]
    rfl
  | some node =>
    have hiff : g.indexOf? name = some i ↔ node.name = name :=
      indexOf?_eq_some_iff_of_distinct hg hnode
    rw [describe]
    split
    case h_1 k hk =>
      rw [hk, Option.some.injEq] at hiff
      dsimp only
      rw [Array.getElem?_modify, hnode]
      by_cases hname : node.name = name
      · rw [if_pos (hiff.mpr hname), Option.map_some, Option.map_some, if_pos hname]
      · rw [if_neg (fun hki => hname (hiff.mp hki)), Option.map_some, if_neg hname]
    case h_2 hnone =>
      rw [hnone] at hiff
      have hname : ¬ node.name = name := by
        intro hname
        cases hiff.mpr hname
      rw [hnode, Option.map_some, if_neg hname]

theorem names_describe (g : Graph) (name text : String) :
    (g.describe name text).nodes.map (·.name) = g.nodes.map (·.name) := by
  apply Array.ext_getElem?
  intro i
  obtain ⟨f, hf⟩ := exists_getElem?_describe g name text i
  rw [Array.getElem?_map, Array.getElem?_map, hf, Option.map_map]
  rfl

/-- Where a name is found depends on the names alone. -/
theorem indexOf?_congr {g h : Graph} (hnames : g.nodes.map (·.name) = h.nodes.map (·.name))
    (name : String) : g.indexOf? name = h.indexOf? name := by
  have hfind : ∀ k : Graph, k.indexOf? name = (k.nodes.map (·.name)).findIdx? (· == name) := by
    intro k
    rw [Array.findIdx?_map]
    rfl
  rw [hfind, hfind, hnames]

end Graph

namespace Dataflow

/-! ## All descriptions -/

section DescribeAll

variable {g : Graph}

theorem describeAll_concat (g : Graph) (descriptions : List (String × String))
    (d : String × String) :
    describeAll g (descriptions ++ [d]) =
      (describeAll g descriptions).describe (canonicalName d.1) d.2 := by
  rw [describeAll, List.foldl_append]
  rfl

theorem names_describeAll (g : Graph) (descriptions : List (String × String)) :
    (describeAll g descriptions).nodes.map (·.name) = g.nodes.map (·.name) := by
  induction descriptions using List.reverseRecOn with
  | nil => rfl
  | append_singleton descriptions d ih => rw [describeAll_concat, Graph.names_describe, ih]

@[simp] theorem edges_describeAll (g : Graph) (descriptions : List (String × String)) :
    (describeAll g descriptions).edges = g.edges := by
  induction descriptions using List.reverseRecOn with
  | nil => rfl
  | append_singleton descriptions d ih => rw [describeAll_concat, Graph.edges_describe, ih]

/-- **All descriptions**: a node has the last one of its name, or else the one that it had. -/
theorem getElem?_describeAll (hg : g.NamesDistinct) (descriptions : List (String × String))
    (i : Nat) :
    (describeAll g descriptions).nodes[i]? = (g.nodes[i]?).map fun n =>
      { n with description := (lastDescription? descriptions n.name).or n.description } := by
  -- Induction on the descriptions already given: one more overrides them for its name.
  induction descriptions using List.reverseRecOn with
  | nil =>
    show g.nodes[i]? = (g.nodes[i]?).map id
    rw [Option.map_id, id]
  | append_singleton descriptions d ih =>
    have hdistinct : (describeAll g descriptions).NamesDistinct := by
      rwa [Graph.NamesDistinct, names_describeAll]
    rw [describeAll_concat, Graph.getElem?_describe hdistinct, ih, Option.map_map]
    refine congrArg (fun f => Option.map f g.nodes[i]?) (funext fun n => ?_)
    simp only [Function.comp_apply, lastDescription?_concat]
    by_cases hname : n.name = canonicalName d.1
    · rw [if_pos hname, if_pos hname.symm, Option.some_or]
    · rw [if_neg hname, if_neg (Ne.symm hname)]

/-- Descriptions of no node are passed over. -/
theorem describeAll_filter (g : Graph) (descriptions : List (String × String)) :
    describeAll g (descriptions.filter fun d => (g.indexOf? (canonicalName d.1)).isSome) =
      describeAll g descriptions := by
  induction descriptions using List.reverseRecOn with
  | nil => rfl
  | append_singleton descriptions d ih =>
    rw [List.filter_append, describeAll_concat]
    cases hd : (g.indexOf? (canonicalName d.1)).isSome with
    | true => rw [List.filter_singleton, hd, cond_true, describeAll_concat, ih]
    | false =>
      -- The name is found in the graph so far where it is found in the graph without descriptions.
      have hindex := Graph.indexOf?_congr (names_describeAll g descriptions) (canonicalName d.1)
      rw [← hindex] at hd
      rw [Graph.describe_of_isNone _ hd, ← ih]
      simp [hindex ▸ hd]

/-- Without the descriptions that were given, a graph without any is as it was. -/
theorem undescribed_describeAll (hg : g.NamesDistinct) (hnone : g.undescribed = g)
    (descriptions : List (String × String)) :
    (describeAll g descriptions).undescribed = g := by
  conv_rhs => rw [← hnone]
  have hnodes : (describeAll g descriptions).undescribed.nodes = g.undescribed.nodes := by
    apply Array.ext_getElem?
    intro i
    rw [Graph.undescribed, Graph.undescribed, Array.getElem?_map, Array.getElem?_map,
      getElem?_describeAll hg, Option.map_map]
    rfl
  rw [Graph.undescribed, Graph.undescribed, edges_describeAll]
  exact congrArg (Graph.mk · g.edges) hnodes

end DescribeAll

end Dataflow

/-! ## Documents -/

namespace Document

/-- The entry names a node and says something about it. -/
structure Describes (entry : Json) (name text : String) : Prop where
  named : entry.stringField? "name" = some name
  said : entry.stringField? "description" = some text
  not_blank : Text.blank text.toList = false

/-- The entries of a section of a document, of which there are none where no array is. -/
def entriesOf (root : Json) (key : String) : List Json :=
  ((((root.field? "properties").bind (·.field? "typeProperties")).bind (·.field? key)).bind
    Json.array?).getD []

/-- **What an entry says about a node.** -/
theorem descriptionOf?_eq_some_iff {entry : Json} {name text : String} :
    descriptionOf? entry = some (name, text) ↔ Describes entry name text := by
  constructor
  · intro h
    obtain ⟨name', hname, h⟩ := Option.bind_eq_some_iff.mp h
    obtain ⟨text', htext, h⟩ := Option.bind_eq_some_iff.mp h
    split_ifs at h with hblank
    cases h
    exact ⟨hname, htext, by simpa using hblank⟩
  · rintro ⟨hname, htext, hblank⟩
    simp [descriptionOf?, hname, htext, hblank]

/-- The descriptions of a document are those of the entries of its sections, one section after the
other. -/
theorem descriptions_ofJson (root : Json) :
    (ofJson root).descriptions =
      (entriesOf root "sources" ++ entriesOf root "sinks" ++
        entriesOf root "transformations").filterMap descriptionOf? := by
  have hread : (ofJson root).descriptions =
      (((root.field? "properties").bind (·.field? "typeProperties")).map descriptionsOf).getD [] :=
    rfl
  rw [hread]
  unfold entriesOf
  cases (root.field? "properties").bind (·.field? "typeProperties") with
  | none => rfl
  | some typeProperties => simp [descriptionsOf, describedSections]

end Document

namespace Dataflow

/-- The nodes of a script are not described. -/
theorem undescribed_ofScript {script : String} {parsed : Script.Parsed}
    (h : Script.Parsed.ofScript script = .ok parsed) : parsed.graph.undescribed = parsed.graph := by
  obtain ⟨ds, -, hgraph⟩ := Script.exists_reads_of_ofScript h
  have hnodes : parsed.graph.undescribed.nodes = parsed.graph.nodes := by
    rw [Graph.undescribed, ← Array.toList_inj, Array.toList_map]
    conv_rhs => rw [← List.map_id parsed.graph.nodes.toList]
    refine List.map_congr_left fun n hn => ?_
    obtain ⟨k, hk⟩ := List.mem_iff_getElem?.mp hn
    rw [hgraph, Array.getElem?_toList] at hk
    have hbare := Script.getElem?_wiredGraph_bare ds k
    rw [hk, Option.map_some, eq_comm, Option.map_eq_some_iff] at hbare
    obtain ⟨d, -, hnode⟩ := hbare
    have hnone : n.description = none := (congrArg Node.description hnode).symm
    rw [← hnone]
    rfl
  exact congrArg (Graph.mk · parsed.graph.edges) hnodes

/-- The names of the nodes of a script are distinct. -/
theorem namesDistinct_ofScript {script : String} {parsed : Script.Parsed}
    (h : Script.Parsed.ofScript script = .ok parsed) : parsed.graph.NamesDistinct := by
  obtain ⟨ds, hreads, hgraph⟩ := Script.exists_reads_of_ofScript h
  obtain ⟨-, hdistinct, -⟩ := Script.exists_ofScript_eq_ok_iff.mp ⟨parsed, h⟩
  rw [Graph.NamesDistinct, hgraph, Script.names_wiredGraph, Script.declaredNames_of_reads hreads]
  exact hdistinct

/-- **Loading a document adds descriptions to the graph of its script, and nothing else.** It
succeeds exactly when the document and its script can be read, and fails as they do. The warnings
and the graph without descriptions are those of the script, each node has the last description of
its name, and descriptions of no node are passed over. What is said about nodes are the names and
texts of the entries of the three sections, in order. -/
theorem ofDocument_outcome (text : String) :
    ((∃ d, ofDocument text = .ok d) ↔
      ∃ document parsed, Document.read text = .ok document ∧
        Script.Parsed.ofScript document.script = .ok parsed) ∧
    (∀ fault, Document.read text = .error fault → ofDocument text = .error (.json fault)) ∧
    (∀ document e, Document.read text = .ok document →
      Script.Parsed.ofScript document.script = .error e → ofDocument text = .error (.script e)) ∧
    (∀ d document parsed, ofDocument text = .ok d → Document.read text = .ok document →
      Script.Parsed.ofScript document.script = .ok parsed →
      d.name = document.name ∧ d.description = document.description ∧
      d.warnings = parsed.warnings ∧ d.graph.undescribed = parsed.graph ∧
      (∀ node ∈ d.graph.nodes.toList,
        node.description = lastDescription? document.descriptions node.name) ∧
      d.graph = describeAll parsed.graph (document.descriptions.filter fun said =>
        (parsed.graph.indexOf? (canonicalName said.1)).isSome)) ∧
    (∀ root document, Json.read text = .ok root → Document.read text = .ok document →
      document.descriptions =
        (Document.entriesOf root "sources" ++ Document.entriesOf root "sinks" ++
          Document.entriesOf root "transformations").filterMap Document.descriptionOf?) ∧
    ∀ entry name said, Document.descriptionOf? entry = some (name, said) ↔
      Document.Describes entry name said := by
  refine ⟨⟨?_, ?_⟩, ?_, ?_, ?_, ?_, fun entry name said => Document.descriptionOf?_eq_some_iff⟩
  · rintro ⟨d, h⟩
    rw [ofDocument] at h
    split at h
    · cases h
    case h_2 document hread =>
      split at h
      · cases h
      case h_2 parsed hparsed => exact ⟨document, parsed, hread, hparsed⟩
  · rintro ⟨document, parsed, hread, hparsed⟩
    rw [ofDocument, hread]
    simp only [hparsed]
    exact ⟨_, rfl⟩
  · intro fault hread
    rw [ofDocument, hread]
  · intro document e hread hparsed
    rw [ofDocument, hread]
    simp only [hparsed]
  · intro d document parsed h hread hparsed
    rw [ofDocument, hread] at h
    simp only [hparsed] at h
    obtain rfl := Except.ok.inj h
    have hdistinct := namesDistinct_ofScript hparsed
    have hnone := undescribed_ofScript hparsed
    refine ⟨rfl, rfl, rfl, undescribed_describeAll hdistinct hnone _, fun node hnode => ?_,
      (describeAll_filter _ _).symm⟩
    obtain ⟨i, hi⟩ := List.mem_iff_getElem?.mp hnode
    rw [Array.getElem?_toList, getElem?_describeAll hdistinct, ← hnone, Graph.undescribed,
      Array.getElem?_map, Option.map_map] at hi
    obtain ⟨n, -, rfl⟩ := Option.map_eq_some_iff.mp hi
    exact Option.or_none
  · intro root document hroot hread
    rw [Document.read, hroot] at hread
    obtain rfl := Except.ok.inj hread
    exact Document.descriptions_ofJson root

end Dataflow

end FlowDoc
