import FlowDoc.Proofs.Graph.Append
import FlowDoc.Proofs.Script.Outcome

/-!
# Scripts one below the other

A script that ends with a marker line leaves nothing for what follows it, so a script below it is
read as it is on its own: its records are the same, some lines further down, and where no name is
declared in both, so are its references. The graph is then that of the first script with that of
the second below it.

## Main definitions

* `Record.below`, `Declaration.below`, `Warning.below`: what is read further down in a script
* `Finding.isTrailingText`: the finding about the text after the last declaration

## Main results

* `Records.ofScript_append`: the records of a script below another
* `wiredGraph_append`: the graph of declarations below others
* `ofScript_below`: the outcome of a script below another
-/

namespace FlowDoc

/-- A warning some lines further down. -/
def Warning.below (lines : Nat) (w : Warning) : Warning :=
  { w with span := w.span.below lines }

/-- Whether a finding is about the text after the last declaration. -/
def Finding.isTrailingText : Finding → Bool
  | .trailingText _ => true
  | _ => false

namespace Script

/-- A record some lines further down. -/
def Record.below (lines : Nat) (r : Record) : Record :=
  { r with span := r.span.below lines }

/-- A declaration some lines further down. -/
def Declaration.below (lines : Nat) (d : Declaration) : Declaration :=
  { d with span := d.span.below lines }

/-! ## Records -/

namespace Records

/-- The records of a script some lines further down. -/
def below (lines : Nat) (rs : Records) : Records :=
  ⟨rs.records.map (Record.below lines), rs.leftover.map (Warning.below lines)⟩

theorem leftoverOf_below (lines first last : Nat) (body : List Char) :
    leftoverOf (first + lines) (last + lines) body =
      (leftoverOf first last body).map (Warning.below lines) := by
  rw [leftoverOf, leftoverOf]
  cases Text.trim body with
  | nil => rfl
  | cons c cs =>
    rw [Option.map_some, Warning.below, Span.below_lines]

/-- Lines further down are cut into the same records, further down. -/
theorem ofLines_below (lines : Nat) {first line : Nat} {body : List Char}
    {texts : List (List Char)} (hline : 1 ≤ line) :
    ofLines (first + lines) (line + lines) body texts =
      (ofLines first line body texts).below lines := by
  induction texts generalizing first line body with
  | nil =>
    rw [ofLines, ofLines, below, ← leftoverOf_below, Nat.sub_add_comm hline]
    rfl
  | cons text texts ih =>
    rw [ofLines, ofLines, Nat.add_right_comm line lines 1]
    split
    case h_1 before label hcut =>
      rw [ih (Nat.le_add_left 1 line)]
      simp only [below, List.map_cons, Record.below, Span.below_lines]
    case h_2 => exact ih (Nat.le_add_left 1 line)

/-- A marker line ends a record, and the lines below it start anew. -/
theorem ofLines_append {first line : Nat} {body text : List Char} {texts : List (List Char)}
    (hmark : marker <:+: text) (rest : List (List Char)) :
    ofLines first line body (texts ++ text :: rest) =
      { ofLines (line + texts.length + 1) (line + texts.length + 1) [] rest with
        records := (ofLines first line body (texts ++ [text])).records ++
          (ofLines (line + texts.length + 1) (line + texts.length + 1) [] rest).records } := by
  induction texts generalizing first line body with
  | nil =>
    obtain ⟨⟨before, label⟩, hcut⟩ :=
      Option.ne_none_iff_exists'.mp (Text.cut_ne_none_iff.mpr hmark)
    rw [List.nil_append, List.nil_append, ofLines, ofLines, hcut]
    rfl
  | cons t texts ih =>
    have hline : line + (t :: texts).length + 1 = line + 1 + texts.length + 1 := by
      rw [List.length_cons]
      omega
    rw [hline, List.cons_append, List.cons_append, ofLines, ofLines]
    split
    · rw [ih]
      rfl
    · exact ih

/-- After a marker line nothing is left over. -/
theorem leftover_ofLines_marker {first line : Nat} {body text : List Char}
    {texts : List (List Char)} (hmark : marker <:+: text) :
    (ofLines first line body (texts ++ [text])).leftover = none := by
  rw [ofLines_append hmark []]
  rfl

section OfScript

variable {a b : String} {last : List Char}

/-- The lines of a script without its tabs end with its last line without tabs. -/
theorem exists_lines_marker (hlast : (Text.lines a.toList).getLast? = some last) :
    ∃ texts, Text.lines (a.toList.filter (· != '\t')) =
        texts ++ [last.filter (· != '\t')] ∧
      texts.length + 1 = (Text.lines a.toList).length := by
  obtain ⟨texts, htexts⟩ := List.getLast?_eq_some_iff.mp hlast
  refine ⟨texts.map (·.filter (· != '\t')), ?_, ?_⟩
  · rw [Text.lines_filter (by decide), htexts, List.map_append, List.map_singleton]
  · rw [htexts, List.length_map, List.length_append, List.length_singleton]

/-- **The records of a script below another** that ends with a marker line. -/
theorem ofScript_append (hlast : (Text.lines a.toList).getLast? = some last)
    (hmark : marker <:+: last.filter (· != '\t')) :
    (ofScript a).leftover = none ∧
    ofScript (a ++ "\n" ++ b) =
      { (ofScript b).below (Text.lines a.toList).length with
        records := (ofScript a).records ++
          ((ofScript b).below (Text.lines a.toList).length).records } := by
  obtain ⟨texts, htexts, hlength⟩ := exists_lines_marker hlast
  have hlines : Text.lines ((a ++ "\n" ++ b).toList.filter (· != '\t')) =
      texts ++ last.filter (· != '\t') :: Text.lines (b.toList.filter (· != '\t')) := by
    have hfilter : (a ++ "\n" ++ b).toList.filter (· != '\t') =
        a.toList.filter (· != '\t') ++ '\n' :: b.toList.filter (· != '\t') := by
      simp
    rw [hfilter, Text.lines_append_feed, htexts, List.append_assoc, List.singleton_append]
  have hnext : 1 + texts.length + 1 = 1 + (Text.lines a.toList).length := by omega
  constructor
  · rw [ofScript, htexts, leftover_ofLines_marker hmark]
  · rw [ofScript, hlines, ofLines_append hmark, hnext, ofLines_below _ (Nat.le_refl 1), ← htexts]
    rfl

end OfScript

/-- What is left over is reported as trailing text. -/
theorem isTrailingText_of_leftover {script : String} {w : Warning}
    (h : (ofScript script).leftover = some w) : w.finding.isTrailingText = true := by
  have key : ∀ {first line : Nat} {body : List Char} {texts : List (List Char)},
      (ofLines first line body texts).leftover = some w → w.finding.isTrailingText = true := by
    intro first line body texts h
    induction texts generalizing first line body with
    | nil =>
      rw [ofLines, leftoverOf] at h
      split at h
      · cases h
      · obtain rfl := Option.some.inj h
        rfl
    | cons text texts ih =>
      rw [ofLines] at h
      split at h
      · exact ih h
      · exact ih h
  exact key h

end Records

/-! ## Declarations -/

/-- The lines of a record make no difference to what it declares. -/
theorem Statement.ofRecord_below (lines : Nat) {r : Record} {s : Statement}
    (h : Statement.ofRecord r = .ok s) : Statement.ofRecord (r.below lines) = .ok s := by
  have hlabel : (r.below lines).label = r.label := rfl
  have hbody : (r.below lines).body = r.body := rfl
  unfold Statement.ofRecord at h ⊢
  rw [hlabel, hbody]
  dsimp only at h ⊢
  split_ifs at h with hname
  rw [if_neg hname]
  split at h
  · cases h
  · split at h
    · cases h
    · exact h

theorem Declaration.ofRecord_below (lines : Nat) {r : Record} {d : Declaration}
    {ws : List Warning} (h : Declaration.ofRecord r = .ok (d, ws)) :
    Declaration.ofRecord (r.below lines) =
      .ok (d.below lines, ws.map (Warning.below lines)) := by
  obtain ⟨s, payload, statement, scanned, closed, rfl, rfl⟩ := ofRecord_eq_ok_iff.mp h
  refine ofRecord_eq_ok_iff.mpr
    ⟨s, payload, Statement.ofRecord_below lines statement, scanned, closed, rfl, ?_⟩
  rw [List.map_map]
  rfl

/-- What records declare below others. -/
theorem declarations_append (lines : Nat) {rs rs' : List Record}
    {declared declared' : List (Declaration × List Warning)}
    (h : declarations rs = .ok declared) (h' : declarations rs' = .ok declared') :
    declarations (rs ++ rs'.map (Record.below lines)) =
      .ok (declared ++ declared'.map fun p =>
        (p.1.below lines, p.2.map (Warning.below lines))) := by
  refine mapM_eq_ok_iff.mpr (List.rel_append (mapM_eq_ok_iff.mp h) ?_)
  rw [List.forall₂_map_left_iff, List.forall₂_map_right_iff]
  exact (mapM_eq_ok_iff.mp h').imp fun _ _ => Declaration.ofRecord_below lines

/-- No warning about a record is about trailing text. -/
theorem isTrailingText_of_declarations {rs : List Record}
    {declared : List (Declaration × List Warning)} (h : declarations rs = .ok declared) :
    ∀ w ∈ declared.flatMap (·.2), w.finding.isTrailingText = false := by
  intro w hw
  obtain ⟨⟨d, ws⟩, hd, hw⟩ := List.mem_flatMap.mp hw
  obtain ⟨r, -, hr⟩ := exists_left_of_forall₂ (mapM_eq_ok_iff.mp h) hd
  obtain ⟨s, payload, -, -, -, -, rfl⟩ := ofRecord_eq_ok_iff.mp hr
  obtain ⟨finding, hfinding, rfl⟩ := List.mem_map.mp hw
  rcases List.mem_append.mp hfinding with hf | hf
  · split_ifs at hf
    · cases hf
    · obtain rfl := List.mem_singleton.mp hf
      rfl
  · obtain ⟨value, -, rfl⟩ := List.mem_map.mp hf
    rfl

/-- The warnings about a script are told apart by what they are about. -/
theorem filter_isTrailingText {script : String} {declared : List (Declaration × List Warning)}
    (h : declarations (Records.ofScript script).records = .ok declared) :
    ((Records.ofScript script).leftover.toList ++ declared.flatMap (·.2)).filter
        (·.finding.isTrailingText) = (Records.ofScript script).leftover.toList ∧
      ((Records.ofScript script).leftover.toList ++ declared.flatMap (·.2)).filter
        (!·.finding.isTrailingText) = declared.flatMap (·.2) := by
  have hleft : ∀ w ∈ (Records.ofScript script).leftover.toList,
      w.finding.isTrailingText = true := fun w hw =>
    Records.isTrailingText_of_leftover (Option.mem_toList.mp hw)
  have hright := isTrailingText_of_declarations h
  rw [List.filter_append, List.filter_append]
  constructor
  · rw [List.filter_eq_self.mpr hleft, List.filter_eq_nil_iff.mpr, List.append_nil]
    exact fun w hw => by simp [hright w hw]
  · rw [List.filter_eq_nil_iff.mpr, List.filter_eq_self.mpr, List.nil_append]
    · exact fun w hw => by simp [hright w hw]
    · exact fun w hw => by simp [hleft w hw]

/-! ## The graph -/

section Wiring

variable {ds ds' : List Declaration} (lines : Nat)

@[simp] theorem declaredNames_below :
    declaredNames (ds.map (Declaration.below lines)) = declaredNames ds := by
  rw [declaredNames, List.map_map]
  rfl

theorem Declaration.node_below (d : Declaration) (id ids : NodeId) :
    (d.below lines).node (id + ids) = (d.node id).moved ids lines := by
  simp [Declaration.node, Declaration.below, Node.moved]

theorem idOf?_append_left {name : String} (h : name ∈ declaredNames ds) :
    idOf? (ds ++ ds') name = idOf? ds name := by
  obtain ⟨id, hid⟩ := exists_idOf? h
  rw [idOf?] at hid
  rw [idOf?, idOf?, List.findIdx?_append, hid]
  rfl

theorem idOf?_append_right {name : String} (h : name ∉ declaredNames ds) :
    idOf? (ds ++ ds'.map (Declaration.below lines)) name =
      (idOf? ds' name).map (· + ds.length) := by
  have hnone := idOf?_eq_none_iff.mpr h
  rw [idOf?] at hnone
  rw [idOf?, List.findIdx?_append, hnone, Option.none_or, List.findIdx?_map, idOf?]
  rfl

/-- Names that no declaration of the other list declares. -/
def Apart (ds ds' : List Declaration) : Prop :=
  ∀ name ∈ declaredNames ds, name ∉ declaredNames ds'

theorem apart_of_nodes (h : ∀ m ∈ (wiredGraph ds).nodes, ∀ n ∈ (wiredGraph ds').nodes,
    m.name ≠ n.name) : Apart ds ds' := by
  have hnode : ∀ {ds : List Declaration} {name : String}, name ∈ declaredNames ds →
      ∃ n ∈ (wiredGraph ds).nodes, n.name = name := by
    intro ds name hname
    rw [← List.mem_toArray, ← names_wiredGraph, Array.mem_map] at hname
    exact hname
  intro name hname hname'
  obtain ⟨m, hm, rfl⟩ := hnode hname
  obtain ⟨n, hn, hnm⟩ := hnode hname'
  exact h m hm n hn hnm.symm

theorem Resolvable.append (hds : Resolvable ds) (hds' : Resolvable ds') (h : Apart ds ds') :
    Resolvable (ds ++ ds'.map (Declaration.below lines)) := by
  have hnames : declaredNames (ds ++ ds'.map (Declaration.below lines)) =
      declaredNames ds ++ declaredNames ds' := by
    rw [declaredNames, List.map_append]
    exact congrArg _ (declaredNames_below lines)
  refine ⟨?_, fun d hd r hr => ?_⟩
  · rw [hnames, List.nodup_append']
    exact ⟨hds.names_nodup, hds'.names_nodup, h⟩
  · rw [hnames, List.mem_append]
    rcases List.mem_append.mp hd with hd | hd
    · exact .inl (hds.resolved d hd r hr)
    · obtain ⟨d', hd', rfl⟩ := List.mem_map.mp hd
      exact .inr (hds'.resolved d' hd' r hr)

/-- The references of the first declarations find their nodes among these. -/
theorem inputEdges_append_left {id : NodeId} {references : List String}
    (h : ∀ r ∈ references, canonicalName r ∈ declaredNames ds) :
    Wiring.inputEdges (ds ++ ds') id references = Wiring.inputEdges ds id references := by
  refine List.filterMap_congr fun r hr => ?_
  rw [idOf?_append_left (h r hr)]

/-- Those of the second find them where they would alone, after the first declarations. -/
theorem inputEdges_append_right {id : NodeId} {references : List String}
    (h : ∀ r ∈ references, canonicalName r ∉ declaredNames ds) :
    Wiring.inputEdges (ds ++ ds'.map (Declaration.below lines)) (id + ds.length) references =
      (Wiring.inputEdges ds' id references).map (Edge.moved ds.length) := by
  rw [Wiring.inputEdges, Wiring.inputEdges, List.map_filterMap]
  refine List.filterMap_congr fun r hr => ?_
  rw [idOf?_append_right lines (h r hr), Option.map_map, Option.map_map]
  rfl

theorem edges_wiredGraph_append (hds : Resolvable ds) (hds' : Resolvable ds')
    (h : Apart ds ds') :
    (wiredGraph (ds ++ ds'.map (Declaration.below lines))).edges.toList =
      (wiredGraph ds).edges.toList ++
        (wiredGraph ds').edges.toList.map (Edge.moved ds.length) := by
  rw [edges_wiredGraph, edges_wiredGraph, edges_wiredGraph, List.zipIdx_append,
    List.flatMap_append, List.map_flatMap]
  congr 1
  · refine List.flatMap_congr fun p hp => ?_
    refine inputEdges_append_left fun r hr => ?_
    exact hds.resolved p.1 (List.fst_mem_of_mem_zipIdx hp) r (mem_of_mem_eraseDupsBy hr)
  · rw [Nat.zero_add, List.zipIdx_map, List.zipIdx_eq_map_add, List.map_map, List.flatMap_map]
    refine List.flatMap_congr fun p hp => ?_
    have hr : ∀ r ∈ p.1.firstInputs, canonicalName r ∉ declaredNames ds := fun r hr hmem =>
      h _ hmem (hds'.resolved p.1 (List.fst_mem_of_mem_zipIdx hp) r
        (mem_of_mem_eraseDupsBy hr))
    rw [← inputEdges_append_right lines hr, Nat.add_comm]
    rfl

/-- **The graph of declarations below others** that declare none of their names. -/
theorem wiredGraph_append (hds : Resolvable ds) (hds' : Resolvable ds') (h : Apart ds ds') :
    wiredGraph (ds ++ ds'.map (Declaration.below lines)) =
      (wiredGraph ds).append (wiredGraph ds') lines := by
  refine (consistent_wiredGraph _).ext
    ((consistent_wiredGraph ds).append (consistent_wiredGraph ds') lines) ?_ fun i => ?_
  · rw [← Array.toList_inj, edges_wiredGraph_append lines hds hds' h, Graph.edges_append,
      size_wiredGraph]
  · rw [getElem?_wiredGraph_bare]
    rcases Nat.lt_or_ge i ds.length with hi | hi
    · rw [Graph.getElem?_append_left lines (by rwa [size_wiredGraph]), getElem?_wiredGraph_bare,
        List.getElem?_append_left hi]
    · obtain ⟨j, rfl⟩ := Nat.exists_eq_add_of_le hi
      have hnode := Graph.getElem?_append_right (g := wiredGraph ds) (h := wiredGraph ds') lines j
      rw [size_wiredGraph] at hnode
      rw [hnode, List.getElem?_append_right (Nat.le_add_right _ _), Nat.add_sub_cancel_left,
        List.getElem?_map, Option.map_map, Option.map_map, Nat.add_comm]
      have hbare := congrArg (Option.map (Node.moved ds.length lines))
        (getElem?_wiredGraph_bare ds' j)
      rw [Option.map_map, Option.map_map] at hbare
      simp only [Function.comp_def, Node.bare_moved, Declaration.node_below] at hbare ⊢
      exact hbare.symm

end Wiring

/-! ## The outcome -/

/-- What is read of a script with another one below it, on lines raised by `lines`: the text after
the last declaration is reported first. -/
def Parsed.append (p q : Parsed) (lines : Nat) : Parsed :=
  { graph := p.graph.append q.graph lines
    warnings :=
      (q.warnings.filter (·.finding.isTrailingText)).map (Warning.below lines) ++ p.warnings ++
        (q.warnings.filter (!·.finding.isTrailingText)).map (Warning.below lines) }

/-- **A script below another is read as on its own.** Below a script whose last line is a marker
line, and where no name is declared in both, the graph is that of the first script with that of the
second below it, and so are the warnings, apart from the text after the last declaration. -/
theorem ofScript_below {a b : String} {last : List Char} {p q : Parsed}
    (hlast : (Text.lines a.toList).getLast? = some last)
    (hmark : marker <:+: last.filter (· != '\t'))
    (hp : Parsed.ofScript a = .ok p) (hq : Parsed.ofScript b = .ok q)
    (hnames : ∀ m ∈ p.graph.nodes, ∀ n ∈ q.graph.nodes, m.name ≠ n.name) :
    Parsed.ofScript (a ++ "\n" ++ b) = .ok (p.append q (Text.lines a.toList).length) := by
  obtain ⟨declared, hdeclared, hgraph, hwarnings⟩ := ofScript_eq_ok_iff_declarations.mp hp
  obtain ⟨declared', hdeclared', hgraph', hwarnings'⟩ := ofScript_eq_ok_iff_declarations.mp hq
  obtain ⟨hds, hwired⟩ := graphOf_eq_ok_iff.mp hgraph
  obtain ⟨hds', hwired'⟩ := graphOf_eq_ok_iff.mp hgraph'
  obtain ⟨hleftover, hrecords⟩ := Records.ofScript_append (b := b) hlast hmark
  generalize (Text.lines a.toList).length = lines at hrecords ⊢
  have hapart : Apart (declared.map (·.1)) (declared'.map (·.1)) := by
    rw [hwired, hwired'] at hnames
    exact apart_of_nodes hnames
  have hboth := declarations_append lines hdeclared hdeclared'
  refine ofScript_eq_ok_iff_declarations.mpr ⟨_, by rw [hrecords]; exact hboth, ?_, ?_⟩
  · have hmap : (declared ++ declared'.map fun p =>
          (p.1.below lines, p.2.map (Warning.below lines))).map (·.1) =
        declared.map (·.1) ++ (declared'.map (·.1)).map (Declaration.below lines) := by
      rw [List.map_append, List.map_map, List.map_map]
      rfl
    rw [hmap, graphOf_eq_ok_iff, Parsed.append, hwired, hwired']
    exact ⟨hds.append lines hds' hapart, (wiredGraph_append lines hds hds' hapart).symm⟩
  · obtain ⟨htrailing, hrest⟩ := filter_isTrailingText hdeclared'
    rw [Parsed.append, hwarnings', htrailing, hrest, hwarnings, hleftover, hrecords]
    simp only [Records.below, Option.toList_map, Option.toList_none, List.nil_append,
      List.flatMap_append, List.flatMap_map, List.map_flatMap, List.append_assoc]

/-- A script whose last line holds a tab inside its marker. -/
def upperScript : String :=
  "source() ~> src\nsrc@hot sink() x ~\t> out"

/-- What is read of `upperScript`. -/
def upperParsed : Parsed :=
  { graph :=
      { nodes :=
          #[{ id := 0, name := "src", nodeType := "source", children := #[1],
              span := Span.lines 1 1 },
            { id := 1, name := "out", nodeType := "sink", parents := #[0],
              span := Span.lines 2 2 }]
        edges := #[⟨0, 1, some "hot"⟩] }
    warnings := [⟨.trailingContent "out" "x", Span.lines 2 2⟩] }

/-- A script with a reference to a later node, a value without a key and trailing text. -/
def lowerScript : String :=
  "late sort() ~> early\nsource((k)) ~> late\nend"

/-- What is read of `lowerScript`. -/
def lowerParsed : Parsed :=
  { graph :=
      { nodes :=
          #[{ id := 0, name := "early", nodeType := "sort", parents := #[1],
              span := Span.lines 1 1 },
            { id := 1, name := "late", nodeType := "source", attributes := ⟨[("other", "k")]⟩,
              children := #[0], span := Span.lines 2 2 }]
        edges := #[⟨1, 0, none⟩] }
    warnings :=
      [⟨.trailingText "end", Span.lines 3 3⟩, ⟨.emptyAttributeKey "late" "k", Span.lines 2 2⟩] }

theorem ofScript_below_lowerScript :
    (Text.lines upperScript.toList).getLast? = some "src@hot sink() x ~\t> out".toList ∧
      marker <:+: "src@hot sink() x ~\t> out".toList.filter (· != '\t') ∧
      Parsed.ofScript upperScript = .ok upperParsed ∧
      Parsed.ofScript lowerScript = .ok lowerParsed ∧
      (∀ m ∈ upperParsed.graph.nodes, ∀ n ∈ lowerParsed.graph.nodes, m.name ≠ n.name) ∧
      Parsed.ofScript (upperScript ++ "\n" ++ lowerScript) =
        .ok (upperParsed.append lowerParsed (Text.lines upperScript.toList).length) := by
  have hlast : (Text.lines upperScript.toList).getLast? =
      some "src@hot sink() x ~\t> out".toList := by decide +kernel
  have hmark : marker <:+: "src@hot sink() x ~\t> out".toList.filter (· != '\t') := by
    decide +kernel
  have hupper : Parsed.ofScript upperScript = .ok upperParsed :=
    ofScript_eq_ok_iff_evaluate.mpr (by decide +kernel)
  have hlower : Parsed.ofScript lowerScript = .ok lowerParsed :=
    ofScript_eq_ok_iff_evaluate.mpr (by decide +kernel)
  have hnames : ∀ m ∈ upperParsed.graph.nodes, ∀ n ∈ lowerParsed.graph.nodes,
      m.name ≠ n.name := by decide
  exact ⟨hlast, hmark, hupper, hlower, hnames, ofScript_below hlast hmark hupper hlower hnames⟩

end Script

end FlowDoc
