import FlowDoc.Proofs.Script.Resolution
import FlowDoc.Proofs.Script.Segmentation
import FlowDoc.Script.Parsed

/-!
# The outcome of reading a script

Of several faults in a script one is reported. A record that cannot be read comes before a name that
is declared twice, and that before a reference to no node, wherever in the script they stand; of
faults of one kind the first one is reported. The error is attributed to the record at fault by its
name and its lines, the last of which is a marker line.

## Main definitions

* `Reads`, `Fails`: what a record is read as, and why it cannot be read
* `ScriptFault`: the record at fault in a script and the error that is reported for it
* `evaluate`: what is read of a script, without the index of the names

## Main results

* `ofScript_eq_error_iff`: the error of a script is that of its fault
* `exists_ofScript_eq_ok_iff`, `exists_node_ofScript`: the scripts that are read, and their nodes
* `ofScript_outcome`: a script without fault yields the nodes of its records, in order
* `error_off_marker_line`: a tab inside the marker hides it from a reader of the script
-/

namespace FlowDoc.Script

/-! ## Reading one record -/

/-- The name of the node that a record declares. -/
def Record.name (r : Record) : String :=
  canonicalName r.label

/-- A record is a statement whose payload can be read and is closed. -/
inductive Reads (r : Record) : Declaration → Prop where
  | intro {s : Statement} {payload : Payload.Scan} (statement : Statement.ofRecord r = .ok s)
      (scanned : Payload.scan (.ofType s.nodeType) s.payload = .ok payload)
      (closed : payload.closed = true) :
      Reads r
        { name := s.name
          nodeType := s.nodeType
          inputs := s.inputs
          attributes := payload.attributes
          span := r.span }

/-- Why a record cannot be read. -/
inductive Fails (r : Record) : ScriptError → Prop where
  /-- It is no statement. -/
  | malformed {e : ScriptError} (statement : Statement.ofRecord r = .error e) : Fails r e
  /-- Its payload cannot be read. -/
  | unreadable {s : Statement} {fault : Payload.ScanError}
      (statement : Statement.ofRecord r = .ok s)
      (scanned : Payload.scan (.ofType s.nodeType) s.payload = .error fault) :
      Fails r (.unbalancedBrackets s.name (.unreadable fault) r.span)
  /-- Its payload is not closed. -/
  | notClosed {s : Statement} {payload : Payload.Scan} (statement : Statement.ofRecord r = .ok s)
      (scanned : Payload.scan (.ofType s.nodeType) s.payload = .ok payload)
      (unclosed : payload.closed = false) :
      Fails r (.unbalancedBrackets s.name .notClosed r.span)

namespace Statement

/-- What `ofRecord` yields is named after the record's label. -/
theorem name_of_ofRecord {r : Record} {s : Statement} (h : ofRecord r = .ok s) :
    s.name = r.name ∧ r.name ≠ "" := by
  unfold ofRecord at h
  simp only [← Record.name.eq_1] at h
  split_ifs at h with hname
  split at h
  · cases h
  · split at h
    · cases h
    · obtain rfl := Except.ok.inj h
      exact ⟨rfl, hname⟩

theorem attribution_of_ofRecord {r : Record} {e : ScriptError} (h : ofRecord r = .error e) :
    e.span = r.span ∧ e.nodeName = if r.name = "" then r.label else r.name := by
  unfold ofRecord at h
  simp only [← Record.name.eq_1] at h
  split_ifs at h with hname
  · obtain rfl := Except.error.inj h
    rw [if_pos hname]
    exact ⟨rfl, rfl⟩
  · rw [if_neg hname]
    split at h
    · obtain rfl := Except.error.inj h
      exact ⟨rfl, rfl⟩
    · split at h
      · obtain rfl := Except.error.inj h
        exact ⟨rfl, rfl⟩
      · cases h

end Statement

section Record

variable {r : Record}

theorem ofRecord_eq_ok_iff {d : Declaration} {ws : List Warning} :
    Declaration.ofRecord r = .ok (d, ws) ↔
      ∃ s payload, Statement.ofRecord r = .ok s ∧
        Payload.scan (.ofType s.nodeType) s.payload = .ok payload ∧ payload.closed = true ∧
        d = { name := s.name, nodeType := s.nodeType, inputs := s.inputs,
              attributes := payload.attributes, span := r.span } ∧
        ws = (Declaration.findings s.name payload).map fun finding => ⟨finding, r.span⟩ := by
  rw [Declaration.ofRecord, bind_eq_ok_iff]
  refine exists_congr fun s => ⟨?_, ?_⟩
  · rintro ⟨statement, h⟩
    split at h
    · cases h
    case h_2 payload hscan =>
      split_ifs at h with hclosed
      obtain ⟨rfl, rfl⟩ := Prod.mk.inj (Except.ok.inj h)
      exact ⟨payload, statement, hscan, hclosed, rfl, rfl⟩
  · rintro ⟨payload, statement, hscan, hclosed, rfl, rfl⟩
    exact ⟨statement, by simp [hscan, hclosed]⟩

theorem reads_iff {d : Declaration} : Reads r d ↔ ∃ ws, Declaration.ofRecord r = .ok (d, ws) := by
  constructor
  · rintro ⟨statement, scanned, closed⟩
    exact ⟨_, ofRecord_eq_ok_iff.mpr ⟨_, _, statement, scanned, closed, rfl, rfl⟩⟩
  · rintro ⟨ws, h⟩
    obtain ⟨s, payload, statement, scanned, closed, rfl, -⟩ := ofRecord_eq_ok_iff.mp h
    exact .intro statement scanned closed

theorem fails_iff {e : ScriptError} : Fails r e ↔ Declaration.ofRecord r = .error e := by
  rw [Declaration.ofRecord, bind_eq_error_iff]
  constructor
  · rintro (statement | ⟨statement, scanned⟩ | ⟨statement, scanned, unclosed⟩)
    · exact .inl statement
    · exact .inr ⟨_, statement, by rw [scanned]⟩
    · exact .inr ⟨_, statement, by simp [scanned, unclosed]⟩
  · rintro (statement | ⟨s, statement, h⟩)
    · exact .malformed statement
    · split at h
      case h_1 fault hscan =>
        obtain rfl := Except.error.inj h
        exact .unreadable statement hscan
      case h_2 payload hscan =>
        split_ifs at h with hclosed
        obtain rfl := Except.error.inj h
        exact .notClosed statement hscan (by simpa using hclosed)

theorem Reads.unique {d d' : Declaration} (h : Reads r d) (h' : Reads r d') : d = d' := by
  obtain ⟨ws, h⟩ := reads_iff.mp h
  obtain ⟨ws', h'⟩ := reads_iff.mp h'
  exact congrArg Prod.fst (Except.ok.inj (h.symm.trans h'))

theorem Reads.name_eq {d : Declaration} (h : Reads r d) : d.name = r.name := by
  obtain ⟨statement, -, -⟩ := h
  exact (Statement.name_of_ofRecord statement).1

theorem Reads.name_ne_empty {d : Declaration} (h : Reads r d) : r.name ≠ "" := by
  obtain ⟨statement, -, -⟩ := h
  exact (Statement.name_of_ofRecord statement).2

theorem Reads.span_eq {d : Declaration} (h : Reads r d) : d.span = r.span := by
  obtain ⟨-, -, -⟩ := h
  rfl

/-- An error is attributed to its record by the record's lines and its name, or its label where the
name is empty. -/
theorem Fails.attribution {e : ScriptError} (h : Fails r e) :
    e.span = r.span ∧ e.nodeName = if r.name = "" then r.label else r.name := by
  cases h with
  | malformed statement => exact Statement.attribution_of_ofRecord statement
  | unreadable statement scanned =>
    obtain ⟨hname, hne⟩ := Statement.name_of_ofRecord statement
    exact ⟨rfl, hname.trans (if_neg hne).symm⟩
  | notClosed statement scanned unclosed =>
    obtain ⟨hname, hne⟩ := Statement.name_of_ofRecord statement
    exact ⟨rfl, hname.trans (if_neg hne).symm⟩

end Record

/-! ## The fault of a script -/

/-- The record at fault among the records of a script, and the error that is reported for it. -/
inductive ScriptFault (rs : List Record) : Record → ScriptError → Prop where
  /-- The first record that cannot be read. -/
  | unread {before after : List Record} {r : Record} {e : ScriptError}
      (split : rs = before ++ r :: after) (read : ∀ b ∈ before, ∃ d, Reads b d)
      (fails : Fails r e) :
      ScriptFault rs r e
  /-- The first record whose name an earlier one declares, where all can be read. -/
  | duplicate {before after : List Record} {r first : Record} (read : ∀ b ∈ rs, ∃ d, Reads b d)
      (split : rs = before ++ r :: after) (distinct : (before.map (·.name)).Nodup)
      (earlier : first ∈ before) (same : first.name = r.name) :
      ScriptFault rs r (.duplicateNodeName r.name r.span first.span)
  /-- The first reference to no record, where all can be read and have distinct names. -/
  | unresolved {before after : List Record} {r : Record} {d : Declaration}
      {seen rest : List String} {reference : String} (read : ∀ b ∈ rs, ∃ d, Reads b d)
      (distinct : (rs.map (·.name)).Nodup) (split : rs = before ++ r :: after)
      (resolved : ∀ b ∈ before, ∀ d, Reads b d → ∀ s ∈ d.inputs,
        canonicalName s ∈ rs.map (·.name))
      (reads : Reads r d) (inputs : d.inputs = seen ++ reference :: rest)
      (known : ∀ s ∈ seen, canonicalName s ∈ rs.map (·.name))
      (unknown : canonicalName reference ∉ rs.map (·.name)) :
      ScriptFault rs r (.unresolvedReference r.name reference r.span)

section Fault

variable {rs : List Record} {ds : List Declaration}

theorem declaredNames_of_reads (h : List.Forall₂ Reads rs ds) :
    declaredNames ds = rs.map (·.name) := by
  induction h with
  | nil => rfl
  | cons hread _ ih =>
    rw [declaredNames, List.map_cons, List.map_cons, hread.name_eq]
    exact congrArg _ ih

theorem exists_reads (h : ∀ r ∈ rs, ∃ d, Reads r d) : ∃ ds, List.Forall₂ Reads rs ds := by
  induction rs with
  | nil => exact ⟨[], .nil⟩
  | cons r rs ih =>
    obtain ⟨⟨d, hd⟩, hrest⟩ := List.forall_mem_cons.mp h
    obtain ⟨ds, hds⟩ := ih hrest
    exact ⟨d :: ds, .cons hd hds⟩

theorem forall_reads (h : List.Forall₂ Reads rs ds) : ∀ r ∈ rs, ∃ d, Reads r d := by
  intro r hr
  obtain ⟨d, -, hd⟩ := exists_right_of_forall₂ h hr
  exact ⟨d, hd⟩

/-- A fault in the wiring of the declarations is one of the records. -/
theorem ScriptFault.of_wiringFault (h : List.Forall₂ Reads rs ds) {e : ScriptError}
    (he : WiringFault ds e) : ∃ r, ScriptFault rs r e := by
  have hnames := declaredNames_of_reads h
  have hall := forall_reads h
  cases he with
  | @duplicate before after d first split distinct earlier same =>
    subst split
    obtain ⟨before', r, after', rfl, hbefore, hr⟩ := exists_split_left_of_forall₂ h
    obtain ⟨first', hfirst', hread⟩ := exists_left_of_forall₂ hbefore earlier
    rw [declaredNames_of_reads hbefore] at distinct
    rw [hr.name_eq, hr.span_eq, hread.span_eq]
    refine ⟨r, .duplicate hall rfl distinct hfirst' ?_⟩
    rw [← hread.name_eq, same, hr.name_eq]
  | @unresolved before after d seen rest r distinct split resolved inputs known unknown =>
    subst split
    rw [hnames] at distinct resolved known unknown
    -- Every declaration before the one at fault is that of a record before it.
    obtain ⟨before', r', after', rfl, hbefore, hr⟩ := exists_split_left_of_forall₂ h
    rw [hr.name_eq, hr.span_eq]
    refine ⟨r', .unresolved hall distinct rfl (fun b hb d' hd' => ?_) hr inputs known unknown⟩
    obtain ⟨d'', hd'', hread⟩ := exists_right_of_forall₂ hbefore hb
    obtain rfl := hd'.unique hread
    exact resolved d' hd''

/-- A fault of the records after reading is one in the wiring of the declarations. -/
theorem ScriptFault.wiringFault_of_reads (h : List.Forall₂ Reads rs ds) {r : Record}
    {e : ScriptError} (he : ScriptFault rs r e) : WiringFault ds e := by
  have hnames := declaredNames_of_reads h
  cases he with
  | unread split read fails =>
    obtain ⟨d, hd⟩ := forall_reads h r (by simp [split])
    obtain ⟨ws, hok⟩ := reads_iff.mp hd
    rw [fails_iff.mp fails] at hok
    cases hok
  | @duplicate before after r first read split distinct earlier same =>
    subst split
    obtain ⟨before', d, after', rfl, hbefore, hd⟩ := exists_split_right_of_forall₂ h
    obtain ⟨first', hfirst', hread⟩ := exists_right_of_forall₂ hbefore earlier
    rw [← hd.name_eq, ← hd.span_eq, ← hread.span_eq]
    refine .duplicate rfl ?_ hfirst' ?_
    · rwa [declaredNames_of_reads hbefore]
    · rw [hread.name_eq, same, hd.name_eq]
  | @unresolved before after r d seen rest reference read distinct split resolved reads inputs known
      unknown =>
    subst split
    rw [← hnames] at distinct resolved known unknown
    obtain ⟨before', d', after', rfl, hbefore, hd⟩ := exists_split_right_of_forall₂ h
    obtain rfl := reads.unique hd
    rw [← hd.name_eq, ← hd.span_eq]
    refine .unresolved distinct rfl (fun b hb => ?_) inputs known unknown
    obtain ⟨b', hb', hread⟩ := exists_left_of_forall₂ hbefore hb
    exact resolved b' hb' b hread

/-- The record at fault is a record of the script, and the error is attributed to it. -/
theorem ScriptFault.attribution {r : Record} {e : ScriptError} (h : ScriptFault rs r e) :
    r ∈ rs ∧ e.span = r.span ∧ e.nodeName = if r.name = "" then r.label else r.name := by
  cases h with
  | unread split read fails => exact ⟨by simp [split], fails.attribution⟩
  | duplicate read split distinct earlier same =>
    have hr : r ∈ rs := by simp [split]
    obtain ⟨d, hd⟩ := read r hr
    exact ⟨hr, rfl, (if_neg hd.name_ne_empty).symm⟩
  | unresolved read distinct split resolved reads inputs known unknown =>
    exact ⟨by simp [split], rfl, (if_neg reads.name_ne_empty).symm⟩

end Fault

/-! ## The outcome -/

section Outcome

variable {script : String} {rs : List Record}

theorem forall₂_reads {declared : List (Declaration × List Warning)}
    (h : declarations rs = .ok declared) : List.Forall₂ Reads rs (declared.map (·.1)) := by
  rw [List.forall₂_map_right_iff]
  exact (mapM_eq_ok_iff.mp h).imp fun _ p hp => reads_iff.mpr ⟨p.2, hp⟩

/-- Where all records can be read, so can the list of them. -/
theorem exists_declarations {ds : List Declaration} (h : List.Forall₂ Reads rs ds) :
    ∃ declared, declarations rs = .ok declared ∧ declared.map (·.1) = ds := by
  induction h with
  | nil => exact ⟨[], rfl, rfl⟩
  | @cons r d rs ds hread _ ih =>
    obtain ⟨ws, hr⟩ := reads_iff.mp hread
    obtain ⟨declared, hrest, rfl⟩ := ih
    refine ⟨(d, ws) :: declared, mapM_eq_ok_iff.mpr ?_, rfl⟩
    exact .cons hr (mapM_eq_ok_iff.mp hrest)

/-- What is read of a script: the graph of its declarations, and the warnings about the text after
the last one and about each of them. -/
theorem ofScript_eq_ok_iff_declarations {p : Parsed} :
    Parsed.ofScript script = .ok p ↔
      ∃ declared, declarations (Records.ofScript script).records = .ok declared ∧
        graphOf (declared.map (·.1)) = .ok p.graph ∧
        p.warnings =
          (Records.ofScript script).leftover.toList ++ declared.flatMap (·.2) := by
  rw [Parsed.ofScript, bind_eq_ok_iff]
  refine exists_congr fun declared => and_congr_right fun _ => ?_
  rw [bind_eq_ok_iff]
  constructor
  · rintro ⟨graph, hgraph, h⟩
    obtain rfl := Except.ok.inj h
    exact ⟨hgraph, rfl⟩
  · rintro ⟨hgraph, hwarnings⟩
    exact ⟨p.graph, hgraph, by rw [← hwarnings]; rfl⟩

/-- What is read of a script, told without the index of the names: this evaluates on a script. -/
def evaluate (script : String) : Option Parsed :=
  match declarations (Records.ofScript script).records with
  | .error _ => none
  | .ok declared =>
    let ds := declared.map (·.1)
    if Resolvable ds then
      some
        { graph := wiredGraph ds
          warnings := (Records.ofScript script).leftover.toList ++ declared.flatMap (·.2) }
    else none

theorem ofScript_eq_ok_iff_evaluate {p : Parsed} :
    Parsed.ofScript script = .ok p ↔ evaluate script = some p := by
  rw [ofScript_eq_ok_iff_declarations, evaluate]
  cases hdeclared : declarations (Records.ofScript script).records with
  | error e => simp
  | ok declared =>
    dsimp only
    split_ifs with hds
    · have hgraph := graphOf_of_resolvable hds
      constructor
      · rintro ⟨declared', hsame, hg, hwarnings⟩
        obtain rfl := Except.ok.inj hsame
        rw [graphOf_eq_ok_iff] at hg
        rw [wiredGraph, ← hg.2, ← hwarnings]
      · intro h
        obtain rfl := Option.some.inj h
        exact ⟨declared, rfl, hgraph, rfl⟩
    · constructor
      · rintro ⟨declared', hsame, hg, -⟩
        obtain rfl := Except.ok.inj hsame
        exact absurd (graphOf_eq_ok_iff.mp hg).1 hds
      · intro h
        cases h

theorem ofScript_eq_ok_iff {g : Graph} :
    (∃ p, Parsed.ofScript script = .ok p ∧ p.graph = g) ↔
      ∃ ds, List.Forall₂ Reads (Records.ofScript script).records ds ∧ graphOf ds = .ok g := by
  constructor
  · rintro ⟨p, hp, rfl⟩
    obtain ⟨declared, hdeclared, hg, -⟩ := ofScript_eq_ok_iff_declarations.mp hp
    exact ⟨_, forall₂_reads hdeclared, hg⟩
  · rintro ⟨ds, hreads, hg⟩
    obtain ⟨declared, hdeclared, rfl⟩ := exists_declarations hreads
    exact ⟨⟨g, _⟩, ofScript_eq_ok_iff_declarations.mpr ⟨declared, hdeclared, hg, rfl⟩, rfl⟩

/-- How a script fails: at a record, or at the wiring of what all records declare. -/
theorem ofScript_eq_error_iff_declarations {e : ScriptError} :
    Parsed.ofScript script = .error e ↔
      declarations (Records.ofScript script).records = .error e ∨
        ∃ declared, declarations (Records.ofScript script).records = .ok declared ∧
          graphOf (declared.map (·.1)) = .error e := by
  rw [Parsed.ofScript, bind_eq_error_iff]
  refine or_congr_right (exists_congr fun declared => and_congr_right fun _ => ?_)
  rw [bind_eq_error_iff]
  constructor
  · rintro (h | ⟨g, -, h⟩)
    · exact h
    · cases h
  · exact .inl

/-- The error of a script is that of its fault. -/
theorem ofScript_eq_error_iff {e : ScriptError} :
    Parsed.ofScript script = .error e ↔
      ∃ r, ScriptFault (Records.ofScript script).records r e := by
  rw [ofScript_eq_error_iff_declarations]
  constructor
  · rintro (h | ⟨declared, hdeclared, h⟩)
    · obtain ⟨before, r, after, hsplit, hbefore, hr⟩ := mapM_eq_error_iff.mp h
      refine ⟨r, .unread hsplit (fun b hb => ?_) (fails_iff.mpr hr)⟩
      obtain ⟨⟨d, ws⟩, hd⟩ := hbefore b hb
      exact ⟨d, reads_iff.mpr ⟨ws, hd⟩⟩
    · exact ScriptFault.of_wiringFault (forall₂_reads hdeclared) (graphOf_eq_error_iff.mp h)
  · rintro ⟨r, h⟩
    -- Faults of the wiring are reported only where all records can be read.
    by_cases hall : ∀ r ∈ (Records.ofScript script).records, ∃ d, Reads r d
    · obtain ⟨ds, hreads⟩ := exists_reads hall
      obtain ⟨declared, hdeclared, rfl⟩ := exists_declarations hreads
      refine .inr ⟨declared, hdeclared, ?_⟩
      exact graphOf_eq_error_iff.mpr (h.wiringFault_of_reads hreads)
    · cases h with
      | unread split read fails =>
        refine .inl (mapM_eq_error_iff.mpr ⟨_, r, _, split, fun b hb => ?_, fails_iff.mp fails⟩)
        obtain ⟨d, hd⟩ := read b hb
        obtain ⟨ws, hok⟩ := reads_iff.mp hd
        exact ⟨(d, ws), hok⟩
      | duplicate read => exact absurd read hall
      | unresolved read => exact absurd read hall

/-- The scripts that are read. -/
theorem exists_ofScript_eq_ok_iff :
    (∃ p, Parsed.ofScript script = .ok p) ↔
      (∀ r ∈ (Records.ofScript script).records, ∃ d, Reads r d) ∧
      ((Records.ofScript script).records.map (·.name)).Nodup ∧
      ∀ r ∈ (Records.ofScript script).records, ∀ d, Reads r d → ∀ s ∈ d.inputs,
        canonicalName s ∈ (Records.ofScript script).records.map (·.name) := by
  constructor
  · rintro ⟨p, hp⟩
    obtain ⟨ds, hreads, hg⟩ := ofScript_eq_ok_iff.mp ⟨p, hp, rfl⟩
    obtain ⟨⟨hnodup, hresolved⟩, -⟩ := graphOf_eq_ok_iff.mp hg
    rw [declaredNames_of_reads hreads] at hnodup hresolved
    refine ⟨forall_reads hreads, hnodup, fun r hr d hd => ?_⟩
    obtain ⟨d', hd', hread⟩ := exists_right_of_forall₂ hreads hr
    obtain rfl := hd.unique hread
    exact hresolved d hd'
  · rintro ⟨hall, hnodup, hresolved⟩
    obtain ⟨ds, hreads⟩ := exists_reads hall
    have hds : Resolvable ds := by
      rw [← declaredNames_of_reads hreads] at hnodup hresolved
      refine ⟨hnodup, fun d hd => ?_⟩
      obtain ⟨r, hr, hread⟩ := exists_left_of_forall₂ hreads hd
      exact hresolved r hr d hread
    obtain ⟨p, hp, -⟩ := ofScript_eq_ok_iff.mpr ⟨ds, hreads, graphOf_of_resolvable hds⟩
    exact ⟨p, hp⟩

/-- What is read of a script is the graph of what its records are read as. -/
theorem exists_reads_of_ofScript {p : Parsed} (hp : Parsed.ofScript script = .ok p) :
    ∃ ds, List.Forall₂ Reads (Records.ofScript script).records ds ∧ p.graph = wiredGraph ds := by
  obtain ⟨ds, hreads, hg⟩ := ofScript_eq_ok_iff.mp ⟨p, hp, rfl⟩
  exact ⟨ds, hreads, (graphOf_eq_ok_iff.mp hg).2⟩

theorem consistent_ofScript {p : Parsed} (hp : Parsed.ofScript script = .ok p) :
    p.graph.Consistent := by
  obtain ⟨ds, -, hgraph⟩ := exists_reads_of_ofScript hp
  rw [hgraph]
  exact consistent_wiredGraph ds

theorem size_ofScript {p : Parsed} (hp : Parsed.ofScript script = .ok p) :
    p.graph.size = (Records.ofScript script).records.length := by
  obtain ⟨ds, hreads, hgraph⟩ := exists_reads_of_ofScript hp
  rw [hgraph, size_wiredGraph, hreads.length_eq]

/-- The nodes of a script are its records, in order. -/
theorem exists_node_ofScript {p : Parsed} (hp : Parsed.ofScript script = .ok p) {k : Nat}
    {r : Record} (hr : (Records.ofScript script).records[k]? = some r) :
    ∃ (d : Declaration) (node : Node), Reads r d ∧ p.graph.nodes[k]? = some node ∧ node.id = k ∧
      node.name = canonicalName r.label ∧ node.nodeType = d.nodeType ∧
      node.attributes = d.attributes ∧ node.span = r.span := by
  obtain ⟨ds, hreads, hgraph⟩ := exists_reads_of_ofScript hp
  obtain ⟨d, hd, hread⟩ := exists_getElem?_of_forall₂ hreads hr
  obtain ⟨node, hnode, hbare⟩ := exists_getElem?_wiredGraph hd
  refine ⟨d, node, hread, hgraph ▸ hnode, congrArg Node.id hbare, ?_, congrArg Node.nodeType hbare,
    congrArg Node.attributes hbare, ?_⟩
  · exact (congrArg Node.name hbare).trans hread.name_eq
  · exact (congrArg Node.span hbare).trans hread.span_eq

end Outcome

/-- **A script has one outcome.** It is the error of the first record that cannot be read; else that
of the first name declared twice; else that of the first reference to no node; else the nodes of
all records, in order. An error is attributed to its record by name and lines, the last of which is
a marker line of the script. -/
theorem ofScript_outcome (script : String) :
    (∀ e, Parsed.ofScript script = .error e ↔
      ∃ r, ScriptFault (Records.ofScript script).records r e) ∧
    ((∃ p, Parsed.ofScript script = .ok p) ↔
      (∀ r ∈ (Records.ofScript script).records, ∃ d, Reads r d) ∧
      ((Records.ofScript script).records.map (·.name)).Nodup ∧
      ∀ r ∈ (Records.ofScript script).records, ∀ d, Reads r d → ∀ s ∈ d.inputs,
        canonicalName s ∈ (Records.ofScript script).records.map (·.name)) ∧
    (∀ p, Parsed.ofScript script = .ok p →
      p.graph.size = (Records.ofScript script).records.length ∧
      ∀ k r, (Records.ofScript script).records[k]? = some r →
        ∃ (d : Declaration) (node : Node), Reads r d ∧ p.graph.nodes[k]? = some node ∧ node.id = k ∧
          node.name = canonicalName r.label ∧ node.nodeType = d.nodeType ∧
          node.attributes = d.attributes ∧ node.span = r.span) ∧
    ∀ r e, ScriptFault (Records.ofScript script).records r e →
      e.span = r.span ∧
      e.nodeName = (if canonicalName r.label = "" then r.label else canonicalName r.label) ∧
      1 ≤ r.span.stop.line ∧
      ∃ text, (Text.lines script.toList)[r.span.stop.line - 1]? = some text ∧
        marker <:+: text.filter (· != '\t') := by
  refine ⟨fun e => ofScript_eq_error_iff, exists_ofScript_eq_ok_iff,
    fun p hp => ⟨size_ofScript hp, fun k r hr => exists_node_ofScript hp hr⟩, fun r e h => ?_⟩
  obtain ⟨hr, hspan, hname⟩ := h.attribution
  obtain ⟨hline, hmarker⟩ := Records.exists_marker_line hr
  exact ⟨hspan, hname, hline, hmarker⟩

/-- A tab inside the marker hides it from a reader of the script: the line that the error names
does not hold it as written. -/
theorem error_off_marker_line :
    Parsed.ofScript "src ~\t> x\nsrc ~> y" =
        .error (.malformedRecord "x" .noOpening (Span.lines 1 1)) ∧
      (Text.lines "src ~\t> x\nsrc ~> y".toList)[0]? = some "src ~\t> x".toList ∧
      ¬ marker <:+: "src ~\t> x".toList := by
  refine ⟨?_, ?_, ?_⟩
  · decide +kernel
  · decide +kernel
  · decide +kernel

end FlowDoc.Script
