import FlowDoc.Proofs.Batch.Accounts
import FlowDoc.Proofs.Files
import FlowDoc.Proofs.Render.Keys
import FlowDoc.Proofs.Script.Outcome
import FlowDoc.Proofs.Text.Parts

/-!
# Reading the list of the documents

A run on a tree of files that succeeds has written a file for each stem of its report, and the file
that lists the stems holds a line for each line of a stem. So the stems are read back from there
where each is one line. A name with a line feed is a plain file name, and a stem that holds one is
read back as several.

## Main definitions

* `listed`: the lines of a text that a line feed ends
* `Backed`: the documents of a report are files of a tree

## Main results

* `listed_eq_iff`: when stems are read back
* `backed_place`, `backed_writeAll`: what a document adds to a tree, and all documents
* `exists_backed_of_run`: the last write of a run
* `run_listing`: the stems of a run are read back
-/

namespace FlowDoc.Batch

/-! ## Lines of the list -/

/-- The lines of a text that a line feed ends. -/
def listed (order : String) : List String :=
  (Text.lines order.toList).dropLast.map String.ofList

/-- The lines of a stem. -/
def stemLines (stem : String) : List String :=
  (Text.lines stem.toList).map String.ofList

theorem listed_unlines (stems : List String) :
    listed (Text.unlines stems) = stems.flatMap stemLines := by
  rw [listed, Text.lines_unlines_eq_flatMap, List.dropLast_concat, List.map_flatMap]
  rfl

theorem feed_notMem_stemLines {stem line : String} (h : line ∈ stemLines stem) :
    '\n' ∉ line.toList := by
  obtain ⟨cs, hcs, rfl⟩ := List.mem_map.mp h
  rw [String.toList_ofList]
  exact fun hfeed => (Text.mem_of_mem_lines hcs hfeed).2 rfl

theorem stemLines_of_notMem {stem : String} (h : '\n' ∉ stem.toList) : stemLines stem = [stem] := by
  rw [stemLines, Text.lines_of_notMem h, List.map_singleton, String.ofList_toList]

/-- **When stems are read back**: when each is one line. -/
theorem listed_eq_iff {stems : List String} :
    listed (Text.unlines stems) = stems ↔ ∀ stem ∈ stems, '\n' ∉ stem.toList := by
  rw [listed_unlines]
  constructor
  · -- A stem that is read back is a line.
    intro h stem hstem
    rw [← h] at hstem
    obtain ⟨_, -, hline⟩ := List.mem_flatMap.mp hstem
    exact feed_notMem_stemLines hline
  · intro h
    rw [List.flatMap_congr fun stem hstem => stemLines_of_notMem (h stem hstem),
      List.flatMap_singleton']

/-! ## Files of the documents -/

/-- The stems of the report are not empty, and name files of the tree. -/
structure Backed (t : FileTree) (output : String) (format : Format) (r : Report) : Prop where
  named : "" ∉ r.stems
  files : ∀ stem ∈ r.stems, t.HasFile (target output format stem)

section Backed

variable {t t' : FileTree} {output : String} {format : Format} {r : Report}

theorem stems_addWritten (input : String) (rendered : Rendered) :
    (r.addWritten output format input rendered).stems = r.stems ++ [rendered.stem] := by
  rw [Report.stems, Report.addWritten, List.map_append]
  rfl

theorem Backed.write (h : Backed t output format r) {path text : String}
    (hwrite : t.write path text = .ok t') : Backed t' output format r where
  named := h.named
  files stem hstem := (h.files stem hstem).write hwrite

theorem Backed.addWritten (h : Backed t output format r) {document : Rendered}
    (hname : document.stem ≠ "") (hfile : t.HasFile (target output format document.stem))
    (input : String) : Backed t output format (r.addWritten output format input document) := by
  constructor
  · rw [stems_addWritten, List.mem_append, List.mem_singleton, not_or]
    exact ⟨h.named, Ne.symm hname⟩
  · rw [stems_addWritten]
    intro stem hstem
    rcases List.mem_append.mp hstem with hstem | hstem
    · exact h.files stem hstem
    · rw [List.mem_singleton.mp hstem]
      exact hfile

/-- **What a document adds to a tree** is its file. -/
theorem backed_place (h : Backed t output format r) {outcome : Except Failure Rendered}
    (hname : ∀ document, outcome = .ok document → document.stem ≠ "")
    {result : Except String Rendered}
    (hplace : (place FileTree.access.write output format r.stems outcome).run t = (result, t')) :
    Backed t' output format r ∧ ∀ document, result = .ok document →
      ∀ input, Backed t' output format (r.addWritten output format input document) := by
  unfold place at hplace
  split at hplace
  · obtain ⟨rfl, rfl⟩ := Prod.mk.inj hplace
    exact ⟨h, fun document hok => by cases hok⟩
  · rename_i document
    split_ifs at hplace with htaken
    · obtain ⟨rfl, rfl⟩ := Prod.mk.inj hplace
      exact ⟨h, fun document hok => by cases hok⟩
    · cases hwrite : t.write (target output format document.stem) document.content with
      | error e =>
        rw [run_bind_of_eq (FileTree.run_write_of_error hwrite)] at hplace
        obtain ⟨rfl, rfl⟩ := Prod.mk.inj hplace
        exact ⟨h, fun document hok => by cases hok⟩
      | ok written =>
        rw [run_bind_of_eq (FileTree.run_write_of_ok hwrite)] at hplace
        obtain ⟨rfl, rfl⟩ := Prod.mk.inj hplace
        refine ⟨h.write hwrite, fun document' hok input => ?_⟩
        obtain rfl := Except.ok.inj hok
        exact (h.write hwrite).addWritten (hname _ rfl) (.of_write hwrite) input

/-- **All documents** that are written are files of the tree. -/
theorem backed_writeAll {options : Options} {r r' : Report} {complete : Bool}
    {rendered : List (String × Except Failure Rendered)} (h : Backed t output options.format r)
    (hnames : ∀ pair ∈ rendered, ∀ document, pair.2 = .ok document → document.stem ≠ "")
    (hrun : (writeAll FileTree.access.write output options r rendered).run t =
      ((r', complete), t')) : Backed t' output options.format r' := by
  -- Each input leads from a tree that backs the report to another one, whether or not it gets a
  -- document; so the tree and the report change along the induction.
  induction rendered generalizing t r with
  | nil =>
    obtain ⟨hpair, rfl⟩ := Prod.mk.inj hrun
    obtain ⟨rfl, -⟩ := Prod.mk.inj hpair
    exact h
  | cons pair rendered ih =>
    obtain ⟨input, outcome⟩ := pair
    obtain ⟨hname, hnames⟩ := List.forall_mem_cons.mp hnames
    rw [writeAll] at hrun
    obtain ⟨⟨result, placed⟩, hplace⟩ : ∃ step,
        (place FileTree.access.write output options.format r.stems outcome).run t = step := ⟨_, rfl⟩
    obtain ⟨hformer, hwritten⟩ := backed_place h hname hplace
    rw [run_bind_of_eq hplace] at hrun
    cases result with
    | ok document => exact ih (hwritten document rfl input) hnames hrun
    | error error =>
      dsimp only at hrun
      split_ifs at hrun
      · -- A run that stops here reports one more failure, and no other document.
        obtain ⟨hpair, rfl⟩ := Prod.mk.inj hrun
        obtain ⟨rfl, -⟩ := Prod.mk.inj hpair
        exact ⟨hformer.named, hformer.files⟩
      · have hskipped : Backed placed output options.format (r.addSkipped input error) :=
          ⟨hformer.named, hformer.files⟩
        exact ih hskipped hnames hrun

/-! ## The last write -/

theorem exists_backed_of_publish {options : Options} {report : Report} {log : List LogLine}
    {rendered : List (String × Except Failure Rendered)}
    (hnames : ∀ pair ∈ rendered, ∀ document, pair.2 = .ok document → document.stem ≠ "")
    (hrun : (publish FileTree.access output options rendered).run t = ((.ok report, log), t')) :
    ∃ before, Backed before output options.format report ∧
      before.write (Path.join output orderFile) (orderText report.stems) = .ok t' := by
  rw [publish] at hrun
  obtain ⟨⟨made, folder⟩, hmake⟩ : ∃ step, (FileTree.access.makeFolder output).run t = step :=
    ⟨_, rfl⟩
  rw [run_bind_of_eq hmake] at hrun
  cases made with
  | error e => cases hrun
  | ok _ =>
    obtain ⟨⟨⟨report', complete⟩, before⟩, hwrites⟩ : ∃ step,
      (writeAll FileTree.access.write output options {} rendered).run folder = step := ⟨_, rfl⟩
    have hnone : Backed folder output options.format {} :=
      ⟨List.not_mem_nil, fun stem hstem => absurd hstem List.not_mem_nil⟩
    have hbacked := backed_writeAll hnone hnames hwrites
    dsimp only at hrun
    rw [run_bind_of_eq hwrites] at hrun
    dsimp only at hrun
    split at hrun
    · -- A run that was stopped yields no report.
      cases hrun
    · cases horder : before.write (Path.join output orderFile) (orderText report'.stems) with
      | error e =>
        rw [run_bind_of_eq (FileTree.run_write_of_error horder)] at hrun
        cases hrun
      | ok after =>
        rw [run_bind_of_eq (FileTree.run_write_of_ok horder)] at hrun
        obtain ⟨hpair, rfl⟩ := Prod.mk.inj hrun
        obtain ⟨hreport, -⟩ := Prod.mk.inj hpair
        obtain rfl := Except.ok.inj hreport
        exact ⟨before, hbacked, horder⟩

/-- **The last write of a run** that succeeds is that of the list, after its documents. -/
theorem exists_backed_of_run {folder : String} {config : Config} {options : Options}
    {report : Report}
    (h : ((run FileTree.access folder output config options).run t).1.1 = .ok report) :
    ∃ before, Backed before output options.format report ∧
      before.write (Path.join output orderFile) (orderText report.stems) =
        .ok ((run FileTree.access folder output config options).run t).2 := by
  obtain ⟨⟨entries, listed⟩, hlist⟩ : ∃ step, (FileTree.access.list folder).run t = step := ⟨_, rfl⟩
  cases entries with
  | error e =>
    rw [run, run_bind_of_eq hlist] at h
    cases h
  | ok entries =>
    obtain ⟨⟨rendered, after⟩, hrendered⟩ : ∃ step, ((inputs entries).mapM
      (renderInput FileTree.access config options.format folder)).run listed = step := ⟨_, rfl⟩
    rw [run_of_list output options hlist hrendered] at h ⊢
    refine exists_backed_of_publish ?_ (Prod.ext (Prod.ext h rfl) rfl)
    have hnames := gives_rendered FileTree.access config options.format folder entries listed
    rw [hrendered] at hnames
    -- What is published is what was rendered, without the log.
    intro pair hpair
    obtain ⟨r, hr, rfl⟩ := List.mem_map.mp hpair
    exact hnames r hr

/-- **The stems of a run are read back** from the list of the documents where none of them holds a
line feed, and only there: each stem has a line for each of its lines. Each of them names a file. -/
theorem run_listing (t : FileTree) (folder output : String) (config : Config) (options : Options)
    {report : Report}
    (h : ((run FileTree.access folder output config options).run t).1.1 = .ok report) :
    let after := ((run FileTree.access folder output config options).run t).2
    ∃ order, after.read (Path.join output orderFile) = .ok order ∧
      listed order = report.stems.flatMap stemLines ∧
      (listed order = report.stems ↔ ∀ stem ∈ report.stems, '\n' ∉ stem.toList) ∧
      ∀ stem ∈ report.stems, after.HasFile (target output options.format stem) := by
  intro after
  obtain ⟨before, hbacked, hwrite⟩ := exists_backed_of_run h
  refine ⟨_, FileTree.read_of_write hwrite, ?_, ?_, (hbacked.write hwrite).files⟩
  · rw [orderText_eq hbacked.named, listed_unlines]
  · rw [orderText_eq hbacked.named, listed_eq_iff]

end Backed

/-! ## A stem of two lines -/

/-- The document of a source alone, under a name. -/
def sourceText (name : String) : String :=
  "\x7b\"name\":\"" ++ name ++
    "\",\"properties\":\x7b\"typeProperties\":\x7b\"script\":\"source(a: 1) ~> src\"\x7d\x7d\x7d"

/-- A folder with two documents, of which the second has a name of two lines. -/
def feedTree : FileTree where
  entries :=
    [(["in"], .folder), (["in", "a.json"], .file (FileTree.bytesOf (sourceText "Orders"))),
      (["in", "b.json"], .file (FileTree.bytesOf (sourceText "a\\nb")))]

/-- What is read of the scripts in `feedTree`. -/
def feedParsed : Script.Parsed where
  graph :=
    { nodes :=
        #[{ id := 0, name := "src", nodeType := "source", attributes := ⟨[("a", "1")]⟩,
            span := Span.lines 1 1 }] }
  warnings := []

theorem ofDocument_sourceText {name : String} (own : String)
    (h : Document.read (sourceText name) =
      .ok { name := some own, script := "source(a: 1) ~> src" }) :
    Dataflow.ofDocument (sourceText name) =
      .ok { name := some own, graph := feedParsed.graph } := by
  have hparsed : Script.Parsed.ofScript "source(a: 1) ~> src" = .ok feedParsed :=
    Script.ofScript_eq_ok_iff_evaluate.mpr (by decide +kernel)
  rw [Dataflow.ofDocument, h]
  dsimp only
  rw [hparsed]
  rfl

theorem run_renderInput {t : FileTree} {text : String} {d : Dataflow} (folder name : String)
    (config : Config) (hread : t.read (Path.join folder name) = .ok text)
    (hd : Dataflow.ofDocument text = .ok d) (hids : ∀ id ∈ d.graph.shownIds, id + 1 < wordBound) :
    ∃ log, (renderInput FileTree.access config .markdown folder name).run t =
      (((Path.join folder name, .ok ⟨stemOf name d.name, markdown d.graph config⟩), log), t) := by
  have hrun : (FileTree.access.read (Path.join folder name)).run t = (.ok text, t) :=
    Prod.ext hread rfl
  have hrender : ∃ log,
      (render FileTree.access config .markdown (Path.join folder name) name).run t =
        ((.ok ⟨stemOf name d.name, markdown d.graph config⟩, log), t) := by
    have hdrawn : drawMarkdown d.graph config = .ok (markdown d.graph config) :=
      naming_eq_ok_iff.mpr ⟨hids, rfl⟩
    rw [render, run_bind_of_eq hrun]
    dsimp only
    rw [hd]
    dsimp only
    rw [renderDocument, hdrawn]
    exact ⟨_, rfl⟩
  obtain ⟨log, hrender⟩ := hrender
  refine ⟨log, ?_⟩
  rw [renderInput]
  dsimp only
  rw [run_bind_of_eq hrender]
  rfl

/-- The documents of `feedTree`, each with the stem that its data flow has. -/
def feedDocuments : List (String × Except Failure Rendered) :=
  [(Path.join "in" "a.json",
      .ok ⟨stemOf "a.json" (some "Orders"), markdown feedParsed.graph {}⟩),
    (Path.join "in" "b.json",
      .ok ⟨stemOf "b.json" (some "a\nb"), markdown feedParsed.graph {}⟩)]

theorem run_feedTree :
    ∃ report, ((run FileTree.access "in" "out" {} {}).run feedTree).1.1 = .ok report ∧
      report.stems = ["Orders", "a\nb"] := by
  have hentries : feedTree.list "in" = .ok [("a.json", true), ("b.json", true)] := by
    decide +kernel
  have hinputs : inputs [("a.json", true), ("b.json", true)] = ["a.json", "b.json"] := by
    decide +kernel
  have hread₁ : feedTree.read (Path.join "in" "a.json") = .ok (sourceText "Orders") := by
    decide +kernel
  have hread₂ : feedTree.read (Path.join "in" "b.json") = .ok (sourceText "a\\nb") := by
    decide +kernel
  obtain ⟨_, hfirst⟩ := run_renderInput "in" "a.json" {} hread₁
    (ofDocument_sourceText "Orders" (by decide +kernel)) (by decide)
  obtain ⟨_, hsecond⟩ := run_renderInput "in" "b.json" {} hread₂
    (ofDocument_sourceText "a\nb" (by decide +kernel)) (by decide)
  obtain ⟨rendered, hrendered, hdocuments⟩ : ∃ rendered,
      ((inputs [("a.json", true), ("b.json", true)]).mapM
        (renderInput FileTree.access {} (Options.format {}) "in")).run feedTree =
          (rendered, feedTree) ∧
      rendered.map (·.1) = feedDocuments := by
    rw [hinputs, List.mapM_cons, run_bind_of_eq hfirst, List.mapM_cons, StateT.run_bind,
      run_bind_of_eq hsecond]
    refine ⟨_, rfl, ?_⟩
    rfl
  have hlist : (FileTree.access.list "in").run feedTree =
      (.ok [("a.json", true), ("b.json", true)], feedTree) :=
    Prod.ext hentries rfl
  have hstems : ((publish FileTree.access "out" {} feedDocuments).run feedTree).1.1.map
      (·.stems) = .ok ["Orders", "a\nb"] := by
    decide +kernel
  rw [run_of_list "out" {} hlist hrendered, hdocuments]
  cases hpublish : ((publish FileTree.access "out" {} feedDocuments).run feedTree).1.1 with
  | error e =>
    rw [hpublish] at hstems
    cases hstems
  | ok report =>
    rw [hpublish] at hstems
    exact ⟨report, rfl, Except.ok.inj hstems⟩

theorem run_listing_feedTree :
    ∃ report, ((run FileTree.access "in" "out" {} {}).run feedTree).1.1 = .ok report ∧
      let after := ((run FileTree.access "in" "out" {} {}).run feedTree).2
      (∀ stem ∈ ["Orders", "a\nb"], after.HasFile (target "out" .markdown stem)) ∧
        ∃ order, after.read (Path.join "out" orderFile) = .ok order ∧
          listed order ≠ report.stems := by
  obtain ⟨report, h, hstems⟩ := run_feedTree
  obtain ⟨order, hread, -, hlisted, hfiles⟩ := run_listing feedTree "in" "out" {} {} h
  refine ⟨report, h, hstems ▸ hfiles, order, hread, fun heq => ?_⟩
  have hfeed : '\n' ∉ "a\nb".toList := by
    refine hlisted.mp heq _ ?_
    rw [hstems]
    exact List.mem_cons_of_mem _ (List.mem_singleton_self _)
  exact hfeed (by decide)

/-- **A list that reads back otherwise**: two documents are written, and three lines are listed. -/
theorem listed_feedTree :
    ∃ report order, ((run FileTree.access "in" "out" {} {}).run feedTree).1.1 = .ok report ∧
      report.stems = ["Orders", "a\nb"] ∧
      ((run FileTree.access "in" "out" {} {}).run feedTree).2.read (Path.join "out" orderFile) =
        .ok order ∧
      listed order = ["Orders", "a", "b"] := by
  obtain ⟨report, h, hstems⟩ := run_feedTree
  obtain ⟨before, -, hwrite⟩ := exists_backed_of_run h
  refine ⟨report, _, h, hstems, FileTree.read_of_write hwrite, ?_⟩
  rw [hstems]
  decide +kernel

end FlowDoc.Batch
