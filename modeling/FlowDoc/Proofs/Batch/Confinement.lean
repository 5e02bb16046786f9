import FlowDoc.Proofs.Batch.Production
import FlowDoc.Proofs.Path

/-!
# Where a run writes

A run writes in the folder of its output only. Each document goes to a file there whose name is a
stem with an extension. The stem is the name of the data flow where this is a plain file name. Any
other text gives way to the stem of the input, which may itself be one or two dots; but no file of
this name is written, since the extension comes behind it.

## Main definitions

* `Plain`: plain file names
* `StemOf`: the stem of the document of an input
* `FileOf`: a path to one file of a folder

## Main results

* `stemOf_spec`: the stem of the document of an input
* `fileOf_target`: a document is one file of the folder
* `run_confined`: what a run writes at most, and at least
-/

namespace FlowDoc.Batch

/-! ## Stems -/

/-- The name has no slash of either kind, and is not empty and not one or two dots. -/
def Plain (name : String) : Prop :=
  '/' ∉ name.toList ∧ '\\' ∉ name.toList ∧ name ≠ "" ∧ name ≠ "." ∧ name ≠ ".."

/-- The stem of the document of the file `fileName`, whose data flow may have a name. -/
structure StemOf (fileName : String) (name : Option String) (stem : String) : Prop where
  /-- The stem is the trimmed name of the data flow where this is plain, and otherwise that of the
  file. -/
  of_plain : ∀ own, name.map Text.trimmed = some own → Plain own → stem = own
  of_not_plain : (∀ own, name.map Text.trimmed = some own → ¬ Plain own) →
    stem = Path.stem fileName
  /-- A name that is not plain may still be the stem of the file. -/
  eq_own_iff : ∀ own, name.map Text.trimmed = some own →
    (stem = own ↔ Plain own ∨ own = Path.stem fileName)
  /-- The stem of the file is what stands before its last dot. -/
  fileName_eq : ∃ extension, fileName = Path.stem fileName ++ "." ++ extension ∧
    '.' ∉ extension.toList ∧ extension.toLower = "json"

section Stems

variable {fileName : String}

theorem exists_splitName? (h : isInput fileName = true) :
    ∃ extension, Path.splitName? fileName = some (Path.stem fileName, extension) ∧
      extension.toLower = "json" := by
  rw [isInput, Path.extension?] at h
  rw [Path.stem]
  cases hsplit : Path.splitName? fileName with
  | none =>
    rw [hsplit] at h
    cases h
  | some parts =>
    rw [hsplit] at h
    exact ⟨parts.2, rfl, by simpa using h⟩

/-- **The stem of the document of an input.** -/
theorem stemOf_spec (h : isInput fileName = true) (name : Option String) :
    StemOf fileName name (stemOf fileName name) := by
  obtain ⟨extension, hsplit, hjson⟩ := exists_splitName? h
  obtain ⟨hname, hdot, -⟩ := Path.splitName?_eq_some hsplit
  have hplain : ∀ own, name.map Text.trimmed = some own → Plain own →
      stemOf fileName name = own := by
    intro own hown hplain
    rw [stemOf, hown]
    exact if_pos (Path.isPlainName_iff.mpr hplain)
  have hother : (∀ own, name.map Text.trimmed = some own → ¬ Plain own) →
      stemOf fileName name = Path.stem fileName := by
    intro hother
    rw [stemOf]
    cases hown : name.map Text.trimmed with
    | none => rfl
    | some own => exact if_neg fun hplain => hother own hown (Path.isPlainName_iff.mp hplain)
  refine ⟨hplain, hother, fun own hown => ?_, extension, hname, hdot, hjson⟩
  by_cases hp : Plain own
  · exact iff_of_true (hplain own hown hp) (.inl hp)
  · have hstem : stemOf fileName name = Path.stem fileName := by
      refine hother fun own' hown' => ?_
      rwa [← Option.some.inj (hown.symm.trans hown')]
    rw [hstem, or_iff_right hp, eq_comm]

/-- No slash comes into a stem that is not in the file name. -/
theorem slash_notMem_stemOf (h : isInput fileName = true) (hslash : '/' ∉ fileName.toList)
    (name : Option String) : '/' ∉ (stemOf fileName name).toList := by
  have hspec := stemOf_spec h name
  by_cases hplain : ∃ own, name.map Text.trimmed = some own ∧ Plain own
  · obtain ⟨own, hown, hp⟩ := hplain
    rw [hspec.of_plain own hown hp]
    exact hp.1
  · obtain ⟨extension, hname, -⟩ := hspec.fileName_eq
    rw [hspec.of_not_plain fun own hown hp => hplain ⟨own, hown, hp⟩]
    intro hmem
    refine hslash ?_
    rw [hname, String.toList_append, String.toList_append]
    exact List.mem_append_left _ (List.mem_append_left _ hmem)

end Stems

/-! ## Files of the documents -/

/-- The path is that of one file of a folder, and not of the file that lists the documents. -/
structure FileOf (output file path : String) : Prop where
  path_eq : path = Path.join output file
  slash_notMem : '/' ∉ file.toList
  ne_places : file ≠ "." ∧ file ≠ ".."
  ne_order : file ≠ orderFile
  /-- The names along the path are those along the path of the folder, and the one of the file. -/
  parts_eq : Path.parts path = Path.parts output ++ [file]

/-- **A document is one file of the folder**, whatever the stem is besides the slashes. -/
theorem fileOf_target (output : String) (format : Format) {stem : String}
    (hslash : '/' ∉ stem.toList) :
    FileOf output (stem ++ "." ++ format.extension) (target output format stem) := by
  have hextension : '/' ∉ format.extension.toList := by cases format <;> decide
  have hfile : '/' ∉ (stem ++ "." ++ format.extension).toList := by
    rw [String.toList_append, String.toList_append, List.mem_append, List.mem_append]
    rintro ((h | h) | h)
    · exact hslash h
    · revert h
      decide
    · exact hextension h
  -- The last character is that of the extension.
  have hlast : ∀ name : String, name.toList.getLast? ≠ format.extension.toList.getLast? →
      stem ++ "." ++ format.extension ≠ name := by
    rintro name hne rfl
    refine hne ?_
    rw [String.toList_append, List.getLast?_append]
    cases format <;> rfl
  have hempty : stem ++ "." ++ format.extension ≠ "" := hlast "" (by cases format <;> decide)
  exact {
    path_eq := rfl
    slash_notMem := hfile
    ne_places := ⟨hlast "." (by cases format <;> decide), hlast ".." (by cases format <;> decide)⟩
    ne_order := hlast orderFile (by cases format <;> decide)
    parts_eq := Path.parts_join output hempty hfile }

/-! ## Runs -/

theorem mem_of_mem_inputs {entries : List (String × Bool)} {name : String}
    (h : name ∈ inputs entries) : ∃ isFile, (name, isFile) ∈ entries := by
  obtain ⟨⟨name, isFile⟩, hmem, rfl⟩ := List.mem_map.mp h
  exact ⟨isFile, List.mem_of_mem_filter (Text.mem_of_mem_byKey hmem)⟩

/-- **A run writes in the folder of its output only.** Whatever the files are and however they
change during the run, the only folder that it makes is that of its output, and it writes the file
there that lists the documents, and documents. Each document goes to one file of the folder, whose
name is a stem with the extension of the format. It shows the data flow that was read from an input,
and the stem is the trimmed name of this data flow where the name is plain, and that of the input
otherwise. And if the inputs can be listed, then each of them is rendered and the folder is made.
Where this succeeds and the run goes on to its end, each document that was rendered is written
there, unless one of its stem that comes before it is there already. -/
theorem run_confined {σ : Type} (files : FileAccess (StateM σ)) (state : σ)
    (folder output : String) (config : Config) (options : Options)
    (hnames : ∀ st entries, ((files.list folder).run st).1 = .ok entries →
      ∀ e ∈ entries, '/' ∉ e.1.toList) :
    let unwatched := (run files folder output config options).run state
    ∃ events, (run (watched files) folder output config options).run (state, []) =
        (unwatched.1, (unwatched.2, events)) ∧
      (∀ made result, .made made result ∈ events → made = output) ∧
      (∀ path text result, .written path text result ∈ events →
        path = Path.join output orderFile ∨
          ∃ entries name json d stem, .listed folder (.ok entries) ∈ events ∧
            name ∈ inputs entries ∧ .read (Path.join folder name) (.ok json) ∈ events ∧
            Dataflow.ofDocument json = .ok d ∧ Shows d.graph config text options.format ∧
            StemOf name d.name stem ∧
            FileOf output (stem ++ "." ++ options.format.extension) path) ∧
      ∀ entries, ((files.list folder).run state).1 = .ok entries →
        let rendered := renderedAfterList files state folder config options.format entries
        rendered.map (·.1) = (inputs entries).map (Path.join folder) ∧
        (∃ made, .made output made ∈ events) ∧
        (.made output (.ok ()) ∈ events →
          options.failFast = false ∨ (∃ report, unwatched.1.1 = .ok report) →
            (∃ text written, .written (Path.join output orderFile) text written ∈ events) ∧
            ∀ before input document after, rendered = before ++ (input, .ok document) :: after →
              document.ProducedAfter output options.format before events) := by
  intro unwatched
  obtain ⟨events, hrun, hevents⟩ := watches_run files folder output config options state []
  refine ⟨events, hrun, fun made result hmade => ?_, fun path text result hwritten => ?_,
    fun entries hlist => ⟨map_fst_renderedAfterList .., run_produces hlist hrun⟩⟩
  · rcases hevents _ hmade with hlooks | ⟨_, h⟩ | ⟨_, _, h⟩ | ⟨_, _, _, _, _, _, _, _, h⟩
    · exact hlooks.elim
    · cases h
      rfl
    · cases h
    · cases h
  · rcases hevents _ hwritten with hlooks | ⟨_, h⟩ | ⟨_, _, h⟩ |
      ⟨entries, name, document, hlisted, ⟨st, hst⟩, hname, ⟨json, d, hread, hd, hstem, hshows⟩,
        _, h⟩
    · exact hlooks.elim
    · cases h
    · cases h
      exact .inl rfl
    · cases h
      have hinput := isInput_of_mem_inputs hname
      obtain ⟨isFile, hmem⟩ := mem_of_mem_inputs hname
      have hslash := slash_notMem_stemOf hinput (hnames st entries hst _ hmem) d.name
      refine .inr ⟨entries, name, json, d, document.stem, hlisted, hname, hread, hd, hshows, ?_, ?_⟩
      · rw [hstem]
        exact stemOf_spec hinput d.name
      · rw [← hstem] at hslash
        exact fileOf_target output options.format hslash

/-- Files around a run with data flows whose names lead out of a folder, and files whose stems are
one and two dots. -/
def escapingSurroundings : Surroundings where
  entries := [("...json", true), ("..json", true), ("a.json", true), ("b.json", true),
    ("c.json", true)]
  reading path :=
    if path = "in/a.json" then .ok "\x7b\"name\": \" ../up \"\x7d"
    else if path = "in/b.json" then .ok "\x7b\"name\": \" .. up\"\x7d"
    else if path = "in/c.json" then .ok "\x7b\"name\": \"/c\"\x7d"
    else .ok "\x7b\x7d"
  writing _ _ _ := .ok ()

/-- Where an event writes. -/
def FileEvent.writtenPath? : FileEvent → Option String
  | .written path _ _ => some path
  | .listed _ _ | .read _ _ | .made _ _ => none

/-- The folder that an event makes. -/
def FileEvent.madePath? : FileEvent → Option String
  | .made folder (.ok ()) => some folder
  | .made _ (.error _) | .listed _ _ | .read _ _ | .written _ _ _ => none

/-- The events of a run with these files. -/
def escapingEvents : List FileEvent :=
  ((run (watched escapingSurroundings.files) "in" "out" {} ⟨.mermaid, false⟩).run ([], [])).2.2

/-- What this run makes and writes. -/
theorem paths_escapingEvents :
    (escapingEvents.filterMap FileEvent.madePath?,
        escapingEvents.filterMap FileEvent.writtenPath?) =
      (["out"], ["out/...mmd", "out/..mmd", "out/a.mmd", "out/.. up.mmd", "out/c.mmd",
        "out/.order"]) := by
  decide +kernel

theorem run_confined_escapingSurroundings :
    (∀ st entries, ((escapingSurroundings.files.list "in").run st).1 = .ok entries →
      ∀ e ∈ entries, '/' ∉ e.1.toList) ∧
    (∀ path ∈ ["out/...mmd", "out/..mmd", "out/a.mmd", "out/.. up.mmd", "out/c.mmd", "out/.order"],
      path = Path.join "out" orderFile ∨
        ∃ stem, FileOf "out" (stem ++ "." ++ Format.mermaid.extension) path) ∧
    ∀ before input document after,
      renderedAfterList escapingSurroundings.files [] "in" {} .mermaid
          escapingSurroundings.entries = before ++ (input, .ok document) :: after →
        document.ProducedAfter "out" .mermaid before escapingEvents := by
  have hnames : ∀ st entries, ((escapingSurroundings.files.list "in").run st).1 = .ok entries →
      ∀ e ∈ entries, '/' ∉ e.1.toList := by
    intro st entries h
    obtain rfl : escapingSurroundings.entries = entries := Except.ok.inj h
    decide
  obtain ⟨events, hrun, -, hwritten, hproduced⟩ :=
    run_confined escapingSurroundings.files [] "in" "out" {} ⟨.mermaid, false⟩ hnames
  obtain rfl : escapingEvents = events := by rw [escapingEvents, hrun]
  obtain ⟨hmakes, hwrites⟩ := Prod.mk.inj paths_escapingEvents
  refine ⟨hnames, fun path hpath => ?_, ?_⟩
  · rw [← hwrites] at hpath
    obtain ⟨e, he, hpath⟩ := List.mem_filterMap.mp hpath
    cases e with
    | written path' text result =>
      obtain rfl := Option.some.inj hpath
      rcases hwritten path' text result he with horder |
        ⟨_, _, _, _, stem, _, _, _, _, _, _, hfile⟩
      · exact .inl horder
      · exact .inr ⟨stem, hfile⟩
    | listed folder result => cases hpath
    | read path' result => cases hpath
    | made folder result => cases hpath
  · have hmade : .made "out" (.ok ()) ∈ escapingEvents := by
      obtain ⟨e, he, hfolder⟩ : ∃ e ∈ escapingEvents, e.madePath? = some "out" := by
        rw [← List.mem_filterMap, hmakes]
        exact List.mem_singleton_self _
      cases e with
      | made folder result =>
        cases result with
        | ok => exact Option.some.inj hfolder ▸ he
        | error e => cases hfolder
      | listed folder result => cases hfolder
      | read path result => cases hfolder
      | written path text result => cases hfolder
    exact ((hproduced _ rfl).2.2 hmade (.inl rfl)).2

end FlowDoc.Batch
