import FlowDoc.Proofs.Batch.Rendering
import FlowDoc.Proofs.Render.Keys

/-!
# Watching a run

What a run asks of files is noted in order, with what comes of it. A run that is watched does what
it does otherwise, and what is noted tells where each document comes from: from the listing of the
folder and from the text of a file. This holds for all files, also those that change during the run
or cannot be used.

## Main definitions

* `FileEvent`: what is asked of files, and what comes of it
* `watched`: access to files that notes the events
* `Watches`: a watched computation, and what holds of its events
* `DocumentOf`: what a document is made of

## Main results

* `watches_render`, `watches_writeAll`, `watches_publish`: the parts of a run
* `watches_run`: what a run asks of files
-/

namespace FlowDoc.Batch

/-! ## Events -/

/-- What is asked of files, and what comes of it. -/
inductive FileEvent where
  | listed (folder : String) (result : Except FileError (List (String × Bool)))
  | read (path : String) (result : Except FileError String)
  | written (path text : String) (result : Except FileError Unit)
  | made (folder : String) (result : Except FileError Unit)

/-- Whether files stay as they are. -/
def FileEvent.Looks : FileEvent → Prop
  | .listed _ _ | .read _ _ => True
  | .written _ _ _ | .made _ _ => False

section Watching

variable {σ α β : Type}

/-- A computation that notes the events of what it yields. -/
def noting (x : StateM σ α) (events : α → List FileEvent) : StateM (σ × List FileEvent) α :=
  fun (state, before) =>
    let (a, state') := x.run state
    (a, (state', before ++ events a))

/-- Access to the same files that notes the events. A run asks nothing else of files. -/
def watched (files : FileAccess (StateM σ)) : FileAccess (StateM (σ × List FileEvent)) where
  input := noting files.input fun _ => []
  pathExists path := noting (files.pathExists path) fun _ => []
  read path := noting (files.read path) fun result => [.read path result]
  write path text := noting (files.write path text) fun result => [.written path text result]
  list folder := noting (files.list folder) fun result => [.listed folder result]
  makeFolder folder := noting (files.makeFolder folder) fun result => [.made folder result]

/-- The first computation does what the second one does and notes events, of which `q` holds
together with what it yields. -/
def Watches (x : StateM (σ × List FileEvent) α) (y : StateM σ α)
    (q : α → List FileEvent → Prop) : Prop :=
  ∀ state before, ∃ events,
    x.run (state, before) = ((y.run state).1, ((y.run state).2, before ++ events)) ∧
      q (y.run state).1 events

namespace Watches

variable {x : StateM (σ × List FileEvent) α} {y : StateM σ α} {q q' : α → List FileEvent → Prop}

theorem read (files : FileAccess (StateM σ)) (path : String) :
    Watches ((watched files).read path) (files.read path) fun result events =>
      events = [.read path result] :=
  fun _ _ => ⟨_, rfl, rfl⟩

theorem write (files : FileAccess (StateM σ)) (path text : String) :
    Watches ((watched files).write path text) (files.write path text) fun result events =>
      events = [.written path text result] :=
  fun _ _ => ⟨_, rfl, rfl⟩

theorem list (files : FileAccess (StateM σ)) (folder : String) :
    Watches ((watched files).list folder) (files.list folder) fun result events =>
      events = [.listed folder result] ∧ ∃ state, ((files.list folder).run state).1 = result :=
  fun state _ => ⟨_, rfl, rfl, state, rfl⟩

theorem makeFolder (files : FileAccess (StateM σ)) (folder : String) :
    Watches ((watched files).makeFolder folder) (files.makeFolder folder) fun result events =>
      events = [.made folder result] :=
  fun _ _ => ⟨_, rfl, rfl⟩

theorem pure {a : α} (h : q a []) :
    Watches (pure a : StateM (σ × List FileEvent) α) (pure a : StateM σ α) q :=
  fun _ before => ⟨[], by rw [List.append_nil]; rfl, h⟩

theorem mono (h : Watches x y q) (hq : ∀ a events, q a events → q' a events) : Watches x y q' := by
  intro state before
  obtain ⟨events, hrun, hevents⟩ := h state before
  exact ⟨events, hrun, hq _ _ hevents⟩

theorem bind {f : α → StateM (σ × List FileEvent) β} {g : α → StateM σ β}
    {r : β → List FileEvent → Prop} (h : Watches x y q)
    (hf : ∀ a events, q a events → Watches (f a) (g a) fun b more => r b (events ++ more)) :
    Watches (x >>= f) (y >>= g) r := by
  intro state before
  obtain ⟨events, hrun, hevents⟩ := h state before
  obtain ⟨more, hrun', hmore⟩ := hf _ _ hevents (y.run state).2 (before ++ events)
  refine ⟨events ++ more, ?_, hmore⟩
  rw [run_bind_of_eq hrun, hrun', List.append_assoc]
  rfl

/-- What holds of the events of each element holds of those of all. -/
theorem mapM {γ : Type} {f : γ → StateM (σ × List FileEvent) β} {g : γ → StateM σ β} {cs : List γ}
    {r : β → List FileEvent → Prop} {r' : List β → List FileEvent → Prop} (hnil : r' [] [])
    (hcons : ∀ b events bs more, r b events → r' bs more → r' (b :: bs) (events ++ more))
    (h : ∀ c ∈ cs, Watches (f c) (g c) r) : Watches (cs.mapM f) (cs.mapM g) r' := by
  induction cs with
  | nil => exact pure hnil
  | cons c cs ih =>
    obtain ⟨hc, hcs⟩ := List.forall_mem_cons.mp h
    rw [List.mapM_cons, List.mapM_cons]
    refine bind hc fun b events hb => bind (ih hcs) fun bs more hbs => pure ?_
    rw [List.append_nil]
    exact hcons b events bs more hb hbs

end Watches

end Watching

/-! ## Rendering -/

/-- What a document of each kind shows of a graph. -/
def Shows (g : Graph) (config : Config) (content : String) : Format → Prop
  | .markdown => content = markdown g config
  | .mermaid => content = flowchart g config
  | .html => ∃ template, renderPage g config template = .ok content

/-- The document shows the data flow in a text that was read, and has its name. -/
def DocumentOf (config : Config) (format : Format) (input fileName : String)
    (events : List FileEvent) (document : Rendered) : Prop :=
  ∃ text d, .read input (.ok text) ∈ events ∧ Dataflow.ofDocument text = .ok d ∧
    document.stem = stemOf fileName d.name ∧ Shows d.graph config document.content format

theorem DocumentOf.mono {config : Config} {format : Format} {input fileName : String}
    {events more : List FileEvent} {document : Rendered}
    (h : DocumentOf config format input fileName events document) (hsub : events ⊆ more) :
    DocumentOf config format input fileName more document := by
  obtain ⟨text, d, hread, hdocument⟩ := h
  exact ⟨text, d, hsub hread, hdocument⟩

section Rendering

variable {σ : Type} (files : FileAccess (StateM σ)) (config : Config) (format : Format)

theorem watches_renderDocument (g : Graph) :
    Watches (renderDocument (watched files) g config format) (renderDocument files g config format)
      fun result events => (∀ e ∈ events, e.Looks) ∧
        ∀ content, result = .ok content → Shows g config content format := by
  -- What is drawn is the text.
  have hdrawn {text content : String} (h : drawnDocument (naming g.shownIds text) = .ok content) :
      content = text :=
    (naming_eq_ok_iff.mp (drawnDocument_eq_ok_iff.mp h)).2.symm
  cases format with
  | markdown => exact .pure ⟨List.forall_mem_nil _, fun content h => hdrawn h⟩
  | mermaid => exact .pure ⟨List.forall_mem_nil _, fun content h => hdrawn h⟩
  | html =>
    rw [renderDocument, renderDocument]
    cases config.htmlTemplate with
    | none => exact .pure ⟨List.forall_mem_nil _, fun content h => ⟨_, h⟩⟩
    | some path =>
      -- The template is the only file besides the input that is read.
      refine .bind (.read files path) fun result events hevents => ?_
      subst hevents
      cases result with
      | ok template =>
        exact .pure ⟨by simp [FileEvent.Looks], fun content h => ⟨_, h⟩⟩
      | error e => exact .pure ⟨by simp [FileEvent.Looks], fun content h => by cases h⟩

/-- **Rendering** leaves files as they are, and a document shows what was read. -/
theorem watches_render (input fileName : String) :
    Watches (render (watched files) config format input fileName)
      (render files config format input fileName) fun result events => (∀ e ∈ events, e.Looks) ∧
        ∀ document, result.1 = .ok document →
          DocumentOf config format input fileName events document := by
  rw [render, render]
  refine .bind (.read files input) fun result events hevents => ?_
  subst hevents
  cases result with
  | error e => exact .pure ⟨by simp [FileEvent.Looks], fun document h => by cases h⟩
  | ok text =>
    dsimp only
    cases hd : Dataflow.ofDocument text with
    | error e => exact .pure ⟨by simp [FileEvent.Looks], fun document h => by cases h⟩
    | ok d =>
      refine .bind (watches_renderDocument files config format d.graph)
        fun result events hevents => ?_
      obtain ⟨hlooks, hshows⟩ := hevents
      have hall : ∀ e ∈ .read input (.ok text) :: (events ++ []), e.Looks := by
        rw [List.append_nil]
        exact List.forall_mem_cons.mpr ⟨trivial, hlooks⟩
      cases result with
      | error e => exact .pure ⟨hall, fun document h => by cases h⟩
      | ok content =>
        refine .pure ⟨hall, fun document h => ?_⟩
        obtain rfl := Except.ok.inj h
        exact ⟨text, d, List.mem_cons_self, hd, rfl, hshows content rfl⟩

/-- What the inputs were rendered to: each document shows what was read from one of them. -/
theorem watches_rendered (folder : String) (names : List String) :
    Watches (names.mapM (renderInput (watched files) config format folder))
      (names.mapM (renderInput files config format folder)) fun rendered events =>
        (∀ e ∈ events, e.Looks) ∧ ∀ r ∈ rendered, ∀ document, r.1.2 = .ok document →
          ∃ name ∈ names,
            DocumentOf config format (Path.join folder name) name events document := by
  refine .mapM (r := fun r events => (∀ e ∈ events, e.Looks) ∧ ∀ document, r.1.2 = .ok document →
    ∃ name ∈ names, DocumentOf config format (Path.join folder name) name events document)
    ⟨List.forall_mem_nil _, List.forall_mem_nil _⟩ ?_ fun name hname => ?_
  · rintro r events rs more ⟨hlooks, hr⟩ ⟨hmore, hrs⟩
    refine ⟨List.forall_mem_append.mpr ⟨hlooks, hmore⟩, List.forall_mem_cons.mpr ⟨?_, ?_⟩⟩
    · intro document h
      obtain ⟨name, hname, hdocument⟩ := hr document h
      exact ⟨name, hname, hdocument.mono (List.subset_append_left events more)⟩
    · intro r' hr' document h
      obtain ⟨name, hname, hdocument⟩ := hrs r' hr' document h
      exact ⟨name, hname, hdocument.mono (List.subset_append_right events more)⟩
  · rw [renderInput, renderInput]
    refine .bind (watches_render files config format (Path.join folder name) name)
      fun result events hevents => .pure ?_
    obtain ⟨hlooks, hdocument⟩ := hevents
    rw [List.append_nil]
    exact ⟨hlooks, fun document h => ⟨name, hname, hdocument document h⟩⟩

end Rendering

/-! ## Writing -/

section Writing

variable {σ : Type} (files : FileAccess (StateM σ)) (output : String) (options : Options)

/-- A document is written to its target. -/
def FileEvent.Writes (output : String) (format : Format) (document : Rendered) (e : FileEvent) :
    Prop :=
  ∃ result, e = .written (target output format document.stem) document.content result

/-- A document is written if it was rendered, and only if its stem is not taken. -/
theorem watches_place (format : Format) (taken : List String)
    (outcome : Except Failure Rendered) :
    Watches (place (watched files).write output format taken outcome)
      (place files.write output format taken outcome) fun _ events =>
        ∀ e ∈ events, ∃ document, outcome = .ok document ∧ e.Writes output format document := by
  cases outcome with
  | error failure => exact .pure (List.forall_mem_nil _)
  | ok document =>
    rw [place, place]
    split_ifs
    · exact .pure (List.forall_mem_nil _)
    · refine .bind (.write files _ _) fun result events hevents => ?_
      subst hevents
      cases result with
      | ok => exact .pure (List.forall_mem_singleton.mpr ⟨document, rfl, _, rfl⟩)
      | error e => exact .pure (List.forall_mem_singleton.mpr ⟨document, rfl, _, rfl⟩)

/-- **Writing the documents** writes each to its target, and nothing else. -/
theorem watches_writeAll (report : Report) (rendered : List (String × Except Failure Rendered)) :
    Watches (writeAll (watched files).write output options report rendered)
      (writeAll files.write output options report rendered) fun _ events =>
        ∀ e ∈ events, ∃ r ∈ rendered, ∃ document, r.2 = .ok document ∧
          e.Writes output options.format document := by
  induction rendered generalizing report with
  | nil => exact .pure (List.forall_mem_nil _)
  | cons r rendered ih =>
    obtain ⟨input, outcome⟩ := r
    rw [writeAll, writeAll]
    refine .bind (watches_place files output options.format report.stems outcome)
      fun result events hevents => ?_
    -- The write for this input, and those for the others.
    have hfirst : ∀ e ∈ events, ∃ r ∈ (input, outcome) :: rendered, ∃ document,
        r.2 = .ok document ∧ e.Writes output options.format document :=
      fun e he => ⟨_, List.mem_cons_self, hevents e he⟩
    have hrest : ∀ report, Watches (writeAll (watched files).write output options report rendered)
        (writeAll files.write output options report rendered) fun _ more =>
          ∀ e ∈ events ++ more, ∃ r ∈ (input, outcome) :: rendered, ∃ document,
            r.2 = .ok document ∧ e.Writes output options.format document := by
      refine fun report => (ih report).mono fun _ more hmore => ?_
      refine List.forall_mem_append.mpr ⟨hfirst, fun e he => ?_⟩
      obtain ⟨r, hr, hwrites⟩ := hmore e he
      exact ⟨r, List.mem_cons_of_mem _ hr, hwrites⟩
    cases result with
    | ok document => exact hrest _
    | error error =>
      dsimp only
      split_ifs
      · exact .pure (by rwa [List.append_nil])
      · exact hrest _

/-- **Publishing** makes the folder of the documents, and writes the documents and the file that
lists them. -/
theorem watches_publish (rendered : List (String × Except Failure Rendered)) :
    Watches (publish (watched files) output options rendered)
      (publish files output options rendered) fun _ events =>
        ∀ e ∈ events, (∃ result, e = .made output result) ∨
          (∃ text result, e = .written (Path.join output orderFile) text result) ∨
          ∃ r ∈ rendered, ∃ document, r.2 = .ok document ∧
            e.Writes output options.format document := by
  rw [publish, publish]
  refine .bind (.makeFolder files output) fun result events hevents => ?_
  subst hevents
  cases result with
  | error e => exact .pure (List.forall_mem_singleton.mpr (.inl ⟨_, rfl⟩))
  | ok =>
    refine .bind (watches_writeAll files output options {} rendered)
      fun written events hevents => ?_
    obtain ⟨report, complete⟩ := written
    have hdocuments : ∀ e ∈ .made output (.ok ()) :: events, (∃ result, e = .made output result) ∨
        (∃ text result, e = .written (Path.join output orderFile) text result) ∨
        ∃ r ∈ rendered, ∃ document, r.2 = .ok document ∧
          e.Writes output options.format document :=
      List.forall_mem_cons.mpr ⟨.inl ⟨_, rfl⟩, fun e he => .inr (.inr (hevents e he))⟩
    dsimp only
    split
    · exact .pure (by rwa [List.append_nil])
    · refine .bind (.write files _ _) fun result events' hevents' => ?_
      subst hevents'
      have hall := List.forall_mem_append.mpr ⟨hdocuments, List.forall_mem_singleton.mpr
        (.inr (.inl ⟨orderText report.stems, result, rfl⟩))⟩
      cases result with
      | error e => exact .pure (by rwa [List.append_nil])
      | ok => exact .pure (by rwa [List.append_nil])

end Writing

/-! ## Runs -/

/-- What a run asks of files: it looks at some, makes the folder of the documents, writes the file
that lists the documents, or writes a document that shows what was read from a file that was
listed. -/
def FileEvent.Explained {σ : Type} (files : FileAccess (StateM σ)) (folder output : String)
    (config : Config) (format : Format) (events : List FileEvent) (e : FileEvent) : Prop :=
  e.Looks ∨ (∃ result, e = .made output result) ∨
    (∃ text result, e = .written (Path.join output orderFile) text result) ∨
    ∃ entries name document, .listed folder (.ok entries) ∈ events ∧
      (∃ state, ((files.list folder).run state).1 = .ok entries) ∧ name ∈ inputs entries ∧
      DocumentOf config format (Path.join folder name) name events document ∧
      e.Writes output format document

/-- **What a run asks of files.** -/
theorem watches_run {σ : Type} (files : FileAccess (StateM σ)) (folder output : String)
    (config : Config) (options : Options) :
    Watches (run (watched files) folder output config options)
      (run files folder output config options) fun _ events =>
        ∀ e ∈ events, e.Explained files folder output config options.format events := by
  rw [run, run]
  refine .bind (.list files folder) fun result events hlisted => ?_
  obtain ⟨rfl, hstate⟩ := hlisted
  cases result with
  | error e => exact .pure (List.forall_mem_singleton.mpr (.inl trivial))
  | ok entries =>
    refine .bind (watches_rendered files config options.format folder (inputs entries))
      fun rendered seen hseen => ?_
    obtain ⟨hlooks, hrendered⟩ := hseen
    refine .bind (watches_publish files output options (rendered.map (·.1)))
      fun published events hevents => .pure ?_
    rw [List.append_nil]
    -- The listing comes first, then what rendering looks at, then what is written.
    refine List.forall_mem_append.mpr ⟨List.forall_mem_singleton.mpr (.inl trivial), ?_⟩
    refine List.forall_mem_append.mpr ⟨fun e he => .inl (hlooks e he), fun e he => ?_⟩
    rcases hevents e he with hmade | hlist | ⟨r, hr, document, hdocument, hwrites⟩
    · exact .inr (.inl hmade)
    · exact .inr (.inr (.inl hlist))
    · obtain ⟨r', hr', rfl⟩ := List.mem_map.mp hr
      obtain ⟨name, hname, hof⟩ := hrendered r' hr' document hdocument
      refine .inr (.inr (.inr ⟨entries, name, document, List.mem_cons_self, hstate, hname, ?_,
        hwrites⟩))
      refine hof.mono fun e he => ?_
      exact List.mem_append_right _ (List.mem_append_left _ he)

end FlowDoc.Batch
