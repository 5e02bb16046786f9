import FlowDoc.Proofs.Batch.Watching

/-!
# What a run produces

A run that can list its inputs and make the folder of the documents writes each document that was
rendered to its target, unless a document of the same stem that comes before it is there already.
This holds of every run that goes on to its end, whatever becomes of the writes; a run that stops at
failures goes on to its end if it succeeds.

## Main definitions

* `Rendered.ProducedAfter`: a document is at its target, or one before it is
* `AllProduced`: all documents are at their targets, for stems that are not taken
* `renderedAfterList`: what the inputs of a run are rendered to

## Main results

* `watches_place_produced`, `watches_writeAll_produced`, `watches_publish_produced`: the parts of a
  run
* `map_fst_renderedAfterList`: each input is rendered
* `run_produces`: what a run writes at least
-/

namespace FlowDoc.Batch

/-! ## Documents at their targets -/

/-- A document is written to its target, or there is a document of the same stem among those before
it, and that one is written there with success. -/
def Rendered.ProducedAfter (document : Rendered) (output : String) (format : Format)
    (before : List (String × Except Failure Rendered)) (events : List FileEvent) : Prop :=
  (∃ e ∈ events, e.Writes output format document) ∨
    ∃ r ∈ before, ∃ earlier, r.2 = .ok earlier ∧ earlier.stem = document.stem ∧
      .written (target output format earlier.stem) earlier.content (.ok ()) ∈ events

/-- Each document that was rendered is produced, unless its stem is taken beforehand. -/
def AllProduced (output : String) (format : Format) (taken : List String)
    (rendered : List (String × Except Failure Rendered)) (events : List FileEvent) : Prop :=
  ∀ before input document after, rendered = before ++ (input, .ok document) :: after →
    document.stem ∈ taken ∨ document.ProducedAfter output format before events

section Produced

variable {output : String} {format : Format} {taken taken' : List String} {document : Rendered}
  {before more : List (String × Except Failure Rendered)} {events events' : List FileEvent}

theorem Rendered.ProducedAfter.mono (h : document.ProducedAfter output format before events)
    (hbefore : before ⊆ more) (hevents : events ⊆ events') :
    document.ProducedAfter output format more events' := by
  rcases h with ⟨e, he, hwrites⟩ | ⟨r, hr, earlier, houtcome, hstem, hwritten⟩
  · exact .inl ⟨e, hevents he, hwrites⟩
  · exact .inr ⟨r, hbefore hr, earlier, houtcome, hstem, hevents hwritten⟩

theorem AllProduced.nil : AllProduced output format taken [] events := by
  intro before input document after h
  exact absurd h.symm (List.append_ne_nil_of_right_ne_nil _ (List.cons_ne_nil _ _))

/-- The first input is dealt with first. For the others its stem is taken if it is written with
success. -/
theorem AllProduced.cons {input : String} {outcome : Except Failure Rendered}
    {rendered : List (String × Except Failure Rendered)}
    (hfirst : ∀ document, outcome = .ok document →
      document.stem ∈ taken ∨ ∃ e ∈ events, e.Writes output format document)
    (htaken : ∀ stem ∈ taken', stem ∈ taken ∨
      ∃ document, outcome = .ok document ∧ document.stem = stem ∧
        .written (target output format document.stem) document.content (.ok ()) ∈ events)
    (h : AllProduced output format taken' rendered events') :
    AllProduced output format taken ((input, outcome) :: rendered) (events ++ events') := by
  intro before input' document after hsplit
  cases before with
  | nil =>
    rw [List.nil_append] at hsplit
    obtain ⟨-, rfl⟩ := Prod.mk.inj (List.cons.inj hsplit).1
    exact (hfirst document rfl).imp_right fun ⟨e, he, hwrites⟩ =>
      .inl ⟨e, List.mem_append_left events' he, hwrites⟩
  | cons r before =>
    rw [List.cons_append] at hsplit
    obtain ⟨rfl, hafter⟩ := List.cons.inj hsplit
    rcases h before input' document after hafter with hstem | hproduced
    -- A stem that was not taken beforehand is that of the first document.
    · rcases htaken _ hstem with hstem | ⟨earlier, houtcome, hstem, hwritten⟩
      · exact .inl hstem
      · exact .inr (.inr ⟨_, List.mem_cons_self, earlier, houtcome, hstem,
          List.mem_append_left events' hwritten⟩)
    · exact .inr (hproduced.mono (List.subset_cons_self _ _) (List.subset_append_right _ _))

end Produced

/-! ## Writing -/

section Writing

variable {σ : Type} (files : FileAccess (StateM σ)) (output : String) (options : Options)

/-- A document that was rendered is written unless its stem is taken. Where the outcome is a
document, it is this one, and its write succeeds. -/
theorem watches_place_produced (format : Format) (taken : List String)
    (outcome : Except Failure Rendered) :
    Watches (place (watched files).write output format taken outcome)
      (place files.write output format taken outcome) fun result events =>
        (∀ document, outcome = .ok document →
          document.stem ∈ taken ∨ ∃ e ∈ events, e.Writes output format document) ∧
        ∀ document, result = .ok document → outcome = .ok document ∧
          .written (target output format document.stem) document.content (.ok ()) ∈ events := by
  cases outcome with
  | error failure => exact .pure ⟨(fun _ h => by cases h), fun _ h => by cases h⟩
  | ok document =>
    rw [place, place]
    split_ifs with htaken
    · refine .pure ⟨fun document' h => .inl ?_, fun _ h => by cases h⟩
      rwa [← Except.ok.inj h]
    · refine .bind (.write files _ _) fun result events hevents => ?_
      subst hevents
      have hwrites : ∀ document', (.ok document : Except Failure Rendered) = .ok document' →
          document'.stem ∈ taken ∨
            ∃ e ∈ [.written (target output format document.stem) document.content result] ++ [],
              FileEvent.Writes output format document' e := by
        rintro document' h
        obtain rfl := Except.ok.inj h
        exact .inr ⟨_, List.mem_cons_self, result, rfl⟩
      cases result with
      | ok =>
        refine .pure ⟨hwrites, fun document' h => ?_⟩
        obtain rfl := Except.ok.inj h
        exact ⟨rfl, List.mem_cons_self⟩
      | error e => exact .pure ⟨hwrites, fun _ h => by cases h⟩

/-- **Writing the documents** to the end produces each of them, but for those whose stems are taken
beforehand. It ends early only at a failure, and where this is asked for. -/
theorem watches_writeAll_produced (report : Report)
    (rendered : List (String × Except Failure Rendered)) :
    Watches (writeAll (watched files).write output options report rendered)
      (writeAll files.write output options report rendered) fun result events =>
        (result.2 = false →
          options.failFast = true ∧ ∃ failure, result.1.failures.getLast? = some failure) ∧
        (result.2 = true →
          AllProduced output options.format report.stems rendered events) := by
  induction rendered generalizing report with
  | nil => exact .pure ⟨(fun h => by cases h), fun _ => .nil⟩
  | cons r rendered ih =>
    obtain ⟨input, outcome⟩ := r
    rw [writeAll, writeAll]
    refine .bind (watches_place_produced files output options.format report.stems outcome)
      fun result events hplace => ?_
    obtain ⟨hfirst, hresult⟩ := hplace
    -- A document that is written takes its stem; an input that is left out takes none.
    cases result with
    | ok document =>
      obtain ⟨houtcome, hwritten⟩ := hresult document rfl
      refine (ih _).mono fun result more hmore => ⟨hmore.1, fun hcomplete => ?_⟩
      refine (hmore.2 hcomplete).cons hfirst fun stem hstem => ?_
      rw [Report.stems, Report.addWritten, List.map_append, List.mem_append] at hstem
      exact hstem.imp_right fun h => ⟨document, houtcome, (List.mem_singleton.mp h).symm, hwritten⟩
    | error error =>
      dsimp only
      split_ifs with hfast
      · exact .pure ⟨fun _ => ⟨hfast, _, List.getLast?_concat⟩, fun h => by cases h⟩
      · refine (ih _).mono fun result more hmore => ⟨hmore.1, fun hcomplete => ?_⟩
        exact (hmore.2 hcomplete).cons hfirst fun stem hstem => .inl hstem

/-- **Publishing** makes the folder of the documents. If this succeeds, and the run goes on to its
end, then each document is produced, and the file that lists them is written. -/
theorem watches_publish_produced (rendered : List (String × Except Failure Rendered)) :
    Watches (publish (watched files) output options rendered)
      (publish files output options rendered) fun published events =>
        (∃ result, .made output result ∈ events) ∧
        (.made output (.ok ()) ∈ events →
          options.failFast = false ∨ (∃ report, published.1 = .ok report) →
            (∃ text result, .written (Path.join output orderFile) text result ∈ events) ∧
            ∀ before input document after, rendered = before ++ (input, .ok document) :: after →
              document.ProducedAfter output options.format before events) := by
  rw [publish, publish]
  refine .bind (.makeFolder files output) fun result events hevents => ?_
  subst hevents
  cases result with
  | error e =>
    refine .pure ⟨⟨_, List.mem_cons_self⟩, fun hmade => ?_⟩
    rw [List.append_nil, List.mem_singleton] at hmade
    cases hmade
  | ok =>
    refine .bind (watches_writeAll_produced files output options {} rendered)
      fun written events hwritten => ?_
    obtain ⟨report, complete⟩ := written
    obtain ⟨hstops, hproduces⟩ := hwritten
    dsimp only at hstops hproduces ⊢
    cases complete with
    | false =>
      obtain ⟨hfast, failure, hfailure⟩ := hstops rfl
      rw [hfailure]
      refine .pure ⟨⟨_, List.mem_cons_self⟩, fun _ hend => ?_⟩
      rcases hend with hslow | ⟨report, h⟩
      · rw [hfast] at hslow
        cases hslow
      · cases h
    | true =>
      have hdocuments (more : List FileEvent) : ∀ before input document after,
          rendered = before ++ (input, .ok document) :: after →
          document.ProducedAfter output options.format before
            (.made output (.ok ()) :: (events ++ more)) := by
        intro before input document after hsplit
        rcases hproduces rfl before input document after hsplit with htaken | hdocument
        · exact absurd htaken List.not_mem_nil
        · refine hdocument.mono (List.Subset.refl _) fun e he => ?_
          exact List.mem_cons_of_mem _ (List.mem_append_left more he)
      refine .bind (.write files _ _) fun result events' hevents' => ?_
      subst hevents'
      have horder : .written (Path.join output orderFile) (orderText report.stems) result ∈
          .made output (.ok ()) :: (events ++ ([.written (Path.join output orderFile)
            (orderText report.stems) result] ++ [])) :=
        List.mem_cons_of_mem _ (List.mem_append_right events List.mem_cons_self)
      cases result with
      | error e =>
        exact .pure ⟨⟨_, List.mem_cons_self⟩, fun _ _ => ⟨⟨_, _, horder⟩, hdocuments _⟩⟩
      | ok => exact .pure ⟨⟨_, List.mem_cons_self⟩, fun _ _ => ⟨⟨_, _, horder⟩, hdocuments _⟩⟩

end Writing

/-! ## Runs -/

section Run

variable {σ : Type} {files : FileAccess (StateM σ)} {state after : σ} {folder output : String}
  {config : Config} {options : Options}

/-- What the inputs of a folder are rendered to once the folder is listed. -/
def renderedAfterList (files : FileAccess (StateM σ)) (state : σ) (folder : String)
    (config : Config) (format : Format) (entries : List (String × Bool)) :
    List (String × Except Failure Rendered) :=
  (((inputs entries).mapM (renderInput files config format folder)).run
    ((files.list folder).run state).2).1.map (·.1)

/-- Each input is rendered, in order. -/
theorem map_fst_renderedAfterList (files : FileAccess (StateM σ)) (state : σ) (folder : String)
    (config : Config) (format : Format) (entries : List (String × Bool)) :
    (renderedAfterList files state folder config format entries).map (·.1) =
      (inputs entries).map (Path.join folder) := by
  have hpaths (names : List String) (st : σ) :
      ((names.mapM (renderInput files config format folder)).run st).1.map (·.1.1) =
        names.map (Path.join folder) := by
    induction names generalizing st with
    | nil => rfl
    | cons name names ih =>
      rw [List.mapM_cons, StateT.run_bind, List.map_cons]
      exact congrArg (Path.join folder name :: ·) (ih _)
  rw [renderedAfterList, List.map_map]
  exact hpaths _ _

/-- **What a run writes at least.** A run that lists its inputs makes the folder of the documents.
If this succeeds, and the run goes on to its end, then it writes the file that lists the documents,
and each document that was rendered to its target, unless one of its stem is there already. -/
theorem run_produces {entries : List (String × Bool)}
    (hlist : ((files.list folder).run state).1 = .ok entries)
    {result : Except Failure Report × List LogLine} {events : List FileEvent}
    (hrun : (run (watched files) folder output config options).run (state, []) =
      (result, (after, events))) :
    (∃ made, .made output made ∈ events) ∧
    (.made output (.ok ()) ∈ events →
      options.failFast = false ∨ (∃ report, result.1 = .ok report) →
        (∃ text written, .written (Path.join output orderFile) text written ∈ events) ∧
        ∀ before input document after,
          renderedAfterList files state folder config options.format entries =
            before ++ (input, .ok document) :: after →
          document.ProducedAfter output options.format before events) := by
  obtain ⟨_, hlisted, rfl, -⟩ := Watches.list files folder state []
  rw [hlist] at hlisted
  obtain ⟨seen, hseen, hlooks, -⟩ := watches_rendered files config options.format folder
    (inputs entries) ((files.list folder).run state).2 [.listed folder (.ok entries)]
  obtain ⟨more, hpublish, hmade, hproduced⟩ := watches_publish_produced files output options
    (renderedAfterList files state folder config options.format entries)
    (((inputs entries).mapM (renderInput files config options.format folder)).run
      ((files.list folder).run state).2).2 ([.listed folder (.ok entries)] ++ seen)
  have hparts := run_of_list output options hlisted hseen
  dsimp only at hparts
  rw [hrun, ← renderedAfterList, hpublish] at hparts
  obtain ⟨rfl, hafter⟩ := Prod.mk.inj hparts
  obtain ⟨-, rfl⟩ := Prod.mk.inj hafter
  have hsub : more ⊆ [.listed folder (.ok entries)] ++ seen ++ more := List.subset_append_right _ _
  refine ⟨hmade.imp fun _ h => hsub h, fun hfolder hend => ?_⟩
  -- What comes before only looks at files, so the folder is made among the rest.
  have hfolder' : .made output (.ok ()) ∈ more := by
    rcases List.mem_append.mp hfolder with h | h
    · rcases List.mem_append.mp h with h | h
      · cases List.mem_singleton.mp h
      · exact (hlooks _ h).elim
    · exact h
  obtain ⟨⟨text, written, horder⟩, hdocuments⟩ := hproduced hfolder' hend
  refine ⟨⟨text, written, hsub horder⟩, fun before input document after hsplit => ?_⟩
  exact (hdocuments before input document after hsplit).mono (List.Subset.refl _) hsub

end Run

end FlowDoc.Batch
