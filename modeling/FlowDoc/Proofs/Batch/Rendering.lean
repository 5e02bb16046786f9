import Mathlib.Data.List.Induction
import FlowDoc.Batch

/-!
# Rendering the inputs of a run

A run reads and renders all inputs before it writes anything. Rendering writes nothing, so what it
comes to depends on the files that are read only, and a run is the publishing of what its inputs are
rendered to.

Files are modelled by what is read from them and by the outcome of each write, which may depend on
all writes before it.

## Main definitions

* `Attempt`, `Surroundings`: the writes of a run, and the files around it
* `Gives`: a property of what a computation yields
* `Yields`: a computation that writes nothing
* `Surroundings.rendered`: what the inputs are rendered to

## Main results

* `yields_render`: rendering writes nothing
* `run_of_list`, `run_eq_publish`: a run publishes what its inputs are rendered to
* `gives_rendered`, `stem_ne_empty`: no document has an empty stem
-/

namespace FlowDoc.Batch

/-! ## Files around a run -/

/-- A text that was to become the content of a file, and what came of it. -/
structure Attempt where
  path : String
  text : String
  result : Except FileError Unit

/-- The files around a run: the files of the folder, the texts that are read, and the outcome of a
write after the writes before it. Every folder can be made. -/
structure Surroundings where
  entries : List (String × Bool)
  reading : String → Except FileError String
  writing : List Attempt → (path text : String) → Except FileError Unit

/-- Access to these files, which records the writes. -/
def Surroundings.files (s : Surroundings) : FileAccess (StateM (List Attempt)) where
  input := return .ok ""
  pathExists _ := return false
  read path := return s.reading path
  write path text := fun history =>
    let result := s.writing history path text
    (result, history ++ [⟨path, text, result⟩])
  list _ := return .ok s.entries
  makeFolder _ := return .ok ()

/-- A step of known outcome, and what follows it. -/
theorem run_bind_of_eq {σ α β : Type} {x : StateM σ α} {f : α → StateM σ β} {before after : σ}
    {a : α} (h : x.run before = (a, after)) : (x >>= f).run before = (f a).run after := by
  rw [StateT.run_bind, h]
  rfl

theorem run_write (s : Surroundings) (path text : String) (history : List Attempt) :
    (s.files.write path text).run history =
      (s.writing history path text, history ++ [⟨path, text, s.writing history path text⟩]) := rfl

/-! ## Rendering -/

/-- The computation writes nothing, and whatever was written it yields the same, of which `p`
holds. -/
def Yields {α : Type} (x : StateM (List Attempt) α) (p : α → Prop) : Prop :=
  ∃ a, p a ∧ ∀ history, x.run history = (a, history)

namespace Yields

variable {α β : Type} {x : StateM (List Attempt) α} {p : α → Prop} {q : β → Prop}

theorem pure {a : α} (h : p a) : Yields (pure a) p :=
  ⟨a, h, fun _ => rfl⟩

theorem bind {f : α → StateM (List Attempt) β} (hx : Yields x p)
    (hf : ∀ a, p a → Yields (f a) q) : Yields (x >>= f) q := by
  obtain ⟨a, ha, hrun⟩ := hx
  obtain ⟨b, hb, hrun'⟩ := hf a ha
  refine ⟨b, hb, fun history => ?_⟩
  rw [run_bind_of_eq (hrun history), hrun']

theorem mapM {γ : Type} {f : γ → StateM (List Attempt) α} {g : γ → α}
    (h : ∀ c, Yields (f c) (· = g c)) (cs : List γ) : Yields (cs.mapM f) (· = cs.map g) := by
  induction cs with
  | nil => exact pure rfl
  | cons c cs ih =>
    rw [List.mapM_cons]
    refine bind (h c) fun a ha => bind ih fun as has => pure ?_
    rw [ha, has, List.map_cons]

theorem read (s : Surroundings) (path : String) :
    Yields (s.files.read path) (· = s.reading path) :=
  ⟨s.reading path, rfl, fun _ => rfl⟩

theorem run_eq (h : Yields x p) (history : List Attempt) :
    x.run history = ((x.run []).1, history) := by
  obtain ⟨a, -, hrun⟩ := h
  rw [hrun, hrun]

end Yields

section Rendering

variable (s : Surroundings) (folder : String) (config : Config) (format : Format)

theorem yields_renderDocument (g : Graph) :
    Yields (renderDocument s.files g config format) fun _ => True := by
  cases format with
  | markdown => exact .pure trivial
  | mermaid => exact .pure trivial
  | html =>
    rw [renderDocument]
    split
    · exact .pure trivial
    · refine .bind (.read s _) fun template _ => ?_
      split
      · exact .pure trivial
      · exact .pure trivial

/-- **Rendering an input** writes nothing and does not depend on what was written. -/
theorem yields_render (input fileName : String) :
    Yields (render s.files config format input fileName) fun _ => True := by
  rw [render]
  refine .bind (.read s input) fun text _ => ?_
  split
  · exact .pure trivial
  · dsimp only
    split
    · exact .pure trivial
    · refine .bind (yields_renderDocument s config format _) fun content _ => ?_
      split
      · exact .pure trivial
      · exact .pure trivial

/-- What rendering the file of this name in a folder comes to, with its log. -/
def Surroundings.rendering (name : String) : Except Failure Rendered × List LogLine :=
  ((render s.files config format (Path.join folder name) name).run []).1

theorem yields_renderInput (name : String) :
    Yields (renderInput s.files config format folder name)
      (· = ((Path.join folder name, (s.rendering folder config format name).1),
        (s.rendering folder config format name).2)) := by
  have hyields := yields_render s config format (Path.join folder name) name
  refine ⟨_, rfl, fun history => ?_⟩
  rw [renderInput]
  dsimp only
  rw [run_bind_of_eq (hyields.run_eq history)]
  rfl

/-- The inputs in a folder, in order, each with what rendering it comes to. -/
def Surroundings.rendered : List (String × Except Failure Rendered) :=
  (inputs s.entries).map fun name =>
    (Path.join folder name, (s.rendering folder config format name).1)

/-- What is logged before the documents are written. -/
def Surroundings.renderingLog : List LogLine :=
  logLine .info
      ("Documenting " ++ toString (inputs s.entries).length ++ " data flow files from " ++
        folder) ::
    (inputs s.entries).flatMap fun name => (s.rendering folder config format name).2

/-- **A run** lists the inputs, renders them and then publishes what they were rendered to. -/
theorem run_of_list {σ : Type} {files : FileAccess (StateM σ)} {folder : String} (output : String)
    {config : Config} (options : Options) {before listed after : σ} {entries : List (String × Bool)}
    {rendered : List ((String × Except Failure Rendered) × List LogLine)}
    (hlist : (files.list folder).run before = (.ok entries, listed))
    (hrendered :
      ((inputs entries).mapM (renderInput files config options.format folder)).run listed =
        (rendered, after)) :
    let published := (publish files output options (rendered.map (·.1))).run after
    (run files folder output config options).run before =
      ((published.1.1,
        logLine .info ("Documenting " ++ toString (inputs entries).length ++
          " data flow files from " ++ folder) :: rendered.flatMap (·.2) ++ published.1.2),
        published.2) := by
  intro published
  rw [run, run_bind_of_eq hlist]
  dsimp only
  rw [run_bind_of_eq hrendered, StateT.run_bind]
  rfl

/-- A run publishes what its inputs are rendered to. -/
theorem run_eq_publish (output : String) (failFast : Bool) :
    let published :=
      (publish s.files output ⟨format, failFast⟩ (s.rendered folder config format)).run []
    (run s.files folder output config ⟨format, failFast⟩).run [] =
      ((published.1.1, s.renderingLog folder config format ++ published.1.2), published.2) := by
  intro published
  have hlist : (s.files.list folder).run [] = (.ok s.entries, []) := rfl
  obtain ⟨rendered, rfl, hrendered⟩ :=
    Yields.mapM (yields_renderInput s folder config format) (inputs s.entries)
  rw [run_of_list output ⟨format, failFast⟩ hlist (hrendered []), List.map_map, List.flatMap_map]
  rfl

end Rendering

/-! ## Stems of inputs -/

theorem isInput_of_mem_inputs {entries : List (String × Bool)} {name : String}
    (h : name ∈ inputs entries) : isInput name = true := by
  obtain ⟨⟨name, isFile⟩, hmem, rfl⟩ := List.mem_map.mp h
  have hinput := (List.mem_filter.mp (Text.mem_of_mem_byKey hmem)).2
  exact (Bool.and_eq_true_iff.mp hinput).2

/-- The stem of an input is not empty: its file name has an extension and something before it. -/
theorem stemOf_ne_empty {fileName : String} (h : isInput fileName = true) (name : Option String) :
    stemOf fileName name ≠ "" := by
  have hstem : Path.stem fileName ≠ "" := by
    rw [Path.stem]
    unfold isInput Path.extension? Path.splitName? at h
    unfold Path.splitName?
    cases hcut : Text.cut ['.'] fileName.toList.reverse with
    | none => simp [hcut] at h
    | some parts =>
      obtain ⟨after, before⟩ := parts
      by_cases hbefore : before = []
      · simp [hcut, hbefore] at h
      · simp [hbefore]
  rw [stemOf]
  split
  · split_ifs with hplain
    · simp only [Path.isPlainName, Bool.and_eq_true, decide_eq_true_eq] at hplain
      exact hplain.1.1.2
    · exact hstem
  · exact hstem

/-- Whatever the state is, the computation yields values of which `p` holds. -/
def Gives {σ α : Type} (x : StateM σ α) (p : α → Prop) : Prop :=
  ∀ s, p (x.run s).1

namespace Gives

variable {σ α β γ : Type} {x : StateM σ α} {p : α → Prop} {q : β → Prop}

theorem pure {a : α} (h : p a) : Gives (pure a : StateM σ α) p :=
  fun _ => h

theorem of_any (x : StateM σ α) : Gives x fun _ => True :=
  fun _ => trivial

theorem bind {f : α → StateM σ β} (hx : Gives x p) (hf : ∀ a, p a → Gives (f a) q) :
    Gives (x >>= f) q := by
  intro s
  rw [StateT.run_bind]
  exact hf _ (hx s) _

theorem mapM {f : γ → StateM σ α} {cs : List γ} (h : ∀ c ∈ cs, Gives (f c) p) :
    Gives (cs.mapM f) fun as => ∀ a ∈ as, p a := by
  induction cs with
  | nil => exact pure fun a ha => absurd ha List.not_mem_nil
  | cons c cs ih =>
    obtain ⟨hc, hcs⟩ := List.forall_mem_cons.mp h
    rw [List.mapM_cons]
    refine bind hc fun a ha => bind (ih hcs) fun as has => pure ?_
    exact List.forall_mem_cons.mpr ⟨ha, has⟩

end Gives

section Stems

variable {σ : Type} (files : FileAccess (StateM σ)) (config : Config) (format : Format)

/-- The stem of a document is one of those for its file. -/
theorem gives_render (input fileName : String) :
    Gives (render files config format input fileName) fun r =>
      ∀ document, r.1 = .ok document → ∃ name, document.stem = stemOf fileName name := by
  rw [render]
  refine .bind (.of_any _) fun text _ => ?_
  split
  · exact .pure fun document h => by cases h
  · dsimp only
    split
    · exact .pure fun document h => by cases h
    · refine .bind (.of_any _) fun content _ => ?_
      split
      · exact .pure fun document h => by cases h
      · refine .pure fun document h => ?_
        obtain rfl := Except.ok.inj h
        exact ⟨_, rfl⟩

/-- **No document of an input has an empty stem.** -/
theorem gives_rendered (folder : String) (entries : List (String × Bool)) :
    Gives ((inputs entries).mapM (renderInput files config format folder)) fun rendered =>
      ∀ r ∈ rendered, ∀ document, r.1.2 = .ok document → document.stem ≠ "" := by
  refine .mapM fun name hname => ?_
  rw [renderInput]
  refine .bind (gives_render files config format _ name) fun r hr => .pure fun document h => ?_
  obtain ⟨own, hstem⟩ := hr document h
  rw [hstem]
  exact stemOf_ne_empty (isInput_of_mem_inputs hname) own

end Stems

theorem stem_ne_empty {s : Surroundings} {folder : String} {config : Config} {format : Format}
    {input : String} {document : Rendered}
    (h : (input, .ok document) ∈ s.rendered folder config format) : document.stem ≠ "" := by
  obtain ⟨name, hname, hpair⟩ := List.mem_map.mp h
  obtain ⟨-, houtcome⟩ := Prod.mk.inj hpair
  obtain ⟨own, hstem⟩ := gives_render s.files config format _ name [] document houtcome
  rw [hstem]
  exact stemOf_ne_empty (isInput_of_mem_inputs hname) own

end FlowDoc.Batch
