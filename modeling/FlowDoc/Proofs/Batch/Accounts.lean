import Mathlib.Data.List.Nodup
import FlowDoc.Proofs.Batch.Rendering

/-!
# Accounts of inputs

An input gets a document, or it is left out for one of three reasons, of which two depend on the
inputs before it. The account of an input fits those before it when its document is written exactly
where it is rendered, its stem is not taken and the write succeeds. Writing the documents keeps such
accounts from input to input, and where the first input that is left out ends the writing, it keeps
the same ones up to there.

## Main definitions

* `Fate`, `Account`: what becomes of an input
* `reportOf`, `attempts`: the report and the writes of accounts
* `Fate.Fits`, `Sound`: accounts that fit those before them

## Main results

* `place_of_fits`: one input
* `writeAll_of_sound`, `writeAll_of_error`: all inputs, and the one that ends the writing
* `nodup_stems`, `holds_written`: no document is written over
* `publish_of_sound`, `exists_publish_of_first`: what is published
-/

namespace FlowDoc.Batch

/-! ## What becomes of an input -/

/-- What becomes of an input. -/
inductive Fate where
  /-- Its document was written. -/
  | written (document : Rendered)
  /-- It has no document. -/
  | unrendered (failure : Failure)
  /-- A document with the stem of its own was written before. -/
  | taken (document : Rendered)
  /-- Its document could not be written. -/
  | unwritten (document : Rendered) (error : FileError)

/-- What rendering the input came to. -/
def Fate.outcome : Fate → Except Failure Rendered
  | .written document | .taken document | .unwritten document _ => .ok document
  | .unrendered failure => .error failure

/-- An input and what became of it. -/
structure Account where
  input : String
  fate : Fate

/-- The input with what rendering it came to. -/
def Account.rendered (a : Account) : String × Except Failure Rendered :=
  (a.input, a.fate.outcome)

section Accounts

variable (output : String) (format : Format)

/-- The document that was written, or why none was. -/
def Fate.placed : Fate → Except String Rendered
  | .written document => .ok document
  | .unrendered failure => .error failure.inline
  | .taken document => .error ("another file already produced '" ++ document.stem ++ "'")
  | .unwritten document error =>
    .error ("Failed to write to: " ++ target output format document.stem ++ ": " ++ error.message)

/-- The write for an input, if there was one. -/
def Fate.attempt? : Fate → Option Attempt
  | .written document => some ⟨target output format document.stem, document.content, .ok ()⟩
  | .unwritten document error =>
    some ⟨target output format document.stem, document.content, .error error⟩
  | .unrendered _ | .taken _ => none

namespace Account

/-- What the report says about an input with a document. -/
def written? (a : Account) : Option Written :=
  match a.fate.placed output format with
  | .ok document => some ⟨a.input, target output format document.stem, document⟩
  | .error _ => none

/-- What the report says about an input without a document. -/
def skipped? (a : Account) : Option Skipped :=
  match a.fate.placed output format with
  | .ok _ => none
  | .error error => some ⟨a.input, error⟩

/-- The line of the log about an input. -/
def line (a : Account) : LogLine :=
  match a.fate.placed output format with
  | .ok document =>
    logLine .info ("Wrote " ++ target output format document.stem ++ " from " ++ a.input)
  | .error error => logLine .warn ("Skipping " ++ a.input ++ ": " ++ error)

end Account

/-- The report of accounts. -/
def reportOf (accounts : List Account) : Report where
  written := accounts.filterMap (·.written? output format)
  failures := accounts.filterMap (·.skipped? output format)
  log := accounts.map (·.line output format)

/-- The writes of accounts. -/
def attempts (accounts : List Account) : List Attempt :=
  accounts.filterMap (·.fate.attempt? output format)

/-- The fate of an input fits the accounts of those before it. -/
def Fate.Fits (s : Surroundings) (before : List Account) : Fate → Prop
  | .written document => document.stem ∉ (reportOf output format before).stems ∧
    s.writing (attempts output format before) (target output format document.stem)
      document.content = .ok ()
  | .unrendered _ => True
  | .taken document => document.stem ∈ (reportOf output format before).stems
  | .unwritten document error => document.stem ∉ (reportOf output format before).stems ∧
    s.writing (attempts output format before) (target output format document.stem)
      document.content = .error error

/-- The account of every input fits those before it. -/
def Sound (s : Surroundings) (accounts : List Account) : Prop :=
  ∀ before a after, accounts = before ++ a :: after → a.fate.Fits output format s before

/-! ## One input -/

variable {output format} {s : Surroundings} {before accounts : List Account} {a : Account}

theorem attempts_concat (accounts : List Account) (a : Account) :
    attempts output format (accounts ++ [a]) =
      attempts output format accounts ++ (a.fate.attempt? output format).toList := by
  rw [attempts, List.filterMap_append, ← attempts, List.filterMap_cons]
  cases a.fate.attempt? output format <;> rfl

theorem reportOf_concat_of_ok {document : Rendered}
    (h : a.fate.placed output format = .ok document) :
    reportOf output format (accounts ++ [a]) =
      (reportOf output format accounts).addWritten output format a.input document := by
  simp [reportOf, Report.addWritten, Account.written?, Account.skipped?, Account.line, h]

theorem reportOf_concat_of_error {error : String}
    (h : a.fate.placed output format = .error error) :
    reportOf output format (accounts ++ [a]) =
      (reportOf output format accounts).addSkipped a.input error := by
  simp [reportOf, Report.addSkipped, Account.written?, Account.skipped?, Account.line, h]

/-- For every outcome of rendering there is a fate that fits. -/
theorem exists_fits (s : Surroundings) (before : List Account)
    (outcome : Except Failure Rendered) :
    ∃ fate : Fate, fate.outcome = outcome ∧ fate.Fits output format s before := by
  cases outcome with
  | error failure => exact ⟨.unrendered failure, rfl, trivial⟩
  | ok document =>
    by_cases htaken : document.stem ∈ (reportOf output format before).stems
    · exact ⟨.taken document, rfl, htaken⟩
    · cases hwrite : s.writing (attempts output format before)
          (target output format document.stem) document.content with
      | ok => exact ⟨.written document, rfl, htaken, hwrite⟩
      | error error => exact ⟨.unwritten document error, rfl, htaken, hwrite⟩

/-- **One input**: what its fate says is done, and nothing else is written. -/
theorem place_of_fits (h : a.fate.Fits output format s before) :
    (place s.files.write output format (reportOf output format before).stems
        a.fate.outcome).run (attempts output format before) =
      (a.fate.placed output format, attempts output format (before ++ [a])) := by
  rw [attempts_concat]
  cases hfate : a.fate with
  | unrendered failure =>
    rw [Fate.attempt?, Option.toList_none, List.append_nil]
    rfl
  | taken document =>
    rw [hfate] at h
    have htaken : document.stem ∈ (reportOf output format before).stems := h
    rw [Fate.outcome, place, if_pos htaken, Fate.attempt?, Option.toList_none, List.append_nil]
    rfl
  | written document =>
    rw [hfate] at h
    obtain ⟨hfree, hwrite⟩ := h
    rw [Fate.outcome, place, if_neg hfree, run_bind_of_eq (run_write s _ _ _), hwrite]
    rfl
  | unwritten document error =>
    rw [hfate] at h
    obtain ⟨hfree, hwrite⟩ := h
    rw [Fate.outcome, place, if_neg hfree, run_bind_of_eq (run_write s _ _ _), hwrite]
    rfl

/-- A document that was rendered and is left out has a stem that is taken, or cannot be written. -/
theorem taken_or_unwritten (h : a.fate.Fits output format s before) {document : Rendered}
    (houtcome : a.fate.outcome = .ok document) (hskip : a.skipped? output format ≠ none) :
    document.stem ∈ (reportOf output format before).stems ∨
      ∃ error, s.writing (attempts output format before) (target output format document.stem)
        document.content = .error error := by
  cases hfate : a.fate with
  | written written =>
    rw [Account.skipped?, hfate] at hskip
    exact absurd rfl hskip
  | unrendered failure =>
    rw [hfate] at houtcome
    cases houtcome
  | taken taken =>
    rw [hfate] at h houtcome
    obtain rfl := Except.ok.inj houtcome
    exact .inl h
  | unwritten unwritten error =>
    rw [hfate] at h houtcome
    obtain rfl := Except.ok.inj houtcome
    exact .inr ⟨error, h.2⟩

/-! ## All inputs -/

theorem Sound.left {after : List Account} (h : Sound output format s (before ++ after)) :
    Sound output format s before := by
  intro first a rest hsplit
  refine h first a (rest ++ after) ?_
  rw [hsplit, List.append_assoc, List.cons_append]

theorem sound_concat_iff :
    Sound output format s (accounts ++ [a]) ↔
      Sound output format s accounts ∧ a.fate.Fits output format s accounts := by
  constructor
  · exact fun h => ⟨h.left, h accounts a [] rfl⟩
  · rintro ⟨h, ha⟩ before b after hsplit
    -- The account that comes after `before` is the last one or one of the others.
    rcases List.eq_nil_or_concat after with rfl | ⟨after, last, rfl⟩
    · obtain ⟨rfl, hlast⟩ := List.append_inj' hsplit rfl
      rwa [← List.singleton_inj.mp hlast]
    · rw [List.concat_eq_append, ← List.cons_append, ← List.append_assoc] at hsplit
      obtain ⟨hinit, -⟩ := List.append_inj' hsplit rfl
      exact h before b after hinit

/-- Whatever the inputs are rendered to, there are sound accounts of them. -/
theorem exists_sound (s : Surroundings) (rendered : List (String × Except Failure Rendered)) :
    ∃ accounts, accounts.map Account.rendered = rendered ∧ Sound output format s accounts := by
  induction rendered using List.reverseRecOn with
  | nil => exact ⟨[], rfl, fun before a after h => by simp at h⟩
  | append_singleton rendered pair ih =>
    obtain ⟨accounts, hmap, hsound⟩ := ih
    obtain ⟨fate, houtcome, hfits⟩ : ∃ fate : Fate, fate.outcome = pair.2 ∧
        fate.Fits output format s accounts := exists_fits s accounts pair.2
    refine ⟨accounts ++ [⟨pair.1, fate⟩], ?_, sound_concat_iff.mpr ⟨hsound, hfits⟩⟩
    rw [List.map_append, hmap, List.map_singleton, Account.rendered, houtcome]

/-- **All inputs**: the documents are written as sound accounts say, as long as the run goes on. -/
theorem writeAll_of_sound (failFast : Bool) {next : List Account}
    (h : Sound output format s (before ++ next))
    (hgo : failFast = true → next.filterMap (·.skipped? output format) = [])
    (rest : List (String × Except Failure Rendered)) :
    (writeAll s.files.write output ⟨format, failFast⟩ (reportOf output format before)
        (next.map Account.rendered ++ rest)).run (attempts output format before) =
      (writeAll s.files.write output ⟨format, failFast⟩ (reportOf output format (before ++ next))
        rest).run (attempts output format (before ++ next)) := by
  -- Each step moves an account from those to come to those before, which the report and the writes
  -- are of.
  induction next generalizing before with
  | nil => rw [List.map_nil, List.nil_append, List.append_nil]
  | cons a next ih =>
    have hfits : a.fate.Fits output format s before := h before a next rfl
    have hsplit : before ++ a :: next = before ++ [a] ++ next := by
      rw [List.append_assoc, List.singleton_append]
    rw [hsplit] at h ⊢
    rw [List.map_cons, List.cons_append, Account.rendered, writeAll,
      run_bind_of_eq (place_of_fits hfits)]
    cases hplaced : a.fate.placed output format with
    | ok document =>
      have hskip : a.skipped? output format = none := by rw [Account.skipped?, hplaced]
      have hnext : failFast = true → next.filterMap (·.skipped? output format) = [] := by
        intro hfast
        have hall := hgo hfast
        rwa [List.filterMap_cons, hskip] at hall
      rw [← ih h hnext, reportOf_concat_of_ok hplaced]
    | error error =>
      have hskip : a.skipped? output format = some ⟨a.input, error⟩ := by
        rw [Account.skipped?, hplaced]
      -- A run that stops at such an input does not go on.
      have hslow : failFast = false := by
        rw [← Bool.not_eq_true]
        intro hfast
        have hall := hgo hfast
        rw [List.filterMap_cons, hskip] at hall
        cases hall
      subst hslow
      rw [← ih h nofun, reportOf_concat_of_error hplaced]
      rfl

/-- A run that stops at the first input without a document stops at this one. -/
theorem writeAll_of_error (h : a.fate.Fits output format s before) {error : String}
    (herror : a.fate.placed output format = .error error)
    (rest : List (String × Except Failure Rendered)) :
    (writeAll s.files.write output ⟨format, true⟩ (reportOf output format before)
        (a.rendered :: rest)).run (attempts output format before) =
      (({ reportOf output format before with
          failures := (reportOf output format before).failures ++ [⟨a.input, error⟩] }, false),
        attempts output format (before ++ [a])) := by
  rw [Account.rendered, writeAll, run_bind_of_eq (place_of_fits h), herror]
  rfl

/-! ## Stems and targets -/

theorem placed_eq_ok_iff {fate : Fate} {document : Rendered} :
    fate.placed output format = .ok document ↔ fate = .written document := by
  cases fate <;> simp [Fate.placed]

theorem written?_eq_some_iff {w : Written} :
    a.written? output format = some w ↔
      ∃ document, a.fate = .written document ∧
        w = ⟨a.input, target output format document.stem, document⟩ := by
  rw [Account.written?]
  cases hplaced : a.fate.placed output format with
  | ok document =>
    rw [placed_eq_ok_iff] at hplaced
    simp [hplaced, eq_comm]
  | error error =>
    have hne : ∀ document, a.fate ≠ .written document := by
      intro document hfate
      rw [hfate] at hplaced
      cases hplaced
    simp [hne]

theorem join_injective (folder : String) : Function.Injective (Path.join folder) := by
  intro name name' h
  unfold Path.join at h
  split_ifs at h
  · exact (String.append_right_inj _).mp h
  · exact (String.append_right_inj _).mp h

theorem target_injective : Function.Injective (target output format) := by
  intro stem stem' h
  have hname := join_injective output h
  rwa [String.append_left_inj, String.append_left_inj] at hname

/-- No document is written to the file that lists the documents. -/
theorem target_ne_order (stem : String) :
    target output format stem ≠ Path.join output orderFile := by
  intro h
  -- The last characters of the two names differ.
  have hname := congrArg (fun name => name.toList.getLast?) (join_injective output h)
  cases format <;> simp [Format.extension, orderFile] at hname

/-- **The stems of the documents are distinct.** -/
theorem nodup_stems (h : Sound output format s accounts) :
    (reportOf output format accounts).stems.Nodup := by
  induction accounts using List.reverseRecOn with
  | nil => exact List.nodup_nil
  | append_singleton accounts a ih =>
    obtain ⟨hinit, hfits⟩ := sound_concat_iff.mp h
    cases hplaced : a.fate.placed output format with
    | error error =>
      rw [reportOf_concat_of_error hplaced]
      exact ih hinit
    | ok document =>
      rw [placed_eq_ok_iff.mp hplaced] at hfits
      have hstems : (reportOf output format (accounts ++ [a])).stems =
          (reportOf output format accounts).stems ++ [document.stem] := by
        rw [reportOf_concat_of_ok hplaced, Report.stems, Report.addWritten, List.map_append]
        rfl
      rw [hstems]
      exact List.nodup_append_comm.mp (List.nodup_cons.mpr ⟨hfits.1, ih hinit⟩)

/-! ## Writes -/

/-- Whether a write succeeded. -/
def Attempt.succeeded (x : Attempt) : Bool :=
  match x.result with
  | .ok () => true
  | .error _ => false

/-- The write of a document that was written. -/
def Written.attempt (w : Written) : Attempt :=
  ⟨w.target, w.rendered.content, .ok ()⟩

/-- The writes that succeed are those of the documents in the report. -/
theorem filter_attempts (accounts : List Account) :
    (attempts output format accounts).filter (·.succeeded) =
      (reportOf output format accounts).written.map Written.attempt := by
  rw [attempts, reportOf, List.filter_filterMap, List.map_filterMap]
  refine List.filterMap_congr fun a _ => ?_
  rw [Account.written?]
  cases a.fate <;> rfl

/-- A write for an input goes to the target of a document whose stem was not taken. -/
theorem path_of_attempt? (h : a.fate.Fits output format s before) {x : Attempt}
    (hx : a.fate.attempt? output format = some x) :
    ∃ stem, stem ∉ (reportOf output format before).stems ∧ x.path = target output format stem := by
  cases hfate : a.fate with
  | written document =>
    rw [hfate] at h hx
    obtain rfl := Option.some.inj hx
    exact ⟨document.stem, h.1, rfl⟩
  | unwritten document error =>
    rw [hfate] at h hx
    obtain rfl := Option.some.inj hx
    exact ⟨document.stem, h.1, rfl⟩
  | unrendered failure =>
    rw [hfate] at hx
    cases hx
  | taken document =>
    rw [hfate] at hx
    cases hx

theorem path_ne_order (h : Sound output format s accounts) {x : Attempt}
    (hx : x ∈ attempts output format accounts) : x.path ≠ Path.join output orderFile := by
  obtain ⟨a, ha, hx⟩ := List.mem_filterMap.mp hx
  obtain ⟨before, after, hsplit⟩ := List.append_of_mem ha
  obtain ⟨stem, -, hpath⟩ := path_of_attempt? (h before a after hsplit) hx
  rw [hpath]
  exact target_ne_order stem

/-- **No document is written over**: after the write of a document comes no other one to its
target. -/
theorem holds_written (h : Sound output format s accounts) {w : Written}
    (hw : w ∈ (reportOf output format accounts).written) :
    ∃ earlier later, attempts output format accounts = earlier ++ w.attempt :: later ∧
      ∀ x ∈ later, x.path ≠ w.target := by
  obtain ⟨a, ha, hwritten⟩ := List.mem_filterMap.mp hw
  obtain ⟨document, hfate, rfl⟩ := written?_eq_some_iff.mp hwritten
  obtain ⟨before, after, rfl⟩ := List.append_of_mem ha
  refine ⟨attempts output format before, attempts output format after, ?_, fun x hx hpath => ?_⟩
  · rw [attempts, List.filterMap_append, List.filterMap_cons, hfate]
    rfl
  · -- A later write is that of an account whose stem is not among those before it.
    obtain ⟨b, hb, hattempt⟩ := List.mem_filterMap.mp hx
    obtain ⟨middle, last, rfl⟩ := List.append_of_mem hb
    have hfits : b.fate.Fits output format s (before ++ a :: middle) :=
      h (before ++ a :: middle) b last (by simp)
    obtain ⟨stem, hstem, htarget⟩ := path_of_attempt? hfits hattempt
    have hsame : stem = document.stem := target_injective (htarget.symm.trans hpath)
    have hmem : (⟨a.input, target output format document.stem, document⟩ : Written) ∈
        (reportOf output format (before ++ a :: middle)).written :=
      List.mem_filterMap.mpr ⟨a, by simp, hwritten⟩
    rw [hsame] at hstem
    exact hstem (List.mem_map_of_mem hmem)

/-! ## Publishing -/

/-- Every input is in one of the two lists of a report. -/
theorem length_reportOf (accounts : List Account) :
    (reportOf output format accounts).written.length +
      (reportOf output format accounts).failures.length = accounts.length := by
  induction accounts using List.reverseRecOn with
  | nil => rfl
  | append_singleton accounts a ih =>
    rw [List.length_append, List.length_singleton, ← ih]
    cases hplaced : a.fate.placed output format with
    | ok document =>
      rw [reportOf_concat_of_ok hplaced]
      simp only [Report.addWritten, List.length_append, List.length_singleton]
      omega
    | error error =>
      rw [reportOf_concat_of_error hplaced]
      simp only [Report.addSkipped, List.length_append, List.length_singleton]
      omega

/-- The list of the documents has a line for each, since no stem is empty. -/
theorem orderText_eq {stems : List String} (h : "" ∉ stems) :
    orderText stems = Text.unlines stems := by
  cases stems with
  | nil => rfl
  | cons stem stems =>
    have hstem : stem ≠ "" := fun hempty => h (hempty ▸ List.mem_cons_self)
    have hne : "\n".intercalate (stem :: stems) ≠ "" := by
      cases stems with
      | nil => rwa [String.intercalate_singleton]
      | cons next stems =>
        rw [String.intercalate_cons_cons]
        intro hempty
        exact hstem (String.append_eq_empty_iff.mp (String.append_eq_empty_iff.mp hempty).1).1
    rw [orderText, if_neg hne]
    -- From here on, a stem may be empty.
    clear h hstem hne
    induction stems generalizing stem with
    | nil => simp [Text.unlines]
    | cons next stems ih =>
      have hunlines : Text.unlines (stem :: next :: stems) =
          stem ++ "\n" ++ Text.unlines (next :: stems) := by
        rw [Text.unlines, List.map_cons, String.join_cons, ← Text.unlines]
      rw [String.intercalate_cons_cons, String.append_assoc, ih, hunlines]

/-- What comes of publishing, where the documents are written and the list of the documents can
be. -/
theorem publish_of_complete {options : Options} {rendered : List (String × Except Failure Rendered)}
    {report : Report} {history : List Attempt}
    (horder : ∀ history text, s.writing history (Path.join output orderFile) text = .ok ())
    (h : (writeAll s.files.write output options {} rendered).run [] = ((report, true), history)) :
    (publish s.files output options rendered).run [] =
      ((.ok report, report.log),
        history ++ [⟨Path.join output orderFile, orderText report.stems, .ok ()⟩]) := by
  have hfolder : (s.files.makeFolder output).run [] = (.ok (), []) := rfl
  rw [publish, run_bind_of_eq hfolder, run_bind_of_eq h]
  dsimp only
  rw [run_bind_of_eq (run_write s _ _ _), horder]
  rfl

/-- What comes of publishing, where a document is left out that ends the run. -/
theorem publish_of_stopped {options : Options} {rendered : List (String × Except Failure Rendered)}
    {report : Report} {failure : Skipped} {history : List Attempt}
    (hlast : report.failures.getLast? = some failure)
    (h : (writeAll s.files.write output options {} rendered).run [] = ((report, false), history)) :
    (publish s.files output options rendered).run [] =
      ((.error ⟨failure.input ++ ": " ++ failure.error, []⟩, report.log), history) := by
  have hfolder : (s.files.makeFolder output).run [] = (.ok (), []) := rfl
  rw [publish, run_bind_of_eq hfolder, run_bind_of_eq h]
  dsimp only
  rw [hlast]
  rfl

/-- Publishing where no input that is left out ends the run. -/
theorem publish_of_sound (failFast : Bool) (h : Sound output format s accounts)
    (hgo : failFast = true → accounts.filterMap (·.skipped? output format) = [])
    (hstems : "" ∉ (reportOf output format accounts).stems)
    (horder : ∀ history text, s.writing history (Path.join output orderFile) text = .ok ()) :
    (publish s.files output ⟨format, failFast⟩ (accounts.map Account.rendered)).run [] =
      ((.ok (reportOf output format accounts), (reportOf output format accounts).log),
        attempts output format accounts ++
          [⟨Path.join output orderFile, Text.unlines (reportOf output format accounts).stems,
            .ok ()⟩]) := by
  have hwrites : (writeAll s.files.write output ⟨format, failFast⟩ {}
      (accounts.map Account.rendered ++ [])).run [] =
      ((reportOf output format accounts, true), attempts output format accounts) :=
    writeAll_of_sound failFast (show Sound output format s ([] ++ accounts) from h) hgo []
  rw [List.append_nil] at hwrites
  rw [publish_of_complete horder hwrites, orderText_eq hstems]

/-- Publishing where the first input that is left out ends the run. -/
theorem exists_publish_of_first {after : List Account}
    (h : Sound output format s (before ++ a :: after))
    (hbefore : before.filterMap (·.skipped? output format) = []) {error : String}
    (herror : a.fate.placed output format = .error error) :
    ∃ log, (publish s.files output ⟨format, true⟩
        ((before ++ a :: after).map Account.rendered)).run [] =
      ((.error ⟨a.input ++ ": " ++ error, []⟩, log), attempts output format (before ++ [a])) := by
  have hfits : a.fate.Fits output format s before := h before a after rfl
  have hwrites : (writeAll s.files.write output ⟨format, true⟩ {}
      (before.map Account.rendered ++ (a :: after).map Account.rendered)).run [] = _ :=
    (writeAll_of_sound true (show Sound output format s ([] ++ before) from h.left)
      (fun _ => hbefore) _).trans (writeAll_of_error hfits herror _)
  rw [← List.map_append] at hwrites
  exact ⟨_, publish_of_stopped List.getLast?_concat hwrites⟩

end Accounts

end FlowDoc.Batch
