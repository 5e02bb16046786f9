import FlowDoc.Proofs.Batch.Accounts

/-!
# Accounting of a run

A run accounts for every input. Where it goes on to its end, it reports the documents and the inputs
that were left out, and lists the documents. Where it stops at failures, it does the same if there
are none, and otherwise it has written the documents of the inputs before the first failure.

## Main definitions

* `Completed`, `Stopped`: what a run that goes on to its end does, and one that stops

## Main results

* `completed_of_sound`, `stopped_of_sound`: the two ways in which a run ends
* `run_accounting`: a run accounts for every input
-/

namespace FlowDoc.Batch

/-! ## The accounts of a run -/

/-- What a run that goes on to its end reports and has written. -/
structure Completed (output : String) (format : Format) (accounts : List Account) (report : Report)
    (history : List Attempt) : Prop where
  /-- The documents that were written, in the order of the inputs. -/
  written_eq : report.written = accounts.filterMap (·.written? output format)
  /-- The inputs that were left out, in order. -/
  failures_eq : report.failures = accounts.filterMap (·.skipped? output format)
  /-- No input is in both lists or in none. -/
  one_of : ∀ a ∈ accounts,
    (a.written? output format).isSome = !(a.skipped? output format).isSome
  length_eq : report.written.length + report.failures.length = accounts.length
  stems_nodup : report.stems.Nodup
  /-- The writes for the inputs, and last that of the file with the stem of each document on a line
  of its own. -/
  history_eq : history = attempts output format accounts ++
    [⟨Path.join output orderFile, Text.unlines report.stems, .ok ()⟩]
  /-- The last write to the target of a document is that of the document. -/
  holds : ∀ w ∈ report.written, ∃ earlier later, history = earlier ++ w.attempt :: later ∧
    ∀ x ∈ later, x.path ≠ w.target

/-- What a run that stops at the input of `a` yields and has written, where `before` are the
accounts of the inputs before it. -/
structure Stopped (output : String) (format : Format) (before : List Account) (a : Account)
    (result : Except Failure Report) (history : List Attempt) : Prop where
  /-- All inputs before have documents. -/
  before_written :
    (before.filterMap (·.written? output format)).map (·.input) = before.map (·.input)
  /-- The failure names the input and says why it has none. -/
  result_eq : ∃ error, a.skipped? output format = some ⟨a.input, error⟩ ∧
    result = .error ⟨a.input ++ ": " ++ error, []⟩
  history_eq : history = attempts output format (before ++ [a])
  /-- These documents were written, and nothing else. -/
  writes_eq : history.filter (·.succeeded) =
    (before.filterMap (·.written? output format)).map Written.attempt
  order_not_written : ∀ x ∈ history, x.path ≠ Path.join output orderFile

section Run

variable {output : String} {format : Format} {s : Surroundings} {accounts before : List Account}
  {a : Account}

theorem written?_isSome (a : Account) :
    (a.written? output format).isSome = !(a.skipped? output format).isSome := by
  rw [Account.written?, Account.skipped?]
  cases a.fate.placed output format <;> rfl

/-- Where no input is left out, all inputs have documents. -/
theorem map_input_written (h : accounts.filterMap (·.skipped? output format) = []) :
    (accounts.filterMap (·.written? output format)).map (·.input) = accounts.map (·.input) := by
  rw [List.map_filterMap, ← List.filterMap_eq_map]
  refine List.filterMap_congr fun a ha => ?_
  have hskip : a.skipped? output format = none := List.filterMap_eq_nil_iff.mp h a ha
  rw [Account.skipped?] at hskip
  rw [Account.written?]
  cases hplaced : a.fate.placed output format with
  | ok document => rfl
  | error error =>
    rw [hplaced] at hskip
    cases hskip

theorem completed_of_sound (h : Sound output format s accounts) :
    Completed output format accounts (reportOf output format accounts)
      (attempts output format accounts ++
        [⟨Path.join output orderFile, Text.unlines (reportOf output format accounts).stems,
          .ok ()⟩]) where
  written_eq := rfl
  failures_eq := rfl
  one_of a _ := written?_isSome a
  length_eq := length_reportOf accounts
  stems_nodup := nodup_stems h
  history_eq := rfl
  holds w hw := by
    obtain ⟨earlier, later, hwrites, hlater⟩ := holds_written h hw
    obtain ⟨a, -, hwritten⟩ := List.mem_filterMap.mp hw
    obtain ⟨document, -, rfl⟩ := written?_eq_some_iff.mp hwritten
    refine ⟨earlier, later ++ [_], by rw [hwrites, List.append_assoc, List.cons_append], ?_⟩
    intro x hx
    rcases List.mem_append.mp hx with hx | hx
    · exact hlater x hx
    · rw [List.mem_singleton.mp hx]
      exact (target_ne_order document.stem).symm

/-- The first input that is left out. -/
theorem exists_first_skipped (h : accounts.filterMap (·.skipped? output format) ≠ []) :
    ∃ before a after error, accounts = before ++ a :: after ∧
      before.filterMap (·.skipped? output format) = [] ∧
      a.fate.placed output format = .error error := by
  have hsome : (accounts.find? fun a => (a.skipped? output format).isSome).isSome = true := by
    rw [List.find?_isSome]
    by_contra hnone
    refine h (List.filterMap_eq_nil_iff.mpr fun a ha => ?_)
    by_contra hskip
    exact hnone ⟨a, ha, Option.isSome_iff_ne_none.mpr hskip⟩
  obtain ⟨a, ha⟩ := Option.isSome_iff_exists.mp hsome
  obtain ⟨hskip, before, after, hsplit, hbefore⟩ := List.find?_eq_some_iff_append.mp ha
  obtain ⟨error, herror⟩ : ∃ error, a.fate.placed output format = .error error := by
    rw [Account.skipped?] at hskip
    cases hplaced : a.fate.placed output format with
    | ok document =>
      rw [hplaced] at hskip
      cases hskip
    | error error => exact ⟨error, rfl⟩
  refine ⟨before, a, after, error, hsplit, List.filterMap_eq_nil_iff.mpr fun b hb => ?_, herror⟩
  simpa using hbefore b hb

theorem stopped_of_sound (h : Sound output format s (before ++ [a]))
    (hbefore : before.filterMap (·.skipped? output format) = []) {error : String}
    (herror : a.fate.placed output format = .error error) :
    Stopped output format before a (.error ⟨a.input ++ ": " ++ error, []⟩)
      (attempts output format (before ++ [a])) where
  before_written := map_input_written hbefore
  result_eq := ⟨error, by rw [Account.skipped?, herror], rfl⟩
  history_eq := rfl
  writes_eq := by
    rw [filter_attempts, reportOf_concat_of_error herror]
    rfl
  order_not_written _ hx := path_ne_order h hx

/-- No document of an input has an empty stem. -/
theorem empty_notMem_stems {folder : String} {config : Config}
    (h : accounts.map Account.rendered = s.rendered folder config format) :
    "" ∉ (reportOf output format accounts).stems := by
  intro hempty
  obtain ⟨w, hw, hstem⟩ := List.mem_map.mp hempty
  obtain ⟨a, ha, hwritten⟩ := List.mem_filterMap.mp hw
  obtain ⟨document, hfate, rfl⟩ := written?_eq_some_iff.mp hwritten
  have hmem : (a.input, .ok document) ∈ s.rendered folder config format := by
    rw [← h]
    refine List.mem_map.mpr ⟨a, ha, ?_⟩
    rw [Account.rendered, hfate]
    rfl
  exact stem_ne_empty hmem hstem

/-- **A run accounts for every input.** Each input has a document exactly when it is rendered, no
input before it has a document with the same stem and the write succeeds. A run that goes on to its
end reports the documents and the other inputs, and lists the stems. A run that stops at failures
does the same where there are none, and otherwise names the first input without a document and has
written the documents of those before it only. -/
theorem run_accounting (s : Surroundings) (folder output : String) (config : Config)
    (format : Format)
    (horder : ∀ history text, s.writing history (Path.join output orderFile) text = .ok ()) :
    let runs (failFast : Bool) : (Except Failure Report × List LogLine) × List Attempt :=
      (run s.files folder output config ⟨format, failFast⟩).run []
    ∃ accounts, accounts.map Account.rendered = s.rendered folder config format ∧
      Sound output format s accounts ∧
      (∀ before a after document, accounts = before ++ a :: after →
        a.fate.outcome = .ok document → a.skipped? output format ≠ none →
        document.stem ∈ (reportOf output format before).stems ∨
          ∃ error, s.writing (attempts output format before)
            (target output format document.stem) document.content = .error error) ∧
      (∃ report, (runs false).1.1 = .ok report ∧
        Completed output format accounts report (runs false).2) ∧
      ((accounts.filterMap (·.skipped? output format) = [] ∧ runs true = runs false) ∨
        ∃ before a after, accounts = before ++ a :: after ∧
          Stopped output format before a (runs true).1.1 (runs true).2) := by
  intro runs
  obtain ⟨accounts, hrendered, hsound⟩ :
    ∃ accounts, accounts.map Account.rendered = s.rendered folder config format ∧
      Sound output format s accounts := exists_sound s _
  have hruns : ∀ failFast, runs failFast = _ := run_eq_publish s folder config format output
  have hstems : "" ∉ (reportOf output format accounts).stems := empty_notMem_stems hrendered
  have hend := publish_of_sound false hsound (fun hfast => by cases hfast) hstems horder
  rw [hrendered] at hend
  refine ⟨accounts, hrendered, hsound, fun before a after document hsplit =>
    taken_or_unwritten (hsound before a after hsplit),
    ⟨reportOf output format accounts, ?_, ?_⟩, ?_⟩
  · rw [hruns, hend]
  · rw [hruns, hend]
    exact completed_of_sound hsound
  · by_cases hskipped : accounts.filterMap (·.skipped? output format) = []
    · have hfast := publish_of_sound true hsound (fun _ => hskipped) hstems horder
      rw [hrendered] at hfast
      exact .inl ⟨hskipped, by rw [hruns, hruns, hfast, hend]⟩
    · obtain ⟨before, a, after, error, rfl, hbefore, herror⟩ := exists_first_skipped hskipped
      obtain ⟨log, hstop⟩ := exists_publish_of_first hsound hbefore herror
      have hinit : Sound output format s (before ++ [a]) := by
        rw [List.append_cons] at hsound
        exact hsound.left
      refine .inr ⟨before, a, after, rfl, ?_⟩
      rw [hrendered] at hstop
      rw [hruns, hstop]
      exact stopped_of_sound hinit hbefore herror

end Run

/-- Files around a run in which one input cannot be read, one has the name of another and one has a
document that cannot be written. -/
def mixedSurroundings : Surroundings where
  entries := [("c.json", true), ("a.json", true), ("b.json", true), ("notes.txt", true),
    ("d.json", true), ("e.JSON", true)]
  reading path :=
    if path = "in/b.json" then .error .notText
    else if path = "in/c.json" then .ok "\x7b\"name\": \" a \"\x7d"
    else .ok "\x7b\x7d"
  writing _ path _ := if path = "out/d.mmd" then .error .isFolder else .ok ()

/-- The stems of the documents that a run with these files writes. -/
theorem stems_mixedSurroundings :
    ((run mixedSurroundings.files "in" "out" {} ⟨.mermaid, false⟩).run []).1.1.toOption.map
      (·.stems) = some ["a", "e"] := by
  decide +kernel

/-- A run with these files that stops at failures fails. -/
theorem failed_mixedSurroundings :
    ((run mixedSurroundings.files "in" "out" {} ⟨.mermaid, true⟩).run []).1.1.toOption = none := by
  decide +kernel

theorem run_accounting_mixedSurroundings :
    (∀ history text,
      mixedSurroundings.writing history (Path.join "out" orderFile) text = .ok ()) ∧
    ∃ accounts, accounts.map Account.rendered = mixedSurroundings.rendered "in" {} .mermaid ∧
      Sound "out" .mermaid mixedSurroundings accounts ∧
      (∃ report, report.stems = ["a", "e"] ∧
        Completed "out" .mermaid accounts report
          ((run mixedSurroundings.files "in" "out" {} ⟨.mermaid, false⟩).run []).2) ∧
      ∃ before a after, accounts = before ++ a :: after ∧
        Stopped "out" .mermaid before a
          ((run mixedSurroundings.files "in" "out" {} ⟨.mermaid, true⟩).run []).1.1
          ((run mixedSurroundings.files "in" "out" {} ⟨.mermaid, true⟩).run []).2 := by
  have horder : ∀ history text,
      mixedSurroundings.writing history (Path.join "out" orderFile) text = .ok () := by
    intro history text
    have hne : Path.join "out" orderFile ≠ "out/d.mmd" := by decide +kernel
    exact if_neg hne
  obtain ⟨accounts, hrendered, hsound, -, ⟨report, hreport, hcompleted⟩, hstop⟩ :=
    run_accounting mixedSurroundings "in" "out" {} .mermaid horder
  dsimp only at hreport hcompleted hstop
  refine ⟨horder, accounts, hrendered, hsound, ⟨report, ?_, hcompleted⟩, ?_⟩
  · have hstems := stems_mixedSurroundings
    rw [hreport] at hstems
    exact Option.some.inj hstems
  · rcases hstop with ⟨-, hsame⟩ | ⟨before, a, after, hsplit, hstopped⟩
    · -- The run that goes on to its end does not fail, so the other one is not the same.
      have hfailed := failed_mixedSurroundings
      rw [hsame, hreport] at hfailed
      cases hfailed
    · exact ⟨before, a, after, hsplit, hstopped⟩

end FlowDoc.Batch
