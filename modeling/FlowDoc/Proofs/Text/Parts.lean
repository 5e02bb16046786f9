import Mathlib.Data.List.DropRight
import FlowDoc.Proofs.Text

/-!
# Parts of a text

Trimming a text, cutting it at a mark, dividing it into lines and into words all yield parts of it:
a part holds only characters of the text, and none of those at which the text was taken apart.

## Main results

* `trim_sublist`, `trim_trim`: trimming leaves characters out, and a second time none
* `trim_iff`: what trimming makes no difference to
* `mem_of_cut_singleton`, `not_mem_of_cut_singleton`: the characters before a mark
* `mem_of_mem_lines`, `mem_of_mem_words`: the characters of a line and of a word
* `flatten_lines`: the characters of all lines
-/

namespace FlowDoc.Text

/-! ## Trimming -/

theorem trimEnd_isPrefix (cs : List Char) : trimEnd cs <+: cs :=
  List.rdropWhile_prefix isBlank cs

theorem trim_sublist (cs : List Char) : (trim cs).Sublist cs :=
  (trimEnd_isPrefix _).sublist.trans (List.dropWhile_sublist _)

/-- What trimming leaves starts with no blank. -/
theorem trimStart_trim (cs : List Char) : trimStart (trim cs) = trim cs := by
  cases h : trim cs with
  | nil => rfl
  | cons c rest =>
    -- The first character left is also the first one after the leading blanks.
    obtain ⟨tail, htail⟩ := trimEnd_isPrefix (trimStart cs)
    have hhead := List.head?_dropWhile_not isBlank cs
    rw [← trimStart, ← htail, ← trim, h] at hhead
    have hc : ¬ isBlank c = true := by simpa using hhead
    exact List.dropWhile_cons_of_neg hc

theorem trim_trimStart (cs : List Char) : trim (trimStart cs) = trim cs := by
  have hstart : trimStart (trimStart cs) = trimStart cs :=
    List.dropWhile_idempotent isBlank cs
  rw [trim, hstart, trim]

theorem trimStart_eq_nil_iff {cs : List Char} : trimStart cs = [] ↔ blank cs = true := by
  rw [trimStart, List.dropWhile_eq_nil_iff, blank, List.all_eq_true]

/-- Trimming a second time leaves nothing out. -/
@[simp] theorem trim_trim (cs : List Char) : trim (trim cs) = trim cs := by
  have hend : trimEnd (trimEnd (trimStart cs)) = trimEnd (trimStart cs) :=
    List.rdropWhile_idempotent isBlank _
  rw [trim, trimStart_trim, trim, hend]

@[simp] theorem trimmed_trimmed (s : String) : trimmed (trimmed s) = trimmed s := by
  rw [trimmed, toList_trimmed, trim_trim, ← trimmed]

@[simp] theorem trimmed_ofList_trim (cs : List Char) :
    trimmed (String.ofList (trim cs)) = String.ofList (trim cs) := by
  rw [trimmed, String.toList_ofList, trim_trim]

/-- Trimming leaves nothing of a blank text, and of no other. -/
theorem trim_eq_nil_iff {cs : List Char} : trim cs = [] ↔ ∀ c ∈ cs, isBlank c = true := by
  rw [trim, trimEnd, List.reverse_eq_nil_iff, List.dropWhile_eq_nil_iff]
  constructor
  · intro h
    by_contra hne
    obtain ⟨c, hc, hblank⟩ : ∃ c ∈ cs, ¬ isBlank c = true := by simpa using hne
    -- The first character that is not blank is not trimmed at the start.
    cases hs : trimStart cs with
    | nil => exact hblank (List.dropWhile_eq_nil_iff.mp hs c hc)
    | cons d ds =>
      have hd : ¬ isBlank d = true := by
        have hhead := List.head?_dropWhile_not isBlank cs
        rw [← trimStart, hs] at hhead
        simpa using hhead
      exact hd (h d (by rw [hs]; simp))
  · intro h c hc
    exact h c ((List.dropWhile_sublist _).subset (List.mem_reverse.mp hc))

section EndsDropped

variable {α : Type} {P : List α → Prop} {p : α → Bool}

/-- A property that some elements at the start of a list make no difference to. -/
theorem dropWhile_iff (h : ∀ a as, p a = true → (P (a :: as) ↔ P as)) (as : List α) :
    P (as.dropWhile p) ↔ P as := by
  induction as with
  | nil => rfl
  | cons a as ih =>
    by_cases ha : p a = true
    · rw [List.dropWhile_cons_of_pos ha, ih, h a as ha]
    · rw [List.dropWhile_cons_of_neg ha]

/-- A property that some elements at the end of a list make no difference to. -/
theorem rdropWhile_iff (h : ∀ as a, p a = true → (P (as ++ [a]) ↔ P as)) (as : List α) :
    P (as.rdropWhile p) ↔ P as := by
  induction as using List.reverseRecOn with
  | nil => rfl
  | append_singleton as a ih =>
    by_cases ha : p a = true
    · rw [List.rdropWhile_concat_pos _ _ _ ha, ih, h as a ha]
    · rw [List.rdropWhile_concat_neg _ _ _ ha]

end EndsDropped

/-- Trimming keeps a property that blanks at the ends of a text make no difference to. -/
theorem trim_iff {P : List Char → Prop} (hstart : ∀ c cs, isBlank c = true → (P (c :: cs) ↔ P cs))
    (hend : ∀ cs c, isBlank c = true → (P (cs ++ [c]) ↔ P cs)) (cs : List Char) :
    P (trim cs) ↔ P cs :=
  (rdropWhile_iff hend (trimStart cs)).trans (dropWhile_iff hstart cs)

/-! ## Cutting at a character -/

section Cut

variable {c : Char} {text before rest : List Char}

theorem mem_of_cut_singleton (h : cut [c] text = some (before, rest)) {d : Char}
    (hd : d ∈ before ∨ d ∈ rest) : d ∈ text := by
  rw [append_eq_of_cut h]
  rcases hd with hd | hd
  · simp [hd]
  · simp [hd]

/-- A text is cut at the first place that it can be cut at. -/
theorem not_mem_of_cut_singleton (h : cut [c] text = some (before, rest)) : c ∉ before := by
  intro hmem
  obtain ⟨xs, ys, rfl⟩ := List.append_of_mem hmem
  exact not_infix_of_cut (List.cons_ne_nil c []) h ⟨xs, ys, by simp⟩

end Cut

/-! ## Lines and words -/

/-- The parts of a list between its separators hold no separator. -/
theorem mem_of_mem_splitOnP {α : Type} {p : α → Bool} {xs part : List α}
    (h : part ∈ xs.splitOnP p) {x : α} (hx : x ∈ part) : x ∈ xs ∧ p x = false := by
  induction xs generalizing part with
  | nil =>
    obtain rfl : part = [] := by simpa using h
    cases hx
  | cons a xs ih =>
    rw [List.splitOnP_cons_eq_if_modifyHead] at h
    split_ifs at h with ha
    · rcases List.mem_cons.mp h with rfl | h
      · cases hx
      · obtain ⟨hmem, hp⟩ := ih h hx
        exact ⟨List.mem_cons_of_mem _ hmem, hp⟩
    · -- The element goes to the first part of the rest.
      obtain ⟨first, parts, hparts⟩ := List.exists_cons_of_ne_nil (List.splitOnP_ne_nil p xs)
      rw [hparts, List.modifyHead_cons] at h
      rw [hparts] at ih
      rcases List.mem_cons.mp h with rfl | h
      · rcases List.mem_cons.mp hx with rfl | hx
        · exact ⟨List.mem_cons_self, by simpa using ha⟩
        · obtain ⟨hmem, hp⟩ := ih List.mem_cons_self hx
          exact ⟨List.mem_cons_of_mem _ hmem, hp⟩
      · obtain ⟨hmem, hp⟩ := ih (List.mem_cons_of_mem _ h) hx
        exact ⟨List.mem_cons_of_mem _ hmem, hp⟩

/-- The parts of a list with one more element at its start, where what is made of a part can be told
element by element. -/
theorem map_splitOnP_cons {α β : Type} (p : α → Bool) {g : List α → β} {h : α → β → β}
    (hg : ∀ x xs, g (x :: xs) = h x (g xs)) (x : α) (xs : List α) :
    ((x :: xs).splitOnP p).map g =
      if p x then g [] :: (xs.splitOnP p).map g else ((xs.splitOnP p).map g).modifyHead (h x) := by
  rw [List.splitOnP_cons_eq_if_modifyHead]
  split_ifs
  · rfl
  · obtain ⟨first, rest, hparts⟩ := List.exists_cons_of_ne_nil (List.splitOnP_ne_nil p xs)
    rw [hparts, List.modifyHead_cons, List.map_cons, List.map_cons, hg, List.modifyHead_cons]

theorem mem_of_mem_lines {cs line : List Char} (h : line ∈ lines cs) {c : Char} (hc : c ∈ line) :
    c ∈ cs ∧ c ≠ '\n' := by
  obtain ⟨hmem, hfeed⟩ := mem_of_mem_splitOnP h hc
  exact ⟨hmem, by simpa using hfeed⟩

/-- The lines of a text are the text without its line feeds. -/
theorem flatten_lines (cs : List Char) : (lines cs).flatten = cs.filter (· != '\n') := by
  induction cs with
  | nil => rfl
  | cons c cs ih =>
    by_cases hc : c = '\n'
    · subst hc
      rw [← List.nil_append ('\n' :: cs), lines_append_feed, List.flatten_append, ih]
      simp [lines]
    · obtain ⟨first, rest, hlines⟩ := List.exists_cons_of_ne_nil (List.splitOn_ne_nil '\n' cs)
      rw [lines_cons hc, lines, hlines, List.modifyHead_cons, List.flatten_cons, List.cons_append,
        ← List.flatten_cons, ← hlines, ← lines, ih]
      simp [hc]

theorem mem_of_mem_words {cs word : List Char} (h : word ∈ words cs) {c : Char} (hc : c ∈ word) :
    c ∈ cs ∧ isBlank c = false :=
  mem_of_mem_splitOnP (List.mem_of_mem_filter h) hc

theorem ne_nil_of_mem_words {cs word : List Char} (h : word ∈ words cs) : word ≠ [] := by
  have hne := (List.mem_filter.mp h).2
  simpa using hne

end FlowDoc.Text
