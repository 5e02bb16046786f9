import Mathlib.Data.List.Basic
import FlowDoc.Text.Blank
import FlowDoc.Text.Cut
import FlowDoc.Text.Lines

/-!
# Texts that are put together

A text that is put together from parts is taken apart into them: it is cut at the mark between two
parts when no mark starts earlier, divided into lines at the line feeds between them, and into words
at the blanks.

## Main results

* `cut_ne_none_iff`, `cut_append`, `cut_append_right`: where a text is cut
* `infix_append_cons`: a mark lies on one side of a character that it does not hold
* `lines_filter`: leaving out characters other than line feeds leaves the lines as they are divided
* `lines_append_feed`: a line feed separates lines
* `lines_unlines`: written lines are read back
* `isInfix_unlines`, `isInfix_intercalate`: a text stands among those that it is joined with
* `words_append_blank`: a blank separates words
-/

namespace FlowDoc.Text

/-! ## Cutting -/

theorem cut_ne_none_iff {mark text : List Char} : cut mark text ≠ none ↔ mark <:+: text := by
  constructor
  · intro h
    obtain ⟨⟨before, rest⟩, hcut⟩ := Option.ne_none_iff_exists'.mp h
    exact ⟨before, rest, (append_eq_of_cut hcut).symm⟩
  · rintro ⟨before, rest, rfl⟩ h
    exact cut_eq_none_iff.mp h before rest rfl

/-- A text is cut where it is put together, when no mark starts earlier. -/
theorem cut_append {mark before : List Char} (rest : List Char) (hmark : mark ≠ [])
    (h : ¬ mark <:+: before ++ mark.dropLast) :
    cut mark (before ++ mark ++ rest) = some (before, rest) := by
  induction before with
  | nil =>
    obtain ⟨m, ms, rfl⟩ := List.exists_cons_of_ne_nil hmark
    have hafter : after? (m :: ms) (m :: ms ++ rest) = some rest := after?_eq_some_iff.mpr rfl
    rw [List.nil_append, List.cons_append, cut, ← List.cons_append, hafter]
  | cons c before ih =>
    have hlater : ¬ mark <:+: before ++ mark.dropLast := fun hin =>
      h (hin.trans (List.suffix_cons _ _).isInfix)
    have hafter : after? mark (c :: before ++ mark ++ rest) = none := by
      by_contra hsome
      obtain ⟨r, hr⟩ := Option.ne_none_iff_exists'.mp hsome
      have hhead : mark <+: c :: before ++ mark ++ rest := ⟨r, (after?_eq_some_iff.mp hr).symm⟩
      have hwhole : c :: before ++ mark.dropLast <+: c :: before ++ mark ++ rest := by
        rw [List.append_assoc, List.prefix_append_right_inj]
        exact (List.dropLast_prefix _).trans (List.prefix_append _ _)
      refine h (List.IsPrefix.isInfix (List.prefix_of_prefix_length_le hhead hwhole ?_))
      simp only [List.cons_append, List.length_cons, List.length_append, List.length_dropLast]
      omega
    rw [List.cons_append, List.cons_append, cut, ← List.cons_append, ← List.cons_append, hafter]
    simp only [ih hlater, Option.map_some]

/-- A text is cut at the first place that it can be cut at. -/
theorem not_infix_of_cut {mark text before rest : List Char} (hmark : mark ≠ [])
    (h : cut mark text = some (before, rest)) : ¬ mark <:+: before := by
  fun_induction cut mark text generalizing before with
  | case1 =>
    obtain ⟨r, -, heq⟩ := Option.map_eq_some_iff.mp h
    cases heq
    exact fun hin => hmark (List.infix_nil.mp hin)
  | case2 c cs r hr =>
    cases h
    exact fun hin => hmark (List.infix_nil.mp hin)
  | case3 c cs hr ih =>
    obtain ⟨⟨b, r⟩, hb, heq⟩ := Option.map_eq_some_iff.mp h
    cases heq
    intro hin
    rcases List.infix_cons_iff.mp hin with ⟨more, hmore⟩ | hin
    · -- The mark would start the text.
      have hstart : c :: cs = mark ++ (more ++ mark ++ rest) := by
        rw [append_eq_of_cut hb, ← List.cons_append, ← List.cons_append, ← hmore]
        simp only [List.append_assoc]
      rw [after?_eq_some_iff.mpr hstart] at hr
      cases hr
    · exact ih hb hin

theorem cut_singleton {c : Char} {before : List Char} (rest : List Char) (h : c ∉ before) :
    cut [c] (before ++ c :: rest) = some (before, rest) := by
  have hnot : ¬ [c] <:+: before ++ [c].dropLast := by
    rw [List.dropLast_singleton, List.append_nil]
    exact fun hin => h (hin.subset (List.mem_singleton_self c))
  rw [← cut_append rest (List.cons_ne_nil c []) hnot, List.append_assoc]
  rfl

/-- A text that goes on is cut at the same place. -/
theorem cut_append_right {mark text before rest : List Char}
    (h : cut mark text = some (before, rest)) (more : List Char) :
    cut mark (text ++ more) = some (before, rest ++ more) := by
  have hafter : ∀ {text rest : List Char}, after? mark text = some rest →
      after? mark (text ++ more) = some (rest ++ more) := by
    intro text rest h
    rw [after?_eq_some_iff] at h ⊢
    rw [h, List.append_assoc]
  fun_induction cut mark text generalizing before with
  | case1 =>
    obtain ⟨r, hr, heq⟩ := Option.map_eq_some_iff.mp h
    cases heq
    have hmore := hafter hr
    rw [List.nil_append] at hmore ⊢
    cases more with
    | nil => rw [cut, hmore]; rfl
    | cons c cs => rw [cut, hmore]
  | case2 c cs r hr =>
    cases h
    have hmore := hafter hr
    rw [List.cons_append] at hmore ⊢
    rw [cut, hmore]
  | case3 c cs hr ih =>
    obtain ⟨⟨b, r⟩, hb, heq⟩ := Option.map_eq_some_iff.mp h
    cases heq
    -- The mark found later is whole, so none that starts here reaches beyond the text.
    have hnone : after? mark (c :: (cs ++ more)) = none := by
      by_contra hsome
      obtain ⟨r', hr'⟩ := Option.ne_none_iff_exists'.mp hsome
      have hhead : mark <+: (c :: cs) ++ more := ⟨r', (after?_eq_some_iff.mp hr').symm⟩
      have hlength : mark.length ≤ (c :: cs).length := by
        rw [append_eq_of_cut hb]
        simp only [List.length_cons, List.length_append]
        omega
      obtain ⟨r'', hr''⟩ := List.prefix_of_prefix_length_le hhead (List.prefix_append _ _) hlength
      rw [after?_eq_some_iff.mpr hr''.symm] at hr
      cases hr
    rw [List.cons_append, cut, hnone]
    simp only [ih hb, Option.map_some]

/-- A mark without some character lies on one side of it. -/
theorem infix_append_cons {mark xs ys : List Char} {c : Char} (hmark : mark ≠ [])
    (hc : c ∉ mark) (h : mark <:+: xs ++ c :: ys) : mark <:+: xs ∨ mark <:+: ys := by
  rcases List.infix_append_iff.mp h with h | h | ⟨ms, ms', rfl, hsuffix, hhead⟩
  · exact .inl h
  · rcases List.infix_cons_iff.mp h with h | h
    · rcases List.prefix_cons_iff.mp h with rfl | ⟨t, rfl, -⟩
      · exact absurd rfl hmark
      · exact absurd List.mem_cons_self hc
    · exact .inr h
  · rcases List.prefix_cons_iff.mp hhead with rfl | ⟨t, rfl, -⟩
    · rw [List.append_nil]
      exact .inl hsuffix.isInfix
    · exact absurd (List.mem_append_right _ List.mem_cons_self) hc

/-! ## Lines and words -/

theorem lines_filter {p : Char → Bool} (hp : p '\n' = true) (cs : List Char) :
    lines (cs.filter p) = (lines cs).map (·.filter p) := by
  unfold lines
  induction cs with
  | nil => rfl
  | cons c cs ih =>
    rw [List.splitOn_cons_eq_if_modifyHead]
    by_cases hc : c = '\n'
    · subst hc
      rw [List.filter_cons_of_pos hp, List.splitOn_cons_eq_if_modifyHead, ih]
      simp
    · cases hs : cs.splitOn '\n' with
      | nil => exact absurd hs (List.splitOn_ne_nil _ _)
      | cons t ts =>
        rw [hs] at ih
        by_cases hpc : p c = true
        · rw [List.filter_cons_of_pos hpc, List.splitOn_cons_eq_if_modifyHead, ih]
          simp [hc, hpc]
        · rw [List.filter_cons_of_neg hpc, ih]
          simp [hc, hpc]

theorem lines_cons {c : Char} (hc : c ≠ '\n') (cs : List Char) :
    lines (c :: cs) = (lines cs).modifyHead (c :: ·) := by
  rw [lines, List.splitOn_cons_eq_if_modifyHead, if_neg (by simpa using hc), lines]

/-- A line feed separates lines. -/
theorem lines_append_feed (before rest : List Char) :
    lines (before ++ '\n' :: rest) = lines before ++ lines rest :=
  List.splitOnP_append_cons _ _ (beq_self_eq_true '\n')

/-- A text that is one line. -/
theorem lines_of_notMem {cs : List Char} (h : '\n' ∉ cs) : lines cs = [cs] := by
  refine List.splitOnP_eq_singleton fun c hc => ?_
  have hne : c ≠ '\n' := ne_of_mem_of_not_mem hc h
  simpa using hne

theorem unlines_append (ls ls' : List String) :
    unlines (ls ++ ls') = unlines ls ++ unlines ls' := by
  rw [← String.toList_inj]
  simp [unlines, String.toList_join]

theorem isInfix_unlines {l : String} {ls : List String} (h : l ∈ ls) :
    l.toList <:+: (unlines ls).toList := by
  obtain ⟨before, after, rfl⟩ := List.append_of_mem h
  refine ⟨(unlines before).toList, '\n' :: (unlines after).toList, ?_⟩
  simp [unlines, String.toList_join]

/-- A text stands among those that it is joined with. -/
theorem isInfix_intercalate {α : Type} {sep text : List α} {texts : List (List α)}
    (h : text ∈ texts) : text <:+: sep.intercalate texts := by
  induction texts with
  | nil => cases h
  | cons t texts ih =>
    cases texts with
    | nil =>
      obtain rfl := List.mem_singleton.mp h
      exact ⟨[], [], by rw [List.intercalate_singleton, List.nil_append, List.append_nil]⟩
    | cons t' texts =>
      rw [List.intercalate_cons_cons]
      rcases List.mem_cons.mp h with rfl | h
      · rw [List.append_assoc]
        exact (List.prefix_append _ _).isInfix
      · exact (ih h).trans (List.suffix_append _ _).isInfix

theorem exists_of_mem_unlines {c : Char} {ls : List String} (h : c ∈ (unlines ls).toList)
    (hc : c ≠ '\n') : ∃ l ∈ ls, c ∈ l.toList := by
  rw [unlines, String.toList_join] at h
  simpa [hc] using h

/-- Written texts are read back line by line, with nothing after the last line feed. -/
theorem lines_unlines_eq_flatMap (ls : List String) :
    lines (unlines ls).toList = (ls.flatMap fun l => lines l.toList) ++ [[]] := by
  induction ls with
  | nil => rfl
  | cons l ls ih =>
    have hhead : (unlines (l :: ls)).toList = l.toList ++ '\n' :: (unlines ls).toList := by
      simp [unlines, String.toList_join]
    rw [hhead, lines_append_feed, ih, List.flatMap_cons, List.append_assoc]

/-- **Written lines are read back**, with nothing after the last line feed. -/
theorem lines_unlines {ls : List String} (h : ∀ l ∈ ls, '\n' ∉ l.toList) :
    lines (unlines ls).toList = ls.map String.toList ++ [[]] := by
  rw [lines_unlines_eq_flatMap, List.flatMap_congr fun l hl => lines_of_notMem (h l hl),
    ← List.map_eq_flatMap]

/-- A text that is one word. -/
theorem words_of_word {w : List Char} (hne : w ≠ []) (h : ∀ c ∈ w, isBlank c = false) :
    words w = [w] := by
  rw [words, List.splitOnP_eq_singleton h, List.filter_cons_of_pos (by simpa using hne)]
  rfl

/-- A blank separates words. -/
theorem words_append_blank {c : Char} (hc : isBlank c = true) (before rest : List Char) :
    words (before ++ c :: rest) = words before ++ words rest := by
  rw [words, List.splitOnP_append_cons _ _ hc, List.filter_append, words, words]

end FlowDoc.Text
