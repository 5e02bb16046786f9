/-!
# Cutting a text at a mark

A mark is a short text that separates two parts of a longer one. A text is cut at the first
occurrence of the mark, and the mark itself belongs to neither part.

## Main definitions

* `after?`: what follows a mark that a text starts with.
* `cut`: the parts of a text before and after the first occurrence of a mark.

## Main results

* `append_eq_of_cut`: the two parts with the mark between them are the text.
* `cut_eq_none_iff`: a text that cannot be cut contains the mark nowhere.
-/

namespace FlowDoc.Text

/-- What follows `mark` in a text that starts with it. -/
def after? : (mark text : List Char) → Option (List Char)
  | [], cs => some cs
  | _ :: _, [] => none
  | m :: ms, c :: cs => if m = c then after? ms cs else none

/-- The parts of a text before and after the first occurrence of `mark`. -/
def cut (mark : List Char) : List Char → Option (List Char × List Char)
  | [] => (after? mark []).map fun rest => ([], rest)
  | c :: cs =>
    match after? mark (c :: cs) with
    | some rest => some ([], rest)
    | none => (cut mark cs).map fun (before, rest) => (c :: before, rest)

theorem after?_eq_some_iff {mark text rest : List Char} :
    after? mark text = some rest ↔ text = mark ++ rest := by
  fun_induction after? mark text with
  | case1 cs => simp [eq_comm]
  | case2 => simp
  | case3 m ms cs ih => simp [ih]
  | case4 m ms c cs h => simp [Ne.symm h]

theorem append_eq_of_cut {mark text before rest : List Char}
    (h : cut mark text = some (before, rest)) : text = before ++ mark ++ rest := by
  fun_induction cut mark text generalizing before with
  | case1 =>
    obtain ⟨r, hr, heq⟩ := Option.map_eq_some_iff.1 h
    cases heq
    simpa using after?_eq_some_iff.1 hr
  | case2 c cs r hr =>
    cases h
    simpa using after?_eq_some_iff.1 hr
  | case3 c cs _ ih =>
    obtain ⟨⟨b, r⟩, hb, heq⟩ := Option.map_eq_some_iff.1 h
    cases heq
    simp [ih hb]

theorem cut_eq_none_iff {mark text : List Char} :
    cut mark text = none ↔ ∀ before rest, text ≠ before ++ mark ++ rest := by
  fun_induction cut mark text with
  | case1 =>
    cases mark with
    | nil => simp [after?]
    | cons m ms => simp [after?]
  | case2 c cs r hr =>
    simpa using ⟨[], r, by simpa using after?_eq_some_iff.1 hr⟩
  | case3 c cs hr ih =>
    simp only [Option.map_eq_none_iff, ih]
    constructor
    · intro h before rest heq
      cases before with
      | nil => simp [after?_eq_some_iff.2 (by simpa using heq)] at hr
      | cons b bs =>
        simp only [List.cons_append, List.cons.injEq] at heq
        exact h bs rest (by simpa using heq.2)
    · intro h before rest heq
      exact h (c :: before) rest (by simp [heq])

end FlowDoc.Text
