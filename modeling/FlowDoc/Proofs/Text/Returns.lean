import Mathlib.Data.List.Forall2
import Mathlib.Data.List.TakeWhile
import FlowDoc.Proofs.Text.Parts

/-!
# Carriage returns before line feeds

A line may end with a carriage return and a line feed instead of a line feed alone. A text with such
returns has the same words, is cut at the same places, and is the same text when the returns are
left out, also after trimming.

## Main definitions

* `withReturns`: a text with a carriage return before each line feed
* `withoutReturns`: a text without its carriage returns
* `Returned`: a text and the same text with carriage returns before some of its line feeds
* `Ended`: a line and the same line, with or without a carriage return at its end

## Main results

* `lines_withReturns`: the lines of a text with returns
* `Returned.words_eq`, `Returned.cut_singleton`, `Returned.filter_trim`: what returns leave as it is
* `Ended.cut`: where a line with a return is cut
-/

namespace FlowDoc.Text

/-- A text with a carriage return before each line feed. -/
def withReturns (s : String) : String :=
  String.ofList (s.toList.flatMap fun c => if c = '\n' then ['\r', '\n'] else [c])

/-- A text without its carriage returns. -/
def withoutReturns (s : String) : String :=
  String.ofList (s.toList.filter (· != '\r'))

/-- The second text is the first with a carriage return before some of its line feeds. -/
inductive Returned : List Char → List Char → Prop where
  | nil : Returned [] []
  | cons (c : Char) {xs ys : List Char} (h : Returned xs ys) : Returned (c :: xs) (c :: ys)
  | feed {xs ys : List Char} (h : Returned xs ys) : Returned ('\n' :: xs) ('\r' :: '\n' :: ys)

/-- The second line is the first, with or without a carriage return at its end. -/
def Ended (xs ys : List Char) : Prop :=
  ys = xs ∨ ys = xs ++ ['\r']

/-! ## Blanks at the end -/

theorem dropWhile_filter {p q : Char → Bool} (hpq : ∀ c, q c = false → p c = true)
    (cs : List Char) : (cs.filter q).dropWhile p = (cs.dropWhile p).filter q := by
  induction cs with
  | nil => rfl
  | cons c cs ih =>
    cases hp : p c with
    | true =>
      rw [List.dropWhile_cons_of_pos hp, ← ih]
      cases hq : q c with
      | true => rw [List.filter_cons_of_pos hq, List.dropWhile_cons_of_pos hp]
      | false => rw [List.filter_cons_of_neg (by simp [hq])]
    | false =>
      have hq : q c = true := by
        by_contra hq
        rw [hpq c (by simpa using hq)] at hp
        cases hp
      have hp' : ¬ p c = true := by simp [hp]
      rw [List.dropWhile_cons_of_neg hp', List.filter_cons_of_pos hq,
        List.dropWhile_cons_of_neg hp']

/-- Blanks may be left out before or after trimming. -/
theorem trim_filter {q : Char → Bool} (hq : ∀ c, q c = false → isBlank c = true)
    (cs : List Char) : trim (cs.filter q) = (trim cs).filter q := by
  rw [trim, trim, trimStart, trimStart, trimEnd, trimEnd, dropWhile_filter hq,
    ← List.filter_reverse, dropWhile_filter hq, ← List.filter_reverse]

theorem trim_append_blank {c : Char} (hc : isBlank c = true) (cs : List Char) :
    trim (cs ++ [c]) = trim cs := by
  have hend : ∀ cs : List Char, trimEnd (cs ++ [c]) = trimEnd cs := by
    intro cs
    rw [trimEnd, trimEnd, List.reverse_append, List.reverse_singleton, List.singleton_append,
      List.dropWhile_cons_of_pos hc]
  rw [trim, trim, trimStart, trimStart, List.dropWhile_append]
  cases h : cs.dropWhile isBlank with
  | nil =>
    rw [List.isEmpty_nil, if_pos rfl, List.dropWhile_cons_of_pos hc]
    rfl
  | cons d ds =>
    rw [List.isEmpty_cons, if_neg Bool.false_ne_true, hend]

/-! ## Texts -/

namespace Returned

variable {xs ys zs ws : List Char}

theorem refl (xs : List Char) : Returned xs xs := by
  induction xs with
  | nil => exact .nil
  | cons c xs ih => exact .cons c ih

theorem append (h : Returned xs ys) (h' : Returned zs ws) : Returned (xs ++ zs) (ys ++ ws) := by
  induction h with
  | nil => exact h'
  | cons c _ ih => exact .cons c ih
  | feed _ ih => exact .feed ih

/-- Leaving out other characters keeps the returns before their line feeds. -/
theorem filter {p : Char → Bool} (hreturn : p '\r' = true) (hfeed : p '\n' = true)
    (h : Returned xs ys) : Returned (xs.filter p) (ys.filter p) := by
  induction h with
  | nil => exact .nil
  | cons c _ ih =>
    cases hc : p c with
    | true =>
      rw [List.filter_cons_of_pos hc, List.filter_cons_of_pos hc]
      exact .cons c ih
    | false =>
      rw [List.filter_cons_of_neg (by simp [hc]), List.filter_cons_of_neg (by simp [hc])]
      exact ih
  | feed _ ih =>
    rw [List.filter_cons_of_pos hfeed, List.filter_cons_of_pos hreturn,
      List.filter_cons_of_pos hfeed]
    exact .feed ih

/-- Without their returns the texts are the same. -/
theorem filter_return (h : Returned xs ys) : ys.filter (· != '\r') = xs.filter (· != '\r') := by
  induction h with
  | nil => rfl
  | cons c _ ih => rw [List.filter_cons, List.filter_cons, ih]
  | feed _ ih => simp [ih]

theorem filter_trim (h : Returned xs ys) :
    (trim ys).filter (· != '\r') = (trim xs).filter (· != '\r') := by
  have hblank : ∀ c : Char, (c != '\r') = false → isBlank c = true := by
    intro c hc
    obtain rfl : c = '\r' := by simpa using hc
    decide
  rw [← trim_filter hblank, ← trim_filter hblank, h.filter_return]

theorem trim_eq_nil_iff (h : Returned xs ys) : trim ys = [] ↔ trim xs = [] := by
  rw [Text.trim_eq_nil_iff, Text.trim_eq_nil_iff]
  induction h with
  | nil => exact Iff.rfl
  | cons c _ ih => simp only [List.forall_mem_cons, ih]
  | feed _ ih =>
    have hreturn : isBlank '\r' = true := by decide
    simp only [List.forall_mem_cons, ih, hreturn, true_and]

/-- Returns are no part of a word. -/
theorem words_eq (h : Returned xs ys) : words ys = words xs := by
  -- Whatever word stands before the texts, so that a character may be moved to it.
  have key : ∀ before, words (before ++ ys) = words (before ++ xs) := by
    induction h with
    | nil => exact fun _ => rfl
    | @cons c xs ys _ ih =>
      intro before
      rw [List.append_cons before c xs, List.append_cons before c ys]
      exact ih _
    | @feed xs ys _ ih =>
      intro before
      have hfeed : words ('\n' :: ys) = words ys := words_append_blank (by decide) [] ys
      rw [words_append_blank (by decide), words_append_blank (by decide), hfeed]
      exact congrArg _ (ih [])
  exact key []

/-- Texts with and without returns are cut at a character alike. -/
theorem cut_singleton {c : Char} (hreturn : c ≠ '\r') (hfeed : c ≠ '\n') (h : Returned xs ys) :
    Option.Rel (fun p q => Returned p.1 q.1 ∧ Returned p.2 q.2) (cut [c] xs) (cut [c] ys) := by
  have hcons : ∀ d cs, cut [c] (d :: cs) =
      if c = d then some ([], cs) else (cut [c] cs).map fun p => (d :: p.1, p.2) := by
    intro d cs
    rw [cut, after?]
    split_ifs <;> rfl
  induction h with
  | nil => exact .none
  | @cons d xs ys h ih =>
    rw [hcons, hcons]
    split_ifs
    · exact .some ⟨.nil, h⟩
    · generalize cut [c] xs = o, cut [c] ys = o' at ih
      cases ih with
      | none => exact .none
      | some hpq => exact .some ⟨.cons d hpq.1, hpq.2⟩
  | @feed xs ys h ih =>
    rw [hcons, hcons, hcons, if_neg hfeed, if_neg hreturn, if_neg hfeed]
    generalize cut [c] xs = o, cut [c] ys = o' at ih
    cases ih with
    | none => exact .none
    | some hpq => exact .some ⟨.feed hpq.1, hpq.2⟩

end Returned

/-! ## Lines -/

namespace Ended

variable {xs ys : List Char}

theorem filter {p : Char → Bool} (hreturn : p '\r' = true) (h : Ended xs ys) :
    Ended (xs.filter p) (ys.filter p) := by
  rcases h with rfl | rfl
  · exact .inl rfl
  · rw [List.filter_append, List.filter_cons_of_pos hreturn]
    exact .inr rfl

theorem cons (c : Char) (h : Ended xs ys) : Ended (c :: xs) (c :: ys) := by
  rcases h with rfl | rfl
  · exact .inl rfl
  · exact .inr rfl

/-- The line feed after a line takes up its return. -/
theorem returned (h : Ended xs ys) : Returned (xs ++ ['\n']) (ys ++ ['\n']) := by
  rcases h with rfl | rfl
  · exact .refl _
  · rw [List.append_assoc]
    exact (Returned.refl xs).append (.feed .nil)

theorem trim_eq (h : Ended xs ys) : trim ys = trim xs := by
  rcases h with rfl | rfl
  · rfl
  · exact trim_append_blank (by decide) xs

/-- A line with a return is cut at the same place, and the return comes after the cut. -/
theorem cut {mark : List Char} (hne : mark ≠ []) (hmark : '\r' ∉ mark) (h : Ended xs ys) :
    Option.Rel (fun p q => q.1 = p.1 ∧ Ended p.2 q.2) (Text.cut mark xs) (Text.cut mark ys) := by
  cases hcut : Text.cut mark xs with
  | none =>
    have hnone : Text.cut mark ys = none := by
      rcases h with rfl | rfl
      · exact hcut
      · by_contra hsome
        rcases infix_append_cons hne hmark (cut_ne_none_iff.mp hsome) with hin | hin
        · exact cut_ne_none_iff.mpr hin hcut
        · exact hne (List.infix_nil.mp hin)
    rw [hnone]
    exact .none
  | some p =>
    rcases h with rfl | rfl
    · rw [hcut]
      exact .some ⟨rfl, .inl rfl⟩
    · rw [cut_append_right hcut]
      exact .some ⟨rfl, .inr rfl⟩

end Ended

/-- **The lines of a text with returns** are its lines, each with or without a return at its end. -/
theorem lines_withReturns (s : String) :
    List.Forall₂ Ended (lines s.toList) (lines (withReturns s).toList) := by
  rw [withReturns, String.toList_ofList]
  generalize s.toList = cs
  induction cs with
  | nil => exact List.Forall₂.cons (.inl rfl) .nil
  | cons c cs ih =>
    rw [List.flatMap_cons]
    by_cases hc : c = '\n'
    · -- The first line is empty, or a return alone.
      rw [if_pos hc, hc]
      exact List.Forall₂.cons (.inr rfl) ih
    · rw [if_neg hc, List.singleton_append, lines_cons hc, lines_cons hc]
      generalize lines cs = ls, lines (cs.flatMap _) = ls' at ih ⊢
      cases ih with
      | nil => exact .nil
      | cons hline hrest => exact .cons (hline.cons c) hrest

end FlowDoc.Text
