import FlowDoc.Proofs.Payload.Printing
import FlowDoc.Proofs.Text.Parts

/-!
# Parts of a payload that are trimmed

A key is trimmed and loses the colons at its end, a value is trimmed. The characters that go mean
nothing to the scanner, so what is left closes its literal spans and its brackets when the whole
text does, and only then.

## Main definitions

* `Inert`: a character that means nothing to the scanner
* `IgnoresEnds`: a property that inert characters at the ends of a text make no difference to

## Main results

* `mark_concat`: a text is marked up to its last character
* `ignoresEnds_literalClosed`, `ignoresEnds_flat`, `ignoresEnds_balanced`: texts and their ends
* `flat_append_iff`, `balanced_append_iff`: texts that follow each other
-/

namespace FlowDoc.Payload

/-! ## Texts that follow each other -/

section Append

variable {xs ys : List Char}

theorem literalClosed_append_iff (h : LiteralClosed xs) (hapart : Apart xs ys) :
    LiteralClosed (xs ++ ys) ↔ LiteralClosed ys := by
  rw [LiteralClosed, mark_append h hapart, LiteralClosed]

theorem flat_append_iff (h : LiteralClosed xs) (hapart : Apart xs ys) :
    Flat (xs ++ ys) ↔ Flat xs ∧ Flat ys := by
  rw [Flat, literalClosed_append_iff h hapart, mark_append h hapart, List.forall_mem_append, Flat,
    Flat, and_left_comm, and_assoc, and_iff_right h]

theorem depthAfter?_append (depth : Nat) (ms ms' : List Marked) :
    depthAfter? depth (ms ++ ms') = (depthAfter? depth ms).bind fun d => depthAfter? d ms' :=
  List.foldlM_append

/-- Plain characters are no brackets. -/
theorem depthAfter?_of_plain {ms : List Marked} (h : ∀ m ∈ ms, Plain m) (depth : Nat) :
    depthAfter? depth ms = some depth := by
  induction ms with
  | nil => rfl
  | cons m ms ih =>
    obtain ⟨hm, hrest⟩ := List.forall_mem_cons.mp h
    have hstep : depthStep? depth m = some depth := by
      rcases hm with hm | hm
      · rw [depthStep?, if_pos hm]
      · rw [depthStep?]
        split
        · rfl
        · split
          all_goals simp_all
    rw [depthAfter?, List.foldlM_cons, hstep]
    exact ih hrest

theorem Flat.literalClosed (h : Flat xs) : LiteralClosed xs :=
  h.1

theorem Balanced.literalClosed (h : Balanced xs) : LiteralClosed xs :=
  h.1

theorem Flat.balanced (h : Flat xs) : Balanced xs :=
  ⟨h.1, depthAfter?_of_plain h.2 0⟩

/-- After a text that closes its brackets. -/
theorem balanced_append_iff (h : Balanced xs) (hapart : Apart xs ys) :
    Balanced (xs ++ ys) ↔ Balanced ys := by
  rw [Balanced, literalClosed_append_iff h.1 hapart, mark_append h.1 hapart, depthAfter?_append,
    h.2]
  rfl

/-- Before a text without brackets. -/
theorem balanced_append_flat_iff (h : LiteralClosed xs) (hapart : Apart xs ys) (hys : Flat ys) :
    Balanced (xs ++ ys) ↔ Balanced xs := by
  have hdepth : ∀ depth : Option Nat,
      (depth.bind fun d => depthAfter? d (mark .outside ys).1) = depth := by
    intro depth
    cases depth with
    | none => rfl
    | some d => exact depthAfter?_of_plain hys.2 d
  rw [Balanced, literalClosed_append_iff h hapart, mark_append h hapart, depthAfter?_append, hdepth,
    Balanced, and_iff_right h, and_iff_right hys.1]

end Append

/-! ## Characters at the ends -/

/-- A character that neither starts nor ends a literal span and is no bracket and no comma. -/
def Inert (c : Char) : Prop :=
  c ∉ [quoteMark, '/', '*', '(', '[', ')', ']', ',']

instance (c : Char) : Decidable (Inert c) :=
  inferInstanceAs (Decidable (¬ _))

theorem inert_colon : Inert ':' := by decide

theorem inert_of_isBlank {c : Char} (h : Text.isBlank c = true) : Inert c := by
  have hmarks : [quoteMark, '/', '*', '(', '[', ')', ']', ','].all (!Text.isBlank ·) = true := by
    decide
  intro hc
  have hblank := List.all_eq_true.mp hmarks c hc
  rw [h] at hblank
  cases hblank

/-- A text is marked up to its last character, which ends no comment mark. -/
theorem mark_concat {c : Char} (hslash : c ≠ '/') (hstar : c ≠ '*') (literal : Literal)
    (cs : List Char) :
    mark literal (cs ++ [c]) =
      ((mark literal cs).1 ++ (mark (mark literal cs).2 [c]).1,
        (mark (mark literal cs).2 [c]).2) := by
  -- One case for each way in which the text is marked from its start.
  fun_induction mark literal cs with
  | case1 => rfl
  | case2 cs marked last hmark ih =>
    rw [hmark] at ih
    simp only [List.cons_append, mark, ih]
  | case3 cs marked last hmark ih =>
    rw [hmark] at ih
    simp only [List.cons_append, mark, ih]
  | case4 literal d cs hopen hclose hbreak ih =>
    rw [List.cons_append, mark_cons_of_break hbreak, ih]
  | case5 literal d cs hopen hclose hbreak inside next hstep marked last hmark ih =>
    rw [hmark] at ih
    rw [List.cons_append, mark_cons, if_neg hbreak, hstep, ih]
    · rfl
    -- The new character is neither a star nor a slash, so it completes no comment mark.
    · exact fun hliteral hd => head?_append_ne (fun rest => hopen rest hliteral hd) fun _ hhead =>
        hstar (Option.some.inj hhead)
    · exact fun hliteral hd => head?_append_ne (fun rest => hclose rest hliteral hd) fun _ hhead =>
        hslash (Option.some.inj hhead)

namespace Inert

variable {c : Char}

theorem ne (h : Inert c) : c ≠ quoteMark ∧ c ≠ '/' ∧ c ≠ '*' := by
  simp only [Inert, List.mem_cons, not_or] at h
  exact ⟨h.1, h.2.1, h.2.2.1⟩

theorem apart_left (h : Inert c) (cs : List Char) : Apart [c] cs := fun hlast =>
  absurd (Option.some.inj hlast) h.ne.2.1

theorem apart_right (h : Inert c) (cs : List Char) : Apart cs [c] := fun _ hhead =>
  h.ne.2.2 (Option.some.inj hhead)

/-- An inert character neither opens a literal span nor closes one. -/
theorem mark_singleton (h : Inert c) (literal : Literal) :
    (mark literal [c]).2 = .outside ↔ literal = .outside := by
  rw [mark_cons (by simp) (by simp)]
  split_ifs
  · rfl
  · cases literal with
    | outside => simp [Literal.step, h.ne.1, mark]
    | comment => simp [Literal.step, mark]
    | quote escaped => simp [Literal.step, h.ne.1, mark]

theorem flat_singleton (h : Inert c) : Flat [c] := by
  refine ⟨(h.mark_singleton .outside).mpr rfl, ?_⟩
  rw [mark_cons (by simp) (by simp)]
  split_ifs
  · exact fun m hm => absurd hm List.not_mem_nil
  · rintro m hm
    obtain rfl := List.mem_singleton.mp hm
    simp only [Inert, List.mem_cons] at h
    simp only [Plain, List.mem_cons]
    tauto

end Inert

/-- A property of texts that inert characters at their ends make no difference to. -/
structure IgnoresEnds (P : List Char → Prop) : Prop where
  cons : ∀ {c : Char}, Inert c → ∀ cs : List Char, P (c :: cs) ↔ P cs
  concat : ∀ {c : Char}, Inert c → ∀ cs : List Char, P (cs ++ [c]) ↔ P cs

namespace IgnoresEnds

variable {P : List Char → Prop}

theorem trim (h : IgnoresEnds P) (cs : List Char) : P (Text.trim cs) ↔ P cs :=
  Text.trim_iff (fun _ cs hc => h.cons (inert_of_isBlank hc) cs)
    (fun cs _ hc => h.concat (inert_of_isBlank hc) cs) cs

theorem dropColons (h : IgnoresEnds P) (cs : List Char) : P (cs.rdropWhile (· == ':')) ↔ P cs :=
  Text.rdropWhile_iff (fun cs c hc => by
    obtain rfl := eq_of_beq hc
    exact h.concat inert_colon cs) cs

/-- A property that implies another one of this kind, at the end of a text. -/
theorem concat_of_imp (h : IgnoresEnds P) {Q : List Char → Prop} (himp : ∀ {cs}, Q cs → P cs)
    {c : Char} (hc : Inert c) {cs : List Char} (hconcat : P cs → (Q (cs ++ [c]) ↔ Q cs)) :
    Q (cs ++ [c]) ↔ Q cs :=
  ⟨fun hq => (hconcat ((h.concat hc cs).mp (himp hq))).mp hq, fun hq => (hconcat (himp hq)).mpr hq⟩

end IgnoresEnds

theorem ignoresEnds_literalClosed : IgnoresEnds LiteralClosed where
  cons hc cs := (literalClosed_append_iff hc.flat_singleton.1 (hc.apart_left cs) :)
  concat hc cs := by
    -- Whether the text before the character is closed is what is to be shown, so `mark_append`
    -- does not apply here.
    rw [LiteralClosed, mark_concat hc.ne.2.1 hc.ne.2.2]
    exact hc.mark_singleton _

theorem ignoresEnds_flat : IgnoresEnds Flat where
  cons hc cs := by
    have happend := flat_append_iff hc.flat_singleton.1 (hc.apart_left cs)
    exact happend.trans (and_iff_right hc.flat_singleton)
  concat hc cs := ignoresEnds_literalClosed.concat_of_imp Flat.literalClosed hc fun h =>
    (flat_append_iff h (hc.apart_right cs)).trans (and_iff_left hc.flat_singleton)

theorem ignoresEnds_balanced : IgnoresEnds Balanced where
  cons hc cs := (balanced_append_iff hc.flat_singleton.balanced (hc.apart_left cs) :)
  concat hc cs := ignoresEnds_literalClosed.concat_of_imp Balanced.literalClosed hc fun h =>
    balanced_append_flat_iff h (hc.apart_right cs) hc.flat_singleton

end FlowDoc.Payload
