import FlowDoc.Proofs.Payload.Scanning

/-!
# Literal spans as a grammar

Which characters of a text belong to literal spans can be told without a reader that goes through
it: a text is made of line breaks, of characters that start no literal span, of strings and of
comments, and it may end inside a string or a comment. Every text has exactly one such structure,
and the reader finds it.

## Main definitions

* `Quoted`: what may stand between the quotes of a string
* `Spans`: the structure of a text, with its characters marked and the literal span at its end

## Main results

* `Spans.mark_eq`: the reader finds the structure of a text
* `exists_spans`: every text has one
* `spans_iff`: the two together
-/

namespace FlowDoc.Payload

/-! ## The grammar -/

/-- A text without its line breaks. -/
def withoutBreaks (cs : List Char) : List Char :=
  cs.filter fun c => !isLineBreak c

/-- The characters of a text without its line breaks, all of them literal. -/
def literals (cs : List Char) : List Marked :=
  (withoutBreaks cs).map (⟨·, true⟩)

/-- A text in which each quote has a backslash before it that has no such backslash itself. -/
inductive Quoted : List Char → Prop where
  | nil : Quoted []
  | plain {c : Char} {cs : List Char} (quote : c ≠ quoteMark) (backslash : c ≠ '\\')
      (rest : Quoted cs) : Quoted (c :: cs)
  | escaped (c : Char) {cs : List Char} (rest : Quoted cs) : Quoted ('\\' :: c :: cs)

/-- The structure of a text that starts outside literal spans: its characters without line breaks,
each marked as literal or not, and the literal span at its end. -/
inductive Spans : List Char → List Marked → Literal → Prop where
  | nil : Spans [] [] .outside
  | lineBreak {c : Char} {cs : List Char} {ms : List Marked} {last : Literal}
      (layout : isLineBreak c = true) (rest : Spans cs ms last) : Spans (c :: cs) ms last
  /-- A character that opens neither a string nor a comment. -/
  | plain {c : Char} {cs : List Char} {ms : List Marked} {last : Literal}
      (layout : isLineBreak c = false) (quote : c ≠ quoteMark)
      (comment : c = '/' → cs.head? ≠ some '*') (rest : Spans cs ms last) :
      Spans (c :: cs) (⟨c, false⟩ :: ms) last
  /-- A string up to the next quote that is not escaped. -/
  | string {body cs : List Char} {ms : List Marked} {last : Literal}
      (quoted : Quoted (withoutBreaks body)) (rest : Spans cs ms last) :
      Spans (quoteMark :: (body ++ quoteMark :: cs))
        (literals (quoteMark :: (body ++ [quoteMark])) ++ ms) last
  /-- A string that is still open at the end of the text. -/
  | openString {body : List Char} (quoted : Quoted (withoutBreaks body)) :
      Spans (quoteMark :: body) (literals (quoteMark :: body)) (.quote false)
  /-- A string that is still open, where a backslash comes last. -/
  | openEscape {body breaks : List Char} (quoted : Quoted (withoutBreaks body))
      (layout : withoutBreaks breaks = []) :
      Spans (quoteMark :: (body ++ '\\' :: breaks)) (literals (quoteMark :: (body ++ ['\\'])))
        (.quote true)
  /-- A comment up to the next star and slash. -/
  | comment {text body cs : List Char} {ms : List Marked} {last : Literal}
      (ends : Text.cut ['*', '/'] text = some (body, cs)) (rest : Spans cs ms last) :
      Spans ('/' :: '*' :: text) (literals ('/' :: '*' :: (body ++ ['*', '/'])) ++ ms) last
  /-- A comment that is still open at the end of the text. -/
  | openComment {text : List Char} (ends : Text.cut ['*', '/'] text = none) :
      Spans ('/' :: '*' :: text) (literals ('/' :: '*' :: text)) .comment

section Literals

variable {c : Char} {cs : List Char}

@[simp] theorem withoutBreaks_nil : withoutBreaks [] = [] := rfl

theorem withoutBreaks_cons_of_break (h : isLineBreak c = true) :
    withoutBreaks (c :: cs) = withoutBreaks cs := by
  simp [withoutBreaks, h]

theorem withoutBreaks_cons (h : isLineBreak c = false) :
    withoutBreaks (c :: cs) = c :: withoutBreaks cs := by
  simp [withoutBreaks, h]

@[simp] theorem literals_nil : literals [] = [] := rfl

theorem literals_cons_of_break (h : isLineBreak c = true) : literals (c :: cs) = literals cs := by
  rw [literals, withoutBreaks_cons_of_break h, ← literals]

theorem literals_cons (h : isLineBreak c = false) :
    literals (c :: cs) = ⟨c, true⟩ :: literals cs := by
  rw [literals, withoutBreaks_cons h, List.map_cons, ← literals]

theorem literals_append (cs ds : List Char) : literals (cs ++ ds) = literals cs ++ literals ds := by
  rw [literals, withoutBreaks, List.filter_append, List.map_append]
  rfl

end Literals

/-! ## Strings -/

/-- A text that may stand between quotes after a backslash or without one. -/
def QuotedFrom (escaped : Bool) (cs : List Char) : Prop :=
  Quoted (if escaped then '\\' :: cs else cs)

theorem quotedFrom_nil {escaped : Bool} : QuotedFrom escaped [] ↔ escaped = false := by
  cases escaped with
  | false => exact ⟨fun _ => rfl, fun _ => .nil⟩
  | true =>
    refine ⟨fun h => ?_, fun h => nomatch h⟩
    cases h with
    | plain _ backslash => exact absurd rfl backslash

/-- A quote needs a backslash before it, and what follows a backslash has one. -/
theorem quotedFrom_cons {escaped : Bool} {c : Char} {cs : List Char} :
    QuotedFrom escaped (c :: cs) ↔
      ¬ (c = quoteMark ∧ escaped = false) ∧ QuotedFrom (c = '\\' && !escaped) cs := by
  cases escaped with
  | true =>
    simp only [QuotedFrom, if_true, Bool.not_true, Bool.and_false, Bool.false_eq_true, if_false,
      reduceCtorEq, and_false, not_false_eq_true, true_and]
    refine ⟨fun h => ?_, .escaped c⟩
    cases h with
    | plain _ backslash => exact absurd rfl backslash
    | escaped _ rest => exact rest
  | false =>
    by_cases hc : c = '\\'
    · subst hc
      have hquote : '\\' ≠ quoteMark := by decide
      simp [QuotedFrom, hquote]
    · simp only [QuotedFrom, hc, decide_false, Bool.false_and, Bool.false_eq_true, if_false,
        and_true]
      refine ⟨fun h => ?_, fun ⟨quote, rest⟩ => .plain quote hc rest⟩
      cases h with
      | plain quote _ rest => exact ⟨quote, rest⟩
      | escaped => exact absurd rfl hc

theorem mark_quote_of_breaks {escaped : Bool} {cs : List Char} (h : withoutBreaks cs = []) :
    mark (.quote escaped) cs = ([], .quote escaped) := by
  induction cs with
  | nil => rfl
  | cons c cs ih =>
    cases hbreak : isLineBreak c with
    | true =>
      rw [withoutBreaks_cons_of_break hbreak] at h
      rw [mark_cons_of_break hbreak, ih h]
    | false =>
      rw [withoutBreaks_cons hbreak] at h
      cases h

/-- A character inside a string that does not end it. -/
theorem mark_quote_cons {escaped : Bool} {c : Char} {cs : List Char} (h : isLineBreak c = false)
    (hquote : ¬ (c = quoteMark ∧ escaped = false)) :
    mark (.quote escaped) (c :: cs) =
      (⟨c, true⟩ :: (mark (.quote (c = '\\' && !escaped)) cs).1,
        (mark (.quote (c = '\\' && !escaped)) cs).2) := by
  have hstep : (Literal.quote escaped).step c = (true, .quote (c = '\\' && !escaped)) := by
    rw [Literal.step]
    split_ifs with hc hescaped
    · have hbackslash : c ≠ '\\' := hc ▸ by decide
      rw [decide_eq_false hbackslash, Bool.false_and]
    · exact absurd ⟨hc, by simpa using hescaped⟩ hquote
    · rfl
  rw [mark_cons (by simp) (by simp), if_neg (by simp [h]), hstep]

theorem mark_quote_quoteMark (cs : List Char) :
    mark (.quote false) (quoteMark :: cs) =
      (⟨quoteMark, true⟩ :: (mark .outside cs).1, (mark .outside cs).2) := by
  rw [mark_cons (by simp) (by simp), if_neg (by decide)]
  rfl

theorem mark_quoteMark (cs : List Char) :
    mark .outside (quoteMark :: cs) =
      (⟨quoteMark, true⟩ :: (mark (.quote false) cs).1, (mark (.quote false) cs).2) := by
  rw [mark_cons (fun _ h => absurd h (by decide)) (by simp), if_neg (by decide)]
  rfl

/-- What stands between quotes is literal, and no quote in it ends the string. -/
theorem mark_quoted {escaped : Bool} {body : List Char}
    (h : QuotedFrom escaped (withoutBreaks body))
    (rest : List Char) :
    mark (.quote escaped) (body ++ rest) =
      (literals body ++ (mark (.quote false) rest).1, (mark (.quote false) rest).2) := by
  -- Induction on the text, after a backslash or without one.
  induction body generalizing escaped with
  | nil =>
    obtain rfl := quotedFrom_nil.mp h
    rfl
  | cons c body ih =>
    rw [List.cons_append]
    cases hbreak : isLineBreak c with
    | true =>
      rw [withoutBreaks_cons_of_break hbreak] at h
      rw [mark_cons_of_break hbreak, ih h, literals_cons_of_break hbreak]
    | false =>
      rw [withoutBreaks_cons hbreak, quotedFrom_cons] at h
      obtain ⟨hquote, hrest⟩ := h
      rw [mark_quote_cons hbreak hquote, ih hrest, literals_cons hbreak, List.cons_append]

/-- A text inside a string reaches a quote that ends it, or it ends inside the string, at a
backslash or elsewhere. -/
theorem exists_quotedFrom (escaped : Bool) (cs : List Char) :
    (∃ body rest, cs = body ++ quoteMark :: rest ∧ QuotedFrom escaped (withoutBreaks body)) ∨
      QuotedFrom escaped (withoutBreaks cs) ∨
      (∃ body breaks, cs = body ++ '\\' :: breaks ∧ withoutBreaks breaks = [] ∧
        QuotedFrom escaped (withoutBreaks body)) ∨
      (escaped = true ∧ withoutBreaks cs = []) := by
  induction cs generalizing escaped with
  | nil =>
    cases escaped with
    | false => exact .inr (.inl .nil)
    | true => exact .inr (.inr (.inr ⟨rfl, rfl⟩))
  | cons c cs ih =>
    cases hbreak : isLineBreak c with
    | true =>
      obtain ⟨body, rest, rfl, h⟩ | h | ⟨body, breaks, rfl, hbreaks, h⟩ | ⟨hescaped, h⟩ :=
        ih escaped
      · exact .inl ⟨c :: body, rest, rfl, by rwa [withoutBreaks_cons_of_break hbreak]⟩
      · exact .inr (.inl (by rwa [withoutBreaks_cons_of_break hbreak]))
      · exact .inr (.inr (.inl ⟨c :: body, breaks, rfl, hbreaks,
          by rwa [withoutBreaks_cons_of_break hbreak]⟩))
      · exact .inr (.inr (.inr ⟨hescaped, by rwa [withoutBreaks_cons_of_break hbreak]⟩))
    | false =>
      by_cases hquote : c = quoteMark ∧ escaped = false
      · obtain ⟨rfl, rfl⟩ := hquote
        exact .inl ⟨[], cs, rfl, .nil⟩
      · -- The character belongs to the string, whatever becomes of the rest.
        have hcons : ∀ {body : List Char},
            QuotedFrom (c = '\\' && !escaped) (withoutBreaks body) →
              QuotedFrom escaped (withoutBreaks (c :: body)) := fun h => by
          rw [withoutBreaks_cons hbreak]
          exact quotedFrom_cons.mpr ⟨hquote, h⟩
        obtain ⟨body, rest, rfl, h⟩ | h | ⟨body, breaks, rfl, hbreaks, h⟩ | ⟨hescaped, h⟩ :=
          ih (c = '\\' && !escaped)
        · exact .inl ⟨c :: body, rest, rfl, hcons h⟩
        · exact .inr (.inl (hcons h))
        · exact .inr (.inr (.inl ⟨c :: body, breaks, rfl, hbreaks, hcons h⟩))
        · rw [Bool.and_eq_true, decide_eq_true_eq, Bool.not_eq_true'] at hescaped
          obtain ⟨rfl, rfl⟩ := hescaped
          exact .inr (.inr (.inl ⟨[], cs, rfl, h, .nil⟩))

/-! ## Comments -/

theorem mark_comment_cons {c : Char} {cs : List Char} (h : c = '*' → cs.head? ≠ some '/') :
    mark .comment (c :: cs) = (literals [c] ++ (mark .comment cs).1, (mark .comment cs).2) := by
  rw [mark_cons (by simp) (fun _ => h)]
  cases hbreak : isLineBreak c with
  | true =>
    rw [if_pos rfl, literals_cons_of_break hbreak]
    rfl
  | false =>
    rw [if_neg Bool.false_ne_true, literals_cons hbreak]
    rfl

/-- Where a comment does not end, its next character is not the first one of its end. -/
theorem head?_ne_of_after?_eq_none {c : Char} {cs : List Char}
    (h : Text.after? ['*', '/'] (c :: cs) = none) : c = '*' → cs.head? ≠ some '/' := by
  rintro rfl hhead
  obtain ⟨ds, rfl⟩ := List.head?_eq_some_iff.mp hhead
  cases h

/-- A comment is literal up to the star and the slash that end it. -/
theorem mark_comment_of_cut {text body rest : List Char}
    (h : Text.cut ['*', '/'] text = some (body, rest)) :
    mark .comment text =
      (literals (body ++ ['*', '/']) ++ (mark .outside rest).1, (mark .outside rest).2) := by
  fun_induction Text.cut ['*', '/'] text generalizing body with
  | case1 => cases h
  | case2 c cs rest' hafter =>
    obtain ⟨rfl, rfl⟩ := Prod.mk.inj (Option.some.inj h)
    rw [Text.after?_eq_some_iff.mp hafter]
    rfl
  | case3 c cs hafter ih =>
    obtain ⟨⟨body', rest'⟩, hcut, hparts⟩ := Option.map_eq_some_iff.mp h
    obtain ⟨rfl, rfl⟩ := Prod.mk.inj hparts
    rw [mark_comment_cons (head?_ne_of_after?_eq_none hafter), ih hcut, ← List.append_assoc,
      ← literals_append]
    rfl

theorem mark_comment_of_open {text : List Char} (h : Text.cut ['*', '/'] text = none) :
    mark .comment text = (literals text, .comment) := by
  fun_induction Text.cut ['*', '/'] text with
  | case1 => rfl
  | case2 => cases h
  | case3 c cs hafter ih =>
    rw [mark_comment_cons (head?_ne_of_after?_eq_none hafter), ih (Option.map_eq_none_iff.mp h),
      ← literals_append]
    rfl

/-! ## The structure of a text -/

/-- **The reader finds the structure of a text.** -/
theorem Spans.mark_eq {cs : List Char} {ms : List Marked} {last : Literal}
    (h : Spans cs ms last) : mark .outside cs = (ms, last) := by
  have hquoteMark : isLineBreak quoteMark = false := by decide
  have hbackslash : isLineBreak '\\' = false := by decide
  induction h with
  | nil => rfl
  | lineBreak layout rest ih =>
    rw [mark_cons_of_break layout, ih]
  | plain layout quote comment rest ih =>
    rw [mark_cons (fun _ => comment) (by simp), if_neg (by simp [layout]), Literal.step,
      if_neg quote, ih]
  | string quoted rest ih =>
    have quotedFrom : QuotedFrom false (withoutBreaks _) := quoted
    rw [mark_quoteMark, mark_quoted quotedFrom, mark_quote_quoteMark, ih,
      literals_cons hquoteMark, literals_append, literals_cons hquoteMark]
    simp
  | @openString body quoted =>
    have quotedFrom : QuotedFrom false (withoutBreaks body) := quoted
    rw [mark_quoteMark, ← List.append_nil body, mark_quoted quotedFrom,
      literals_cons hquoteMark]
    simp [mark]
  | @openEscape body breaks quoted layout =>
    have quotedFrom : QuotedFrom false (withoutBreaks body) := quoted
    have hnext : (('\\' : Char) = '\\' && !false) = true := by decide
    rw [mark_quoteMark, mark_quoted quotedFrom, mark_quote_cons hbackslash (by decide), hnext,
      mark_quote_of_breaks layout, literals_cons hquoteMark, literals_append,
      literals_cons hbackslash]
    rfl
  | @comment text body cs ms last ends rest ih =>
    show ((⟨'/', true⟩ : Marked) :: ⟨'*', true⟩ :: (mark .comment text).1,
      (mark .comment text).2) = _
    rw [mark_comment_of_cut ends, ih]
    rfl
  | @openComment text ends =>
    show ((⟨'/', true⟩ : Marked) :: ⟨'*', true⟩ :: (mark .comment text).1,
      (mark .comment text).2) = _
    rw [mark_comment_of_open ends]
    rfl

/-- **Every text has a structure.** -/
theorem exists_spans (cs : List Char) : ∃ ms last, Spans cs ms last := by
  match cs with
  | [] => exact ⟨_, _, .nil⟩
  | c :: cs =>
    cases hbreak : isLineBreak c with
    | true =>
      obtain ⟨ms, last, rest⟩ := exists_spans cs
      exact ⟨_, _, .lineBreak hbreak rest⟩
    | false =>
      by_cases hquote : c = quoteMark
      · subst hquote
        obtain ⟨body, rest, rfl, h⟩ | h | ⟨body, breaks, rfl, hbreaks, h⟩ | ⟨hescaped, h⟩ :=
          exists_quotedFrom false cs
        · obtain ⟨ms, last, hrest⟩ := exists_spans rest
          exact ⟨_, _, .string h hrest⟩
        · exact ⟨_, _, .openString h⟩
        · exact ⟨_, _, .openEscape h hbreaks⟩
        · cases hescaped
      · by_cases hcomment : c = '/' ∧ cs.head? = some '*'
        · obtain ⟨rfl, hstar⟩ := hcomment
          obtain ⟨text, rfl⟩ := List.head?_eq_some_iff.mp hstar
          cases hcut : Text.cut ['*', '/'] text with
          | none => exact ⟨_, _, .openComment hcut⟩
          | some parts =>
            have hshort := congrArg List.length (Text.append_eq_of_cut hcut)
            obtain ⟨ms, last, hrest⟩ := exists_spans parts.2
            exact ⟨_, _, .comment hcut hrest⟩
        · obtain ⟨ms, last, hrest⟩ := exists_spans cs
          exact ⟨_, _, .plain hbreak hquote (fun hc hstar => hcomment ⟨hc, hstar⟩) hrest⟩
termination_by cs.length
decreasing_by
  all_goals simp_all
  all_goals omega

theorem spans_iff {cs : List Char} {ms : List Marked} {last : Literal} :
    Spans cs ms last ↔ mark .outside cs = (ms, last) := by
  refine ⟨Spans.mark_eq, fun h => ?_⟩
  obtain ⟨ms', last', hspans⟩ := exists_spans cs
  obtain ⟨rfl, rfl⟩ := Prod.mk.inj (hspans.mark_eq.symm.trans h)
  exact hspans

end FlowDoc.Payload
