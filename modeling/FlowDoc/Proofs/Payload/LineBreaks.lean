import FlowDoc.Proofs.Payload.Spans

/-!
# Line breaks of a payload

Line breaks are layout: they are dropped wherever they stand, and a payload is read as it is without
them. There is one exception. The two characters of a comment mark have to follow each other
directly, so line breaks between a slash and a star keep a comment from being opened, and line
breaks between a star and a slash keep it from being closed.

## Main definitions

* `KeepsMark`, `MarksWhole`: a text whose line breaks keep no comment mark apart

## Main results

* `mark_withoutBreaks`: without its line breaks such a text is marked alike
* `scan_withoutBreaks`: and it is read alike
* `scan_brokenMark`: a text that is not
-/

namespace FlowDoc.Payload

/-! ## Comment marks and line breaks -/

/-- In a text that starts in a literal span, wherever the given characters meet in the span `span`
once line breaks are left out, they follow each other directly. -/
def KeepsMark (first second : Char) (span literal : Literal) (cs : List Char) : Prop :=
  ∀ xs ys, cs = xs ++ first :: ys → (mark literal xs).2 = span →
    (withoutBreaks ys).head? = some second → ys.head? = some second

/-- A text whose line breaks keep no comment mark apart, when it starts in the given span. -/
structure MarksWhole (literal : Literal) (cs : List Char) : Prop where
  opening : KeepsMark '/' '*' .outside literal cs
  closing : KeepsMark '*' '/' .comment literal cs

section Decidable

variable {first second : Char} {span literal : Literal} {cs : List Char}

/-- Decided by going through the places of the text. -/
theorem keepsMark_iff : KeepsMark first second span literal cs ↔
    ∀ k, (hk : k < cs.length) → cs[k] = first → (mark literal (cs.take k)).2 = span →
      (withoutBreaks (cs.drop (k + 1))).head? = some second →
        (cs.drop (k + 1)).head? = some second := by
  constructor
  · intro h k hk hfirst
    refine h (cs.take k) (cs.drop (k + 1)) ?_
    rw [← hfirst, List.getElem_cons_drop hk, List.take_append_drop]
  · rintro h xs ys rfl
    simpa using h xs.length (by simp)

instance : Decidable (KeepsMark first second span literal cs) :=
  decidable_of_iff _ keepsMark_iff.symm

instance : Decidable (MarksWhole literal cs) :=
  decidable_of_iff
    (KeepsMark '/' '*' .outside literal cs ∧ KeepsMark '*' '/' .comment literal cs)
    ⟨fun ⟨opening, closing⟩ => ⟨opening, closing⟩, fun ⟨opening, closing⟩ => ⟨opening, closing⟩⟩

end Decidable

/-- What follows a part of a text keeps its marks whole as the text does. -/
theorem MarksWhole.of_append {literal next : Literal} (start : List Char) {cs : List Char}
    (hnext : ∀ xs, xs <+: cs → (mark literal (start ++ xs)).2 = (mark next xs).2)
    (h : MarksWhole literal (start ++ cs)) : MarksWhole next cs := by
  have keeps : ∀ {first second : Char} {span : Literal},
      KeepsMark first second span literal (start ++ cs) → KeepsMark first second span next cs := by
    rintro first second span h xs ys rfl hspan
    refine h (start ++ xs) ys (List.append_assoc _ _ _).symm ?_
    rw [hnext xs (List.prefix_append _ _), hspan]
  exact ⟨keeps h.opening, keeps h.closing⟩

theorem head?_of_isPrefix {xs cs : List Char} {d : Char} (h : xs <+: cs) (hd : xs.head? = some d) :
    cs.head? = some d := by
  obtain ⟨ys, rfl⟩ := h
  rw [List.head?_append, hd]
  rfl

/-- **A text is marked as it is without its line breaks**, unless they keep a comment mark apart. -/
theorem mark_withoutBreaks {literal : Literal} {cs : List Char} (h : MarksWhole literal cs) :
    mark literal (withoutBreaks cs) = mark literal cs := by
  -- One case for each way in which the text is marked from its start.
  fun_induction mark literal cs with
  | case1 literal => rfl
  | case2 cs marked last hmark ih =>
    have hrest := ih (h.of_append ['/', '*'] fun _ _ => rfl)
    have hcons : withoutBreaks ('/' :: '*' :: cs) = '/' :: '*' :: withoutBreaks cs := rfl
    rw [hcons, mark, hrest, hmark]
  | case3 cs marked last hmark ih =>
    have hrest := ih (h.of_append ['*', '/'] fun _ _ => rfl)
    have hcons : withoutBreaks ('*' :: '/' :: cs) = '*' :: '/' :: withoutBreaks cs := rfl
    rw [hcons, mark, hrest, hmark]
  | case4 literal c cs hopen hclose hbreak ih =>
    rw [withoutBreaks_cons_of_break hbreak]
    refine ih (h.of_append [c] fun xs _ => ?_)
    rw [List.singleton_append, mark_cons_of_break hbreak]
  | case5 literal c cs hopen hclose hbreak inside next hstep marked last hmark ih =>
    have hnot : isLineBreak c = false := by simpa using hbreak
    -- No comment mark stands here, so none is made up by leaving line breaks out.
    have hstar : literal = .outside → c = '/' → cs.head? ≠ some '*' := by
      intro hliteral hc hhead
      obtain ⟨ds, rfl⟩ := List.head?_eq_some_iff.mp hhead
      exact hopen ds hliteral hc rfl
    have hslash : literal = .comment → c = '*' → cs.head? ≠ some '/' := by
      intro hliteral hc hhead
      obtain ⟨ds, rfl⟩ := List.head?_eq_some_iff.mp hhead
      exact hclose ds hliteral hc rfl
    have hcons : ∀ xs : List Char, (literal = .outside → c = '/' → xs.head? ≠ some '*') →
        (literal = .comment → c = '*' → xs.head? ≠ some '/') →
        mark literal (c :: xs) = (⟨c, inside⟩ :: (mark next xs).1, (mark next xs).2) := by
      intro xs hstar hslash
      rw [mark_cons hstar hslash, if_neg hbreak, hstep]
    have hrest := ih (h.of_append [c] fun xs hxs => by
      rw [List.singleton_append, hcons xs]
      · exact fun hliteral hc hhead => hstar hliteral hc (head?_of_isPrefix hxs hhead)
      · exact fun hliteral hc hhead => hslash hliteral hc (head?_of_isPrefix hxs hhead))
    rw [withoutBreaks_cons hnot, hcons, hrest, hmark]
    · rintro rfl rfl hhead
      exact hstar rfl rfl (h.opening [] cs rfl rfl hhead)
    · rintro rfl rfl hhead
      exact hslash rfl rfl (h.closing [] cs rfl rfl hhead)

/-! ## Whole payloads -/

/-- **A payload is read as it is without its line breaks**, whatever the node type: it holds the
same, or it fails alike. Only where line breaks keep a comment mark apart it may not. -/
theorem scan_withoutBreaks (nodeType content : String) (h : MarksWhole .outside content.toList) :
    scan (.ofType nodeType) (String.ofList (withoutBreaks content.toList)) =
      scan (.ofType nodeType) content := by
  rw [scan, scan, String.toList_ofList, mark_withoutBreaks h]

/-- A payload with line breaks around a comment mark, in a comment and in a string. -/
def wrappedContent : String :=
  "a: 1 /* b,\n*\n */,\r\nc: '/\n*', d[\n\n2]\n)\n\n/"

theorem scan_withoutBreaks_wrappedContent :
    MarksWhole .outside wrappedContent.toList ∧
      String.ofList (withoutBreaks wrappedContent.toList) = "a: 1 /* b,* */,c: '/*', d[2])/" ∧
      scan (.ofType "derive") "a: 1 /* b,* */,c: '/*', d[2])/" =
        scan (.ofType "derive") wrappedContent ∧
      scan (.ofType "derive") wrappedContent =
        .ok
          { attributes := ⟨[("a", "1 /* b,* */"), ("c", "'/*'"), ("d", "2")]⟩
            closed := true
            trailing := "/" } := by
  have hwhole : MarksWhole .outside wrappedContent.toList := by decide +kernel
  have hjoined : String.ofList (withoutBreaks wrappedContent.toList) =
      "a: 1 /* b,* */,c: '/*', d[2])/" := by decide +kernel
  refine ⟨hwhole, hjoined, ?_, by decide +kernel⟩
  rw [← hjoined]
  exact scan_withoutBreaks "derive" wrappedContent hwhole

/-- Without its line break the slash opens a comment, which nothing closes. -/
theorem scan_brokenMark :
    scan (.ofType "derive") "/\n*" = .ok { attributes := ⟨[("other", "/*")]⟩ } ∧
      scan (.ofType "derive") (String.ofList (withoutBreaks "/\n*".toList)) =
        .error .unterminatedComment := by
  decide +kernel

end FlowDoc.Payload
