import FlowDoc.Proofs.Render.Page

/-!
# Filling a template in one pass

Filling a template is simultaneous substitution: where the rest of the template starts with a
placeholder, its text is written and the pass goes on behind the placeholder, and one character is
copied otherwise. What is written is not looked at again. So the texts may be put in later: a
template may be filled with markers that are told from the rest of it, and these replaced in a
second pass. The pass goes from dollar sign to dollar sign, and each turn leaves fewer of them.

## Main definitions

* `Page.substituted`: a text with other texts in the place of marks, by recursion on the text
* `Page.Fresh`: markers that stand in a filled template only where they were put
* `Page.turn?`, `Page.Turns`: a turn of the pass over a template, and some turns

## Main results

* `substituted_placeholder`: substitution for placeholders shows the parts of a template
* `substituted_shown`: markers that were put in may be replaced later
* `fresh_longMarker`: there are fresh markers for each template
* `Turns.keeps`, `exists_turns`: what all turns keep, and that they come to an end
* `fillTemplate_substitution`: filling a template is simultaneous substitution
-/

namespace FlowDoc.Page

/-! ## Simultaneous substitution -/

/-- The slots of a template. -/
def slots : List Slot := [.chart, .info, .callback]

theorem Slot.mem_slots (s : Slot) : s ∈ slots := by
  cases s <;> decide

/-- A text with other texts in the place of marks, in one pass over it: where the rest of the text
starts with a mark, the text for it is written and the pass goes on behind the mark, and one
character is copied otherwise. No mark is empty. -/
def substituted (mark : Slot → List Char) (value : Slot → String) : List Char → List Char
  | [] => []
  | c :: cs =>
    match slots.find? fun s => (mark s).isPrefixOf (c :: cs) with
    | some s => (value s).toList ++ substituted mark value (cs.drop ((mark s).length - 1))
    | none => c :: substituted mark value cs
termination_by cs => cs.length
decreasing_by
  · rw [List.length_drop, List.length_cons]
    omega
  · exact Nat.lt_succ_self _

/-- No mark starts another one. -/
def PrefixFree (mark : Slot → List Char) : Prop :=
  ∀ s s', mark s <+: mark s' → s = s'

theorem prefixFree_placeholder : PrefixFree Slot.placeholder := fun _ s' h =>
  Slot.eq_of_isPrefix h (List.prefix_refl s'.placeholder)

section Substitution

variable {mark : Slot → List Char} {value : Slot → String}

theorem PrefixFree.ne_nil (h : PrefixFree mark) (s : Slot) : mark s ≠ [] := by
  intro hs
  have hall : ∀ s', s = s' := fun s' => h s s' (hs ▸ List.nil_prefix)
  cases (hall .chart).symm.trans (hall .info)

@[simp] theorem substituted_nil : substituted mark value [] = [] := by
  rw [substituted]

theorem substituted_cons {c : Char} {cs : List Char} (h : ∀ s, ¬ mark s <+: c :: cs) :
    substituted mark value (c :: cs) = c :: substituted mark value cs := by
  have hfind : slots.find? (fun s => (mark s).isPrefixOf (c :: cs)) = none := by
    rw [List.find?_eq_none]
    exact fun s _ hs => h s (List.isPrefixOf_iff_prefix.mp hs)
  rw [substituted, hfind]

theorem substituted_mark (h : PrefixFree mark) (s : Slot) (rest : List Char) :
    substituted mark value (mark s ++ rest) =
      (value s).toList ++ substituted mark value rest := by
  obtain ⟨c, cs, hmark⟩ := List.exists_cons_of_ne_nil (h.ne_nil s)
  have hfind : slots.find? (fun s' => (mark s').isPrefixOf (mark s ++ rest)) = some s := by
    have hs : (mark s).isPrefixOf (mark s ++ rest) = true :=
      List.isPrefixOf_iff_prefix.mpr (List.prefix_append _ _)
    cases hfound : slots.find? fun s' => (mark s').isPrefixOf (mark s ++ rest) with
    | none => exact absurd hs (List.find?_eq_none.mp hfound s s.mem_slots)
    | some s' =>
      have hstarts := List.find?_some hfound
      have hs' : mark s' <+: mark s ++ rest := List.isPrefixOf_iff_prefix.mp hstarts
      -- Two marks that the same text starts with are comparable.
      rcases List.prefix_or_prefix_of_prefix hs' (List.prefix_append _ _) with hss | hss
      · rw [h s' s hss]
      · rw [h s s' hss]
  rw [hmark, List.cons_append] at hfind ⊢
  rw [substituted, hfind]
  simp [hmark]

end Substitution

/-- **Substitution for placeholders shows the parts of a template.** -/
theorem substituted_placeholder (value : Slot → String) (cs : List Char) :
    substituted Slot.placeholder value cs = shown value (parts cs) := by
  fun_induction parts cs with
  | case1 cs s rest h ih =>
    rw [source_of_slot? h, substituted_mark prefixFree_placeholder, ih, shown_cons]
    rfl
  | case2 => exact substituted_nil
  | case3 c cs hnone ih =>
    have hfree : ∀ s : Slot, ¬ s.placeholder <+: c :: cs := by
      rintro s ⟨rest, hrest⟩
      rw [slot?_eq_some_iff.mpr hrest.symm] at hnone
      cases hnone
    rw [substituted_cons hfree, ih, shown_cons]
    rfl

/-! ## Markers -/

/-- Markers for a template: none of them starts another one, and in the template that is filled with
them none stands where a character of the template stands. -/
structure Fresh (marker : Slot → String) (cs : List Char) : Prop where
  prefixFree : PrefixFree fun s => (marker s).toList
  apart : ∀ ps c qs, parts cs = ps ++ .char c :: qs →
    ∀ s, ¬ (marker s).toList <+: c :: shown marker qs

/-- **Markers that were put in may be replaced later**, from any part of the template on. -/
theorem substituted_shown {marker : Slot → String} {cs : List Char} (h : Fresh marker cs)
    (value : Slot → String) {ps qs : List Part} (hparts : parts cs = ps ++ qs) :
    substituted (fun s => (marker s).toList) value (shown marker qs) = shown value qs := by
  -- Induction on the parts that are left, for any parts before them.
  induction qs generalizing ps with
  | nil => exact substituted_nil
  | cons q qs ih =>
    have hrest := ih (hparts.trans (List.append_cons ps q qs))
    rw [shown_cons, shown_cons, ← hrest]
    cases q with
    | char c => exact substituted_cons (h.apart ps c qs hparts)
    | slot s => exact substituted_mark h.prefixFree s _

/-- The characters that stand for themselves are characters of the template. -/
theorem mem_of_parts {cs : List Char} {ps qs : List Part} {c : Char}
    (h : parts cs = ps ++ .char c :: qs) : c ∈ cs := by
  rw [← source_parts cs, h, source_append, source_cons]
  exact List.mem_append_right _ List.mem_cons_self

/-- Markers are fresh when they start with characters that the template does not hold. -/
theorem fresh_of_head {marker : Slot → String} {cs : List Char}
    (hfree : PrefixFree fun s => (marker s).toList)
    (hhead : ∀ s, ∀ c ∈ (marker s).toList.head?, c ∉ cs) : Fresh marker cs := by
  refine ⟨hfree, fun ps c qs hparts s hstarts => ?_⟩
  obtain ⟨d, ds, hmarker⟩ := List.exists_cons_of_ne_nil (hfree.ne_nil s)
  rw [hmarker] at hstarts
  obtain rfl : d = c := (List.cons_prefix_cons.mp hstarts).1
  exact hhead s d (by rw [hmarker]; rfl) (mem_of_parts hparts)

/-- The last character of the marker of a slot. -/
def Slot.tag : Slot → Char
  | .chart => 'c'
  | .info => 'i'
  | .callback => 'b'

/-- A marker that is longer than the division of a template. -/
def longMarker (n : ℕ) (s : Slot) : String :=
  String.ofList (List.replicate (n + 1) 'x' ++ [s.tag])

theorem toList_longMarker (n : ℕ) (s : Slot) :
    (longMarker n s).toList = List.replicate (n + 1) 'x' ++ [s.tag] :=
  String.toList_ofList

theorem prefixFree_longMarker (n : ℕ) : PrefixFree fun s => (longMarker n s).toList := by
  intro s s' h
  have hlength : (longMarker n s).toList.length = (longMarker n s').toList.length := by
    simp [toList_longMarker]
  have hequal := h.eq_of_length hlength
  simp only [toList_longMarker, List.append_cancel_left_eq] at hequal
  revert hequal
  cases s <;> cases s' <;> decide

/-- Fewer parts than a run has characters do not make the run up, unless it is as long as that of a
marker. -/
theorem not_isPrefix_shown_longMarker {n k : ℕ} {s : Slot} {qs : List Part} (hqs : qs.length < k)
    (hk : k ≤ n) : ¬ List.replicate k 'x' ++ [s.tag] <+: shown (longMarker n) qs := by
  obtain ⟨k, rfl⟩ : ∃ j, k = j + 1 := ⟨k - 1, by omega⟩
  -- A character takes one off the run, so the parts are used up before it.
  induction qs generalizing k with
  | nil => exact fun h => by simpa [shown] using List.prefix_nil.mp h
  | cons q qs ih =>
    intro h
    rw [List.length_cons] at hqs
    rw [shown_cons] at h
    cases q with
    | char c =>
      rw [List.replicate_succ, List.cons_append] at h
      obtain ⟨j, rfl⟩ : ∃ j, k = j + 1 := ⟨k - 1, by omega⟩
      exact ih j (by omega) (by omega) (List.cons_prefix_cons.mp h).2
    | slot s' =>
      -- The run of the marker goes on where the shorter run has its tag.
      obtain ⟨more, rfl⟩ : ∃ more, n = k + 1 + more := ⟨n - (k + 1), by omega⟩
      rw [Part.shown, toList_longMarker, Nat.add_assoc (k + 1) more 1,
        List.replicate_add (k + 1) (more + 1), List.append_assoc, List.append_assoc,
        List.prefix_append_right_inj, List.replicate_succ, List.cons_append] at h
      have htag : s.tag = 'x' := (List.cons_prefix_cons.mp h).1
      revert htag
      cases s <;> decide

/-- **There are fresh markers for each template.** -/
theorem fresh_longMarker (cs : List Char) : Fresh (longMarker (parts cs).length) cs := by
  refine ⟨prefixFree_longMarker _, fun ps c qs hparts s hstarts => ?_⟩
  rw [toList_longMarker, List.replicate_succ, List.cons_append] at hstarts
  have hlength := congrArg List.length hparts
  rw [List.length_append, List.length_cons] at hlength
  exact not_isPrefix_shown_longMarker (by omega) le_rfl (List.cons_prefix_cons.mp hstarts).2

/-! ## The turns of the pass -/

section Turns

variable {subs : Substitutions}

/-- What a turn makes of what is written and of what is left of the template; there is none when no
dollar sign is left. -/
def turn? (subs : Substitutions) : List Char × List Char → Option (List Char × List Char)
  | (written, rest) =>
    (Text.cut ['$'] rest).map fun (before, tail) =>
      match substitute? subs tail with
      | some (value, tail') => (written ++ before ++ value.toList, tail')
      | none => (written ++ before ++ ['$'], tail)

/-- Some turns, one after the other. -/
inductive Turns (subs : Substitutions) :
    ℕ → List Char × List Char → List Char × List Char → Prop
  | none (st) : Turns subs 0 st st
  | turn {n st st' st''} (h : turn? subs st = some st') (hmore : Turns subs n st' st'') :
      Turns subs (n + 1) st st''

theorem isSuffix_of_substitute? {cs rest : List Char} {value : String}
    (h : substitute? subs cs = some (value, rest)) : rest <:+ cs := by
  obtain ⟨⟨mark, _⟩, -, hmark⟩ := List.exists_of_findSome?_eq_some h
  obtain ⟨_, hafter, heq⟩ := Option.map_eq_some_iff.mp hmark
  cases heq
  exact ⟨mark.toList, (Text.after?_eq_some_iff.mp hafter).symm⟩

/-- What is made of a template from its first dollar sign on. -/
theorem fill_of_cut {cs before tail : List Char} (hcut : Text.cut ['$'] cs = some (before, tail)) :
    fill subs cs = before ++
      match substitute? subs tail with
      | some (value, tail') => value.toList ++ fill subs tail'
      | none => '$' :: fill subs tail := by
  rw [fill.eq_def, hcut]
  dsimp only
  split
  case h_1 value tail' hsome => rw [hsome, List.append_assoc]
  case h_2 hnone => rw [hnone]

/-- A turn takes a part off the template up to a dollar sign, and writes it filled. -/
theorem turn?_keeps {written rest written' rest' : List Char}
    (h : turn? subs (written, rest) = some (written', rest')) :
    written' ++ fill subs rest' = written ++ fill subs rest ∧
      rest'.count '$' < rest.count '$' := by
  obtain ⟨⟨before, tail⟩, hcut, hturn⟩ := Option.map_eq_some_iff.mp h
  have hcount : tail.count '$' < rest.count '$' := by
    rw [Text.append_eq_of_cut hcut, List.count_append, List.count_append, List.count_singleton_self]
    omega
  dsimp only at hturn
  cases hvalue : substitute? subs tail with
  | none =>
    rw [hvalue] at hturn
    obtain ⟨rfl, rfl⟩ := Prod.mk.inj hturn
    refine ⟨?_, hcount⟩
    rw [fill_of_cut hcut, hvalue]
    simp
  | some found =>
    obtain ⟨value, tail'⟩ := found
    rw [hvalue] at hturn
    obtain ⟨rfl, rfl⟩ := Prod.mk.inj hturn
    have hle : tail'.count '$' ≤ tail.count '$' :=
      (isSuffix_of_substitute? hvalue).sublist.count_le '$'
    refine ⟨?_, by omega⟩
    rw [fill_of_cut hcut, hvalue]
    simp

/-- **What all turns keep**: what is written and what the rest is filled to; and each of them uses
up a dollar sign. -/
theorem Turns.keeps {n : ℕ} {st st' : List Char × List Char} (h : Turns subs n st st') :
    st'.1 ++ fill subs st'.2 = st.1 ++ fill subs st.2 ∧
      n + st'.2.count '$' ≤ st.2.count '$' := by
  induction h with
  | none st => exact ⟨rfl, by omega⟩
  | turn hturn _ ih =>
    obtain ⟨hfill, hcount⟩ := turn?_keeps hturn
    exact ⟨ih.1.trans hfill, by omega⟩

theorem turn?_eq_none_iff {written rest : List Char} :
    turn? subs (written, rest) = none ↔ '$' ∉ rest := by
  rw [turn?, Option.map_eq_none_iff, Text.cut_eq_none_iff, List.mem_iff_append]
  simp

/-- What is left of a template without dollar signs is filled to itself. -/
theorem fill_of_not_mem {rest : List Char} (h : '$' ∉ rest) : fill subs rest = rest := by
  have hcut : Text.cut ['$'] rest = none := by
    rw [Text.cut_eq_none_iff]
    rintro before tail rfl
    exact h (by simp)
  rw [fill.eq_def, hcut]

/-- **The turns come to an end.** -/
theorem exists_turns (subs : Substitutions) (st : List Char × List Char) :
    ∃ n st', Turns subs n st st' ∧ turn? subs st' = none := by
  -- Induction on the dollar signs that are left.
  induction hm : st.2.count '$' using Nat.strong_induction_on generalizing st with
  | _ m ih =>
    cases hturn : turn? subs st with
    | none => exact ⟨0, st, .none st, hturn⟩
    | some st' =>
      have hcount := (turn?_keeps hturn).2
      obtain ⟨n, st'', hturns, hend⟩ := ih _ (hm ▸ hcount) st' rfl
      exact ⟨n + 1, st'', .turn hturn hturns, hend⟩

end Turns

/-! ## Filling a template -/

/-- A template filled with a text for each slot. -/
def filled (template : String) (value : Slot → String) : String :=
  fillTemplate template (value .chart) (value .info) (value .callback)

/-- The texts for the slots, as they are looked up in the pass. -/
def substitutions (value : Slot → String) : Substitutions :=
  [(chartMark, value .chart), (infoMark, value .info), (callbackMark, value .callback)]

theorem fill_substitutions (value : Slot → String) (cs : List Char) :
    fill (substitutions value) cs = substituted Slot.placeholder value cs := by
  have hvalue : slotText (value .chart) (value .info) (value .callback) = value := by
    funext s
    cases s <;> rfl
  rw [substitutions, fill_eq_shown, hvalue, substituted_placeholder]

theorem toList_filled (template : String) (value : Slot → String) :
    (filled template value).toList = substituted Slot.placeholder value template.toList := by
  rw [← fill_substitutions]
  exact String.toList_ofList

/-- **Filling a template is simultaneous substitution** of the texts for the placeholders. A dollar
sign that starts no placeholder stays. What is put in is not looked at again: the template may be
filled with fresh markers that are replaced later, and there are such markers. The pass from dollar
sign to dollar sign ends after at most as many turns as the template has dollar signs: at each time
what is written and what the substitution makes of the rest are the result, and at the end the rest
is a part of it as it is. -/
theorem fillTemplate_substitution (template : String) (value : Slot → String) :
    let cs := template.toList
    (filled template value).toList = substituted Slot.placeholder value cs ∧
    (∀ rest, (∀ s : Slot, ¬ s.placeholder <+: '$' :: rest) →
      substituted Slot.placeholder value ('$' :: rest) =
        '$' :: substituted Slot.placeholder value rest) ∧
    (∀ marker : Slot → String, Fresh marker cs →
      (filled template value).toList =
        substituted (fun s => (marker s).toList) value (filled template marker).toList) ∧
    (∃ marker : Slot → String, Fresh marker cs) ∧
    (∀ n written rest, Turns (substitutions value) n ([], cs) (written, rest) →
      n ≤ cs.count '$' ∧
      written ++ substituted Slot.placeholder value rest = (filled template value).toList ∧
      (turn? (substitutions value) (written, rest) = none →
        written ++ rest = (filled template value).toList)) ∧
    ∃ n st, Turns (substitutions value) n ([], cs) st ∧
      turn? (substitutions value) st = none := by
  intro cs
  refine ⟨toList_filled template value, fun rest hrest => substituted_cons hrest,
    fun marker hfresh => ?_, ⟨_, fresh_longMarker cs⟩, fun n written rest hturns => ?_,
    exists_turns _ _⟩
  · rw [toList_filled, toList_filled, substituted_placeholder, substituted_placeholder]
    exact (substituted_shown hfresh value (List.nil_append (parts cs)).symm).symm
  · obtain ⟨hkeeps, hcount⟩ := hturns.keeps
    have hwritten :
        written ++ fill (substitutions value) rest = (filled template value).toList := by
      rw [toList_filled, ← fill_substitutions]
      exact hkeeps
    refine ⟨Nat.le_of_add_right_le hcount, by rwa [fill_substitutions] at hwritten, fun hend => ?_⟩
    rwa [fill_of_not_mem (turn?_eq_none_iff.mp hend)] at hwritten

/-- A template with a lone dollar sign. -/
def pricedTemplate : String := "$5 $mermaid$|$json$"

/-- Texts that hold placeholders themselves. -/
def placeholderTexts : Slot → String := slotText "$json$" "$$mermaid$" "$callback$"

/-- The markers are control characters. -/
def controlMarkers : Slot → String := slotText "\x01" "\x02" "\x03"

/-- The texts that hold placeholders are put in as they are, at once or later. -/
theorem fillTemplate_substitution_pricedTemplate :
    (∀ s : Slot, ¬ s.placeholder <+: pricedTemplate.toList) ∧
      Fresh controlMarkers pricedTemplate.toList ∧
      (filled pricedTemplate controlMarkers).toList = "$5 \x01|\x02".toList ∧
      (filled pricedTemplate placeholderTexts).toList = "$5 $json$|$$mermaid$".toList ∧
      substituted (fun s => (controlMarkers s).toList) placeholderTexts "$5 \x01|\x02".toList =
        "$5 $json$|$$mermaid$".toList ∧
      substituted Slot.placeholder placeholderTexts pricedTemplate.toList =
        '$' :: substituted Slot.placeholder placeholderTexts "5 $mermaid$|$json$".toList := by
  obtain ⟨-, hlone, hmarkers, -⟩ := fillTemplate_substitution pricedTemplate placeholderTexts
  have hfree : ∀ s : Slot, ¬ s.placeholder <+: pricedTemplate.toList := by
    intro s
    cases s <;> decide +kernel
  have hapart : PrefixFree fun s => (controlMarkers s).toList := by
    intro s s'
    cases s <;> cases s' <;> decide +kernel
  have hhead : ∀ s, ∀ c ∈ (controlMarkers s).toList.head?, c ∉ pricedTemplate.toList := by
    intro s c hc
    cases s
    · obtain rfl : '\x01' = c := Option.some.inj hc
      decide
    · obtain rfl : '\x02' = c := Option.some.inj hc
      decide
    · obtain rfl : '\x03' = c := Option.some.inj hc
      decide
  have hfresh := fresh_of_head hapart hhead
  have hmarked : (filled pricedTemplate controlMarkers).toList = "$5 \x01|\x02".toList := by
    decide +kernel
  have hfilled : (filled pricedTemplate placeholderTexts).toList =
      "$5 $json$|$$mermaid$".toList := by
    decide +kernel
  refine ⟨hfree, hfresh, hmarked, hfilled, ?_, hlone _ hfree⟩
  rw [← hmarked, ← hmarkers controlMarkers hfresh, hfilled]

end FlowDoc.Page
