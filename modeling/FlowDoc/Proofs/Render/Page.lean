import FlowDoc.Proofs.Render.Keys
import FlowDoc.Proofs.Text.Parts

/-!
# What a page shows of its template

A template is divided from left to right: where the rest of it starts with a placeholder, this is a
part, and the next character is one otherwise. A page shows the parts in order, with texts in the
place of placeholders. A template must hold the placeholders of the chart and of the summaries, but
a placeholder that starts with the dollar sign that ends another one is no part of the division: of
two that share a dollar sign, only one is replaced.

## Main definitions

* `Page.Slot`, `Page.Part`: placeholders, and the parts of a template
* `Page.parts`: the division of a template
* `Page.shown`: parts with texts in the place of placeholders
* `Page.Replaced`: the placeholder at some place is a part of the division

## Main results

* `source_parts`: a template is its parts in order
* `fill_eq_shown`: filling a template shows its parts
* `replaced_iff`: which placeholders are replaced
* `page_slots`: what a page shows, and why there is none
* `page_sharedTemplate`: a page without the summaries
-/

namespace FlowDoc.Page

/-! ## The division of a template -/

/-- What a template leaves open. -/
inductive Slot where
  | chart
  | info
  | callback
deriving DecidableEq, Repr

/-- The placeholder of a slot. -/
def Slot.placeholder : Slot → List Char
  | .chart => '$' :: chartMark.toList
  | .info => '$' :: infoMark.toList
  | .callback => '$' :: callbackMark.toList

/-- A part of a template: a character that stands for itself, or a placeholder. -/
inductive Part where
  | char (c : Char)
  | slot (s : Slot)
deriving DecidableEq, Repr

/-- A part as it is written in a template. -/
def Part.source : Part → List Char
  | .char c => [c]
  | .slot s => s.placeholder

/-- Parts as they are written in a template. -/
def source (ps : List Part) : List Char :=
  ps.flatMap Part.source

/-- A part with a text in the place of a placeholder. -/
def Part.shown (value : Slot → String) : Part → List Char
  | .char c => [c]
  | .slot s => (value s).toList

/-- Parts with texts in the place of placeholders. -/
def shown (value : Slot → String) (ps : List Part) : List Char :=
  ps.flatMap (Part.shown value)

/-- The slot whose placeholder a text starts with, and what follows it. -/
def slot? (cs : List Char) : Option (Slot × List Char) :=
  [Slot.chart, .info, .callback].findSome? fun s => (Text.after? s.placeholder cs).map (s, ·)

/-- No placeholder starts another one. -/
theorem Slot.eq_of_isPrefix {s s' : Slot} {cs : List Char} (h : s.placeholder <+: cs)
    (h' : s'.placeholder <+: cs) : s = s' := by
  have hcomparable := List.prefix_or_prefix_of_prefix h h'
  revert hcomparable
  cases s <;> cases s' <;> decide

theorem source_of_slot? {cs rest : List Char} {s : Slot} (h : slot? cs = some (s, rest)) :
    cs = s.placeholder ++ rest := by
  obtain ⟨s', -, hs'⟩ := List.exists_of_findSome?_eq_some h
  obtain ⟨rest', hafter, heq⟩ := Option.map_eq_some_iff.mp hs'
  cases heq
  exact Text.after?_eq_some_iff.mp hafter

theorem slot?_eq_some_iff {cs rest : List Char} {s : Slot} :
    slot? cs = some (s, rest) ↔ cs = s.placeholder ++ rest := by
  constructor
  · exact source_of_slot?
  · intro h
    have hsome : slot? cs ≠ none := by
      intro hnone
      have hs := List.findSome?_eq_none_iff.mp hnone s (by cases s <;> decide)
      rw [Text.after?_eq_some_iff.mpr h] at hs
      cases hs
    obtain ⟨⟨s', rest'⟩, hslot⟩ := Option.ne_none_iff_exists'.mp hsome
    have hsource : cs = s'.placeholder ++ rest' := source_of_slot? hslot
    obtain rfl : s' = s := Slot.eq_of_isPrefix ⟨_, hsource.symm⟩ ⟨_, h.symm⟩
    rw [hslot, List.append_cancel_left (h.symm.trans hsource)]

theorem length_lt_of_slot? {cs rest : List Char} {s : Slot} (h : slot? cs = some (s, rest)) :
    rest.length < cs.length := by
  rw [slot?_eq_some_iff.mp h, List.length_append]
  have hpos : 0 < s.placeholder.length := by cases s <;> decide
  omega

/-- The parts of a template, from left to right. -/
def parts (cs : List Char) : List Part :=
  match _h : slot? cs with
  | some (s, rest) => .slot s :: parts rest
  | none =>
    match cs with
    | [] => []
    | c :: rest => .char c :: parts rest
termination_by cs.length
decreasing_by
  · exact length_lt_of_slot? _h
  · exact Nat.lt_succ_self _

@[simp] theorem source_nil : source [] = [] := rfl

@[simp] theorem source_cons (p : Part) (ps : List Part) :
    source (p :: ps) = p.source ++ source ps :=
  List.flatMap_cons

@[simp] theorem source_append (ps qs : List Part) : source (ps ++ qs) = source ps ++ source qs :=
  List.flatMap_append

theorem parts_nil : parts [] = [] := by
  rw [parts]
  rfl

theorem parts_placeholder (s : Slot) (rest : List Char) :
    parts (s.placeholder ++ rest) = .slot s :: parts rest := by
  have hslot : slot? (s.placeholder ++ rest) = some (s, rest) := slot?_eq_some_iff.mpr rfl
  rw [parts]
  split
  case h_1 s' rest' h =>
    rw [hslot] at h
    cases h
    rfl
  case h_2 h =>
    rw [hslot] at h
    cases h

theorem parts_cons {c : Char} {cs : List Char} (h : slot? (c :: cs) = none) :
    parts (c :: cs) = .char c :: parts cs := by
  rw [parts]
  split
  case h_1 s rest hsome =>
    rw [h] at hsome
    cases hsome
  case h_2 => rfl

/-- **A template is its parts in order.** -/
theorem source_parts (cs : List Char) : source (parts cs) = cs := by
  fun_induction parts cs with
  | case1 cs s rest h ih =>
    rw [source_cons, ih]
    exact (source_of_slot? h).symm
  | case2 => rfl
  | case3 c cs _ ih =>
    rw [source_cons, ih]
    rfl

theorem exists_parts_of_cons {cs : List Char} {p : Part} {ps : List Part}
    (h : parts cs = p :: ps) : ∃ rest, parts rest = ps := by
  rw [parts] at h
  split at h
  case h_1 s rest _ => exact ⟨rest, (List.cons.inj h).2⟩
  case h_2 =>
    split at h
    · cases h
    · exact ⟨_, (List.cons.inj h).2⟩

/-- What follows some parts is divided as it would be alone. -/
theorem parts_source_of_append {cs : List Char} {ps qs : List Part} (h : parts cs = ps ++ qs) :
    parts (source qs) = qs := by
  induction ps generalizing cs with
  | nil =>
    rw [List.nil_append] at h
    rw [← h, source_parts]
  | cons p ps ih =>
    obtain ⟨rest, hrest⟩ := exists_parts_of_cons h
    exact ih hrest

/-! ## Filling a template -/

/-- The texts for the slots of a template. -/
def slotText (chart info callback : String) : Slot → String
  | .chart => chart
  | .info => info
  | .callback => callback

@[simp] theorem shown_cons (value : Slot → String) (p : Part) (ps : List Part) :
    shown value (p :: ps) = p.shown value ++ shown value ps :=
  List.flatMap_cons

@[simp] theorem shown_append (value : Slot → String) (ps qs : List Part) :
    shown value (ps ++ qs) = shown value ps ++ shown value qs :=
  List.flatMap_append

/-- Every placeholder starts with a dollar sign. -/
theorem slot?_cons_of_ne {c : Char} (h : c ≠ '$') (cs : List Char) : slot? (c :: cs) = none := by
  by_contra hsome
  obtain ⟨⟨s, rest⟩, hslot⟩ := Option.ne_none_iff_exists'.mp hsome
  have hsource := source_of_slot? hslot
  cases s <;> exact h (List.cons.inj hsource).1

/-- Characters other than dollar signs stand for themselves. -/
theorem shown_parts_append (value : Slot → String) {before : List Char} (h : '$' ∉ before)
    (rest : List Char) :
    shown value (parts (before ++ rest)) = before ++ shown value (parts rest) := by
  induction before with
  | nil => rfl
  | cons c before ih =>
    have hc : c ≠ '$' := fun hc => h (hc ▸ List.mem_cons_self)
    have hbefore : '$' ∉ before := fun hmem => h (List.mem_cons_of_mem _ hmem)
    rw [List.cons_append, parts_cons (slot?_cons_of_ne hc _), shown_cons, ih hbefore]
    rfl

section Fill

variable (chart info callback : String)

/-- The text for the placeholder that starts with a dollar sign. -/
theorem substitute?_eq (cs : List Char) :
    substitute? [(chartMark, chart), (infoMark, info), (callbackMark, callback)] cs =
      (slot? ('$' :: cs)).map fun (s, rest) => (slotText chart info callback s, rest) := by
  have hafter : ∀ ms : List Char, Text.after? ('$' :: ms) ('$' :: cs) = Text.after? ms cs :=
    fun ms => if_pos rfl
  simp only [substitute?, slot?, Slot.placeholder, List.findSome?_cons, List.findSome?_nil, hafter]
  cases Text.after? chartMark.toList cs with
  | some rest => rfl
  | none =>
    cases Text.after? infoMark.toList cs with
    | some rest => rfl
    | none => cases Text.after? callbackMark.toList cs <;> rfl

/-- **Filling a template shows its parts**, with the texts in the place of the placeholders. -/
theorem fill_eq_shown (cs : List Char) :
    fill [(chartMark, chart), (infoMark, info), (callbackMark, callback)] cs =
      shown (slotText chart info callback) (parts cs) := by
  fun_induction fill with
  | case1 cs hcut =>
    have hdollar : '$' ∉ cs := by
      intro hmem
      obtain ⟨before, rest, rfl⟩ := List.append_of_mem hmem
      exact Text.cut_eq_none_iff.mp hcut before rest (by simp)
    have hshown := shown_parts_append (slotText chart info callback) hdollar []
    rw [List.append_nil, parts_nil] at hshown
    rw [hshown]
    exact (List.append_nil cs).symm
  | case2 cs before rest hcut value rest' hvalue ih =>
    rw [substitute?_eq] at hvalue
    obtain ⟨⟨s, r⟩, hslot, heq⟩ := Option.map_eq_some_iff.mp hvalue
    obtain ⟨rfl, rfl⟩ := Prod.mk.inj heq
    have hcs : cs = before ++ (s.placeholder ++ r) := by
      rw [Text.append_eq_of_cut hcut, ← source_of_slot? hslot]
      simp
    rw [hcs, shown_parts_append _ (Text.not_mem_of_cut_singleton hcut), parts_placeholder,
      shown_cons, ih, List.append_assoc]
    rfl
  | case3 cs before rest hcut hnone ih =>
    have hslot : slot? ('$' :: rest) = none := by
      rw [substitute?_eq] at hnone
      exact Option.map_eq_none_iff.mp hnone
    have hcs : cs = before ++ '$' :: rest := by
      rw [Text.append_eq_of_cut hcut]
      simp
    rw [hcs, shown_parts_append _ (Text.not_mem_of_cut_singleton hcut), parts_cons hslot,
      shown_cons, ih]
    rfl

end Fill

/-! ## Placeholders that share a dollar sign -/

/-- The placeholder of `s` that stands behind `before` is a part of the division. -/
def Replaced (cs before : List Char) (s : Slot) : Prop :=
  ∃ ps qs, parts cs = ps ++ .slot s :: qs ∧ source ps = before

/-- The division of a text into parts has an end at each of its places, or a part that goes on
there. -/
theorem exists_part_across {ps : List Part} {before rest : List Char}
    (h : source ps = before ++ rest) :
    (∃ qs rs, ps = qs ++ rs ∧ source qs = before) ∨
      ∃ qs p rs first last, ps = qs ++ p :: rs ∧ p.source = first ++ last ∧ first ≠ [] ∧
        last ≠ [] ∧ before = source qs ++ first ∧ rest = last ++ source rs := by
  induction ps generalizing before with
  | nil => exact .inl ⟨[], [], rfl, (List.append_eq_nil_iff.mp h.symm).1.symm⟩
  | cons p ps ih =>
    rw [source_cons] at h
    rcases List.append_eq_append_iff.mp h with ⟨more, rfl, hmore⟩ | ⟨last, hfirst, rfl⟩
    · -- The first part ends before the place.
      rcases ih hmore with ⟨qs, rs, rfl, hqs⟩ | ⟨qs, q, rs, first, last, rfl, hq, hf, hl, hb, hr⟩
      · exact .inl ⟨p :: qs, rs, rfl, by rw [source_cons, hqs]⟩
      · refine .inr ⟨p :: qs, q, rs, first, last, rfl, hq, hf, hl, ?_, hr⟩
        rw [hb, source_cons, List.append_assoc]
    · by_cases hb : before = []
      · exact .inl ⟨[], p :: ps, rfl, hb.symm⟩
      · by_cases hl : last = []
        · subst hl
          exact .inl ⟨[p], ps, rfl, by simpa using hfirst⟩
        · exact .inr ⟨[], p, ps, before, last, rfl, hfirst, hb, hl, rfl, rfl⟩

/-- The only dollar signs of a placeholder are its ends. -/
theorem Slot.eq_dropLast {s : Slot} {first last : List Char}
    (h : s.placeholder = first ++ '$' :: last) (hfirst : first ≠ []) :
    first = s.placeholder.dropLast := by
  obtain ⟨c, first, rfl⟩ := List.exists_cons_of_ne_nil hfirst
  have hinside : '$' ∉ s.placeholder.dropLast.tail := by cases s <;> decide
  rw [h, List.dropLast_append_cons] at hinside ⊢
  cases last with
  | nil => rw [List.dropLast_singleton, List.append_nil]
  | cons d last => simp at hinside

theorem Slot.dropLast_length (s : Slot) :
    0 < s.placeholder.dropLast.length ∧
      s.placeholder.dropLast.length < s.placeholder.length := by
  cases s <;> decide

/-- **Which placeholders are replaced**: all but those that start with the dollar sign that ends
another one that is replaced. -/
theorem replaced_iff {cs before after : List Char} {s : Slot}
    (h : cs = before ++ s.placeholder ++ after) :
    Replaced cs before s ↔
      ∀ s' before', before = before' ++ s'.placeholder.dropLast → ¬ Replaced cs before' s' := by
  constructor
  · rintro ⟨ps, qs, hparts, rfl⟩ s' before' hbefore ⟨ps', qs', hparts', rfl⟩
    -- The other placeholder would have to end, and not to end, before this one.
    have hlength := congrArg List.length hbefore
    have hlast := s'.dropLast_length
    rw [List.length_append] at hlength
    rcases List.append_eq_append_iff.mp (hparts.symm.trans hparts') with
      ⟨more, rfl, -⟩ | ⟨more, rfl, hmore⟩
    · rw [source_append, List.length_append] at hlength
      omega
    · cases more with
      | nil =>
        rw [List.append_nil] at hlength
        omega
      | cons p more =>
        obtain ⟨rfl, -⟩ := List.cons.inj hmore
        simp only [source_append, source_cons, List.length_append, Part.source] at hlength
        omega
  · intro hfree
    have hsource : source (parts cs) = before ++ (s.placeholder ++ after) := by
      rw [source_parts, h, List.append_assoc]
    rcases exists_part_across hsource with
      ⟨ps, rs, hparts, hps⟩ | ⟨ps, p, rs, first, last, hparts, hp, hfirst, hlast, hbefore, hrest⟩
    · have hrs : source rs = s.placeholder ++ after := by
        rw [hparts, source_append, hps] at hsource
        exact List.append_cancel_left hsource
      refine ⟨ps, parts after, ?_, hps⟩
      rw [← parts_placeholder, ← hrs, parts_source_of_append hparts, hparts]
    · -- A part of more than one character is a placeholder, and it goes on with a dollar sign.
      obtain ⟨d, last, rfl⟩ := List.exists_cons_of_ne_nil hlast
      have hd : d = '$' := by
        cases s <;> exact (List.cons.inj hrest).1.symm
      subst hd
      cases p with
      | char c =>
        have hlength := congrArg List.length hp
        have hpos := List.length_pos_iff.mpr hfirst
        simp only [Part.source, List.length_append, List.length_cons, List.length_nil] at hlength
        omega
      | slot s' =>
        rw [Slot.eq_dropLast hp hfirst] at hbefore
        exact absurd ⟨ps, rs, hparts, rfl⟩ (hfree s' (source ps) hbefore)

/-! ## Pages -/

theorem holds_iff {template mark : String} :
    holds template mark = true ↔ '$' :: mark.toList <:+: template.toList := by
  rw [holds, Option.isSome_iff_ne_none, Text.cut_ne_none_iff]

/-- The slots whose placeholders a template must hold. -/
def requiredSlots : List Slot := [.chart, .info]

/-- A placeholder of the slot stands in the text that does not start with the dollar sign that ends
another one. -/
def StandsApart (cs : List Char) (s : Slot) : Prop :=
  ∃ before after, cs = before ++ s.placeholder ++ after ∧
    ∀ s' : Slot, ¬ s'.placeholder.dropLast <:+ before

theorem StandsApart.exists_parts {cs : List Char} {s : Slot} (h : StandsApart cs s) :
    ∃ ps qs, parts cs = ps ++ .slot s :: qs := by
  obtain ⟨before, after, hcs, hapart⟩ := h
  obtain ⟨ps, qs, hparts, -⟩ := (replaced_iff hcs).mpr fun s' before' hbefore _ =>
    hapart s' ⟨before', hbefore.symm⟩
  exact ⟨ps, qs, hparts⟩

section Page

variable (g : Graph) (config : Config) {template : String}

/-- The texts for the slots of the page of a graph. -/
def pageText : Slot → String :=
  slotText (flowchartWithCallbacks g config) (nodeInfo g).compact config.clickCallback

theorem page_of_required (h : ∀ s ∈ requiredSlots, s.placeholder <:+: template.toList) :
    page g config template =
      .ok (String.ofList (shown (pageText g config) (parts template.toList))) := by
  have hchart : holds template chartMark = true := holds_iff.mpr (h .chart (by decide))
  have hinfo : holds template infoMark = true := holds_iff.mpr (h .info (by decide))
  rw [page, hchart, hinfo, fillTemplate, fill_eq_shown]
  rfl

theorem page_of_lacking {s : Slot} (hs : s ∈ requiredSlots)
    (h : ¬ s.placeholder <:+: template.toList) :
    ∃ s' ∈ requiredSlots, ¬ s'.placeholder <:+: template.toList ∧
      page g config template = .error (String.ofList s'.placeholder) := by
  by_cases hchart : holds template chartMark = true
  · by_cases hinfo : holds template infoMark = true
    · rcases List.mem_pair.mp hs with rfl | rfl
      · exact absurd (holds_iff.mp hchart) h
      · exact absurd (holds_iff.mp hinfo) h
    · refine ⟨.info, by decide, fun hin => hinfo (holds_iff.mpr hin), ?_⟩
      rw [page, hchart, Bool.not_eq_true _ |>.mp hinfo]
      rfl
  · refine ⟨.chart, by decide, fun hin => hchart (holds_iff.mpr hin), ?_⟩
    rw [page, Bool.not_eq_true _ |>.mp hchart]
    rfl

/-- **What a page shows.** There is a page exactly when the template holds the placeholders of the
chart and of the summaries, and otherwise it lacks the one that is named. The page is the template
in its parts with texts in the place of placeholders. A placeholder of the template is replaced
unless it starts with the dollar sign that ends another one that is replaced; so the page carries
the chart, and the summaries, where a placeholder for it stands apart from others. The template is
refused for what it lacks, whatever the nodes are, and the page is written if they all have
names. -/
theorem page_slots (g : Graph) (config : Config) (template : String) :
    let cs := template.toList
    let value := pageText g config
    ((∃ text, page g config template = .ok text) ↔
      ∀ s ∈ requiredSlots, s.placeholder <:+: cs) ∧
    (∀ placeholder, page g config template = .error placeholder →
      ¬ placeholder.toList <:+: cs ∧
        ∃ s ∈ requiredSlots, placeholder.toList = s.placeholder) ∧
    (∀ (s : Slot) before after, cs = before ++ s.placeholder ++ after →
      (Replaced cs before s ↔
        ∀ s' before', before = before' ++ s'.placeholder.dropLast → ¬ Replaced cs before' s')) ∧
    (∀ text, page g config template = .ok text →
      source (parts cs) = cs ∧ text.toList = shown value (parts cs) ∧
      ∀ s ∈ requiredSlots, StandsApart cs s →
        ∃ ps qs, parts cs = ps ++ .slot s :: qs ∧
          text.toList = shown value ps ++ (value s).toList ++ shown value qs) ∧
    (∀ placeholder, renderPage g config template = .error (.missingPlaceholder placeholder) ↔
      page g config template = .error placeholder) ∧
    ∀ text, renderPage g config template = .ok text ↔
      page g config template = .ok text ∧ ∀ id ∈ g.shownIds, id + 1 < wordBound := by
  intro cs value
  by_cases hheld : ∀ s ∈ requiredSlots, s.placeholder <:+: cs
  · have hpage := page_of_required g config hheld
    refine ⟨⟨fun _ => hheld, fun _ => ⟨_, hpage⟩⟩, fun placeholder herror => ?_,
      fun s before after h => replaced_iff h, fun text htext => ?_,
      fun _ => renderPage_eq_missing_iff, fun _ => renderPage_eq_ok_iff⟩
    · rw [hpage] at herror
      cases herror
    · rw [hpage] at htext
      obtain rfl := Except.ok.inj htext
      refine ⟨source_parts cs, String.toList_ofList, fun s _ hapart => ?_⟩
      obtain ⟨ps, qs, hparts⟩ := hapart.exists_parts
      refine ⟨ps, qs, hparts, ?_⟩
      rw [String.toList_ofList, hparts, shown_append, shown_cons, List.append_assoc]
      rfl
  · obtain ⟨s, hs, hlacks⟩ : ∃ s ∈ requiredSlots, ¬ s.placeholder <:+: cs := by
      simpa using hheld
    obtain ⟨s', hs', hlacks', hpage⟩ := page_of_lacking g config hs hlacks
    refine ⟨⟨fun ⟨text, htext⟩ => ?_, fun h => absurd h hheld⟩, fun placeholder herror => ?_,
      fun s before after h => replaced_iff h, fun text htext => ?_,
      fun _ => renderPage_eq_missing_iff, fun _ => renderPage_eq_ok_iff⟩
    · rw [hpage] at htext
      cases htext
    · rw [hpage] at herror
      obtain rfl := Except.error.inj herror
      rw [String.toList_ofList]
      exact ⟨hlacks', s', hs', rfl⟩
    · rw [hpage] at htext
      cases htext

end Page

/-- A source alone. -/
def sourceGraph : Graph :=
  { nodes :=
      #[{ id := 0, name := "src", nodeType := "source", attributes := ⟨[("a", "1")]⟩,
          span := Span.lines 1 1 }] }

/-- A template in which the placeholder of the summaries starts with the dollar sign that ends the
one of the click function. -/
def sharedTemplate : String := "$callback$json$|$mermaid$"

/-- **A page without the summaries**: the template holds their placeholder and that of the chart,
and what is shown in the place of the former are the characters that are left of it. -/
theorem page_sharedTemplate :
    (∀ s ∈ requiredSlots, s.placeholder <:+: sharedTemplate.toList) ∧
      ∃ text, page sourceGraph {} sharedTemplate = .ok text ∧
        text.toList = "doCbjson$|".toList ++ (flowchartWithCallbacks sourceGraph {}).toList ∧
        ¬ (nodeInfo sourceGraph).compact.toList <:+: text.toList := by
  have hheld : ∀ s ∈ requiredSlots, s.placeholder <:+: sharedTemplate.toList := by
    decide +kernel
  have hparts : parts sharedTemplate.toList =
      .slot .callback :: "json$|".toList.map .char ++ [.slot .chart] := by
    decide +kernel
  have hshown : shown (pageText sourceGraph {}) (parts sharedTemplate.toList) =
      "doCbjson$|".toList ++ (flowchartWithCallbacks sourceGraph {}).toList := by
    rw [hparts]
    simp [shown, Part.shown, pageText, slotText]
  refine ⟨hheld, _, page_of_required sourceGraph {} hheld, ?_, fun hin => ?_⟩
  · rw [String.toList_ofList, hshown]
  · -- The summaries start with a brace, and there is none in the page.
    have hbrace : '\x7b' ∈ (nodeInfo sourceGraph).compact.toList := by decide +kernel
    have hlines : ∀ line ∈ Flowchart.lines sourceGraph {} ++ Flowchart.clickLines sourceGraph {},
        '\x7b' ∉ line.toList := by
      decide +kernel
    rw [String.toList_ofList, hshown] at hin
    rcases List.mem_append.mp (hin.subset hbrace) with hmem | hmem
    · revert hmem
      decide
    · obtain ⟨line, hline, hmem⟩ := Text.exists_of_mem_unlines hmem (by decide)
      exact hlines line hline hmem

end FlowDoc.Page
