import FlowDoc.Proofs.Payload.LineBreaks
import FlowDoc.Proofs.Payload.Outcome

/-!
# The parts of a payload

A payload is divided into fields at the commas outside brackets, and each field into parts at the
brackets that stand outside others. Only commas and brackets outside literal spans count. So where a
text ends outside literal spans and its line breaks keep no comment mark apart, each part of it is
marked by itself as it is in the text. Outside brackets a part holds nothing that means something to
the scanner, inside a bracket it closes the brackets that it opens.

## Main definitions

* `SelfMarked`: a marked text that is marked so by itself
* `fields`: the fields of a text, each divided at its outermost brackets
* `markedFields`: the fields of a text in parts, with their marks
* `Alternating`: parts outside and inside brackets in turn

## Main results

* `SelfMarked.split`: a text divided outside literal spans
* `alternating_markedFields`: the fields of a text that closes its brackets
* `odd_length_fields`: such a field ends outside brackets
-/

namespace FlowDoc.Payload

/-! ## Texts read by themselves -/

theorem exists_of_literal_cons {x m : Marked} {xs before after : List Marked}
    (h : x :: xs = before ++ m :: after) (hx : x.literal = true) (hm : m.literal = false) :
    ∃ before', before = x :: before' ∧ xs = before' ++ m :: after := by
  cases before with
  | nil =>
    obtain ⟨rfl, -⟩ := List.cons.inj h
    rw [hx] at hm
    cases hm
  | cons b before =>
    obtain ⟨rfl, hrest⟩ := List.cons.inj h
    exact ⟨before, rfl, hrest⟩

/-- What stands before and after a character outside literal spans is marked by itself as it is in
the text. -/
theorem exists_of_mark_append {literal last : Literal} {cs : List Char} {before after : List Marked}
    {m : Marked} (h : mark literal cs = (before ++ m :: after, last)) (hm : m.literal = false) :
    ∃ xs ys, cs = xs ++ m.char :: ys ∧ mark literal xs = (before, .outside) ∧
      mark .outside ys = (after, last) := by
  -- One case for each way in which the text is marked from its start.
  fun_induction mark literal cs generalizing before with
  | case1 literal =>
    have hnil := congrArg (List.length ∘ Prod.fst) h
    simp at hnil
  | case2 cs marked last' hmark ih =>
    obtain ⟨hms, rfl⟩ := Prod.mk.inj h
    obtain ⟨before₁, rfl, hms₁⟩ := exists_of_literal_cons hms rfl hm
    obtain ⟨before₂, rfl, rfl⟩ := exists_of_literal_cons hms₁ rfl hm
    obtain ⟨xs, ys, rfl, hxs, hys⟩ := ih hmark
    exact ⟨'/' :: '*' :: xs, ys, rfl, by rw [mark, hxs], hys⟩
  | case3 cs marked last' hmark ih =>
    obtain ⟨hms, rfl⟩ := Prod.mk.inj h
    obtain ⟨before₁, rfl, hms₁⟩ := exists_of_literal_cons hms rfl hm
    obtain ⟨before₂, rfl, rfl⟩ := exists_of_literal_cons hms₁ rfl hm
    obtain ⟨xs, ys, rfl, hxs, hys⟩ := ih hmark
    exact ⟨'*' :: '/' :: xs, ys, rfl, by rw [mark, hxs], hys⟩
  | case4 literal c cs hopen hclose hbreak ih =>
    obtain ⟨xs, ys, rfl, hxs, hys⟩ := ih h
    exact ⟨c :: xs, ys, rfl, by rw [mark_cons_of_break hbreak, hxs], hys⟩
  | case5 literal c cs hopen hclose hbreak inside next hstep marked last' hmark ih =>
    obtain ⟨hms, rfl⟩ := Prod.mk.inj h
    cases before with
    | nil =>
      obtain ⟨rfl, rfl⟩ := List.cons.inj hms
      obtain rfl : inside = false := hm
      -- Such a character is met outside literal spans only, and leads into none.
      obtain ⟨rfl, rfl⟩ := Literal.outside_of_step hstep
      exact ⟨[], cs, rfl, rfl, hmark⟩
    | cons b before =>
      obtain ⟨rfl, rfl⟩ := List.cons.inj hms
      obtain ⟨xs, ys, rfl, hxs, hys⟩ := ih hmark
      refine ⟨c :: xs, ys, rfl, ?_, hys⟩
      rw [mark_cons, if_neg hbreak, hstep, hxs]
      · intro hliteral hc hhead
        obtain ⟨ds, rfl⟩ := List.head?_eq_some_iff.mp hhead
        exact hopen _ hliteral hc rfl
      · intro hliteral hc hhead
        obtain ⟨ds, rfl⟩ := List.head?_eq_some_iff.mp hhead
        exact hclose _ hliteral hc rfl

/-- A marked text that is marked so when it is read by itself. -/
def SelfMarked (ms : List Marked) : Prop :=
  mark .outside (ms.map Marked.char) = (ms, .outside)

theorem SelfMarked.not_break {ms : List Marked} (h : SelfMarked ms) :
    ∀ c ∈ ms.map Marked.char, isLineBreak c = false := by
  intro c hc
  obtain ⟨m, hm, rfl⟩ := List.mem_map.mp hc
  have hmark : m ∈ (mark .outside (ms.map Marked.char)).1 := by rwa [h]
  exact (mem_of_mem_mark hmark).2

/-- The marks of a text whose line breaks keep no comment mark apart. -/
theorem SelfMarked.of_mark {content : List Char} {ms : List Marked}
    (hwhole : MarksWhole .outside content) (h : mark .outside content = (ms, .outside)) :
    SelfMarked ms := by
  have hchars : (mark .outside content).1.map Marked.char = withoutBreaks content :=
    map_char_mark .outside content
  rw [h] at hchars
  rw [SelfMarked, hchars, mark_withoutBreaks hwhole, h]

/-- **A text divided outside literal spans**: both parts are marked by themselves as they are in
the text. -/
theorem SelfMarked.split {before after : List Marked} {m : Marked}
    (h : SelfMarked (before ++ m :: after)) (hm : m.literal = false) :
    SelfMarked before ∧ SelfMarked after := by
  obtain ⟨xs, ys, hchars, hxs, hys⟩ := exists_of_mark_append h hm
  have hbreak := h.not_break
  rw [hchars] at hbreak
  obtain ⟨hbreaks, hmore⟩ := List.forall_mem_append.mp hbreak
  have hbefore : (mark .outside xs).1.map Marked.char = xs := map_char_mark_of_breaks hbreaks
  have hafter : (mark .outside ys).1.map Marked.char = ys :=
    map_char_mark_of_breaks (List.forall_mem_cons.mp hmore).2
  rw [hxs] at hbefore
  rw [hys] at hafter
  rw [SelfMarked, SelfMarked, hbefore, hafter]
  exact ⟨hxs, hys⟩

/-- A text divided at characters outside literal spans. -/
theorem SelfMarked.of_mem_splitOnP {p : Marked × Int → Bool}
    (hp : ∀ x, p x = true → x.1.literal = false)
    {xs : List (Marked × Int)} (h : SelfMarked (xs.map (·.1))) :
    ∀ part ∈ xs.splitOnP p, SelfMarked (part.map (·.1)) := by
  -- Recursion on the parts before and after any one of the characters.
  by_cases hnone : ∀ x ∈ xs, p x = false
  · rw [List.splitOnP_eq_singleton hnone]
    simpa using h
  · obtain ⟨x, hx, hpx⟩ : ∃ x ∈ xs, p x = true := by simpa using hnone
    obtain ⟨before, after, hsplit⟩ := List.append_of_mem hx
    have hlength := congrArg List.length hsplit
    rw [List.length_append, List.length_cons] at hlength
    rw [hsplit, List.map_append, List.map_cons] at h
    obtain ⟨hbefore, hafter⟩ := h.split (hp x hpx)
    rw [hsplit, List.splitOnP_append_cons _ _ hpx]
    exact List.forall_mem_append.mpr ⟨of_mem_splitOnP hp hbefore, of_mem_splitOnP hp hafter⟩
termination_by xs.length

/-! ## Dividing a text -/

/-- The characters of a text, each with the bracket depth before it. -/
def leveled : Int → List Marked → List (Marked × Int)
  | _, [] => []
  | depth, m :: ms => (m, depth) :: leveled (depth + m.rise) ms

/-- A comma outside brackets and literal spans. -/
def endsField (x : Marked × Int) : Bool :=
  x.1.separates && x.2 == 0

/-- A bracket that stands outside other brackets. -/
def boundsGroup (x : Marked × Int) : Bool :=
  (x.1.opens && x.2 == 0) || (x.1.closes && x.2 == 1)

/-- The parts of a field between its outermost brackets: outside, inside, outside and so on. -/
def parts (field : List (Marked × Int)) : List (List Char) :=
  (field.splitOnP boundsGroup).map fun part => part.map (·.1.char)

/-- The fields of a text that starts at a depth, in parts. -/
def fields (depth : Int) (ms : List Marked) : List (List (List Char)) :=
  ((leveled depth ms).splitOnP endsField).map parts

/-- The parts of a field between its outermost brackets, with their marks. -/
def markedParts (field : List (Marked × Int)) : List (List Marked) :=
  (field.splitOnP boundsGroup).map fun part => part.map (·.1)

/-- The fields of a text that starts at a depth, in parts with their marks. -/
def markedFields (depth : Int) (ms : List Marked) : List (List (List Marked)) :=
  ((leveled depth ms).splitOnP endsField).map markedParts

theorem fields_eq_map (depth : Int) (ms : List Marked) :
    fields depth ms =
      (markedFields depth ms).map fun field => field.map fun part => part.map Marked.char := by
  rw [fields, markedFields, List.map_map]
  refine List.map_congr_left fun field _ => ?_
  rw [parts, Function.comp_apply, markedParts, List.map_map]
  refine List.map_congr_left fun part _ => ?_
  rw [Function.comp_apply, List.map_map]
  rfl

theorem map_fst_leveled (depth : Int) (ms : List Marked) :
    (leveled depth ms).map (·.1) = ms := by
  induction ms generalizing depth with
  | nil => rfl
  | cons m ms ih => rw [leveled, List.map_cons, ih]

/-- The parts of a text are marked by themselves as they are in the text. -/
theorem SelfMarked.of_mem_markedFields {depth : Int} {ms : List Marked} (h : SelfMarked ms) :
    ∀ field ∈ markedFields depth ms, ∀ part ∈ field, SelfMarked part := by
  have hends : ∀ x, endsField x = true → x.1.literal = false := by
    intro x hx
    rw [endsField, Bool.and_eq_true] at hx
    exact Marked.literal_eq_false_of_separates hx.1
  have hbounds : ∀ x, boundsGroup x = true → x.1.literal = false := by
    intro x hx
    rw [boundsGroup, Bool.or_eq_true, Bool.and_eq_true, Bool.and_eq_true] at hx
    rcases hx with ⟨hopens, -⟩ | ⟨hcloses, -⟩
    · exact Marked.literal_eq_false_of_opens hopens
    · exact Marked.literal_eq_false_of_closes hcloses
  rw [← map_fst_leveled depth ms] at h
  rintro _ hfield _ hpart
  obtain ⟨xs, hxs, rfl⟩ := List.mem_map.mp hfield
  obtain ⟨ys, hys, rfl⟩ := List.mem_map.mp hpart
  exact (h.of_mem_splitOnP hends xs hxs).of_mem_splitOnP hbounds ys hys

theorem parts_cons (x : Marked × Int) (field : List (Marked × Int)) :
    parts (x :: field) =
      if boundsGroup x then [] :: parts field else (parts field).modifyHead (x.1.char :: ·) :=
  Text.map_splitOnP_cons boundsGroup (fun _ _ => List.map_cons) x field

theorem markedParts_cons (x : Marked × Int) (field : List (Marked × Int)) :
    markedParts (x :: field) =
      if boundsGroup x then [] :: markedParts field
      else (markedParts field).modifyHead (x.1 :: ·) :=
  Text.map_splitOnP_cons boundsGroup (fun _ _ => List.map_cons) x field

theorem fields_cons (depth : Int) (m : Marked) (ms : List Marked) :
    fields depth (m :: ms) =
      if endsField (m, depth) then [[]] :: fields (depth + m.rise) ms
      else (fields (depth + m.rise) ms).modifyHead fun field =>
        if boundsGroup (m, depth) then [] :: field else field.modifyHead (m.char :: ·) :=
  Text.map_splitOnP_cons endsField
    (h := fun x field => if boundsGroup x then [] :: field else field.modifyHead (x.1.char :: ·))
    parts_cons (m, depth) (leveled (depth + m.rise) ms)

theorem markedFields_cons (depth : Int) (m : Marked) (ms : List Marked) :
    markedFields depth (m :: ms) =
      if endsField (m, depth) then [[]] :: markedFields (depth + m.rise) ms
      else (markedFields (depth + m.rise) ms).modifyHead fun field =>
        if boundsGroup (m, depth) then [] :: field else field.modifyHead (m :: ·) :=
  Text.map_splitOnP_cons endsField
    (h := fun x field => if boundsGroup x then [] :: field else field.modifyHead (x.1 :: ·))
    markedParts_cons (m, depth) (leveled (depth + m.rise) ms)

/-! ## Parts outside and inside brackets -/

/-- Parts of a field that starts and ends outside brackets: in turn, texts that mean nothing to the
scanner there and texts that close the brackets that they open. -/
inductive Alternating : List (List Marked) → Prop where
  | last {text : List Marked} (plain : ∀ m ∈ text, Plain m) : Alternating [text]
  | group {before inside : List Marked} {parts : List (List Marked)}
      (plain : ∀ m ∈ before, Plain m) (balanced : depthAfter? 0 inside = some 0)
      (rest : Alternating parts) : Alternating (before :: inside :: parts)

/-- Parts of a field of which the first one starts at a depth. -/
def AlternatingFrom : Nat → List (List Marked) → Prop
  | 0, parts => Alternating parts
  | _ + 1, [] => False
  | depth + 1, inside :: parts => depthAfter? depth inside = some 0 ∧ Alternating parts

/-- A character that neither ends a field nor bounds a group stays outside groups, or inside. -/
theorem depth_eq_zero_iff_of_step {depth inner : Nat} {m : Marked}
    (hbounds : boundsGroup (m, (depth : Int)) = false) (h : depthStep? depth m = some inner) :
    inner = 0 ↔ depth = 0 := by
  rw [depthStep?_eq] at h
  split_ifs at h with hopens hcloses hzero
  · obtain rfl := Option.some.inj h
    simp [boundsGroup, hopens, Marked.closes_eq_false_of_opens hopens] at hbounds
    omega
  · obtain rfl := Option.some.inj h
    simp [boundsGroup, hopens, hcloses] at hbounds
    omega
  · obtain rfl := Option.some.inj h
    exact Iff.rfl

/-- A character that keeps a bracket open does the same without that bracket. -/
theorem depthStep?_of_succ {outer inner : Nat} {m : Marked}
    (h : depthStep? (outer + 1) m = some (inner + 1)) : depthStep? outer m = some inner := by
  rw [depthStep?_eq] at h ⊢
  split_ifs at h ⊢ with hopens hcloses houter
  · obtain rfl := Nat.succ.inj (Option.some.inj h)
    rfl
  · subst houter
    cases h
  · obtain rfl := Option.some.inj h
    rfl
  · obtain rfl := Nat.succ.inj (Option.some.inj h)
    rfl

section Alternating

variable {depth inner : Nat} {m : Marked} {parts : List (List Marked)}

/-- A character that neither ends a field nor bounds a group outside brackets is plain there. -/
theorem plain_of_step (hends : endsField (m, 0) = false) (hbounds : boundsGroup (m, 0) = false)
    (h : depthStep? 0 m = some inner) : Plain m := by
  have hcloses : m.closes = false := by
    by_contra hcloses
    rw [depthStep?_eq_none_iff.mpr ⟨by simpa using hcloses, rfl⟩] at h
    cases h
  have hopens : m.opens = false := by simpa [boundsGroup, hcloses] using hbounds
  have hseparates : m.separates = false := by simpa [endsField] using hends
  simp only [Marked.opens, Marked.closes, Marked.separates, Bool.and_eq_false_iff,
    Bool.not_eq_false', beq_eq_false_iff_ne, ne_eq] at hopens hcloses hseparates
  simp only [Plain, List.mem_cons, List.not_mem_nil, or_false]
  grind

theorem Alternating.modifyHead (h : Alternating parts) (hm : Plain m) :
    Alternating (parts.modifyHead (m :: ·)) := by
  cases h with
  | last plain => exact .last (List.forall_mem_cons.mpr ⟨hm, plain⟩)
  | group plain balanced rest => exact .group (List.forall_mem_cons.mpr ⟨hm, plain⟩) balanced rest

/-- A bracket that stands outside others starts a part. -/
theorem AlternatingFrom.of_bounds (hbounds : boundsGroup (m, (depth : Int)) = true)
    (hstep : depthStep? depth m = some inner) (h : AlternatingFrom inner parts) :
    AlternatingFrom depth ([] :: parts) := by
  have hdepth := cast_of_depthStep? hstep
  simp only [boundsGroup, Bool.or_eq_true, Bool.and_eq_true, beq_iff_eq] at hbounds
  rcases hbounds with ⟨hopens, hzero⟩ | ⟨hcloses, hone⟩
  · rw [Marked.rise_of_opens hopens] at hdepth
    obtain rfl : depth = 0 := by omega
    obtain rfl : inner = 1 := by omega
    cases parts with
    | nil => exact h.elim
    | cons inside parts => exact .group (by simp) h.1 h.2
  · rw [Marked.rise_of_closes hcloses] at hdepth
    obtain rfl : depth = 1 := by omega
    obtain rfl : inner = 0 := by omega
    exact ⟨rfl, h⟩

/-- Any other character goes to the part in hand, unless it ends the field. -/
theorem AlternatingFrom.modifyHead (hends : endsField (m, (depth : Int)) = false)
    (hbounds : boundsGroup (m, (depth : Int)) = false) (hstep : depthStep? depth m = some inner)
    (h : AlternatingFrom inner parts) : AlternatingFrom depth (parts.modifyHead (m :: ·)) := by
  have hzero := depth_eq_zero_iff_of_step hbounds hstep
  cases depth with
  | zero =>
    obtain rfl := hzero.mpr rfl
    exact Alternating.modifyHead h (plain_of_step hends hbounds hstep)
  | succ outer =>
    obtain ⟨i, rfl⟩ := Nat.exists_eq_succ_of_ne_zero fun h => Nat.succ_ne_zero _ (hzero.mp h)
    cases parts with
    | nil => exact h.elim
    | cons inside parts =>
      refine ⟨?_, h.2⟩
      rw [depthAfter?, List.foldlM_cons, depthStep?_of_succ hstep]
      exact h.1

/-- **The fields of a text that closes its brackets** start and end outside them. -/
theorem alternating_markedFields {ms : List Marked} (h : depthAfter? depth ms = some 0) :
    ∃ field rest, markedFields depth ms = field :: rest ∧ AlternatingFrom depth field ∧
      ∀ f ∈ rest, Alternating f := by
  induction ms generalizing depth with
  | nil =>
    obtain rfl : depth = 0 := Option.some.inj h
    exact ⟨[[]], [], rfl, .last (by simp), by simp⟩
  | cons m ms ih =>
    obtain ⟨inner, hstep, hrest⟩ := Option.bind_eq_some_iff.mp h
    obtain ⟨field, rest, hfields, hfield, halternating⟩ := ih hrest
    have hdepth := cast_of_depthStep? hstep
    rw [markedFields_cons, ← hdepth, hfields]
    cases hends : endsField (m, (depth : Int)) with
    | true =>
      -- A comma outside brackets leaves the depth at zero.
      simp only [endsField, Bool.and_eq_true, beq_iff_eq] at hends
      rw [Marked.rise_of_separates hends.1] at hdepth
      obtain rfl : depth = 0 := by omega
      obtain rfl : inner = 0 := by omega
      exact ⟨[[]], field :: rest, rfl, .last (by simp),
        List.forall_mem_cons.mpr ⟨hfield, halternating⟩⟩
    | false =>
      cases hbounds : boundsGroup (m, (depth : Int)) with
      | true =>
        -- The part before a bracket outside others is still empty.
        exact ⟨[] :: field, rest, rfl, hfield.of_bounds hbounds hstep, halternating⟩
      | false =>
        exact ⟨field.modifyHead (m :: ·), rest, rfl, hfield.modifyHead hends hbounds hstep,
          halternating⟩

theorem Alternating.odd_length (h : Alternating parts) : parts.length % 2 = 1 := by
  induction h with
  | last => rfl
  | group plain balanced rest ih =>
    rw [List.length_cons, List.length_cons]
    omega

theorem AlternatingFrom.odd_length_iff (h : AlternatingFrom depth parts) :
    depth = 0 ↔ parts.length % 2 = 1 := by
  cases depth with
  | zero => exact iff_of_true rfl (Alternating.odd_length h)
  | succ outer =>
    cases parts with
    | nil => exact h.elim
    | cons inside parts =>
      have hodd := h.2.odd_length
      rw [List.length_cons]
      omega

/-- In a text that closes its brackets every field ends outside them, so its parts are as many
brackets twice and the text after the last one. -/
theorem odd_length_fields {ms : List Marked} (h : depthAfter? depth ms = some 0) :
    ∃ field rest, fields depth ms = field :: rest ∧ (depth = 0 ↔ field.length % 2 = 1) ∧
      ∀ f ∈ rest, f.length % 2 = 1 := by
  obtain ⟨field, rest, hfields, hfield, hrest⟩ := alternating_markedFields h
  refine ⟨_, _, by rw [fields_eq_map, hfields, List.map_cons], ?_, ?_⟩
  · rw [List.length_map, hfield.odd_length_iff]
  · rintro _ hf
    obtain ⟨g, hg, rfl⟩ := List.mem_map.mp hf
    rw [List.length_map, (hrest g hg).odd_length]

end Alternating

end FlowDoc.Payload
