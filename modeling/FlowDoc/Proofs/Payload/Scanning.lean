import FlowDoc.Payload.Scan
import FlowDoc.Proofs.Traversal

/-!
# Scanning a text

Over a text that starts and ends outside literal spans the scanner goes from one place to another
whatever stands around the text, as long as no comment mark is made up where it ends. A payload that
is put together from such texts is thus scanned text by text.

## Main definitions

* `LiteralClosed`: a text that ends outside literal spans when it starts there
* `depthAfter?`: the bracket depth after a text that closes no bracket it did not open
* `Place.Leads`: the places before and after a text

## Main results

* `mark_append`: a text is marked like its parts
* `map_char_mark`: marking a text leaves out its line breaks and nothing else
* `Place.foldlM_step_of_depthAfter?`: inside a bracket the scanner collects the text
* `Place.Leads.trans`: places before and after texts that follow each other
-/

namespace FlowDoc.Payload

/-! ## Literal spans -/

/-- A text that ends outside literal spans when it starts there. -/
def LiteralClosed (text : List Char) : Prop :=
  (mark .outside text).2 = .outside

instance (text : List Char) : Decidable (LiteralClosed text) :=
  inferInstanceAs (Decidable (_ = _))

/-- A character that belongs to no literal span stands outside literal spans and opens none. -/
theorem Literal.outside_of_step {literal next : Literal} {c : Char}
    (h : literal.step c = (false, next)) : literal = .outside ∧ next = .outside := by
  unfold Literal.step at h
  split at h
  · split_ifs at h
    · cases h
    · exact ⟨rfl, (Prod.mk.inj h).2.symm⟩
  · cases h
  · split_ifs at h
    all_goals cases h

/-- A character that no comment mark starts or ends with here. -/
theorem mark_cons {literal : Literal} {c : Char} {cs : List Char}
    (hopen : literal = .outside → c = '/' → cs.head? ≠ some '*')
    (hclose : literal = .comment → c = '*' → cs.head? ≠ some '/') :
    mark literal (c :: cs) =
      if isLineBreak c then mark literal cs
      else
        (⟨c, (literal.step c).1⟩ :: (mark (literal.step c).2 cs).1,
          (mark (literal.step c).2 cs).2) := by
  rw [mark.eq_def]
  split
  case h_1 h => cases h
  case h_2 h =>
    obtain ⟨rfl, rfl⟩ := List.cons.inj h
    exact absurd rfl (hopen rfl rfl)
  case h_3 h =>
    obtain ⟨rfl, rfl⟩ := List.cons.inj h
    exact absurd rfl (hclose rfl rfl)
  case h_4 h =>
    obtain ⟨rfl, rfl⟩ := List.cons.inj h
    rfl

/-- A line break is dropped: it is no part of a comment mark. -/
theorem mark_cons_of_break {literal : Literal} {c : Char} (h : isLineBreak c = true)
    (cs : List Char) : mark literal (c :: cs) = mark literal cs := by
  rw [mark_cons, if_pos h]
  · rintro - rfl
    cases h
  · rintro - rfl
    cases h

/-- No comment is opened where two texts meet. -/
def Apart (xs ys : List Char) : Prop :=
  xs.getLast? = some '/' → ys.head? ≠ some '*'

theorem Apart.of_cons {c : Char} {cs ys : List Char} (h : Apart (c :: cs) ys) : Apart cs ys := by
  intro hlast
  exact h (by rw [List.getLast?_cons, hlast, Option.getD_some])

theorem head?_append_ne {cs ys : List Char} {d : Char} (h : ∀ rest, cs = d :: rest → False)
    (hys : cs = [] → ys.head? ≠ some d) : (cs ++ ys).head? ≠ some d := by
  cases cs with
  | nil => exact hys rfl
  | cons c cs =>
    intro hc
    obtain rfl : c = d := Option.some.inj hc
    exact h cs rfl

/-- A text is marked like its parts, unless a comment is opened where they meet. -/
theorem mark_append {literal : Literal} {xs ys : List Char}
    (h : (mark literal xs).2 = .outside) (hapart : Apart xs ys) :
    mark literal (xs ++ ys) =
      ((mark literal xs).1 ++ (mark .outside ys).1, (mark .outside ys).2) := by
  -- One case for each way in which a text is marked from its start.
  fun_induction mark literal xs with
  | case1 literal =>
    obtain rfl : literal = .outside := h
    rfl
  | case2 cs marked last hmark ih =>
    rw [hmark] at ih
    simp only [List.cons_append, mark, ih h hapart.of_cons.of_cons]
  | case3 cs marked last hmark ih =>
    rw [hmark] at ih
    simp only [List.cons_append, mark, ih h hapart.of_cons.of_cons]
  | case4 literal c cs hopen hclose hbreak ih =>
    rw [List.cons_append, mark_cons_of_break hbreak, ih h hapart.of_cons]
  | case5 literal c cs hopen hclose hbreak inside next hstep marked last hmark ih =>
    rw [hmark] at ih
    rw [List.cons_append, mark_cons, if_neg hbreak, hstep, ih h hapart.of_cons]
    · rfl
    · -- A slash at the end of the text meets no star.
      refine fun hliteral hc => head?_append_ne (fun rest => hopen rest hliteral hc) ?_
      rintro rfl
      exact hapart (congrArg some hc)
    · -- A comment that the star ends is not yet over at the end of the text.
      refine fun hliteral hc => head?_append_ne (fun rest => hclose rest hliteral hc) ?_
      rintro rfl
      subst hliteral
      cases hstep
      cases hmark
      cases h

/-- Marking a text leaves out its line breaks and nothing else. -/
theorem map_char_mark (literal : Literal) (xs : List Char) :
    (mark literal xs).1.map Marked.char = xs.filter fun c => !isLineBreak c := by
  -- One case for each way in which the text is marked from its start.
  fun_induction mark literal xs with
  | case1 => rfl
  | case2 cs marked last hmark ih =>
    rw [hmark] at ih
    have hcons : ('/' :: '*' :: cs).filter (fun c => !isLineBreak c) =
        '/' :: '*' :: cs.filter fun c => !isLineBreak c := rfl
    rw [hcons, ← ih, List.map_cons, List.map_cons]
  | case3 cs marked last hmark ih =>
    rw [hmark] at ih
    have hcons : ('*' :: '/' :: cs).filter (fun c => !isLineBreak c) =
        '*' :: '/' :: cs.filter fun c => !isLineBreak c := rfl
    rw [hcons, ← ih, List.map_cons, List.map_cons]
  | case4 literal c cs hopen hclose hbreak ih =>
    rw [List.filter_cons_of_neg (by simp [hbreak]), ih]
  | case5 literal c cs hopen hclose hbreak inside next hstep marked last hmark ih =>
    rw [hmark] at ih
    rw [List.filter_cons_of_pos (by simpa using hbreak), ← ih, List.map_cons]

/-- Marking a text without line breaks keeps its characters. -/
theorem map_char_mark_of_breaks {literal : Literal} {xs : List Char}
    (h : ∀ c ∈ xs, isLineBreak c = false) : (mark literal xs).1.map Marked.char = xs := by
  rw [map_char_mark, List.filter_eq_self]
  intro c hc
  rw [h c hc]
  rfl

/-! ## Brackets -/

/-- The bracket depth after a character, unless it closes a bracket and none is open. -/
def depthStep? (depth : Nat) (m : Marked) : Option Nat :=
  if m.literal then some depth
  else match m.char with
    | '(' | '[' => some (depth + 1)
    | ')' | ']' => if depth = 0 then none else some (depth - 1)
    | _ => some depth

/-- The bracket depth after characters that close no more brackets than are open. -/
def depthAfter? (depth : Nat) (ms : List Marked) : Option Nat :=
  ms.foldlM depthStep? depth

/-- The characters that mean nothing to the scanner at depth zero. -/
def Plain (m : Marked) : Prop :=
  m.literal = true ∨ m.char ∉ ['(', '[', ')', ']', ',']

instance (m : Marked) : Decidable (Plain m) :=
  inferInstanceAs (Decidable (_ ∨ _))

/-! ## Entries -/

namespace Scan

variable (s : Scan)

@[simp] theorem closed_addField (reading : Reading) (field : String) :
    (s.addField reading field).closed = s.closed := by
  unfold addField
  extract_lets
  split_ifs
  · rfl
  · cases reading <;> rfl

@[simp] theorem trailing_addField (reading : Reading) (field : String) :
    (s.addField reading field).trailing = s.trailing := by
  unfold addField
  extract_lets
  split_ifs
  · rfl
  · cases reading <;> rfl

@[simp] theorem closed_addBracketed (key value : String) :
    (s.addBracketed key value).closed = s.closed := by
  unfold addBracketed
  extract_lets
  split_ifs <;> rfl

@[simp] theorem trailing_addBracketed (key value : String) :
    (s.addBracketed key value).trailing = s.trailing := by
  unfold addBracketed
  extract_lets
  split_ifs <;> rfl

end Scan

/-! ## Places -/

namespace Place

variable {reading : Reading} {p p' p'' : Place}

/-- The place at some depth after characters that belong to the field in hand. -/
def collect (p : Place) (cs : List Char) (depth : Nat) : Place :=
  { p with depth, field := p.field ++ String.ofList cs }

@[simp] theorem collect_nil (p : Place) : p.collect [] p.depth = p := by
  simp [collect]

theorem collect_collect (p : Place) (cs cs' : List Char) (depth depth' : Nat) :
    (p.collect cs depth).collect cs' depth' = p.collect (cs ++ cs') depth' := by
  simp [collect, String.append_assoc]

theorem push_eq_collect (p : Place) (c : Char) : p.push c = p.collect [c] p.depth := by
  have hfield : p.field.push c = p.field ++ String.ofList [c] := by
    apply String.toList_injective
    simp
  rw [push, collect, hfield]

theorem step_of_open (h : p.done.closed = false) (m : Marked) :
    step reading p m = .ok (p.within reading m) := by
  rw [step, if_neg (by simp [h])]

theorem within_of_plain {m : Marked} (h : Plain m) : p.within reading m = p.push m.char := by
  rcases h with h | h
  · rw [within, if_pos h]
  · rw [within]
    split
    · rfl
    · split <;> simp_all

/-- At depth zero the scanner collects plain characters. -/
theorem foldlM_step_of_plain {ms : List Marked} (hms : ∀ m ∈ ms, Plain m)
    (hp : p.done.closed = false) :
    ms.foldlM (step reading) p = .ok (p.collect (ms.map Marked.char) p.depth) := by
  induction ms generalizing p with
  | nil => simp [Pure.pure, Except.pure]
  | cons m ms ih =>
    obtain ⟨hm, hrest⟩ := List.forall_mem_cons.mp hms
    have hstep : step reading p m = .ok (p.collect [m.char] p.depth) := by
      rw [step_of_open hp, within_of_plain hm, push_eq_collect]
    rw [foldlM_cons_of_ok hstep, ih (p := p.collect [m.char] p.depth) hrest hp, collect_collect]
    rfl

theorem not_outermost {depth : Nat} (h : reading = .pairs → 0 < depth) :
    ¬ (depth = 0 ∧ reading = .pairs) := fun ⟨hzero, hpairs⟩ =>
  Nat.ne_of_gt (h hpairs) hzero

theorem openBracket_of_inside (h : reading = .pairs → 0 < p.depth) (c : Char) :
    p.openBracket reading c = p.collect [c] (p.depth + 1) := by
  rw [openBracket, if_neg (not_outermost h), push_eq_collect]
  rfl

theorem closeBracket_of_inside {outer : Nat} (hp : p.depth = outer + 1)
    (h : reading = .pairs → 0 < outer) (c : Char) :
    p.closeBracket reading c = p.collect [c] outer := by
  rw [closeBracket, hp]
  simp only [if_neg (not_outermost h), push_eq_collect]
  rfl

/-- A character inside a bracket changes the depth and belongs to the field in hand. -/
theorem within_of_depthStep? {base depth inner : Nat} {m : Marked}
    (hbase : reading = .pairs → 0 < base) (hp : p.depth = base + depth)
    (h : depthStep? depth m = some inner) :
    p.within reading m = p.collect [m.char] (base + inner) := by
  have hinside : reading = .pairs → 0 < p.depth := fun hpairs => by
    have hpos := hbase hpairs
    omega
  have hpush : p.push m.char = p.collect [m.char] (base + depth) := by
    rw [push_eq_collect, hp]
  -- A closing bracket stays inside: it closes one that was opened above the base.
  have hclose : ∀ {c : Char}, (if depth = 0 then none else some (depth - 1)) = some inner →
      p.closeBracket reading c = p.collect [c] (base + inner) := by
    intro c hinner
    split_ifs at hinner with hzero
    obtain rfl := Option.some.inj hinner
    exact closeBracket_of_inside (by omega) (fun hpairs => by have := hbase hpairs; omega) c
  obtain ⟨c, literal⟩ := m
  cases literal with
  | true =>
    obtain rfl : depth = inner := Option.some.inj h
    exact hpush
  | false =>
    rw [within, if_neg Bool.false_ne_true]
    rw [depthStep?, if_neg Bool.false_ne_true] at h
    dsimp only at h ⊢
    split at h
    · obtain rfl := Option.some.inj h
      exact (openBracket_of_inside hinside _).trans (by rw [hp, Nat.add_assoc])
    · obtain rfl := Option.some.inj h
      exact (openBracket_of_inside hinside _).trans (by rw [hp, Nat.add_assoc])
    · exact hclose h
    · exact hclose h
    · obtain rfl := Option.some.inj h
      split
      case h_5 =>
        rw [if_neg (not_outermost hinside)]
        exact hpush
      case h_6 => exact hpush
      -- In the other cases the character is a bracket, which changes the depth.
      all_goals simp_all

/-- **Inside a bracket the scanner collects the text**, whatever brackets it opens and closes. -/
theorem foldlM_step_of_depthAfter? {base depth depth' : Nat} {ms : List Marked}
    (hbase : reading = .pairs → 0 < base) (hp : p.depth = base + depth)
    (hopen : p.done.closed = false) (h : depthAfter? depth ms = some depth') :
    ms.foldlM (step reading) p = .ok (p.collect (ms.map Marked.char) (base + depth')) := by
  -- Induction on the characters, at any depth above the base.
  induction ms generalizing p depth with
  | nil =>
    obtain rfl : depth = depth' := Option.some.inj h
    rw [← hp]
    simp [Pure.pure, Except.pure]
  | cons m ms ih =>
    obtain ⟨inner, hstep?, hinner⟩ := Option.bind_eq_some_iff.mp h
    have hstep : step reading p m = .ok (p.collect [m.char] (base + inner)) := by
      rw [step_of_open hopen, within_of_depthStep? hbase hp hstep?]
    rw [foldlM_cons_of_ok hstep,
      ih (p := p.collect [m.char] (base + inner)) rfl hopen hinner, collect_collect]
    rfl

/-! ## Texts that follow each other -/

/-- The scanner goes from one place to another over a text, from outside to outside literal
spans. -/
def Leads (reading : Reading) (text : List Char) (p p' : Place) : Prop :=
  LiteralClosed text ∧ (mark .outside text).1.foldlM (step reading) p = .ok p'

theorem Leads.refl (reading : Reading) (p : Place) : Leads reading [] p p :=
  ⟨rfl, rfl⟩

/-- **Places before and after texts that follow each other.** -/
theorem Leads.trans {xs ys : List Char} (h : Leads reading xs p p') (h' : Leads reading ys p' p'')
    (hapart : Apart xs ys) : Leads reading (xs ++ ys) p p'' := by
  obtain ⟨hclosed, hrun⟩ := h
  obtain ⟨hclosed', hrun'⟩ := h'
  have hmark := mark_append hclosed hapart
  refine ⟨?_, ?_⟩
  · rw [LiteralClosed, hmark]
    exact hclosed'
  · rw [hmark, foldlM_append_of_ok hrun, hrun']

/-- A character that starts no literal span and is no line break. -/
theorem Leads.of_step {c : Char} (hquote : c ≠ quoteMark) (hbreak : isLineBreak c = false)
    (h : step reading p ⟨c, false⟩ = .ok p') : Leads reading [c] p p' := by
  have hmark : mark .outside [c] = ([⟨c, false⟩], .outside) := by
    rw [mark_cons (by simp) (by simp), if_neg (by simp [hbreak]), Literal.step, if_neg hquote]
    rfl
  rw [Leads, LiteralClosed, hmark]
  exact ⟨rfl, foldlM_cons_of_ok h⟩

theorem Leads.of_lineBreak {c : Char} (hbreak : isLineBreak c = true) :
    Leads reading [c] p p := by
  have hmark : mark .outside [c] = ([], .outside) := mark_cons_of_break hbreak []
  rw [Leads, LiteralClosed, hmark]
  exact ⟨rfl, rfl⟩

/-- What a text holds that the scanner gets over. -/
theorem Leads.scan_eq_finish {text : List Char} (h : Leads reading text {} p) :
    scan reading (String.ofList text) = p.finish reading .outside := by
  obtain ⟨hmark, hrun⟩ := h
  rw [LiteralClosed] at hmark
  rw [← hmark, scan, String.toList_ofList]
  show _ >>= _ = _
  rw [hrun]
  rfl

/-- What a text holds when the scanner gets over it to the closing bracket of the payload. -/
theorem Leads.scan_eq {text : List Char} (h : Leads reading text {} p) (hdepth : p.depth = 0)
    (hclosed : p.done.closed = true) : scan reading (String.ofList text) = .ok p.done := by
  rw [h.scan_eq_finish, finish]
  simp [hdepth, hclosed]

end Place

end FlowDoc.Payload
