import FlowDoc.Proofs.Payload.Entries
import FlowDoc.Proofs.Payload.Spans

/-!
# The outcome of reading a payload

Whether a payload is read, and which fault is reported if it is not, depends on its brackets
outside literal spans and on the span at its end alone, not on how the payload is read. The first
closing bracket at depth zero closes the node; a closing bracket after it is the first fault that
is looked for, then comes a literal span that is still open, and then a bracket that is.

## Main definitions

* `Marked.rise`, `depthOf`: opened brackets minus closed ones
* `NodeClose`: the bracket that closes the node
* `ExtraClose`: the closing bracket at fault after it
* `Place.Open`, `Place.Shut`: places before and after the closing bracket of the node

## Main results

* `nodeClose_iff`: the node is closed where the depth would fall below zero
* `Place.Open.run`, `Place.Shut.run`: what the scanner does before and after that bracket
* `scan_outcome`: the outcome for every payload
-/

namespace FlowDoc.Payload

/-! ## Brackets by their depth -/

namespace Marked

/-- Whether a character is an opening bracket outside literal spans. -/
def opens (m : Marked) : Bool :=
  !m.literal && (m.char == '(' || m.char == '[')

/-- Whether a character is a closing bracket outside literal spans. -/
def closes (m : Marked) : Bool :=
  !m.literal && (m.char == ')' || m.char == ']')

/-- Whether a character is a comma outside literal spans. -/
def separates (m : Marked) : Bool :=
  !m.literal && m.char == ','

/-- Whether a character is blank outside literal spans. -/
def blank (m : Marked) : Bool :=
  !m.literal && Text.isBlank m.char

/-- What a character adds to the bracket depth. -/
def rise (m : Marked) : Int :=
  if m.opens then 1 else if m.closes then -1 else 0

variable {m : Marked}

theorem literal_eq_false_of_opens (h : m.opens = true) : m.literal = false := by
  rw [opens, Bool.and_eq_true, Bool.not_eq_true'] at h
  exact h.1

theorem literal_eq_false_of_closes (h : m.closes = true) : m.literal = false := by
  rw [closes, Bool.and_eq_true, Bool.not_eq_true'] at h
  exact h.1

theorem literal_eq_false_of_separates (h : m.separates = true) : m.literal = false := by
  rw [separates, Bool.and_eq_true, Bool.not_eq_true'] at h
  exact h.1

theorem opens_eq_false_of_closes (h : m.closes = true) : m.opens = false := by
  simp only [opens, closes] at h ⊢
  grind

theorem closes_eq_false_of_opens (h : m.opens = true) : m.closes = false := by
  simp only [opens, closes] at h ⊢
  grind

theorem separates_eq_false_of_opens (h : m.opens = true) : m.separates = false := by
  simp only [opens, separates] at h ⊢
  grind

theorem separates_eq_false_of_closes (h : m.closes = true) : m.separates = false := by
  simp only [closes, separates] at h ⊢
  grind

theorem rise_of_opens (h : m.opens = true) : m.rise = 1 := by
  rw [rise, if_pos h]

theorem rise_of_closes (h : m.closes = true) : m.rise = -1 := by
  rw [rise, if_neg (by simp [opens_eq_false_of_closes h]), if_pos h]

theorem rise_of_separates (h : m.separates = true) : m.rise = 0 := by
  simp only [rise, opens, closes, separates] at h ⊢
  grind

end Marked

/-- The bracket depth after a text: opened brackets minus closed ones. -/
def depthOf : List Marked → Int
  | [] => 0
  | m :: ms => m.rise + depthOf ms

/-- The first closing bracket that is met at depth zero, and what stands before and after it. -/
structure NodeClose (ms before : List Marked) (close : Marked) (after : List Marked) : Prop where
  split : ms = before ++ close :: after
  closes : close.closes = true
  outermost : depthOf before = 0
  first : ∀ xs m ys, before = xs ++ m :: ys → m.closes = true → depthOf xs ≠ 0

/-- A payload that closes its node. -/
def ClosesNode (ms : List Marked) : Prop :=
  ∃ before close after, NodeClose ms before close after

/-- The first closing bracket after the one that closes the node. -/
def ExtraClose (ms : List Marked) (extra : Marked) : Prop :=
  ∃ before close after, NodeClose ms before close after ∧ after.find? Marked.closes = some extra

section Depth

variable {depth depth' : Nat} {m : Marked} {ms : List Marked}

theorem depthStep?_eq (depth : Nat) (m : Marked) :
    depthStep? depth m =
      if m.opens then some (depth + 1)
      else if m.closes then (if depth = 0 then none else some (depth - 1))
      else some depth := by
  obtain ⟨c, literal⟩ := m
  cases literal with
  | true => rfl
  | false =>
    rw [depthStep?, if_neg Bool.false_ne_true, Marked.opens, Marked.closes]
    dsimp only
    split
    · rfl
    · rfl
    · rfl
    · rfl
    · simp_all

/-- The depth can be told unless a bracket is closed and none is open. -/
theorem depthStep?_eq_none_iff : depthStep? depth m = none ↔ m.closes = true ∧ depth = 0 := by
  rw [depthStep?_eq]
  split_ifs with hopens hcloses hzero
  · simp [Marked.closes_eq_false_of_opens hopens]
  · simp [hcloses, hzero]
  · simp [hzero]
  · simp [hcloses]

theorem cast_of_depthStep? (h : depthStep? depth m = some depth') :
    (depth' : Int) = depth + m.rise := by
  rw [depthStep?_eq] at h
  rw [Marked.rise]
  split_ifs at h ⊢ with hopens hcloses hzero
  · obtain rfl := Option.some.inj h
    omega
  · obtain rfl := Option.some.inj h
    omega
  · obtain rfl := Option.some.inj h
    omega

theorem cast_of_depthAfter? (h : depthAfter? depth ms = some depth') :
    (depth' : Int) = depth + depthOf ms := by
  induction ms generalizing depth with
  | nil =>
    obtain rfl : depth = depth' := Option.some.inj h
    exact (Int.add_zero _).symm
  | cons m ms ih =>
    obtain ⟨inner, hstep, hrest⟩ := Option.bind_eq_some_iff.mp h
    have hhead := cast_of_depthStep? hstep
    have htail := ih hrest
    rw [depthOf]
    omega

/-- The depth after a text can be told, or the text closes a bracket where none is open. -/
theorem exists_depthAfter? (depth : Nat) (ms : List Marked) :
    (∃ depth', depthAfter? depth ms = some depth') ∨
      ∃ before close after, ms = before ++ close :: after ∧ close.closes = true ∧
        depthAfter? depth before = some 0 := by
  induction ms generalizing depth with
  | nil => exact .inl ⟨depth, rfl⟩
  | cons m ms ih =>
    cases hstep : depthStep? depth m with
    | none =>
      obtain ⟨hcloses, rfl⟩ := depthStep?_eq_none_iff.mp hstep
      exact .inr ⟨[], m, ms, rfl, hcloses, rfl⟩
    | some inner =>
      have hcons : ∀ xs, depthAfter? depth (m :: xs) = depthAfter? inner xs := fun xs => by
        rw [depthAfter?, List.foldlM_cons, hstep]
        rfl
      obtain ⟨depth', h⟩ | ⟨before, close, after, rfl, hcloses, h⟩ := ih inner
      · exact .inl ⟨depth', (hcons ms).trans h⟩
      · exact .inr ⟨m :: before, close, after, rfl, hcloses, (hcons before).trans h⟩

/-- **The node is closed where the depth would fall below zero.** -/
theorem nodeClose_iff {before : List Marked} {close : Marked} {after : List Marked} :
    NodeClose ms before close after ↔
      ms = before ++ close :: after ∧ close.closes = true ∧ depthAfter? 0 before = some 0 := by
  constructor
  · rintro ⟨split, closes, outermost, first⟩
    refine ⟨split, closes, ?_⟩
    obtain ⟨depth, h⟩ | ⟨xs, m, ys, rfl, hcloses, h⟩ := exists_depthAfter? 0 before
    · have hdepth := cast_of_depthAfter? h
      obtain rfl : depth = 0 := by omega
      exact h
    · -- A bracket before it is not met at depth zero.
      refine absurd ?_ (first xs m ys rfl hcloses)
      have hdepth := cast_of_depthAfter? h
      omega
  · rintro ⟨split, closes, h⟩
    have hdepth := cast_of_depthAfter? h
    refine ⟨split, closes, by omega, ?_⟩
    rintro xs m ys rfl hcloses hzero
    rw [depthAfter?, List.foldlM_append] at h
    obtain ⟨inner, hxs, hys⟩ := Option.bind_eq_some_iff.mp h
    have hinner := cast_of_depthAfter? hxs
    obtain rfl : inner = 0 := by omega
    rw [List.foldlM_cons, depthStep?_eq_none_iff.mpr ⟨hcloses, rfl⟩] at hys
    cases hys

/-- Nothing stands between two closing brackets of the node. -/
theorem NodeClose.eq_nil {before before' after after' between : List Marked} {close close' : Marked}
    (h : NodeClose ms before close after) (h' : NodeClose ms before' close' after')
    (hbefore : before' = before ++ between) (hrest : close :: after = between ++ close' :: after') :
    between = [] := by
  cases between with
  | nil => rfl
  | cons m rest =>
    obtain ⟨rfl, -⟩ := List.cons.inj hrest
    exact absurd h.outermost (h'.first before close rest hbefore h.closes)

theorem NodeClose.unique {before before' after after' : List Marked} {close close' : Marked}
    (h : NodeClose ms before close after) (h' : NodeClose ms before' close' after') :
    before' = before ∧ close' = close ∧ after' = after := by
  obtain ⟨between, hbefore, hrest⟩ | ⟨between, hbefore, hrest⟩ :=
    List.append_eq_append_iff.mp (h.split.symm.trans h'.split)
  · obtain rfl := h.eq_nil h' hbefore hrest
    obtain ⟨rfl, rfl⟩ := List.cons.inj hrest
    exact ⟨hbefore.trans (List.append_nil _), rfl, rfl⟩
  · obtain rfl := h'.eq_nil h hbefore hrest
    obtain ⟨rfl, rfl⟩ := List.cons.inj hrest
    exact ⟨(hbefore.trans (List.append_nil _)).symm, rfl, rfl⟩

theorem NodeClose.find?_eq_none {before after : List Marked} {close : Marked}
    (h : NodeClose ms before close after) (hnone : ∀ extra, ¬ ExtraClose ms extra) :
    after.find? Marked.closes = none := by
  cases hextra : after.find? Marked.closes with
  | none => rfl
  | some extra => exact absurd ⟨before, close, after, h, hextra⟩ (hnone extra)

/-- A payload that does not close its node has a depth at its end. -/
theorem exists_depthAfter?_of_open (h : ¬ ClosesNode ms) :
    ∃ depth : Nat, depthAfter? 0 ms = some depth ∧ depthOf ms = depth := by
  obtain ⟨depth, hdepth⟩ | ⟨before, close, after, hclose⟩ := exists_depthAfter? 0 ms
  · exact ⟨depth, hdepth, by have := cast_of_depthAfter? hdepth; omega⟩
  · exact absurd ⟨before, close, after, nodeClose_iff.mpr hclose⟩ h

end Depth

/-! ## Before the closing bracket of the node -/

namespace Place

variable {reading : Reading} {p : Place} {depth depth' : Nat} {m : Marked} {ms : List Marked}

/-- A character before the closing bracket of the node, by what it means. -/
theorem within_eq (reading : Reading) (p : Place) (m : Marked) :
    p.within reading m =
      if m.opens then p.openBracket reading m.char
      else if m.closes then p.closeBracket reading m.char
      else if m.separates ∧ p.depth = 0 ∧ reading = .pairs then p.endField reading
      else p.push m.char := by
  obtain ⟨c, literal⟩ := m
  cases literal with
  | true => simp [within, Marked.opens, Marked.closes, Marked.separates]
  | false =>
    rw [within, if_neg Bool.false_ne_true, Marked.opens, Marked.closes, Marked.separates]
    dsimp only
    split
    · rfl
    · rfl
    · rfl
    · rfl
    · simp
    · simp_all

@[simp] theorem depth_endField (reading : Reading) (p : Place) :
    (p.endField reading).depth = p.depth := by
  rw [endField]

/-- A place before the closing bracket of the node. -/
structure Open (p : Place) (depth : Nat) : Prop where
  depth_eq : p.depth = depth
  closed_eq : p.done.closed = false
  trailing_eq : p.done.trailing = ""

/-- A place after the closing bracket of the node. -/
structure Shut (p : Place) (trailing : String) : Prop where
  depth_eq : p.depth = 0
  closed_eq : p.done.closed = true
  trailing_eq : p.done.trailing = trailing

theorem Open.start : Open {} 0 :=
  ⟨rfl, rfl, rfl⟩

theorem Open.push (h : p.Open depth) (c : Char) : (p.push c).Open depth :=
  ⟨h.depth_eq, h.closed_eq, h.trailing_eq⟩

theorem Open.endField (h : p.Open depth) : (p.endField reading).Open depth := by
  refine ⟨?_, ?_, ?_⟩
  · rw [depth_endField, h.depth_eq]
  · rw [Place.endField, Scan.closed_addField, h.closed_eq]
  · rw [Place.endField, Scan.trailing_addField, h.trailing_eq]

theorem Open.openBracket (h : p.Open depth) (c : Char) :
    (p.openBracket reading c).Open (depth + 1) := by
  rw [Place.openBracket]
  split_ifs with houtermost
  · refine ⟨?_, h.closed_eq, h.trailing_eq⟩
    rw [← h.depth_eq, houtermost.1]
  · exact ⟨congrArg (· + 1) h.depth_eq, h.closed_eq, h.trailing_eq⟩

theorem Open.closeBracket (h : p.Open (depth + 1)) (c : Char) :
    (p.closeBracket reading c).Open depth := by
  rw [Place.closeBracket, h.depth_eq]
  dsimp only
  split_ifs with houtermost
  · refine ⟨houtermost.1.symm, ?_, ?_⟩
    · show (p.done.addBracketed p.key p.field).closed = false
      rw [Scan.closed_addBracketed, h.closed_eq]
    · show (p.done.addBracketed p.key p.field).trailing = ""
      rw [Scan.trailing_addBracketed, h.trailing_eq]
  · exact ⟨rfl, h.closed_eq, h.trailing_eq⟩

theorem Open.within (h : p.Open depth) (hm : depthStep? depth m = some depth') :
    (p.within reading m).Open depth' := by
  rw [depthStep?_eq] at hm
  rw [within_eq]
  split_ifs at hm ⊢ with hopens hcloses hzero hcomma
  · obtain rfl := Option.some.inj hm
    exact h.openBracket m.char
  · obtain rfl := Option.some.inj hm
    obtain ⟨outer, rfl⟩ := Nat.exists_eq_succ_of_ne_zero hzero
    exact h.closeBracket m.char
  · obtain rfl := Option.some.inj hm
    exact h.endField
  · obtain rfl := Option.some.inj hm
    exact h.push m.char

/-- **Before the closing bracket of the node no fault is found**, and the depth is kept. -/
theorem Open.run (reading : Reading) (h : p.Open depth) (hms : depthAfter? depth ms = some depth') :
    ∃ p' : Place, ms.foldlM (step reading) p = .ok p' ∧ p'.Open depth' := by
  induction ms generalizing p depth with
  | nil =>
    obtain rfl : depth = depth' := Option.some.inj hms
    exact ⟨p, rfl, h⟩
  | cons m ms ih =>
    obtain ⟨inner, hstep, hrest⟩ := Option.bind_eq_some_iff.mp hms
    obtain ⟨p', hrun, hp'⟩ := ih (h.within hstep) hrest
    exact ⟨p', (foldlM_cons_of_ok (step_of_open h.closed_eq m)).trans hrun, hp'⟩

/-- The closing bracket of the node ends the field in hand. -/
theorem Open.closeNode_eq (reading : Reading) (h : p.Open 0) (hm : m.closes = true) :
    p.within reading m =
      { p.endField reading with done := { (p.endField reading).done with closed := true } } := by
  have hopens : m.opens = false := Marked.opens_eq_false_of_closes hm
  rw [within_eq, if_neg (by simp [hopens]), if_pos hm, Place.closeBracket, h.depth_eq]

theorem Open.shut (reading : Reading) (h : p.Open 0) (hm : m.closes = true) :
    (p.within reading m).Shut "" := by
  have hended : (p.endField reading).Open 0 := h.endField
  rw [h.closeNode_eq reading hm]
  generalize p.endField reading = q at hended ⊢
  exact ⟨hended.depth_eq, rfl, hended.trailing_eq⟩

/-- A payload that ends before the closing bracket of the node. -/
theorem Open.finish_eq (reading : Reading) (h : p.Open depth) :
    p.finish reading .outside =
      if 0 < depth then .error (.unclosed depth) else .ok (p.endField reading).done := by
  rw [finish, h.depth_eq, h.closed_eq]
  rfl

/-- A payload that ends after the closing bracket of the node. -/
theorem Shut.finish_eq (reading : Reading) {trailing : String} (h : p.Shut trailing) :
    p.finish reading .outside = .ok p.done := by
  rw [finish, h.depth_eq, h.closed_eq]
  rfl

/-! ## After the closing bracket of the node -/

variable {trailing : String}

theorem step_of_shut (h : p.done.closed = true) (m : Marked) : step reading p m = p.beyond m := by
  rw [step, if_pos h]

/-- The text after the node, of which blanks at its start are left out. -/
def trailingAfter (trailing : String) (ms : List Marked) : String :=
  trailing ++ String.ofList
    ((if trailing = "" then ms.dropWhile Marked.blank else ms).map Marked.char)

theorem Shut.trail (h : p.Shut trailing) (text : String) :
    Place.Shut { p with done.trailing := text } text :=
  ⟨h.depth_eq, h.closed_eq, rfl⟩

theorem trailingAfter_of_blank (hblank : m.blank = true) (htrailing : trailing = "") :
    trailingAfter trailing (m :: ms) = trailingAfter trailing ms := by
  rw [trailingAfter, trailingAfter, if_pos htrailing, if_pos htrailing,
    List.dropWhile_cons_of_pos hblank]

theorem trailingAfter_of_collected (h : ¬ (m.blank = true ∧ trailing = "")) :
    trailingAfter trailing (m :: ms) = trailingAfter (trailing.push m.char) ms := by
  have hdrop : (if trailing = "" then (m :: ms).dropWhile Marked.blank else m :: ms) = m :: ms := by
    split_ifs with htrailing
    · exact List.dropWhile_cons_of_neg fun hblank => h ⟨hblank, htrailing⟩
    · rfl
  have hpush : trailing.push m.char ≠ "" := by
    intro hempty
    have hlength := congrArg String.toList hempty
    simp at hlength
  apply String.toList_injective
  rw [trailingAfter, trailingAfter, hdrop, if_neg hpush]
  simp

theorem beyond_eq (p : Place) (m : Marked) :
    p.beyond m =
      if m.closes then .error (.extraClosing m.char)
      else if m.blank ∧ p.done.trailing = "" then .ok p
      else .ok { p with done.trailing := p.done.trailing.push m.char } := by
  simp only [beyond, Marked.closes, Marked.blank, Bool.and_eq_true, String.isEmpty_iff]

/-- A closing bracket after that of the node ends the reading, whatever follows. -/
theorem Shut.run_of_extra (h : p.Shut trailing) {extra : Marked}
    (hms : ms.find? Marked.closes = some extra) :
    ms.foldlM (step reading) p = .error (.extraClosing extra.char) := by
  induction ms generalizing p trailing with
  | nil => cases hms
  | cons m ms ih =>
    rw [List.foldlM_cons, step_of_shut h.closed_eq, beyond_eq]
    by_cases hcloses : m.closes
    · rw [List.find?_cons_of_pos hcloses] at hms
      obtain rfl := Option.some.inj hms
      rw [if_pos hcloses]
      rfl
    · rw [List.find?_cons_of_neg hcloses] at hms
      rw [if_neg hcloses]
      split_ifs
      · exact ih h hms
      · exact ih (h.trail _) hms

/-- **After the closing bracket of the node** the text is collected from its first character that is
not blank, and nothing else changes. -/
theorem Shut.run (h : p.Shut trailing) (hms : ms.find? Marked.closes = none) :
    ms.foldlM (step reading) p =
      .ok { p with done.trailing := trailingAfter trailing ms } := by
  induction ms generalizing p trailing with
  | nil =>
    have hnone : trailingAfter trailing [] = p.done.trailing := by
      rw [h.trailing_eq]
      simp [trailingAfter]
    rw [hnone]
    rfl
  | cons m ms ih =>
    obtain ⟨hcloses, hrest⟩ := List.forall_mem_cons.mp (List.find?_eq_none.mp hms)
    have hnone : ms.find? Marked.closes = none := List.find?_eq_none.mpr hrest
    rw [List.foldlM_cons, step_of_shut h.closed_eq, beyond_eq, if_neg hcloses, h.trailing_eq]
    split_ifs with hblank
    · rw [trailingAfter_of_blank hblank.1 hblank.2]
      exact ih h hnone
    · rw [trailingAfter_of_collected hblank]
      exact ih (h.trail _) hnone

end Place

/-! ## Whole payloads -/

section Outcome

variable {reading : Reading} {content : String} {ms : List Marked} {last : Literal}

theorem scan_eq (reading : Reading) (h : Spans content.toList ms last) :
    scan reading content =
      ms.foldlM (Place.step reading) {} >>= fun p => p.finish reading last := by
  rw [scan, h.mark_eq]

/-- The scanner reaches the text after the closing bracket of the node. -/
theorem exists_shut (reading : Reading) {before after : List Marked} {close : Marked}
    (h : NodeClose ms before close after) :
    ∃ p : Place, p.Shut "" ∧
      ms.foldlM (Place.step reading) {} = after.foldlM (Place.step reading) p := by
  obtain ⟨rfl, hcloses, hbefore⟩ := nodeClose_iff.mp h
  obtain ⟨p, hrun, hp⟩ := Place.Open.start.run reading hbefore
  refine ⟨p.within reading close, hp.shut reading hcloses, ?_⟩
  rw [foldlM_append_of_ok hrun, foldlM_cons_of_ok (Place.step_of_open hp.closed_eq close)]

/-- The scanner finds the closing bracket after that of the node, whatever follows it. -/
theorem scan_of_extraClose (reading : Reading) (h : Spans content.toList ms last) {extra : Marked}
    (hextra : ExtraClose ms extra) : scan reading content = .error (.extraClosing extra.char) := by
  obtain ⟨before, close, after, hclose, hafter⟩ := hextra
  obtain ⟨p, hp, hrun⟩ := exists_shut reading hclose
  rw [scan_eq reading h, hrun, hp.run_of_extra hafter]
  rfl

/-- Without such a bracket the scanner reaches the end of the payload. -/
theorem exists_run (reading : Reading) (h : ∀ extra, ¬ ExtraClose ms extra) :
    ∃ p : Place, ms.foldlM (Place.step reading) {} = .ok p ∧
      (∀ before close after, NodeClose ms before close after →
        p.Shut (String.ofList ((after.dropWhile Marked.blank).map Marked.char))) ∧
      (¬ ClosesNode ms → ∃ depth : Nat, depthOf ms = depth ∧ p.Open depth) := by
  by_cases hcloses : ClosesNode ms
  · obtain ⟨before, close, after, hclose⟩ := hcloses
    obtain ⟨p, hp, hrun⟩ := exists_shut reading hclose
    have hafter := hclose.find?_eq_none h
    refine ⟨_, hrun.trans (hp.run hafter), fun before' close' after' hclose' => ?_,
      fun hopen => absurd ⟨before, close, after, hclose⟩ hopen⟩
    obtain ⟨-, -, hsame⟩ := hclose.unique hclose'
    have htrailing : Place.trailingAfter "" after =
        String.ofList ((after.dropWhile Marked.blank).map Marked.char) := by
      simp [Place.trailingAfter]
    rw [hsame, ← htrailing]
    exact hp.trail _
  · obtain ⟨depth, hdepth, hlevel⟩ := exists_depthAfter?_of_open hcloses
    obtain ⟨p, hrun, hp⟩ := Place.Open.start.run reading hdepth
    exact ⟨p, hrun, fun before close after hclose => absurd ⟨before, close, after, hclose⟩ hcloses,
      fun _ => ⟨depth, hlevel, hp⟩⟩

/-- **The outcome of every payload**, whatever the node type. A closing bracket after the one that
closes the node is reported, the first one if there are several, also where a literal span is left
open after it. Else a literal span that is open at the end is reported, else the brackets that are
still open; else the payload is read, and the node is closed if its closing bracket is there. -/
theorem scan_outcome (nodeType content : String) :
    ∃ ms last, Spans content.toList ms last ∧
      (∀ ms' last', Spans content.toList ms' last' → ms' = ms ∧ last' = last) ∧
      (∀ extra, ExtraClose ms extra →
        scan (.ofType nodeType) content = .error (.extraClosing extra.char)) ∧
      ((∀ extra, ¬ ExtraClose ms extra) →
        (∀ escaped, last = .quote escaped →
          scan (.ofType nodeType) content = .error .unterminatedString) ∧
        (last = .comment → scan (.ofType nodeType) content = .error .unterminatedComment) ∧
        (last = .outside →
          (∀ before close after, NodeClose ms before close after →
            ∃ s, scan (.ofType nodeType) content = .ok s ∧ s.closed = true ∧
              s.trailing = String.ofList ((after.dropWhile Marked.blank).map Marked.char)) ∧
          (¬ ClosesNode ms → ∃ depth : Nat, depthOf ms = depth ∧
            (0 < depth → scan (.ofType nodeType) content = .error (.unclosed depth)) ∧
            (depth = 0 →
              ∃ s, scan (.ofType nodeType) content = .ok s ∧ s.closed = false ∧
                s.trailing = "")))) := by
  obtain ⟨ms, last, hspans⟩ := exists_spans content.toList
  generalize Reading.ofType nodeType = reading
  refine ⟨ms, last, hspans, fun ms' last' h => ?_,
    fun extra => scan_of_extraClose reading hspans, fun hnone => ?_⟩
  · exact Prod.mk.inj (h.mark_eq.symm.trans hspans.mark_eq)
  · obtain ⟨p, hrun, hshut, hopen⟩ := exists_run reading hnone
    have hscan : scan reading content = p.finish reading last := by
      rw [scan_eq reading hspans, hrun]
      rfl
    rw [hscan]
    refine ⟨?_, ?_, ?_⟩
    · rintro escaped rfl
      rfl
    · rintro rfl
      rfl
    · rintro rfl
      refine ⟨fun before close after hclose => ?_, fun hcloses => ?_⟩
      · have hp := hshut before close after hclose
        exact ⟨p.done, hp.finish_eq reading, hp.closed_eq, hp.trailing_eq⟩
      · obtain ⟨depth, hdepth, hp⟩ := hopen hcloses
        refine ⟨depth, hdepth, fun hpos => ?_, ?_⟩
        · rw [hp.finish_eq, if_pos hpos]
        · rintro rfl
          have hended : (p.endField reading).Open 0 := hp.endField
          exact ⟨(p.endField reading).done, hp.finish_eq reading, hended.closed_eq,
            hended.trailing_eq⟩

/-- The bracket is reported, though a string is open at the end. -/
example : scan .pairs "a(b) ) [c ) '" = .error (.extraClosing ')') := by rfl

end Outcome

end FlowDoc.Payload
