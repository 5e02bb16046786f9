import Mathlib.Data.List.Forall2

/-!
# Traversals that may fail

A list is traversed by a step that may fail, and the first failure ends the traversal. What a
traversal yields is then told by the steps one by one: all of them succeed, or there is a first one
that does not.

## Main results

* `mapM_eq_ok_iff`, `mapM_eq_error_iff`: the outcomes of a traversal
* `exists_split_left_of_forall₂`, `exists_split_right_of_forall₂`: lists related element by element
  are divided alike
* `foldlM_cons_of_ok`, `foldlM_cons_of_error`: the first step of a traversal that threads a state
* `foldlM_invariant`: what such a traversal keeps
-/

namespace FlowDoc

universe u v

variable {ε : Type u} {α β : Type v}

theorem bind_eq_ok_iff {x : Except ε α} {f : α → Except ε β} {b : β} :
    x >>= f = .ok b ↔ ∃ a, x = .ok a ∧ f a = .ok b := by
  cases x with
  | error e => exact ⟨fun h => (nomatch h), fun ⟨_, h, _⟩ => (nomatch h)⟩
  | ok a => exact ⟨fun h => ⟨a, rfl, h⟩, fun ⟨_, ha, h⟩ => by cases ha; exact h⟩

theorem bind_eq_error_iff {x : Except ε α} {f : α → Except ε β} {e : ε} :
    x >>= f = .error e ↔ x = .error e ∨ ∃ a, x = .ok a ∧ f a = .error e := by
  cases x with
  | error e' =>
    refine ⟨fun h => .inl ?_, ?_⟩
    · cases h; rfl
    · rintro (h | ⟨a, h, _⟩)
      · cases h; rfl
      · cases h
  | ok a =>
    refine ⟨fun h => .inr ⟨a, rfl, h⟩, ?_⟩
    rintro (h | ⟨a', h, hf⟩)
    · cases h
    · cases h; exact hf

section MapM

variable {f : α → Except ε β}

/-- A traversal succeeds when all its steps do, with their results in order. -/
theorem mapM_eq_ok_iff {xs : List α} {ys : List β} :
    xs.mapM f = .ok ys ↔ List.Forall₂ (fun x y => f x = .ok y) xs ys := by
  induction xs generalizing ys with
  | nil =>
    rw [List.mapM_nil, List.forall₂_nil_left_iff]
    exact ⟨fun h => by cases h; rfl, fun h => by rw [h]; rfl⟩
  | cons x xs ih =>
    rw [List.mapM_cons, bind_eq_ok_iff, List.forall₂_cons_left_iff]
    refine exists_congr fun y => ?_
    constructor
    · rintro ⟨hy, h⟩
      obtain ⟨ys', hys', h⟩ := bind_eq_ok_iff.mp h
      cases h
      exact ⟨ys', hy, ih.mp hys', rfl⟩
    · rintro ⟨ys', hy, hys', rfl⟩
      exact ⟨hy, bind_eq_ok_iff.mpr ⟨ys', ih.mpr hys', rfl⟩⟩

/-- A traversal fails as the first step that fails. -/
theorem mapM_eq_error_iff {xs : List α} {e : ε} :
    xs.mapM f = .error e ↔
      ∃ before x after, xs = before ++ x :: after ∧ (∀ b ∈ before, ∃ y, f b = .ok y) ∧
        f x = .error e := by
  induction xs with
  | nil =>
    rw [List.mapM_nil]
    exact ⟨fun h => (nomatch h), fun ⟨before, x, after, h, _⟩ => absurd h (by simp)⟩
  | cons x xs ih =>
    rw [List.mapM_cons, bind_eq_error_iff]
    constructor
    · rintro (hx | ⟨y, hy, h⟩)
      · exact ⟨[], x, xs, rfl, by simp, hx⟩
      · rcases bind_eq_error_iff.mp h with h | ⟨ys, -, h⟩
        · obtain ⟨before, x', after, rfl, hbefore, hx'⟩ := ih.mp h
          exact ⟨x :: before, x', after, rfl, List.forall_mem_cons.mpr ⟨⟨y, hy⟩, hbefore⟩, hx'⟩
        · cases h
    · rintro ⟨before, x', after, heq, hbefore, hx'⟩
      cases before with
      | nil =>
        obtain ⟨rfl, rfl⟩ := List.cons.inj heq
        exact .inl hx'
      | cons b before =>
        obtain ⟨rfl, rfl⟩ := List.cons.inj heq
        obtain ⟨⟨y, hy⟩, hrest⟩ := List.forall_mem_cons.mp hbefore
        have hlater := ih.mpr ⟨before, x', after, rfl, hrest, hx'⟩
        exact .inr ⟨y, hy, bind_eq_error_iff.mpr (.inl hlater)⟩

end MapM

section Forall₂

variable {R : α → β → Prop}

theorem exists_left_of_forall₂ {xs : List α} {ys : List β} (h : List.Forall₂ R xs ys) {y : β}
    (hy : y ∈ ys) : ∃ x ∈ xs, R x y := by
  induction h with
  | nil => cases hy
  | cons hxy _ ih =>
    rcases List.mem_cons.mp hy with rfl | hy
    · exact ⟨_, List.mem_cons_self, hxy⟩
    · obtain ⟨x, hx, hxy⟩ := ih hy
      exact ⟨x, List.mem_cons_of_mem _ hx, hxy⟩

theorem exists_right_of_forall₂ {xs : List α} {ys : List β} (h : List.Forall₂ R xs ys) {x : α}
    (hx : x ∈ xs) : ∃ y ∈ ys, R x y :=
  exists_left_of_forall₂ h.flip hx

theorem exists_forall₂ {xs : List α} (h : ∀ x ∈ xs, ∃ y, R x y) : ∃ ys, List.Forall₂ R xs ys := by
  induction xs with
  | nil => exact ⟨[], .nil⟩
  | cons x xs ih =>
    obtain ⟨hx, hxs⟩ := List.forall_mem_cons.mp h
    obtain ⟨y, hy⟩ := hx
    obtain ⟨ys, hys⟩ := ih hxs
    exact ⟨y :: ys, .cons hy hys⟩

theorem exists_getElem?_of_forall₂ {xs : List α} {ys : List β} (h : List.Forall₂ R xs ys) {k : Nat}
    {x : α} (hx : xs[k]? = some x) : ∃ y, ys[k]? = some y ∧ R x y := by
  induction h generalizing k with
  | nil => cases hx
  | cons hxy _ ih =>
    cases k with
    | zero =>
      obtain rfl := Option.some.inj hx
      exact ⟨_, rfl, hxy⟩
    | succ k => exact ih hx

theorem exists_split_left_of_forall₂ {xs : List α} {before after : List β} {y : β}
    (h : List.Forall₂ R xs (before ++ y :: after)) :
    ∃ before' x after', xs = before' ++ x :: after' ∧ List.Forall₂ R before' before ∧ R x y := by
  induction before generalizing xs with
  | nil =>
    obtain ⟨x, after', hxy, -, rfl⟩ := List.forall₂_cons_right_iff.mp h
    exact ⟨[], x, after', rfl, .nil, hxy⟩
  | cons b before ih =>
    obtain ⟨b', xs', hb, hrest, rfl⟩ := List.forall₂_cons_right_iff.mp h
    obtain ⟨before', x, after', rfl, hbefore, hxy⟩ := ih hrest
    exact ⟨b' :: before', x, after', rfl, .cons hb hbefore, hxy⟩

theorem exists_split_right_of_forall₂ {before after : List α} {x : α} {ys : List β}
    (h : List.Forall₂ R (before ++ x :: after) ys) :
    ∃ before' y after', ys = before' ++ y :: after' ∧ List.Forall₂ R before before' ∧ R x y := by
  obtain ⟨before', y, after', rfl, hbefore, hxy⟩ := exists_split_left_of_forall₂ h.flip
  exact ⟨before', y, after', rfl, hbefore.flip, hxy⟩

end Forall₂

section FoldlM

variable {f : β → α → Except ε β}

theorem foldlM_cons_of_ok {x : α} {xs : List α} {s s' : β} (h : f s x = .ok s') :
    (x :: xs).foldlM f s = xs.foldlM f s' := by
  rw [List.foldlM_cons, h]
  rfl

theorem foldlM_cons_of_error {x : α} {xs : List α} {s : β} {e : ε} (h : f s x = .error e) :
    (x :: xs).foldlM f s = .error e := by
  rw [List.foldlM_cons, h]
  rfl

theorem foldlM_append_of_ok {xs ys : List α} {s s' : β} (h : xs.foldlM f s = .ok s') :
    (xs ++ ys).foldlM f s = ys.foldlM f s' := by
  rw [List.foldlM_append, h]
  rfl

/-- What every step keeps, a traversal keeps. -/
theorem foldlM_invariant {P : β → Prop} {xs : List α} {s s' : β}
    (hstep : ∀ t t', ∀ x ∈ xs, P t → f t x = .ok t' → P t') (h : xs.foldlM f s = .ok s')
    (hs : P s) : P s' := by
  induction xs generalizing s with
  | nil =>
    obtain rfl := Except.ok.inj h
    exact hs
  | cons x xs ih =>
    rw [List.foldlM_cons] at h
    obtain ⟨t, ht, hrest⟩ := bind_eq_ok_iff.mp h
    refine ih (fun t t' y hy => hstep t t' y (List.mem_cons_of_mem _ hy)) hrest ?_
    exact hstep s t x List.mem_cons_self hs ht

end FoldlM

end FlowDoc
