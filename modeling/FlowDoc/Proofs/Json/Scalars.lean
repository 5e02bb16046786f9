import FlowDoc.Json.Printer
import FlowDoc.Json.Reader
import FlowDoc.Proofs.Traversal

/-!
# Strings and numbers are read back

A string literal and the digits of a number of 64 bits are read back as what was written, whatever
follows them, as long as the number does not go on there. A double is never too small for such a
number, and none of them is written with a zero in front.

## Main definitions

* `EndsNumber`: the texts before which a number ends

## Main results

* `readEscape_of_escapeChar`: an escaped character is read back
* `readString_escaped`: so is a string
* `tooLarge_natural`: a double holds every number of 64 bits
* `readNumber_toDigits`: the digits of a number are read back
-/

namespace FlowDoc

namespace Json

/-! ## Strings -/

theorem length_le_byteLength (cs : List Char) : cs.length ≤ byteLength cs := by
  induction cs with
  | nil => exact Nat.le_refl 0
  | cons c cs ih =>
    have hpos := c.utf8Size_pos
    rw [List.length_cons, byteLength]
    omega

/-- The number of a control character is read back from its two hexadecimal digits. -/
theorem hexNumber?_control :
    ∀ n < 0x20, Text.hexNumber? ['0', '0', Text.hexDigit (n / 16), Text.hexDigit (n % 16)] =
      some n := by
  decide

theorem readHexUnit_control {n : Nat} (h : n < 0x20) (rest : List Char) :
    readHexUnit ('0' :: '0' :: Text.hexDigit (n / 16) :: Text.hexDigit (n % 16) :: rest) =
      .ok (n, rest) := by
  have hlength := length_le_byteLength
    ('0' :: '0' :: Text.hexDigit (n / 16) :: Text.hexDigit (n % 16) :: rest)
  have hlong : 4 ≤ byteLength
      ('0' :: '0' :: Text.hexDigit (n / 16) :: Text.hexDigit (n % 16) :: rest) := by
    simp only [List.length_cons] at hlength
    omega
  have htake : ('0' :: '0' :: Text.hexDigit (n / 16) :: Text.hexDigit (n % 16) :: rest).take 4 =
      ['0', '0', Text.hexDigit (n / 16), Text.hexDigit (n % 16)] := rfl
  rw [readHexUnit, if_neg (Nat.not_lt.mpr hlong), htake, hexNumber?_control n h]
  rfl

/-- A character of a string literal stands for itself, or an escape that is read as it does. -/
theorem readEscape_of_escapeChar (c : Char) :
    (escapeChar c = [c] ∧ c ≠ '\"' ∧ c ≠ '\\' ∧ ¬ c.toNat < 0x20) ∨
      ∃ e, escapeChar c = '\\' :: e ∧ ∀ rest, readEscape .keep (e ++ rest) = .ok (c, rest) := by
  unfold escapeChar
  split_ifs with hquote hbackslash hb ht hn hf hr hcontrol
  · exact .inr ⟨_, rfl, fun rest => by subst hquote; rfl⟩
  · exact .inr ⟨_, rfl, fun rest => by subst hbackslash; rfl⟩
  · exact .inr ⟨_, rfl, fun rest => by subst hb; rfl⟩
  · exact .inr ⟨_, rfl, fun rest => by subst ht; rfl⟩
  · exact .inr ⟨_, rfl, fun rest => by subst hn; rfl⟩
  · exact .inr ⟨_, rfl, fun rest => by subst hf; rfl⟩
  · exact .inr ⟨_, rfl, fun rest => by subst hr; rfl⟩
  · -- The other control characters are written by their number, which is no surrogate.
    refine .inr ⟨_, rfl, fun rest => ?_⟩
    have hlow : isLowSurrogate c.toNat = false := by
      rw [isLowSurrogate, Bool.and_eq_false_iff]
      exact .inl (decide_eq_false (by omega))
    have hhigh : isHighSurrogate c.toNat = false := by
      rw [isHighSurrogate, Bool.and_eq_false_iff]
      exact .inl (decide_eq_false (by omega))
    have hunit := readHexUnit_control hcontrol rest
    simp only [List.cons_append, List.nil_append, readEscape, hunit]
    simp [bind, Except.bind, Pure.pure, Except.pure, hlow, hhigh]
  · exact .inl ⟨rfl, hquote, hbackslash, hcontrol⟩

theorem readChars_escaped {fuel : Nat} {cs : List Char} (h : cs.length < fuel)
    (rest : List Char) :
    readChars .keep fuel (cs.flatMap escapeChar ++ '\"' :: rest) = .ok (cs, rest) := by
  induction cs generalizing fuel with
  | nil =>
    obtain ⟨fuel, rfl⟩ := Nat.exists_eq_succ_of_ne_zero (Nat.ne_of_gt h)
    rfl
  | cons c cs ih =>
    obtain ⟨fuel, rfl⟩ := Nat.exists_eq_succ_of_ne_zero (Nat.ne_of_gt (Nat.zero_lt_of_lt h))
    have hrest := ih (Nat.lt_of_succ_lt_succ h)
    rw [List.flatMap_cons, List.append_assoc]
    rcases readEscape_of_escapeChar c with ⟨hc, hquote, hbackslash, hcontrol⟩ | ⟨e, hc, he⟩
    · rw [hc, List.singleton_append, readChars, if_neg hcontrol]
      · exact bind_eq_ok_iff.mpr ⟨_, hrest, rfl⟩
      · exact hquote
      · exact hbackslash
    · rw [hc, List.cons_append, readChars]
      exact bind_eq_ok_iff.mpr ⟨_, he _, bind_eq_ok_iff.mpr ⟨_, hrest, rfl⟩⟩

/-- **A string literal is read back.** -/
theorem readString_escaped (s : String) (rest : List Char) :
    readString .keep (s.toList.flatMap escapeChar ++ '\"' :: rest) = .ok (s, rest) := by
  -- No character is written with less than one.
  have hlength : ∀ cs : List Char, cs.length ≤ (cs.flatMap escapeChar).length := by
    intro cs
    induction cs with
    | nil => exact Nat.le_refl 0
    | cons c cs ih =>
      have hpos : 1 ≤ (escapeChar c).length := by
        rcases readEscape_of_escapeChar c with ⟨hc, -⟩ | ⟨e, hc, -⟩
        · exact Nat.le_of_eq (by rw [hc, List.length_singleton])
        · rw [hc, List.length_cons]
          exact Nat.succ_pos _
      rw [List.length_cons, List.flatMap_cons, List.length_append]
      omega
  have hfuel : s.toList.length < (s.toList.flatMap escapeChar ++ '\"' :: rest).length + 1 := by
    have hs := hlength s.toList
    rw [List.length_append]
    omega
  rw [readString]
  refine bind_eq_ok_iff.mpr ⟨_, readChars_escaped hfuel rest, ?_⟩
  show Except.ok (String.ofList s.toList, rest) = _
  rw [String.ofList_toList]

/-! ## Numbers -/

/-- A number that stands directly before this text ends there. -/
def EndsNumber (rest : List Char) : Prop :=
  ∀ c, rest.head? = some c → c.isDigit = false ∧ c ∉ ['.', 'e', 'E']

theorem digitsValue_eq (ds : List Char) : Text.digitsValue ds = Nat.ofDigitChars 10 ds 0 := rfl

theorem le_ofDigitChars (n : Nat) (ds : List Char) : n ≤ Nat.ofDigitChars 10 ds n := by
  induction ds generalizing n with
  | nil => exact Nat.le_refl n
  | cons d ds ih =>
    rw [Nat.ofDigitChars_cons]
    exact Nat.le_trans (by omega) (ih _)

/-- No number but zero is written with a zero in front. -/
theorem head?_toDigits {n : Nat} (h : n ≠ 0) : (Nat.toDigits 10 n).head? ≠ some '0' := by
  induction n using Nat.strongRecOn with
  | ind n ih =>
    rw [Nat.toDigits_eq_if (by decide)]
    split_ifs with hsmall
    · have hdigit : ∀ n < 10, n ≠ 0 → n.digitChar ≠ '0' := by decide
      rw [List.head?_cons]
      exact fun hzero => hdigit n hsmall h (Option.some.inj hzero)
    · rw [List.head?_append_of_ne_nil _ Nat.toDigits_ne_nil]
      exact ih (n / 10) (by omega) (by omega)

namespace Magnitude

/-- Digits that fit a word count in the coefficient. -/
theorem addWhole_eq {n : Nat} {ds : List Char} (h : Nat.ofDigitChars 10 ds n < wordBound) :
    addWhole ⟨n, 0⟩ ds = ⟨Nat.ofDigitChars 10 ds n, 0⟩ := by
  induction ds generalizing n with
  | nil => rfl
  | cons d ds ih =>
    rw [Nat.ofDigitChars_cons] at h ⊢
    have hfits : 10 * n + Text.digitValue d < wordBound :=
      Nat.lt_of_le_of_lt (le_ofDigitChars _ ds) h
    rw [addWhole]
    simp only [if_pos hfits]
    exact ih h

theorem nearestDouble_le (n : Nat) : nearestDouble n ≤ 2 * n + 1 := by
  have hunit : Nat.pow 2 (n.log2 - 52) ≤ n + 1 := by
    by_cases hn : n = 0
    · subst hn
      decide
    · calc
        Nat.pow 2 (n.log2 - 52) ≤ Nat.pow 2 n.log2 :=
          Nat.pow_le_pow_right Nat.two_pos (Nat.sub_le _ _)
        _ ≤ n := Nat.log2_self_le hn
        _ ≤ n + 1 := Nat.le_succ n
  unfold nearestDouble
  extract_lets unit kept dropped
  have hkept : kept * unit ≤ n := Nat.div_mul_le_self n unit
  split_ifs
  · calc
      (kept + 1) * unit = kept * unit + unit := Nat.succ_mul kept unit
      _ ≤ n + (n + 1) := Nat.add_le_add hkept hunit
      _ = 2 * n + 1 := by omega
  · omega

/-- A double holds every number of 64 bits. -/
theorem tooLarge_natural {n : Nat} (h : n < wordBound) : tooLarge ⟨n, 0⟩ = false := by
  have hbound : 2 * wordBound < doubleOverflow := by decide +kernel
  have hnear := nearestDouble_le n
  have hone : nearestDouble (Nat.pow 10 (0 : Int).toNat) = 1 := by decide
  have hlow : ¬ (0 : Int) < 0 := by decide
  have hhigh : (0 : Int) ≤ greatestPower := by decide
  simp only [tooLarge, if_neg hlow, if_pos hhigh, hone, Nat.mul_one, decide_eq_false_iff_not]
  omega

end Magnitude

section Number

variable {rest : List Char}

theorem dropWhile_isDigit (h : EndsNumber rest) : rest.dropWhile Char.isDigit = rest := by
  cases rest with
  | nil => rfl
  | cons c cs => exact List.dropWhile_cons_of_neg (by rw [(h c rfl).1]; exact Bool.false_ne_true)

theorem takeWhile_isDigit (h : EndsNumber rest) : rest.takeWhile Char.isDigit = [] := by
  cases rest with
  | nil => rfl
  | cons c cs => exact List.takeWhile_cons_of_neg (by rw [(h c rfl).1]; exact Bool.false_ne_true)

theorem readWhole_toDigits (n : Nat) (h : EndsNumber rest) :
    readWhole .keep (Nat.toDigits 10 n ++ rest) = .ok (Nat.toDigits 10 n, rest) := by
  have hdigits : ∀ c ∈ Nat.toDigits 10 n, c.isDigit = true := fun c =>
    Nat.isDigit_of_mem_toDigits (by decide) (Nat.le_refl 10)
  have htake : (Nat.toDigits 10 n ++ rest).takeWhile Char.isDigit = Nat.toDigits 10 n := by
    rw [List.takeWhile_append_of_pos hdigits, takeWhile_isDigit h, List.append_nil]
  have hdrop : (Nat.toDigits 10 n ++ rest).dropWhile Char.isDigit = rest := by
    rw [List.dropWhile_append_of_pos hdigits, dropWhile_isDigit h]
  by_cases hn : n = 0
  · -- A zero stands alone.
    subst hn
    cases rest with
    | nil => rfl
    | cons c cs =>
      show (if c.isDigit then _ else _) = _
      rw [(h c rfl).1]
      rfl
  · have hhead := head?_toDigits hn
    obtain ⟨d, ds, hds⟩ := List.exists_cons_of_ne_nil (Nat.toDigits_ne_nil (b := 10) (n := n))
    have hd : d.isDigit = true := hdigits d (by rw [hds]; exact List.mem_cons_self)
    have hzero : d ≠ '0' := by
      rintro rfl
      rw [hds] at hhead
      exact hhead rfl
    rw [hds, List.cons_append] at htake hdrop ⊢
    rw [readWhole, if_pos hd, htake, hdrop]
    exact fun _ _ hzero' _ => hzero hzero'

theorem readFraction_of_ends (m : Magnitude) (h : EndsNumber rest) :
    readFraction .keep m rest = .ok (m, rest) := by
  unfold readFraction
  split
  · have hpoint := (h '.' rfl).2
    simp at hpoint
  · rfl

theorem readExponent_of_ends (m : Magnitude) (h : EndsNumber rest) :
    readExponent .keep m rest = .ok (m, rest) := by
  cases rest with
  | nil => rfl
  | cons c cs =>
    have hc := (h c rfl).2
    simp only [List.mem_cons, List.not_mem_nil, or_false, not_or] at hc
    rw [readExponent.eq_def]
    exact if_neg (not_or.mpr hc.2)

/-- **The digits of a number of 64 bits are read back.** -/
theorem readNumber_toDigits {n : Nat} (hn : n < wordBound) (h : EndsNumber rest) :
    readNumber .keep (Nat.toDigits 10 n ++ rest) = .ok (.natural n, rest) := by
  have hvalue : Nat.ofDigitChars 10 (Nat.toDigits 10 n) 0 = n := Nat.ofDigitChars_ten_toDigits
  have hwhole : Magnitude.addWhole {} (Nat.toDigits 10 n) = ⟨n, 0⟩ := by
    have hadd : Magnitude.addWhole ⟨0, 0⟩ (Nat.toDigits 10 n) = _ :=
      Magnitude.addWhole_eq (by rwa [hvalue])
    rwa [hvalue] at hadd
  have hsign : ∀ cs, Nat.toDigits 10 n ++ rest ≠ '-' :: cs := by
    intro cs hcs
    obtain ⟨d, ds, hds⟩ := List.exists_cons_of_ne_nil (Nat.toDigits_ne_nil (b := 10) (n := n))
    rw [hds] at hcs
    have hd : d ∈ Nat.toDigits 10 n := by rw [hds]; exact List.mem_cons_self
    have hdigit := Nat.isDigit_of_mem_toDigits (by decide) (Nat.le_refl 10) hd
    rw [(List.cons.inj hcs).1] at hdigit
    exact absurd hdigit (by decide)
  -- The digits are no sign, and nothing of a fraction or an exponent follows them.
  have hlarge : ¬ (Purpose.keep = .keep ∧ Magnitude.tooLarge ⟨n, 0⟩ = true) := by
    rw [Magnitude.tooLarge_natural hn]
    exact fun hlarge => Bool.false_ne_true hlarge.2
  have hnatural : rest.length = rest.length ∧ (!false) = true ∧
      Text.digitsValue (Nat.toDigits 10 n) < wordBound := by
    rw [digitsValue_eq, hvalue]
    exact ⟨rfl, rfl, hn⟩
  rw [readNumber]
  · refine bind_eq_ok_iff.mpr ⟨_, readWhole_toDigits n h, ?_⟩
    dsimp only
    rw [hwhole]
    refine bind_eq_ok_iff.mpr ⟨_, readFraction_of_ends _ h, ?_⟩
    refine bind_eq_ok_iff.mpr ⟨_, readExponent_of_ends _ h, ?_⟩
    dsimp only
    rw [if_neg hlarge, if_pos hnatural, digitsValue_eq, hvalue]
    rfl
  · exact hsign

end Number

end Json

end FlowDoc
