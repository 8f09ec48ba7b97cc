/-
  What the operators compute, in exact integers.

  1. **Reduction** — a sum, a product, a power, a quotient or a shift is the exact integer REDUCED
     to 64 bits: taken modulo `2 ^ 64` in the range of signed words (`Int.bmod`).

  2. **Powers** — the crux: repeated squaring multiplies words, and reducing commutes with that, so
     that it gives the exact power reduced, however large the exponent (`power_ofInt`).

  3. **Bits** — bit `i` of an integer in two's complement is bit `i` of its word, and its sign
     beyond the word (`testBit_toInt`), so what is done bit by bit to words is done to integers.

  4. **Specification** (`CombinesExactly`) — one field for what each operator gives, and one for
     exactly when it fails.
-/
import Mathlib
import Tao.Operator

namespace Tao

variable {l r n : Int64} {i : Int} {operator : Kind}

/-! ## What operators do to numbers -/

/-- The operator gives the integer `i`, reduced to 64 bits in two's complement. -/
def GivesReduced (operator : Kind) (l r : Int64) (i : Int) : Prop :=
  ∃ n, applyBinary operator (.number l) (.number r) = .ok (.number n) ∧ n.toInt = i.bmod (2 ^ 64)

/-- The operator acts on each bit, those that repeat the sign included. -/
def ActsOnBits (operator : Kind) (l r : Int64) (f : Bool → Bool → Bool) : Prop :=
  ∃ n, applyBinary operator (.number l) (.number r) = .ok (.number n) ∧
    ∀ i, n.toInt.testBit i = f (l.toInt.testBit i) (r.toInt.testBit i)

/-- The operator tells whether something is so. -/
def Decides (operator : Kind) (l r : Int64) (p : Prop) : Prop :=
  ∃ b, applyBinary operator (.number l) (.number r) = .ok (.boolean b) ∧ (b = true ↔ p)

/-- The operator fails with an error of types. -/
def FailsByType (operator : Kind) (l r : Int64) : Prop :=
  ∃ e, applyBinary operator (.number l) (.number r) = .error e ∧ e.category = .badType

/-- What is left of `l` when it is divided by `r`, and how often `r` goes into it. -/
structure Divides (l r quotient remainder : Int64) : Prop where
  truncated : quotient.toInt = (l.toInt.tdiv r.toInt).bmod (2 ^ 64)
  whole : quotient.toInt * r.toInt + remainder.toInt ≡ l.toInt [ZMOD 2 ^ 64]
  smaller : |remainder.toInt| < |r.toInt|
  signed : remainder.toInt = 0 ∨ remainder.toInt.sign = l.toInt.sign

/-- The operators on numbers are those of exact integers, reduced. -/
structure CombinesExactly (l r : Int64) : Prop where
  plus : GivesReduced .plus l r (l.toInt + r.toInt)
  minus : GivesReduced .minus l r (l.toInt - r.toInt)
  star : GivesReduced .star l r (l.toInt * r.toInt)
  starStar : 0 ≤ r.toInt → r.toInt ≤ 2 ^ 32 - 1 →
    GivesReduced .starStar l r (l.toInt ^ r.toInt.toNat)
  starStar_fails : FailsByType .starStar l r ↔ ¬ (0 ≤ r.toInt ∧ r.toInt ≤ 2 ^ 32 - 1)
  divides : r.toInt ≠ 0 → ∃ quotient remainder,
    applyBinary .slash (.number l) (.number r) = .ok (.number quotient) ∧
    applyBinary .percent (.number l) (.number r) = .ok (.number remainder) ∧
    Divides l r quotient remainder
  /-- The one quotient that is no 64-bit integer. -/
  slash_min : l = .minValue → r = -1 →
    applyBinary .slash (.number l) (.number r) = .ok (.number .minValue) ∧
    applyBinary .percent (.number l) (.number r) = .ok (.number 0)
  slash_fails : FailsByType .slash l r ↔ r.toInt = 0
  percent_fails : FailsByType .percent l r ↔ r.toInt = 0
  leftShift : 0 ≤ r.toInt → GivesReduced .leftShift l r (l.toInt * 2 ^ r.toInt.toNat)
  leftShift_fails : FailsByType .leftShift l r ↔ r.toInt < 0
  /-- The floor of the quotient, which needs no reduction. -/
  rightShift : 0 ≤ r.toInt → ∃ n,
    applyBinary .rightShift (.number l) (.number r) = .ok (.number n) ∧
    n.toInt = l.toInt.fdiv (2 ^ r.toInt.toNat)
  rightShift_fails : FailsByType .rightShift l r ↔ r.toInt < 0
  bitAnd : ActsOnBits .bitAnd l r (· && ·)
  bitOr : ActsOnBits .bitOr l r (· || ·)
  bitXor : ActsOnBits .bitXor l r (· ^^ ·)
  bitAndNot : ActsOnBits .bitAndNot l r fun a b => a && !b
  equalEqual : Decides .equalEqual l r (l.toInt = r.toInt)
  bangEqual : Decides .bangEqual l r (l.toInt ≠ r.toInt)
  less : Decides .less l r (l.toInt < r.toInt)
  lessEqual : Decides .lessEqual l r (l.toInt ≤ r.toInt)
  greater : Decides .greater l r (r.toInt < l.toInt)
  greaterEqual : Decides .greaterEqual l r (r.toInt ≤ l.toInt)
  /-- Of whatever kind, an operator gives a value, fails as above or is none on numbers. -/
  ends : ∀ operator, (∃ value, applyBinary operator (.number l) (.number r) = .ok value) ∨
    FailsByType operator l r ∨
    applyBinary operator (.number l) (.number r) =
      .error (.unsupportedOperator operator .number .number)

/-! ## Words and integers -/

/-- Only the word zero stands for zero. -/
theorem toInt_eq_zero_iff : n.toInt = 0 ↔ n = 0 := by
  rw [← Int64.toInt_zero]
  exact Int64.toInt_inj

/-- Words compare with zero as their integers do. -/
theorem neg_iff_toInt : n < 0 ↔ n.toInt < 0 := Int64.lt_iff_toInt_lt

/-- Are these fewer places than a word has? -/
theorem lt_width_iff_toInt : n < 64 ↔ n.toInt < 64 := Int64.lt_iff_toInt_lt

/-! ## Powers -/

/-- Repeated squaring of a reduced integer gives its power, reduced.  Induction on the exponent,
    which is halved each time. -/
theorem power_ofInt (i : Int) (n : Nat) : power (Int64.ofInt i) n = Int64.ofInt (i ^ n) := by
  induction n using Nat.strongRecOn generalizing i with
  | ind n ih =>
    rw [power]
    split
    case isTrue hzero =>
      rw [hzero, pow_zero]
      rfl
    case isFalse hpos =>
      have hrest : power (Int64.ofInt i * Int64.ofInt i) (n / 2) =
          Int64.ofInt (i ^ (2 * (n / 2))) := by
        rw [← Int64.ofInt_mul, ih (n / 2) (by omega), pow_mul, sq]
      simp only [hrest]
      split
      case isTrue hodd =>
        rw [← Int64.ofInt_mul, ← pow_succ']
        congr 2
        omega
      case isFalse heven =>
        congr 2
        omega

/-- What `power` computes is the exact power, reduced. -/
theorem toInt_power (base : Int64) (n : Nat) :
    (power base n).toInt = (base.toInt ^ n).bmod (2 ^ 64) := by
  have hpower := power_ofInt base.toInt n
  rw [Int64.ofInt_toInt] at hpower
  rw [hpower, Int64.toInt_ofInt]
  rfl

/-! ## Quotients and remainders -/

/-- Reducing changes nothing modulo `2 ^ 64`. -/
theorem bmod_modEq (i : Int) : i.bmod (2 ^ 64) ≡ i [ZMOD 2 ^ 64] := by
  show i.bmod (2 ^ 64) % _ = i % _
  exact Int.bmod_emod

/-- Division of words truncates, and what it leaves has the sign of the dividend.  The one quotient
    that is reduced is that of the least word by `-1`. -/
theorem divides_div_mod (hr : r.toInt ≠ 0) : Divides l r (l / r) (l % r) := by
  have hquotient := Int64.toInt_div l r
  have hremainder := Int64.toInt_mod l r
  have hsize : |l.toInt.tmod r.toInt| < |r.toInt| := by
    rw [Int.abs_eq_natAbs, Int.abs_eq_natAbs, Int.natAbs_tmod]
    exact_mod_cast Nat.mod_lt _ (Int.natAbs_pos.2 hr)
  refine ⟨hquotient, ?_, hremainder ▸ hsize, ?_⟩
  · -- the exact quotient satisfies this with equality
    have hexact : l.toInt.tdiv r.toInt * r.toInt + l.toInt.tmod r.toInt = l.toInt := by
      rw [mul_comm]
      exact Int.mul_tdiv_add_tmod l.toInt r.toInt
    calc (l / r).toInt * r.toInt + (l % r).toInt
        = (l.toInt.tdiv r.toInt).bmod (2 ^ 64) * r.toInt + l.toInt.tmod r.toInt := by
          rw [hquotient, hremainder]
      _ ≡ l.toInt.tdiv r.toInt * r.toInt + l.toInt.tmod r.toInt [ZMOD 2 ^ 64] :=
          ((bmod_modEq _).mul_right _).add_right _
      _ = l.toInt := hexact
  · rw [hremainder]
    rcases lt_trichotomy l.toInt 0 with hneg | hzero | hpos
    · have hle : l.toInt.tmod r.toInt ≤ 0 := by
        have hopposite := Int.tmod_nonneg r.toInt (show 0 ≤ -l.toInt by omega)
        rw [Int.neg_tmod] at hopposite
        omega
      rcases hle.lt_or_eq with hlt | heq
      · right
        rw [Int.sign_eq_neg_one_of_neg hlt, Int.sign_eq_neg_one_of_neg hneg]
      · exact .inl heq
    · left
      rw [hzero, Int.zero_tmod]
    · rcases (Int.tmod_nonneg r.toInt hpos.le).lt_or_eq with hlt | heq
      · right
        rw [Int.sign_eq_one_of_pos hlt, Int.sign_eq_one_of_pos hpos]
      · exact .inl heq.symm

/-! ## Shifts -/

/-- The places that a word is shifted by, if they are fewer than it has. -/
theorem places_of_lt (hnonneg : 0 ≤ r.toInt) (hlt : r.toInt < 64) :
    (r.toBitVec.smod 64).toNat = r.toInt.toNat := by
  have hsmod : (r.toBitVec.smod 64).toInt = r.toInt := by
    rw [BitVec.toInt_smod, Int64.toInt_toBitVec]
    show r.toInt.fmod 64 = r.toInt
    rw [Int.fmod_eq_emod_of_nonneg _ (by decide)]
    omega
  have hsigned := BitVec.toInt_eq_toNat_cond (r.toBitVec.smod 64)
  have hsize := (r.toBitVec.smod 64).isLt
  split at hsigned <;> omega

/-- Shifting to the left by fewer places than a word has is multiplication, reduced. -/
theorem toInt_shiftLeft (hnonneg : 0 ≤ r.toInt) (hlt : r.toInt < 64) :
    (l <<< r).toInt = (l.toInt * 2 ^ r.toInt.toNat).bmod (2 ^ 64) := by
  rw [← Int64.toInt_toBitVec, Int64.toBitVec_shiftLeft]
  show (l.toBitVec <<< (r.toBitVec.smod 64).toNat).toInt = _
  rw [places_of_lt hnonneg hlt, BitVec.toInt_shiftLeft, Nat.shiftLeft_eq]
  push_cast
  rw [← Int64.toInt_toBitVec l, BitVec.toInt_eq_toNat_bmod]
  exact Int.bmod_mul_bmod.symm

/-- Shifting to the right by fewer places than a word has is division, rounded down. -/
theorem toInt_shiftRight (hnonneg : 0 ≤ r.toInt) (hlt : r.toInt < 64) :
    (l >>> r).toInt = l.toInt.fdiv (2 ^ r.toInt.toNat) := by
  rw [← Int64.toInt_toBitVec, Int64.toBitVec_shiftRight, BitVec.toInt_sshiftRight',
    places_of_lt hnonneg hlt, Int.shiftRight_eq_div_pow,
    Int.fdiv_eq_ediv_of_nonneg _ (by positivity)]
  push_cast
  rfl

/-- By 64 places or more, everything is shifted out. -/
theorem bmod_mul_two_pow (i : Int) {count : Nat} (h : 64 ≤ count) :
    (i * 2 ^ count).bmod (2 ^ 64) = 0 := by
  have hdvd : ((2 ^ 64 : Nat) : Int) ∣ i * 2 ^ count :=
    Dvd.dvd.mul_left (pow_dvd_pow 2 h) i
  exact Int.bmod_eq_zero_of_dvd hdvd

/-- The quotient by a power that exceeds the number is its sign. -/
theorem fdiv_two_pow_of_le (n : Int64) {count : Nat} (h : 64 ≤ count) :
    n.toInt.fdiv (2 ^ count) = if n.toInt < 0 then -1 else 0 := by
  have hpow : (2 : Int) ^ 64 ≤ 2 ^ count := pow_le_pow_right₀ (by decide) h
  have hle := n.le_toInt
  have hlt := n.toInt_lt
  rw [Int.fdiv_eq_ediv_of_nonneg _ (by positivity)]
  split
  case isTrue hneg =>
    apply Int.ediv_eq_neg_one_of_neg_of_le hneg
    omega
  case isFalse hnonneg =>
    apply Int.ediv_eq_zero_of_lt <;> omega

/-! ## Bits -/

/-- Bit `i` of an integer in two's complement is bit `i` of its word, and its sign beyond. -/
theorem testBit_toInt {w : Nat} (x : BitVec w) (i : Nat) :
    x.toInt.testBit i = if i < w then x.getLsbD i else x.msb := by
  rw [BitVec.toInt_eq_msb_cond]
  have hlt := x.isLt
  split
  case isFalse hnonneg =>
    show x.toNat.testBit i = _
    split
    case isTrue hi => rfl
    case isFalse hi =>
      rw [Bool.eq_false_iff.2 hnonneg]
      exact x.getLsbD_of_ge i (by omega)
  case isTrue hneg =>
    have hsucc : (x.toNat : Int) - (2 ^ w : Nat) = Int.negSucc (2 ^ w - (x.toNat + 1)) := by
      rw [Int.negSucc_eq]
      omega
    rw [hsucc]
    show (!(2 ^ w - (x.toNat + 1)).testBit i) = _
    rw [Nat.testBit_two_pow_sub_succ hlt, hneg]
    split
    case isTrue hi => simp [hi, BitVec.getLsbD]
    case isFalse hi => simp [hi]

/-- What acts on each bit of words, and on their signs, acts on the bits of integers. -/
theorem testBit_of_bits {f : Bool → Bool → Bool}
    (hbits : ∀ i < 64, n.toBitVec.getLsbD i = f (l.toBitVec.getLsbD i) (r.toBitVec.getLsbD i))
    (hsign : n.toBitVec.msb = f l.toBitVec.msb r.toBitVec.msb) (i : Nat) :
    n.toInt.testBit i = f (l.toInt.testBit i) (r.toInt.testBit i) := by
  rw [← Int64.toInt_toBitVec, ← Int64.toInt_toBitVec, ← Int64.toInt_toBitVec]
  rw [testBit_toInt, testBit_toInt, testBit_toInt]
  split
  case isTrue hi => exact hbits i hi
  case isFalse => exact hsign

/-! ## What the operators give -/

/-- An operator that fails in a case, and gives a value in any other, fails in just this case. -/
theorem failsByType_iff {p : Prop} (hfails : p → FailsByType operator l r)
    (hgives : ¬ p → ∃ value, applyBinary operator (.number l) (.number r) = .ok value) :
    FailsByType operator l r ↔ p := by
  constructor
  · rintro ⟨e, he, -⟩
    by_contra hp
    obtain ⟨value, hvalue⟩ := hgives hp
    rw [he] at hvalue
    cases hvalue
  · exact hfails

/-- Powers are exact, reduced, and fail just for exponents out of range. -/
theorem combines_starStar (l r : Int64) :
    (0 ≤ r.toInt → r.toInt ≤ 2 ^ 32 - 1 → GivesReduced .starStar l r (l.toInt ^ r.toInt.toNat)) ∧
    (FailsByType .starStar l r ↔ ¬ (0 ≤ r.toInt ∧ r.toInt ≤ 2 ^ 32 - 1)) := by
  have hmax : (maxExponent : Int) = 2 ^ 32 - 1 := rfl
  have hgives : 0 ≤ r.toInt ∧ r.toInt ≤ 2 ^ 32 - 1 →
      applyBinary .starStar (.number l) (.number r) = .ok (.number (power l r.toInt.toNat)) := by
    rintro ⟨hnonneg, hle⟩
    simp [applyBinary, applyToNumbers, hmax]
    omega
  constructor
  · intro hnonneg hle
    exact ⟨_, hgives ⟨hnonneg, hle⟩, toInt_power l _⟩
  · apply failsByType_iff
    · intro hrange
      refine ⟨.exponentOutOfRange r, ?_, rfl⟩
      simp [applyBinary, applyToNumbers, hmax]
      omega
    · intro hrange
      exact ⟨_, hgives (not_not.1 hrange)⟩

/-- Quotients and remainders are those of words, and fail just for the divisor zero. -/
theorem combines_division (l r : Int64) :
    (r.toInt ≠ 0 → applyBinary .slash (.number l) (.number r) = .ok (.number (l / r)) ∧
      applyBinary .percent (.number l) (.number r) = .ok (.number (l % r))) ∧
    (FailsByType .slash l r ↔ r.toInt = 0) ∧ (FailsByType .percent l r ↔ r.toInt = 0) := by
  have hgives : r.toInt ≠ 0 → applyBinary .slash (.number l) (.number r) = .ok (.number (l / r)) ∧
      applyBinary .percent (.number l) (.number r) = .ok (.number (l % r)) := by
    intro hr
    rw [Ne, toInt_eq_zero_iff] at hr
    simp [applyBinary, applyToNumbers, hr]
  refine ⟨hgives, ?_, ?_⟩
  · apply failsByType_iff
    · intro hr
      exact ⟨.divisionByZero, by simp [applyBinary, applyToNumbers, toInt_eq_zero_iff.1 hr], rfl⟩
    · intro hr
      exact ⟨_, (hgives hr).1⟩
  · apply failsByType_iff
    · intro hr
      exact ⟨.moduloByZero, by simp [applyBinary, applyToNumbers, toInt_eq_zero_iff.1 hr], rfl⟩
    · intro hr
      exact ⟨_, (hgives hr).2⟩

/-- The same without a bound on the places: what is shifted out entirely is zero. -/
theorem shiftLeft_of_nonneg (h : 0 ≤ r.toInt) :
    ∃ n, shiftLeft l r = .ok n ∧ n.toInt = (l.toInt * 2 ^ r.toInt.toNat).bmod (2 ^ 64) := by
  have hnonneg : ¬ r < 0 := by
    rw [neg_iff_toInt]
    omega
  unfold shiftLeft
  rw [if_neg hnonneg]
  split
  case isTrue hlt => exact ⟨_, rfl, toInt_shiftLeft h (lt_width_iff_toInt.1 hlt)⟩
  case isFalse hge =>
    have hcount : 64 ≤ r.toInt := not_lt.1 (mt lt_width_iff_toInt.2 hge)
    exact ⟨0, rfl, (bmod_mul_two_pow l.toInt (by omega)).symm⟩

/-- The same without a bound on the places: what is shifted out entirely is the sign. -/
theorem shiftRight_of_nonneg (h : 0 ≤ r.toInt) :
    ∃ n, shiftRight l r = .ok n ∧ n.toInt = l.toInt.fdiv (2 ^ r.toInt.toNat) := by
  have hnonneg : ¬ r < 0 := by
    rw [neg_iff_toInt]
    omega
  unfold shiftRight
  rw [if_neg hnonneg]
  split
  case isTrue hlt => exact ⟨_, rfl, toInt_shiftRight h (lt_width_iff_toInt.1 hlt)⟩
  case isFalse hge =>
    have hcount : 64 ≤ r.toInt := not_lt.1 (mt lt_width_iff_toInt.2 hge)
    refine ⟨_, rfl, ?_⟩
    rw [fdiv_two_pow_of_le l (by omega)]
    simp only [neg_iff_toInt]
    split <;> rfl

/-- Shifts fail for negative numbers of places, and for no others. -/
theorem shift_fails (l : Int64) {r : Int64} (h : r.toInt < 0) :
    shiftLeft l r = .error (.negativeShift r) ∧ shiftRight l r = .error (.negativeShift r) := by
  have hneg : r < 0 := neg_iff_toInt.2 h
  constructor
  · exact if_pos hneg
  · exact if_pos hneg

/-- Shifts are exact, to the left reduced, and fail just for negative numbers of places. -/
theorem combines_shifts (l r : Int64) :
    (0 ≤ r.toInt → GivesReduced .leftShift l r (l.toInt * 2 ^ r.toInt.toNat)) ∧
    (FailsByType .leftShift l r ↔ r.toInt < 0) ∧
    (0 ≤ r.toInt → ∃ n, applyBinary .rightShift (.number l) (.number r) = .ok (.number n) ∧
      n.toInt = l.toInt.fdiv (2 ^ r.toInt.toNat)) ∧
    (FailsByType .rightShift l r ↔ r.toInt < 0) := by
  have hleft : 0 ≤ r.toInt → GivesReduced .leftShift l r (l.toInt * 2 ^ r.toInt.toNat) := by
    intro h
    obtain ⟨n, hshift, hn⟩ := shiftLeft_of_nonneg (l := l) h
    exact ⟨n, by simp [applyBinary, applyToNumbers, hshift], hn⟩
  have hright : 0 ≤ r.toInt → ∃ n,
      applyBinary .rightShift (.number l) (.number r) = .ok (.number n) ∧
      n.toInt = l.toInt.fdiv (2 ^ r.toInt.toNat) := by
    intro h
    obtain ⟨n, hshift, hn⟩ := shiftRight_of_nonneg (l := l) h
    exact ⟨n, by simp [applyBinary, applyToNumbers, hshift], hn⟩
  refine ⟨hleft, ?_, hright, ?_⟩
  · apply failsByType_iff
    · intro h
      exact ⟨.negativeShift r, by simp [applyBinary, applyToNumbers, (shift_fails l h).1], rfl⟩
    · intro h
      obtain ⟨n, hn, -⟩ := hleft (not_lt.1 h)
      exact ⟨_, hn⟩
  · apply failsByType_iff
    · intro h
      exact ⟨.negativeShift r, by simp [applyBinary, applyToNumbers, (shift_fails l h).2], rfl⟩
    · intro h
      obtain ⟨n, hn, -⟩ := hright (not_lt.1 h)
      exact ⟨_, hn⟩

/-- The four operators on bits act on each bit of the integers. -/
theorem combines_bits (l r : Int64) :
    ActsOnBits .bitAnd l r (· && ·) ∧ ActsOnBits .bitOr l r (· || ·) ∧
    ActsOnBits .bitXor l r (· ^^ ·) ∧ ActsOnBits .bitAndNot l r fun a b => a && !b := by
  refine ⟨⟨l &&& r, rfl, testBit_of_bits ?_ ?_⟩, ⟨l ||| r, rfl, testBit_of_bits ?_ ?_⟩,
    ⟨l ^^^ r, rfl, testBit_of_bits ?_ ?_⟩,
    ⟨l &&& ~~~r, rfl, testBit_of_bits (f := fun a b => a && !b) ?_ ?_⟩⟩
  all_goals first
    | intro i hi
      simp [hi]
    | simp

/-- Words compare as their integers do. -/
theorem combines_comparisons (l r : Int64) :
    Decides .equalEqual l r (l.toInt = r.toInt) ∧ Decides .bangEqual l r (l.toInt ≠ r.toInt) ∧
    Decides .less l r (l.toInt < r.toInt) ∧ Decides .lessEqual l r (l.toInt ≤ r.toInt) ∧
    Decides .greater l r (r.toInt < l.toInt) ∧ Decides .greaterEqual l r (r.toInt ≤ l.toInt) := by
  refine ⟨⟨_, rfl, ?_⟩, ⟨_, rfl, ?_⟩, ⟨_, rfl, ?_⟩, ⟨_, rfl, ?_⟩, ⟨_, rfl, ?_⟩, ⟨_, rfl, ?_⟩⟩ <;>
    rw [decide_eq_true_eq]
  · exact Int64.toInt_inj.symm
  · exact not_congr Int64.toInt_inj.symm
  · exact Int64.lt_iff_toInt_lt
  · exact Int64.le_iff_toInt_le
  · exact Int64.lt_iff_toInt_lt
  · exact Int64.le_iff_toInt_le

/-- Whatever its kind, an operator ends in one of three ways. -/
theorem applyToNumbers_ends (operator : Kind) (l r : Int64) :
    (∃ value, applyToNumbers operator l r = .ok value) ∨
    (∃ e, applyToNumbers operator l r = .error e ∧ e.category = .badType) ∨
    applyToNumbers operator l r = .error (.unsupportedOperator operator .number .number) := by
  unfold applyToNumbers
  split
  -- `/`, `%` and `**` look at the right operand
  case h_4 | h_5 | h_6 =>
    split
    · exact .inr (.inl ⟨_, rfl, rfl⟩)
    · exact .inl ⟨_, rfl⟩
  case h_7 =>
    rcases lt_or_ge r.toInt 0 with hneg | hnonneg
    · exact .inr (.inl ⟨.negativeShift r, by rw [(shift_fails l hneg).1]; rfl, rfl⟩)
    · obtain ⟨n, hn, -⟩ := shiftLeft_of_nonneg (l := l) hnonneg
      exact .inl ⟨.number n, by rw [hn]; rfl⟩
  case h_8 =>
    rcases lt_or_ge r.toInt 0 with hneg | hnonneg
    · exact .inr (.inl ⟨.negativeShift r, by rw [(shift_fails l hneg).2]; rfl, rfl⟩)
    · obtain ⟨n, hn, -⟩ := shiftRight_of_nonneg (l := l) hnonneg
      exact .inl ⟨.number n, by rw [hn]; rfl⟩
  case h_19 => exact .inr (.inr rfl)
  all_goals exact .inl ⟨_, rfl⟩

/-- All of the operators between numbers, put together. -/
theorem combinesExactly (l r : Int64) : CombinesExactly l r := by
  obtain ⟨hpower, hpowerFails⟩ := combines_starStar l r
  obtain ⟨hdivision, hslashFails, hpercentFails⟩ := combines_division l r
  obtain ⟨hleft, hleftFails, hright, hrightFails⟩ := combines_shifts l r
  obtain ⟨hand, hor, hxor, handNot⟩ := combines_bits l r
  obtain ⟨heq, hne, hlt, hle, hgt, hge⟩ := combines_comparisons l r
  exact {
    plus := ⟨_, rfl, Int64.toInt_add l r⟩
    minus := ⟨_, rfl, Int64.toInt_sub l r⟩
    star := ⟨_, rfl, Int64.toInt_mul l r⟩
    starStar := hpower
    starStar_fails := hpowerFails
    divides := fun hr => ⟨_, _, (hdivision hr).1, (hdivision hr).2, divides_div_mod hr⟩
    slash_min := by
      rintro rfl rfl
      exact ⟨rfl, rfl⟩
    slash_fails := hslashFails
    percent_fails := hpercentFails
    leftShift := hleft
    leftShift_fails := hleftFails
    rightShift := hright
    rightShift_fails := hrightFails
    bitAnd := hand
    bitOr := hor
    bitXor := hxor
    bitAndNot := handNot
    equalEqual := heq
    bangEqual := hne
    less := hlt
    lessEqual := hle
    greater := hgt
    greaterEqual := hge
    ends := fun operator => applyToNumbers_ends operator l r }

/-! ## Signs, complements and equality -/

/-- The operators before a number. -/
structure TurnsExactly (n : Int64) : Prop where
  plus : applyUnary .plus (.number n) = .ok (.number n)
  minus : ∃ opposite, applyUnary .minus (.number n) = .ok (.number opposite) ∧
    opposite.toInt = (0 - n.toInt).bmod (2 ^ 64)
  bitXor : ∃ complement, applyUnary .bitXor (.number n) = .ok (.number complement) ∧
    complement.toInt = -n.toInt - 1 ∧ ∀ i, complement.toInt.testBit i = !n.toInt.testBit i

/-- The three operators before a number. -/
theorem turnsExactly (n : Int64) : TurnsExactly n := by
  refine ⟨rfl, ⟨-n, rfl, ?_⟩, ⟨~~~n, rfl, ?_, testBit_of_bits (r := n) (f := fun a _ => !a) ?_ ?_⟩⟩
  · rw [zero_sub]
    exact Int64.toInt_neg n
  · have hle := n.le_toInt
    have hlt := n.toInt_lt
    rw [Int64.toInt_not]
    apply Int.bmod_eq_of_le <;> omega
  · intro i hi
    simp [hi]
  · simp

/-- Where equality and its negation give anything, they tell whether values are the same. -/
theorem equality_same (left right value : Value) :
    (applyBinary .equalEqual left right = .ok value → value = .boolean (left.same right)) ∧
    (applyBinary .bangEqual left right = .ok value → value = .boolean (!left.same right)) := by
  cases left <;> cases right <;> simp [applyBinary, applyToNumbers, Value.same, eq_comm]

/-- **Operators are exact.**  What an operator gives for two numbers is what it gives for exact
    integers, reduced to 64 bits; it fails only where a divisor is zero, a shift negative or an
    exponent out of range.  Signs and complements are exact as well, and equality between values of
    any types agrees with their being the same. -/
theorem operators_exact :
    (∀ l r, CombinesExactly l r) ∧ (∀ n, TurnsExactly n) ∧
    ∀ left right value,
      (applyBinary .equalEqual left right = .ok value → value = .boolean (left.same right)) ∧
      (applyBinary .bangEqual left right = .ok value → value = .boolean (!left.same right)) :=
  ⟨combinesExactly, turnsExactly, equality_same⟩

end Tao
