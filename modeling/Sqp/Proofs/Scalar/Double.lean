import Mathlib
import Sqp.Proofs.Scalar.Lawful
import Sqp.Scalar.Cell

/-!
# Doubles are lawful scalars

Lean's doubles are bit patterns, and their operations are defined by unpacking them into
signs, mantissas and exponents. From these definitions follow the laws that the library
uses of doubles, and of the entries of arrays, which are doubles without subnormal numbers.

- `Double.compare_swap`, `Double.compare_self`: the two ways round of a comparison.
- `Double.place`: the place of a number in the order of doubles, which is a linear order
  without undefined values (`Double.le_iff_place`).
- `Double.Canonical`: what mantissas and exponents of unpacked doubles are like.
- `Double.positive_sub`: a difference is positive only if its terms differ in this way.
- `floatLawful`, `floatOrdered`, `cellLawful`: the instances.
-/

namespace Sqp

open Float.Model Float.Model.UnpackedFloat

namespace Double

/-! ## Comparison -/

/-- Comparing the other way round turns the answer round. -/
theorem compare_swap (u v : UnpackedFloat) : v.compare u = (u.compare v).map Ordering.swap := by
  cases u with
  | notANumber => cases v <;> rfl
  | zero s =>
    cases v with
    | finite t m e h => cases t <;> rfl
    | infinity t => cases t <;> rfl
    | _ => rfl
  | infinity s =>
    cases v with
    | infinity t => cases s <;> cases t <;> rfl
    | _ => cases s <;> rfl
  | finite s m e h =>
    cases v with
    | infinity t => cases s <;> cases t <;> rfl
    | zero t => cases s <;> rfl
    | notANumber => cases s <;> rfl
    | finite t m' e' h' =>
      have hexponent : compare e' e = (compare e e').swap := Std.OrientedCmp.eq_swap
      have hmantissa : compare m' m = (compare m m').swap := Std.OrientedCmp.eq_swap
      cases s <;> cases t <;>
        simp [UnpackedFloat.compare, hexponent, hmantissa, Ordering.swap_then]

theorem compare_self {u : UnpackedFloat} (h : u ≠ .notANumber) : u.compare u = some .eq := by
  cases u with
  | notANumber => exact absurd rfl h
  | infinity s => cases s <;> rfl
  | zero s => rfl
  | finite s m e _ => cases s <;> simp [UnpackedFloat.compare]

/-- A comparison has no answer exactly if one of its sides is undefined. -/
theorem compare_eq_none_iff (u v : UnpackedFloat) :
    u.compare v = none ↔ u = .notANumber ∨ v = .notANumber := by
  cases u with
  | notANumber => simp [UnpackedFloat.compare]
  | zero s =>
    cases v with
    | finite t m e h => cases t <;> simp [UnpackedFloat.compare]
    | infinity t => cases t <;> simp [UnpackedFloat.compare]
    | _ => simp [UnpackedFloat.compare]
  | infinity s =>
    cases v with
    | infinity t => simp [UnpackedFloat.compare]
    | _ => cases s <;> simp [UnpackedFloat.compare]
  | finite s m e h =>
    cases v with
    | infinity t => cases t <;> simp [UnpackedFloat.compare]
    | zero t => cases s <;> simp [UnpackedFloat.compare]
    | notANumber => simp [UnpackedFloat.compare]
    | finite t m' e' h' => cases s <;> cases t <;> simp [UnpackedFloat.compare]

theorem lt_iff_compare (a b : Float) :
    a < b ↔ a.toModel.unpack.compare b.toModel.unpack = some .lt := by
  show (decide (a.toModel < b.toModel)) = true ↔ _
  rw [decide_eq_true_iff]
  show (a.toModel.unpack.compare b.toModel.unpack == some .lt) = true ↔ _
  rw [beq_iff_eq]

theorem le_iff_compare (a b : Float) :
    a ≤ b ↔ (a.toModel.unpack.compare b.toModel.unpack).any (·.isLE) = true := by
  show (decide (a.toModel ≤ b.toModel)) = true ↔ _
  rw [decide_eq_true_iff]
  rfl

theorem le_of_lt {a b : Float} (h : a < b) : a ≤ b := by
  rw [lt_iff_compare] at h
  rw [le_iff_compare, h]
  rfl

/-- A double is defined unless it is unpacked as not a number. -/
theorem defined_iff (a : Float) : Scalar.Defined a ↔ a.toModel.unpack ≠ .notANumber := by
  show a ≤ a ↔ _
  rw [le_iff_compare]
  constructor
  · intro h hnan
    rw [hnan] at h
    cases h
  · intro h
    rw [compare_self h]
    rfl

/-- Among defined numbers, to be smaller is not to be at least as large. -/
theorem lt_iff (a b : Float) : a < b ↔ Scalar.Defined a ∧ Scalar.Defined b ∧ ¬ b ≤ a := by
  rw [defined_iff, defined_iff, lt_iff_compare, le_iff_compare, compare_swap a.toModel.unpack]
  cases h : a.toModel.unpack.compare b.toModel.unpack with
  | none =>
    have hnan := (compare_eq_none_iff _ _).mp h
    simp only [reduceCtorEq, false_iff]
    tauto
  | some o =>
    have hnan := mt (compare_eq_none_iff _ _).mpr (by rw [h]; simp)
    rw [not_or] at hnan
    cases o <;> simp [hnan]

/-! ## Order -/

/-- The place of a number in the order of doubles: its side of zero first, then exponent and
mantissa. -/
def place : UnpackedFloat → ℤ ×ₗ ℤ ×ₗ ℤ
  | .infinity .negative => toLex (-2, toLex (0, 0))
  | .finite .negative m e _ => toLex (-1, toLex (-e, -m))
  | .zero _ | .notANumber => toLex (0, toLex (0, 0))
  | .finite .positive m e _ => toLex (1, toLex (e, m))
  | .infinity .positive => toLex (2, toLex (0, 0))

/-- Comparing exponents first and mantissas second is the lexicographic order. -/
theorem isLE_then_compare_iff (e e' : ℤ) (m m' : ℕ) :
    ((compare e e').then (compare m m')).isLE = true ↔
      toLex (e, (m : ℤ)) ≤ toLex (e', (m' : ℤ)) := by
  rw [Prod.Lex.toLex_le_toLex]
  rcases lt_trichotomy e e' with h | rfl | h
  · simp [Int.compare_eq_lt.mpr h, h]
  · simp [Nat.isLE_compare]
  · simp [Int.compare_eq_gt.mpr h, h.not_gt, h.ne']

theorem toLex_neg_le_toLex_neg_iff (e e' m m' : ℤ) :
    toLex (-e, -m) ≤ toLex (-e', -m') ↔ toLex (e', m') ≤ toLex (e, m) := by
  simp only [Prod.Lex.toLex_le_toLex, neg_lt_neg_iff, neg_inj, neg_le_neg_iff, eq_comm]

/-- Defined numbers compare as their places do. -/
theorem isLE_compare_iff (u v : UnpackedFloat) :
    (u.compare v).any (·.isLE) = true ↔
      u ≠ .notANumber ∧ v ≠ .notANumber ∧ place u ≤ place v := by
  cases u with
  | notANumber => simp [UnpackedFloat.compare]
  | zero s =>
    cases v with
    | finite t m e h => cases t <;> simp [UnpackedFloat.compare, place, Prod.Lex.toLex_le_toLex]
    | infinity t => cases t <;> simp [UnpackedFloat.compare, place, Prod.Lex.toLex_le_toLex]
    | _ => simp [UnpackedFloat.compare, place]
  | infinity s =>
    cases v with
    | infinity t =>
      cases s <;> cases t <;>
        simp [UnpackedFloat.compare, place, Prod.Lex.toLex_le_toLex] <;> decide
    | finite t m e h =>
      cases s <;> cases t <;> simp [UnpackedFloat.compare, place, Prod.Lex.toLex_le_toLex]
    | _ => cases s <;> simp [UnpackedFloat.compare, place, Prod.Lex.toLex_le_toLex]
  | finite s m e h =>
    cases v with
    | infinity t =>
      cases s <;> cases t <;> simp [UnpackedFloat.compare, place, Prod.Lex.toLex_le_toLex]
    | zero t => cases s <;> simp [UnpackedFloat.compare, place, Prod.Lex.toLex_le_toLex]
    | notANumber => simp [UnpackedFloat.compare]
    | finite t m' e' h' =>
      cases s with
      | positive =>
        cases t with
        -- above zero: exponents first, mantissas second
        | positive =>
          show ((compare e e').then (compare m m')).isLE = true ↔ _
          rw [isLE_then_compare_iff]
          simp [place, Prod.Lex.toLex_le_toLex (x := ((1 : ℤ), _))]
        | negative => simp [UnpackedFloat.compare, place, Prod.Lex.toLex_le_toLex]
      | negative =>
        cases t with
        | positive => simp [UnpackedFloat.compare, place, Prod.Lex.toLex_le_toLex]
        | negative =>
          -- below zero: the same with everything turned round
          have hexponent : compare e e' = (compare e' e).swap := Std.OrientedCmp.eq_swap
          have hmantissa : compare m m' = (compare m' m).swap := Std.OrientedCmp.eq_swap
          show ((compare e e').then (compare m m')).swap.isLE = true ↔ _
          rw [hexponent, hmantissa, ← Ordering.swap_then, Ordering.swap_swap, isLE_then_compare_iff]
          simp [place, Prod.Lex.toLex_le_toLex (x := ((-1 : ℤ), _)), toLex_neg_le_toLex_neg_iff]

/-- Doubles compare as their places do, if they are defined. -/
theorem le_iff_place (a b : Float) :
    a ≤ b ↔ Scalar.Defined a ∧ Scalar.Defined b ∧
      place a.toModel.unpack ≤ place b.toModel.unpack := by
  rw [defined_iff, defined_iff, le_iff_compare, isLE_compare_iff]

theorem le_trans {a b c : Float} (hab : a ≤ b) (hbc : b ≤ c) : a ≤ c := by
  rw [le_iff_place] at hab hbc ⊢
  exact ⟨hab.1, hbc.2.1, hab.2.2.trans hbc.2.2⟩

/-! ## Mantissas and exponents -/

/-- A finite unpacked double has a mantissa of at most 53 bits, and fewer only at the
smallest exponent. -/
def Canonical : UnpackedFloat → Prop
  | .finite _ m e _ => m < 2 ^ 53 ∧ -1074 ≤ e ∧ (2 ^ 52 ≤ m ∨ e = -1074)
  | _ => True

/-- Unpacking a bit pattern adds the leading bit, except at the smallest exponent. -/
theorem canonical_unpack (b : BitVec Format.binary64.numBits) :
    Canonical (UnpackedFloat.unpack Format.binary64 b) := by
  have hbias : Format.binary64.exponentBias = 1023 := by decide
  fun_cases UnpackedFloat.unpack Format.binary64 b with
  | case1 => trivial
  | case2 => trivial
  | case3 => trivial
  -- subnormal numbers
  | case4 mantissa exponent e sign _ _ hzero _ =>
    have hmantissa : mantissa.toNat < 2 ^ 52 := mantissa.isLt
    have he : e + 1 = -1074 := by
      show (exponent.toNat : Int) - (Format.binary64.exponentBias + 52 : Int) + 1 = -1074
      rw [hzero, hbias]
      rfl
    exact ⟨by omega, he.ge, .inr he⟩
  -- normal numbers, with a leading bit that is not stored
  | case5 mantissa exponent e sign _ _ hzero =>
    have hmantissa : mantissa.toNat < 2 ^ 52 := mantissa.isLt
    have hexponent : exponent.toNat ≠ 0 := fun h => hzero (BitVec.eq_of_toNat_eq (by simpa using h))
    have hfull : (1#1 ++ mantissa).toNat = 2 ^ 52 + mantissa.toNat := by
      rw [BitVec.toNat_append, ← Nat.shiftLeft_add_eq_or_of_lt mantissa.isLt]
      rfl
    have he : e = (exponent.toNat : Int) - 1075 := by
      show (exponent.toNat : Int) - (Format.binary64.exponentBias + 52 : Int) = _
      rw [hbias]
      omega
    show (1#1 ++ mantissa).toNat < 2 ^ 53 ∧ -1074 ≤ e ∧
      (2 ^ 52 ≤ (1#1 ++ mantissa).toNat ∨ e = -1074)
    rw [hfull]
    omega

/-! ## Signs -/

/-- A positive number, finite or not. -/
def Positive : UnpackedFloat → Prop
  | .infinity .positive => True
  | .finite .positive .. => True
  | _ => False

/-- What exceeds zero is finite or infinite, with the positive sign. -/
theorem zero_lt_iff (a : Float) : (0 : Float) < a ↔ Positive a.toModel.unpack := by
  rw [lt_iff_compare]
  show UnpackedFloat.compare (.zero .positive) _ = _ ↔ _
  cases a.toModel.unpack with
  | infinity s => cases s <;> simp [UnpackedFloat.compare, Positive]
  | finite s m e h => cases s <;> simp [UnpackedFloat.compare, Positive]
  | _ => simp [UnpackedFloat.compare, Positive]

/-- Packing keeps the sign of a finite number, also where it makes it infinite. -/
theorem unpackSign_pack_finite (s : Sign) (m : Nat) (e : Int) (h : 0 < m) :
    unpackSign (UnpackedFloat.pack Format.binary64 (.finite s m e h)) = s.toBitVec := by
  unfold UnpackedFloat.pack packedInfinity
  dsimp only
  split_ifs
  all_goals exact unpackSign_packComponents _ _ _

/-- The sign bit of a positive number. -/
theorem unpackSign_of_positive {b : BitVec Format.binary64.numBits}
    (h : Positive (UnpackedFloat.unpack Format.binary64 b)) : unpackSign b = 0#1 := by
  by_contra hsign
  have hnegative : Sign.ofBitVec (unpackSign b) = .negative := if_neg hsign
  unfold UnpackedFloat.unpack at h
  simp only [hnegative] at h
  split_ifs at h
  all_goals exact h

/-- Packing makes no number positive. -/
theorem positive_of_pack {u : UnpackedFloat}
    (h : Positive (UnpackedFloat.unpack Format.binary64 (u.pack Format.binary64))) :
    Positive u := by
  cases u with
  | notANumber => exact h
  | zero s => cases s <;> exact h
  | infinity s => cases s <;> exact h
  | finite s m e hm =>
    have hsign := unpackSign_of_positive h
    rw [unpackSign_pack_finite] at hsign
    cases s with
    | positive => trivial
    | negative => exact absurd hsign (by decide)

/-- Rounding keeps the sign. -/
theorem positive_round {s : Sign} {m : Nat} {e : Int}
    (h : Positive (UnpackedFloat.round Format.binary64 s m e)) : s = .positive := by
  unfold UnpackedFloat.round roundWithAccuracy at h
  dsimp only at h
  cases s with
  | positive => rfl
  | negative =>
    split_ifs at h
    all_goals exact h.elim

/-- A positive result of rounding an integer comes from a positive integer. -/
theorem positive_normalize {m : Int} {e : Int}
    (h : Positive (UnpackedFloat.normalize Format.binary64 m e .positive)) : 0 < m := by
  unfold UnpackedFloat.normalize at h
  split at h
  · cases positive_round h
  · exact h.elim
  · rename_i hcompare
    exact Int.compare_eq_gt.mp hcompare

/-! ## Differences -/

/-- Magnitudes compare as exponents and mantissas do: a larger exponent goes with a full
mantissa. -/
theorem magnitude_lt {m m' : Nat} {e e' : Int} (hm : 2 ^ 52 ≤ m ∨ e = -1074) (hm' : m' < 2 ^ 53)
    (he' : -1074 ≤ e') (h : m <<< (e - min e e').toNat < m' <<< (e' - min e e').toNat) :
    (compare e e').then (compare m m') = .lt := by
  rw [Nat.shiftLeft_eq, Nat.shiftLeft_eq] at h
  rcases lt_trichotomy e e' with hlt | rfl | hgt
  · rw [Int.compare_eq_lt.mpr hlt]
    rfl
  · rw [compare_eq_iff_eq.mpr rfl]
    simpa [Nat.compare_eq_lt] using h
  · -- the mantissa at the larger exponent has 53 bits, so it exceeds the other one
    exfalso
    have hfull : 2 ^ 52 ≤ m := hm.resolve_right (by omega)
    rw [min_eq_right hgt.le, Int.sub_self, Int.toNat_zero, pow_zero, mul_one] at h
    have htwo : 2 ^ 1 ≤ 2 ^ (e - e').toNat := Nat.pow_le_pow_right two_pos (by omega)
    have hdouble : 2 ^ 52 * 2 ^ 1 ≤ m * 2 ^ (e - e').toNat := Nat.mul_le_mul hfull htwo
    omega

/-- A difference is positive only if its first term is the larger one. -/
theorem positive_sub {u v : UnpackedFloat} (hu : Canonical u) (hv : Canonical v)
    (h : Positive (UnpackedFloat.sub Format.binary64 v u)) : u.compare v = some .lt := by
  cases v with
  | notANumber => exact h.elim
  | infinity s =>
    cases u with
    | notANumber => exact h.elim
    | infinity t => cases s <;> cases t <;> first | rfl | exact h.elim
    | _ => cases s <;> first | rfl | exact h.elim
  | zero s =>
    cases u with
    | notANumber => exact h.elim
    | infinity t => cases t <;> first | rfl | exact h.elim
    | zero t => cases s <;> cases t <;> exact h.elim
    | finite t m e hm => cases t <;> first | rfl | exact h.elim
  | finite s m' e' hm' =>
    cases u with
    | notANumber => exact h.elim
    | infinity t => cases t <;> first | rfl | exact h.elim
    | zero t => cases s <;> first | rfl | exact h.elim
    | finite t m e hm =>
      have hpos : 0 < s.apply (m' <<< (e' - min e' e).toNat : Nat) -
          t.apply (m <<< (e - min e' e).toNat : Nat) := positive_normalize h
      -- only two numbers with one sign need their magnitudes compared
      generalize hM' : m' <<< (e' - min e' e).toNat = M' at hpos
      generalize hM : m <<< (e - min e' e).toNat = M at hpos
      cases s with
      | positive =>
        cases t with
        | negative => rfl
        | positive =>
          dsimp only [Sign.apply] at hpos
          have hlt : m <<< (e - min e e').toNat < m' <<< (e' - min e e').toNat := by
            rw [min_comm, hM, hM']
            omega
          exact congrArg some (magnitude_lt hu.2.2 hv.1 hv.2.1 hlt)
      | negative =>
        cases t with
        | positive =>
          dsimp only [Sign.apply] at hpos
          omega
        | negative =>
          dsimp only [Sign.apply] at hpos
          have hlt : m' <<< (e' - min e' e).toNat < m <<< (e - min e' e).toNat := by
            rw [hM, hM']
            omega
          have hswap : ((compare e e').then (compare m m')).swap = .lt := by
            rw [Ordering.swap_then, ← Std.OrientedCmp.eq_swap, ← Std.OrientedCmp.eq_swap]
            exact magnitude_lt hv.2.2 hu.1 hu.2.1 hlt
          exact congrArg some hswap

/-- A positive difference, rounded as it may be, has the larger term first. -/
theorem lt_of_sub_pos (a b : Float) (h : 0 < b - a) : a < b := by
  rw [zero_lt_iff] at h
  rw [lt_iff_compare]
  exact positive_sub (canonical_unpack _) (canonical_unpack _) (positive_of_pack h)

end Double

instance floatLawful : Scalar.Lawful Float where
  zero_defined := by decide
  lt_iff := Double.lt_iff
  lt_of_sub_pos := Double.lt_of_sub_pos
  zero_div_five := by decide

instance floatOrdered : Scalar.Ordered Float where
  defined_of_le a b h := by
    rw [Double.le_iff_place] at h
    exact ⟨h.1, h.2.1⟩
  le_of_lt _ _ := Double.le_of_lt
  le_trans _ _ _ := Double.le_trans

/-! ## Entries of arrays -/

namespace Cell

@[simp] theorem flush_zero : flush 0.0 = 0.0 := by decide

/-- Whatever is multiplied by zero is not positive. -/
theorem not_pos_mul_zero (x : Float) : ¬ (0 : Float) < x * 0.0 := by
  rw [Double.zero_lt_iff]
  intro h
  have hproduct : Double.Positive (UnpackedFloat.mul Format.binary64 x.toModel.unpack
      (.zero .positive)) := Double.positive_of_pack h
  cases hx : x.toModel.unpack <;> rw [hx] at hproduct <;> exact hproduct

/-- Flushing makes no number positive. -/
theorem pos_of_flush_pos {x : Float} (h : (0 : Float) < flush x) : (0 : Float) < x := by
  unfold flush at h
  split_ifs at h
  · exact absurd h (not_pos_mul_zero x)
  · exact h

end Cell

instance cellLawful : Scalar.Lawful Cell where
  zero_defined := by decide
  lt_iff a b := Double.lt_iff a.operand b.operand
  lt_of_sub_pos a b h := by
    have hflushed : (0 : Float) < Cell.flush (Cell.flush (b.operand - a.operand)) := by
      have hoperand : Cell.flush 0.0 < Cell.flush (Cell.flush (b.operand - a.operand)) := h
      rwa [Cell.flush_zero] at hoperand
    exact Double.lt_of_sub_pos _ _ (Cell.pos_of_flush_pos (Cell.pos_of_flush_pos hflushed))
  zero_div_five := congrArg Cell.mk (by decide)

end Sqp
