import Sqp.Proofs.LineSearch.Halving
import Sqp.Proofs.Scalar.Double

/-!
# Dyadic doubles

A double is an integer times a power of two. Sums, differences and halves of such numbers
are computed without rounding as long as the integer has at most 53 bits.

- `Double.dyadic`: the double `m / 2 ^ k`, for `m` of at most 53 bits.
- `Double.round_shifted`: rounding an exact value changes its representation only.
- `Double.dyadic_add`, `Double.dyadic_sub`, `Double.half_dyadic`: exact arithmetic.
- `doubleHalving`: so the unit interval of doubles can be halved 52 times without rounding.
-/

namespace Sqp

namespace Double

open Float.Model Float.Model.UnpackedFloat

/-! ## Rounding exact values -/

/-- Zeros that are shifted out leave no trace. -/
theorem shiftRight_exact (m : Nat) (c : Nat) :
    (ExtendedMantissa.ofMantissaAndAccuracy (m <<< c) .exact >>> c) = ⟨m, false, false⟩ := by
  induction c generalizing m with
  | zero => rfl
  | succ c ih =>
    show ExtendedMantissa.shiftRightOne
      (ExtendedMantissa.ofMantissaAndAccuracy (m <<< (c + 1)) .exact >>> c) = _
    have hshift : m <<< (c + 1) = (2 * m) <<< c := by
      simp only [Nat.shiftLeft_eq, pow_succ]
      ring
    rw [hshift, ih]
    simp [ExtendedMantissa.shiftRightOne]

/-- Rounding aims at 53 bits, but not below the smallest exponent. -/
theorem targetExponent_binary64 (t : Int) :
    Format.binary64.targetExponent t = max (t - 53) (-1074) := by
  simp only [Format.targetExponent]
  rfl

theorem log2_shiftLeft {m : Nat} (hm : 0 < m) (c : Nat) : (m <<< c).log2 = m.log2 + c := by
  have hpow : 0 < 2 ^ c := Nat.two_pow_pos c
  obtain ⟨hlow, hhigh⟩ := (Nat.log2_eq_iff hm.ne').mp rfl
  rw [Nat.shiftLeft_eq, Nat.log2_eq_iff (Nat.mul_pos hm hpow).ne']
  constructor
  · rw [pow_add]
    exact Nat.mul_le_mul_right _ hlow
  · rw [show m.log2 + c + 1 = m.log2 + 1 + c by omega, pow_add _ (m.log2 + 1)]
    exact Nat.mul_lt_mul_of_pos_right hhigh hpow

/-- A mantissa of 53 bits followed by zeros. -/
theorem shiftToTargetExponent_shifted {m : Nat} (hm : m.log2 = 52) (hpos : 0 < m) {t : Int}
    (ht : -1074 ≤ t) (c : Nat) :
    shiftToTargetExponent Format.binary64 (m <<< c) (t - c) .exact = (⟨m, false, false⟩, t) := by
  have htarget : Format.binary64.targetExponent (totalExponent (m <<< c) (t - c)) = t := by
    rw [targetExponent_binary64, totalExponent, log2_shiftLeft hpos, hm]
    push_cast
    omega
  unfold shiftToTargetExponent shiftToExponent
  rw [htarget]
  have hc : (t - (t - c)).toNat = c := by omega
  simp only [hc, shiftRight_exact]
  rw [Int.sub_add_cancel]

/-- A mantissa of 53 bits stays what it is, however many zeros follow it. -/
theorem roundWithAccuracy_shifted (s : Sign) {m : Nat} (hm : m.log2 = 52) (hpos : 0 < m) {t : Int}
    (ht : -1074 ≤ t) (c : Nat) :
    roundWithAccuracy Format.binary64 s (m <<< c) (t - c) .exact = .finite s m t hpos := by
  have hagain : shiftToTargetExponent Format.binary64 m t .exact = (⟨m, false, false⟩, t) := by
    simpa using shiftToTargetExponent_shifted hm hpos ht 0
  unfold roundWithAccuracy
  rw [shiftToTargetExponent_shifted hm hpos ht c]
  dsimp only
  have hrounded : (⟨m, false, false⟩ : ExtendedMantissa).roundedMantissa = m := rfl
  rw [hrounded, hagain]
  exact dif_neg hpos.ne'

/-! ## Dyadic numbers -/

theorem log2_normalised {m : Nat} (hm : 0 < m) (hbits : m < 2 ^ 53) :
    (m <<< (52 - m.log2)).log2 = 52 := by
  have hlog : m.log2 < 53 := (Nat.log2_lt hm.ne').mpr hbits
  rw [log2_shiftLeft hm]
  omega

theorem shiftLeft_pos {m : Nat} (hm : 0 < m) (c : Nat) : 0 < m <<< c := by
  rw [Nat.shiftLeft_eq]
  exact Nat.mul_pos hm (Nat.two_pow_pos c)

/-- The number `m / 2 ^ k` with a mantissa of 53 bits. -/
def normalised (m k : Nat) : UnpackedFloat :=
  if hm : 0 < m then
    .finite .positive (m <<< (52 - m.log2)) (m.log2 - 52 - k) (shiftLeft_pos hm _)
  else .zero .positive

/-- Rounding `m / 2 ^ k` with zeros after the last bit of `m`. -/
theorem round_shifted {m k : Nat} (hm : 0 < m) (hbits : m < 2 ^ 53) (hk : k ≤ 1000) (a : Nat) :
    UnpackedFloat.round Format.binary64 .positive (m <<< a) (-k - a) = normalised m k := by
  have hlog : m.log2 < 53 := (Nat.log2_lt hm.ne').mpr hbits
  have htarget : Format.binary64.targetExponent (totalExponent (m <<< a) (-k - a)) =
      m.log2 - 52 - k := by
    rw [targetExponent_binary64, totalExponent, log2_shiftLeft hm]
    push_cast
    omega
  -- zeros are added up to 53 bits; those beyond are shifted out again
  have hfill : decreaseExponent (m <<< a) (-k - a) (m.log2 - 52 - k) =
      ((m <<< (52 - m.log2)) <<< (a - (52 - m.log2)),
        (m.log2 - 52 - k : Int) - (a - (52 - m.log2) : Nat)) := by
    unfold decreaseExponent
    rw [Prod.mk.injEq, ← Nat.shiftLeft_add, ← Nat.shiftLeft_add]
    constructor
    · congr 1
      omega
    · omega
  unfold UnpackedFloat.round
  rw [htarget]
  dsimp only
  rw [hfill, normalised, dif_pos hm]
  exact roundWithAccuracy_shifted _ (log2_normalised hm hbits) (shiftLeft_pos hm _) (by omega) _

/-- The double `m / 2 ^ k`. -/
def dyadic (m k : Nat) : Float := .ofModel (.pack (normalised m k))

/-- A full mantissa and an exponent that fits survive packing. -/
theorem unpack_pack_normal (s : Sign) {m : Nat} (hlog : m.log2 = 52) (hm : 0 < m) {e : Int}
    (hlow : -1074 ≤ e) (hhigh : e ≤ 971) :
    UnpackedFloat.unpack Format.binary64 (UnpackedFloat.pack Format.binary64 (.finite s m e hm)) =
      .finite s m e hm := by
  obtain ⟨hleast, hmost⟩ := (Nat.log2_eq_iff hm.ne').mp hlog
  have hbias : Format.binary64.exponentBias = 1023 := by decide
  -- the biased exponent, which is neither all zeros nor all ones
  obtain ⟨b, hb⟩ : ∃ b : Nat, (b : Int) = e + 1075 := ⟨(e + 1075).toNat, by omega⟩
  have hbiased : (e + Format.binary64.exponentBias + (52 : Nat)).toNat = b := by
    rw [hbias]
    omega
  have hexponent : (BitVec.ofNat 11 b).toNat = b := by
    rw [BitVec.toNat_ofNat]
    omega
  -- the leading bit is not stored, and is put back
  have hmantissa : (1#1 ++ BitVec.ofNat 52 m).toNat = m := by
    rw [BitVec.toNat_append, ← Nat.shiftLeft_add_eq_or_of_lt (BitVec.isLt _), BitVec.toNat_ofNat]
    show 2 ^ 52 + m % 2 ^ 52 = m
    omega
  have hne : ∀ c : BitVec 11, b ≠ c.toNat → BitVec.ofNat 11 b ≠ c := by
    rintro _ hb rfl
    exact hb hexponent.symm
  have hzero : BitVec.ofNat 11 b ≠ 0#11 := hne _ (show b ≠ 0 by omega)
  have hones : BitVec.ofNat 11 b ≠ -1#11 := hne _ (show b ≠ 2047 by omega)
  have hpack : UnpackedFloat.pack Format.binary64 (.finite s m e hm) =
      packComponents Format.binary64 s (BitVec.ofNat 11 b) (BitVec.ofNat 52 m) := by
    unfold UnpackedFloat.pack
    dsimp only
    rw [hbiased, if_neg (by omega), if_pos (by rw [hlog]; rfl)]
  rw [hpack]
  unfold UnpackedFloat.unpack
  simp only [unpackMantissa_packComponents, unpackExponent_packComponents,
    unpackSign_packComponents, if_neg hones, if_neg hzero, hexponent, hmantissa, hbias]
  rw [Sign.ofBitVec_toBitVec]
  congr 1
  omega

/-- Dyadic numbers are in the normal range, so they are unpacked as they were packed. -/
theorem unpack_dyadic {m k : Nat} (hbits : m < 2 ^ 53) (hk : k ≤ 1000) :
    (dyadic m k).toModel.unpack = normalised m k := by
  show UnpackedFloat.unpack Format.binary64
    (UnpackedFloat.pack Format.binary64 (normalised m k)) = normalised m k
  unfold normalised
  split_ifs with hm
  · have hlog : m.log2 < 53 := (Nat.log2_lt hm.ne').mpr hbits
    exact unpack_pack_normal _ (log2_normalised hm hbits) _ (by omega) (by omega)
  · rfl

/-! ## Exact arithmetic -/

theorem normalize_shifted {m k : Nat} (hbits : m < 2 ^ 53) (hk : k ≤ 1000) (a : Nat) :
    UnpackedFloat.normalize Format.binary64 (m <<< a : Nat) (-k - a) .positive =
      normalised m k := by
  rcases Nat.eq_zero_or_pos m with rfl | hm
  · rw [Nat.zero_shiftLeft]
    rfl
  · have hcompare : compare ((m <<< a : Nat) : Int) 0 = .gt :=
      Int.compare_eq_gt.mpr (Int.natCast_pos.mpr (shiftLeft_pos hm a))
    unfold UnpackedFloat.normalize
    rw [hcompare]
    exact round_shifted hm hbits hk a

/-- The mantissa of a dyadic number at a smaller exponent. -/
theorem decreaseExponent_normalised {m k l : Nat} (hbits : m < 2 ^ 53) (hm : 0 < m)
    (hl : l ≤ m.log2) :
    (decreaseExponent (m <<< (52 - m.log2)) (m.log2 - 52 - k) (-k - (52 - l : Nat))).1 =
      m <<< (52 - l) := by
  have hlog : m.log2 < 53 := (Nat.log2_lt hm.ne').mpr hbits
  show (m <<< (52 - m.log2)) <<< _ = _
  rw [← Nat.shiftLeft_add]
  congr 1
  omega

/-- The smaller of the exponents of two dyadic numbers. -/
theorem min_exponent {m m' k : Nat} (hbits : m < 2 ^ 53) (hm : 0 < m) :
    min (m.log2 - 52 - k : Int) (m'.log2 - 52 - k) = -k - (52 - min m.log2 m'.log2 : Nat) := by
  have hlog : m.log2 < 53 := (Nat.log2_lt hm.ne').mpr hbits
  omega

/-- A sum is exact: at the smaller exponent both terms are integers, whose sum is rounded without
loss. -/
theorem add_normalised {m m' k : Nat} (hsum : m + m' < 2 ^ 53) (hk : k ≤ 1000) :
    UnpackedFloat.add Format.binary64 (normalised m k) (normalised m' k) =
      normalised (m + m') k := by
  rcases Nat.eq_zero_or_pos m with rfl | hm
  · rw [Nat.zero_add, normalised, dif_neg (lt_irrefl 0), normalised]
    split_ifs <;> rfl
  rcases Nat.eq_zero_or_pos m' with rfl | hm'
  · rw [Nat.add_zero, normalised, dif_pos hm, normalised, dif_neg (lt_irrefl 0)]
    rfl
  rw [normalised, normalised, dif_pos hm, dif_pos hm']
  unfold UnpackedFloat.add
  dsimp only
  -- both mantissas are taken to the smaller exponent
  rw [min_exponent (by omega) hm, decreaseExponent_normalised (by omega) hm (min_le_left _ _),
    decreaseExponent_normalised (by omega) hm' (min_le_right _ _)]
  dsimp only [Sign.apply]
  rw [← Nat.cast_add, Nat.shiftLeft_eq, Nat.shiftLeft_eq, ← Nat.add_mul, ← Nat.shiftLeft_eq]
  exact normalize_shifted hsum hk _

/-- So is a difference that is not negative. -/
theorem sub_normalised {m m' k : Nat} (hbits : m < 2 ^ 53) (hle : m' ≤ m) (hm : 0 < m)
    (hk : k ≤ 1000) :
    UnpackedFloat.sub Format.binary64 (normalised m k) (normalised m' k) =
      normalised (m - m') k := by
  rcases Nat.eq_zero_or_pos m' with rfl | hm'
  · rw [Nat.sub_zero, normalised, dif_pos hm, normalised, dif_neg (lt_irrefl 0)]
    rfl
  rw [normalised, normalised, dif_pos hm, dif_pos hm']
  unfold UnpackedFloat.sub
  dsimp only
  rw [min_exponent hbits hm, decreaseExponent_normalised hbits hm (min_le_left _ _),
    decreaseExponent_normalised (by omega) hm' (min_le_right _ _)]
  dsimp only [Sign.apply]
  rw [Nat.shiftLeft_eq, Nat.shiftLeft_eq, ← Nat.cast_sub (Nat.mul_le_mul_right _ hle),
    ← Nat.sub_mul, ← Nat.shiftLeft_eq]
  exact normalize_shifted (by omega) hk _

/-- Half of a number has the same mantissa and the next exponent. -/
theorem half_normalised {m k : Nat} (hbits : m < 2 ^ 53) (hk : k ≤ 1000) :
    UnpackedFloat.mul Format.binary64 (normalised 1 1) (normalised m k) = normalised m (k + 1) := by
  rcases Nat.eq_zero_or_pos m with rfl | hm
  · rfl
  have hlog : m.log2 < 53 := (Nat.log2_lt hm.ne').mpr hbits
  -- one half is a one followed by 52 zeros, so the product is the mantissa followed by as many
  have hproduct : 1 <<< 52 * (m <<< (52 - m.log2)) = (m <<< (52 - m.log2)) <<< 52 := by
    rw [Nat.one_shiftLeft, Nat.mul_comm, ← Nat.shiftLeft_eq]
  have hexponent : (-53 : Int) + (m.log2 - 52 - k) =
      (m.log2 - 52 - (k + 1 : Nat) : Int) - (52 : Nat) := by
    omega
  have hmul : UnpackedFloat.mul Format.binary64 (normalised 1 1) (normalised m k) =
      roundWithAccuracy Format.binary64 .positive (1 <<< 52 * (m <<< (52 - m.log2)))
        (-53 + (m.log2 - 52 - k)) .exact := by
    rw [normalised, normalised, dif_pos Nat.one_pos, dif_pos hm]
    rfl
  rw [hmul, hproduct, hexponent, roundWithAccuracy_shifted _ (log2_normalised hm hbits)
    (shiftLeft_pos hm _) (by omega), normalised, dif_pos hm]

theorem dyadic_add {m m' k : Nat} (hsum : m + m' < 2 ^ 53) (hk : k ≤ 1000) :
    dyadic m k + dyadic m' k = dyadic (m + m') k := by
  have hunpacked := add_normalised hsum hk
  rw [← unpack_dyadic (m := m) (by omega) hk, ← unpack_dyadic (m := m') (by omega) hk] at hunpacked
  exact congrArg (fun u => Float.ofModel (Float.Model.pack u)) hunpacked

theorem dyadic_sub {m m' k : Nat} (hbits : m < 2 ^ 53) (hle : m' ≤ m) (hm : 0 < m)
    (hk : k ≤ 1000) : dyadic m k - dyadic m' k = dyadic (m - m') k := by
  have hunpacked := sub_normalised hbits hle hm hk
  rw [← unpack_dyadic hbits hk, ← unpack_dyadic (m := m') (by omega) hk] at hunpacked
  exact congrArg (fun u => Float.ofModel (Float.Model.pack u)) hunpacked

theorem half_dyadic {m k : Nat} (hbits : m < 2 ^ 53) (hk : k ≤ 1000) :
    0.5 * dyadic m k = dyadic m (k + 1) := by
  have hunpacked := half_normalised hbits hk
  rw [← unpack_dyadic hbits hk] at hunpacked
  exact congrArg (fun u => Float.ofModel (Float.Model.pack u)) hunpacked

/-- A number in lower terms is the same double. -/
theorem dyadic_double {m k : Nat} (hbits : m < 2 ^ 52) : dyadic (2 * m) (k + 1) = dyadic m k := by
  rcases Nat.eq_zero_or_pos m with rfl | hm
  · rfl
  have hlog : m.log2 < 52 := (Nat.log2_lt hm.ne').mpr hbits
  have hdouble : (2 * m).log2 = m.log2 + 1 := by
    rw [Nat.mul_comm, ← pow_one 2, ← Nat.shiftLeft_eq, log2_shiftLeft hm]
  unfold dyadic
  congr 2
  rw [normalised, normalised, dif_pos (by omega), dif_pos hm, UnpackedFloat.finite.injEq, hdouble]
  refine ⟨rfl, ?_, by omega⟩
  rw [Nat.mul_comm, ← pow_one 2, ← Nat.shiftLeft_eq, ← Nat.shiftLeft_add]
  congr 1
  omega

end Double

open Double in
/-- The unit interval of doubles, which can be halved 52 times without rounding. -/
def doubleHalving {depth : Nat} (hdepth : depth ≤ 52) : Halving Float depth where
  grid k i := dyadic i k
  grid_zero := by decide
  grid_one := by decide
  grid_double k i hk hi := by
    have hpow : 2 ^ k ≤ 2 ^ 51 := Nat.pow_le_pow_right two_pos (by omega)
    exact dyadic_double (by omega)
  middle k i hk hi := by
    have hpow : 2 ^ k ≤ 2 ^ 51 := Nat.pow_le_pow_right two_pos (by omega)
    rw [dyadic_add (by omega) (by omega), half_dyadic (by omega) (by omega)]
    congr 1
    omega
  width k i hk hi := by
    have hpow : 2 ^ k ≤ 2 ^ 52 := Nat.pow_le_pow_right two_pos (hk.trans hdepth)
    rw [dyadic_sub (by omega) (by omega) (by omega) (by omega)]
    congr 1
    omega
  le_of_lt _ _ h := Double.le_of_lt h

end Sqp
