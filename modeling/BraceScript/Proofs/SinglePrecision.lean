import Mathlib
import BraceScript.Number.FloatType

/-!
# Rounding to single precision

What has been rounded to single precision is not changed by rounding it again (`FloatType.round_round`).  Three facts
lead there: a float that is made from bits has these bits (`Binary64.toBits_ofBits`); a magnitude whose mantissa is a
multiple of the last bit that single precision has at its exponent is left as it is
(`Binary32.roundMagnitude_of_dvd`); and the nearest magnitude is such a multiple, also after a carry, where the last
bit may be worth half as much.
-/

namespace BraceScript

/-! ### The bits of a float -/

namespace Binary64

open Float.Model Float.Model.UnpackedFloat

private theorem toNat_unpackExponent (b : BitVec 64) :
    (@unpackExponent .binary64 b).toNat = b.toNat / hiddenBit % 2048 := by
  simp [unpackExponent, hiddenBit, Nat.shiftRight_eq_div_pow]

private theorem toNat_unpackMantissa (b : BitVec 64) :
    (@unpackMantissa .binary64 b).toNat = b.toNat % hiddenBit := by
  simp [unpackMantissa, hiddenBit]

theorem toBits_ofBits {w : UInt64} (h : Format.binary64.Valid w.toBitVec) : (Float.ofBits w).toBits = w := by
  have hbits : (Float.ofBits w).toBits.toBitVec = w.toBitVec := pack_unpack_of_valid h
  exact UInt64.eq_of_toBitVec_eq hbits

end Binary64

/-! ### Magnitudes -/

namespace Binary64

variable {num den : Nat}

private theorem roundDiv_mul (n : Nat) (hden : 0 < den) : roundDiv (n * den) den = n := by
  simp [roundDiv, Nat.mul_div_cancel n hden, hden]

/-- Rounding goes down or up by less than one. -/
private theorem roundDiv_cases (num den : Nat) :
    roundDiv num den = num / den ∨ roundDiv num den = num / den + 1 ∧ den ≤ 2 * (num % den) := by
  unfold roundDiv
  dsimp only
  split
  · exact .inl rfl
  · rename_i hle
    split
    · exact .inr ⟨rfl, by omega⟩
    · rcases Nat.mod_two_eq_zero_or_one (num / den) with hmod | hmod
      · exact .inl (by omega)
      · exact .inr ⟨by omega, by omega⟩

end Binary64

namespace Binary32

open Binary64 (hiddenBit roundDiv)

private theorem lastBit_pos (exponent : Nat) : 0 < lastBit exponent := Nat.pow_pos (by decide)

/-- A number that single precision represents is not rounded. -/
theorem roundMagnitude_of_dvd {m : Nat} (hpos : 0 < m / hiddenBit) (hsmall : m < largeExponent * hiddenBit)
    (hdvd : lastBit (m / hiddenBit) ∣ hiddenBit + m % hiddenBit) : roundMagnitude m = m := by
  obtain ⟨n, hn⟩ := hdvd
  have hfinite : m / hiddenBit ≠ specialExponent := by
    have hlt : m / hiddenBit < largeExponent := Nat.div_lt_of_lt_mul (by rw [Nat.mul_comm]; exact hsmall)
    simp only [largeExponent, specialExponent] at *
    omega
  have hrounded : roundDiv (hiddenBit + m % hiddenBit) (lastBit (m / hiddenBit)) * lastBit (m / hiddenBit) =
      hiddenBit + m % hiddenBit := by
    rw [hn, Nat.mul_comm (lastBit _) n, Binary64.roundDiv_mul n (lastBit_pos _)]
  have hnearest : (m / hiddenBit - 1) * hiddenBit + (hiddenBit + m % hiddenBit) = m := by
    have hsplit := Nat.div_add_mod m hiddenBit
    simp only [hiddenBit] at *
    omega
  unfold roundMagnitude
  dsimp only
  rw [if_neg hfinite, hrounded, hnearest, if_neg (by simp [hiddenBit]), if_pos hsmall]

/-- A mantissa that is not rounded to nothing stays in its range or becomes the next power of two.  In either case
the last bit does not reach beyond that. -/
private theorem rounded_bounds {m exponent : Nat} (hlow : hiddenBit ≤ m) (hhigh : m < 2 * hiddenBit)
    (hne : roundDiv m (lastBit exponent) * lastBit exponent ≠ 0) :
    hiddenBit ≤ roundDiv m (lastBit exponent) * lastBit exponent ∧
      roundDiv m (lastBit exponent) * lastBit exponent ≤ 2 * hiddenBit ∧ lastBit exponent ∣ 2 * hiddenBit := by
  have hcases := Binary64.roundDiv_cases m (lastBit exponent)
  have hpower : lastBit exponent = 2 ^ (29 + (normalExponent - exponent)) := rfl
  have hpos := lastBit_pos exponent
  generalize lastBit exponent = unit at hcases hne hpower hpos ⊢
  generalize 29 + (normalExponent - exponent) = k at hpower
  by_cases hk : k ≤ 52
  · -- the power of two below the mantissa is a multiple of the last bit
    obtain ⟨c, hc⟩ : unit ∣ hiddenBit := by
      rw [hpower]
      exact Nat.pow_dvd_pow 2 hk
    have hle : c ≤ m / unit := by
      rw [Nat.le_div_iff_mul_le hpos, Nat.mul_comm, ← hc]
      exact hlow
    have hlt : m / unit < 2 * c := by
      rw [Nat.div_lt_iff_lt_mul hpos, Nat.mul_assoc, Nat.mul_comm c unit, ← hc]
      exact hhigh
    have hbounds : c ≤ roundDiv m unit ∧ roundDiv m unit ≤ 2 * c := by omega
    refine ⟨?_, ?_, ⟨2 * c, by rw [hc, Nat.mul_left_comm]⟩⟩
    · rw [hc, Nat.mul_comm]
      exact Nat.mul_le_mul_right unit hbounds.1
    · rw [hc, Nat.mul_comm unit c, ← Nat.mul_assoc]
      exact Nat.mul_le_mul_right unit hbounds.2
  · -- the mantissa is smaller than the last bit, so it is rounded up, to one that is at most twice as large
    have hunit : 2 * hiddenBit ≤ unit := by
      rw [hpower, show 2 * hiddenBit = 2 ^ 53 from rfl]
      exact Nat.pow_le_pow_right (by decide) (by omega)
    have hdiv : m / unit = 0 := Nat.div_eq_of_lt (by omega)
    have hmod : m % unit = m := Nat.mod_eq_of_lt (by omega)
    obtain ⟨hone, hhalf⟩ : roundDiv m unit = 1 ∧ unit ≤ 2 * m := by
      rw [hdiv, hmod] at hcases
      rcases hcases with hzero | ⟨hone, hhalf⟩
      · rw [hzero, Nat.zero_mul] at hne
        exact absurd rfl hne
      · exact ⟨hone, hhalf⟩
    have hexact : unit = 2 * hiddenBit := by
      have hlt : 2 ^ k < 2 ^ 54 := by
        rw [← hpower, show 2 ^ 54 = 4 * hiddenBit from rfl]
        omega
      have hk54 : k < 54 := (Nat.pow_lt_pow_iff_right (by decide)).1 hlt
      rw [hpower, show k = 53 by omega]
      rfl
    rw [hone, hexact, Nat.one_mul]
    exact ⟨by omega, Nat.le_refl _, Nat.dvd_refl _⟩

private theorem exponent_pos_of_lastBit_dvd {exponent : Nat} (h : lastBit exponent ∣ 2 * hiddenBit) :
    0 < exponent := by
  have hle : 2 ^ (29 + (normalExponent - exponent)) ≤ 2 ^ 53 := Nat.le_of_dvd (by decide) h
  have hk := (Nat.pow_le_pow_iff_right (by decide)).1 hle
  simp only [normalExponent] at hk
  omega

/-- One exponent further on, the last bit is worth as much or half as much. -/
private theorem lastBit_succ_dvd {exponent : Nat} (h : lastBit exponent ∣ 2 * hiddenBit) :
    lastBit (exponent + 1) ∣ hiddenBit := by
  by_cases hnormal : normalExponent ≤ exponent
  · have hbits : 29 + (normalExponent - (exponent + 1)) = 29 := by omega
    simp only [lastBit, hbits]
    decide
  · have hbits : 29 + (normalExponent - exponent) = 29 + (normalExponent - (exponent + 1)) + 1 := by omega
    have htwice : lastBit exponent = 2 * lastBit (exponent + 1) := by
      simp only [lastBit, hbits, Nat.pow_eq]
      exact Nat.pow_succ'
    rw [htwice] at h
    exact Nat.dvd_of_mul_dvd_mul_left (by decide) h

/-- The magnitude that is nearest is not rounded again.  If it has got the next exponent, its mantissa is the hidden
bit alone. -/
private theorem roundMagnitude_roundMagnitude (m : Nat) : roundMagnitude (roundMagnitude m) = roundMagnitude m := by
  by_cases hspecial : m / hiddenBit = specialExponent
  · have hkept : roundMagnitude m = m := by simp [roundMagnitude, hspecial]
    rw [hkept, hkept]
  have hlow : hiddenBit ≤ hiddenBit + m % hiddenBit := by omega
  have hhigh : hiddenBit + m % hiddenBit < 2 * hiddenBit := by
    have := Nat.mod_lt m (show 0 < hiddenBit by decide)
    omega
  generalize hexponent : m / hiddenBit = exponent at hspecial
  generalize hmantissa : hiddenBit + m % hiddenBit = mantissa at hlow hhigh
  have hbounds := @rounded_bounds mantissa exponent hlow hhigh
  have hdvd : lastBit exponent ∣ roundDiv mantissa (lastBit exponent) * lastBit exponent := Nat.dvd_mul_left _ _
  have hround : roundMagnitude m =
      if roundDiv mantissa (lastBit exponent) * lastBit exponent = 0 then 0
      else if (exponent - 1) * hiddenBit + roundDiv mantissa (lastBit exponent) * lastBit exponent <
          largeExponent * hiddenBit then
        (exponent - 1) * hiddenBit + roundDiv mantissa (lastBit exponent) * lastBit exponent
      else specialExponent * hiddenBit := by
    simp only [roundMagnitude, hexponent, hmantissa, hspecial, ↓reduceIte]
  generalize roundDiv mantissa (lastBit exponent) * lastBit exponent = rounded at hbounds hdvd hround
  rw [hround]
  split
  · decide +kernel
  · rename_i hne
    split
    · rename_i hsmall
      obtain ⟨hrounded, hrounded', hlast⟩ := hbounds hne
      have hpos := exponent_pos_of_lastBit_dvd hlast
      rcases Nat.lt_or_eq_of_le hrounded' with hsame | hcarry
      · have hdiv : ((exponent - 1) * hiddenBit + rounded) / hiddenBit = exponent := by
          simp only [hiddenBit] at *
          omega
        have hmod : hiddenBit + ((exponent - 1) * hiddenBit + rounded) % hiddenBit = rounded := by
          simp only [hiddenBit] at *
          omega
        apply roundMagnitude_of_dvd _ hsmall
        · rw [hdiv, hmod]
          exact hdvd
        · rw [hdiv]
          exact hpos
      · have hnext : (exponent - 1) * hiddenBit + rounded = (exponent + 1) * hiddenBit := by
          simp only [hiddenBit] at *
          omega
        rw [hnext] at hsmall ⊢
        have hdiv : (exponent + 1) * hiddenBit / hiddenBit = exponent + 1 := Nat.mul_div_cancel _ (by decide)
        apply roundMagnitude_of_dvd _ hsmall
        · rw [hdiv, Nat.mul_mod_left]
          exact lastBit_succ_dvd hlast
        · rw [hdiv]
          omega
    · decide

private theorem roundMagnitude_cases (m : Nat) :
    m / hiddenBit = specialExponent ∧ roundMagnitude m = m ∨ roundMagnitude m < largeExponent * hiddenBit ∨
      roundMagnitude m = specialExponent * hiddenBit := by
  unfold roundMagnitude
  dsimp only
  split
  · exact .inl ⟨‹_›, rfl⟩
  · split
    · exact .inr (.inl (by decide))
    · split
      · exact .inr (.inl ‹_›)
      · exact .inr (.inr rfl)

private theorem roundMagnitude_lt {m : Nat} (h : m < signBit) : roundMagnitude m < signBit := by
  rcases roundMagnitude_cases m with ⟨-, hkept⟩ | hsmall | hinfinite
  · rw [hkept]
    exact h
  · exact Nat.lt_trans hsmall (by decide)
  · rw [hinfinite]
    decide

/-- The bits of the float nearest to `x`. -/
private def nearestBits (x : Float) : Nat :=
  x.toBits.toNat / signBit * signBit + roundMagnitude (x.toBits.toNat % signBit)

private theorem nearestBits_div (x : Float) : nearestBits x / signBit = x.toBits.toNat / signBit := by
  have hlt := roundMagnitude_lt (Nat.mod_lt x.toBits.toNat (show 0 < signBit by decide))
  rw [nearestBits, Nat.add_comm, Nat.add_mul_div_right _ _ (by decide), Nat.div_eq_of_lt hlt, Nat.zero_add]

private theorem nearestBits_mod (x : Float) :
    nearestBits x % signBit = roundMagnitude (x.toBits.toNat % signBit) := by
  have hlt := roundMagnitude_lt (Nat.mod_lt x.toBits.toNat (show 0 < signBit by decide))
  rw [nearestBits, Nat.add_comm, Nat.add_mul_mod_self_right, Nat.mod_eq_of_lt hlt]

/-- It has these bits: they are those of a number or of infinity, unless `x` is a NaN and they are its own. -/
private theorem toBits_nearest (x : Float) : (nearest x).toBits.toNat = nearestBits x := by
  have hx : x.toBits.toNat < 18446744073709551616 := x.toBits.toBitVec.isLt
  have hdiv := nearestBits_div x
  have hmod := nearestBits_mod x
  have hsplit := Nat.div_add_mod (nearestBits x) signBit
  have hsplit' := Nat.div_add_mod x.toBits.toNat signBit
  have hlt := roundMagnitude_lt (Nat.mod_lt x.toBits.toNat (show 0 < signBit by decide))
  have hword : (nearestBits x).toUInt64.toNat = nearestBits x := by
    simp only [signBit] at *
    simp only [Nat.toUInt64, UInt64.toNat_ofNat']
    omega
  have hvalid : Float.Model.Format.binary64.Valid (nearestBits x).toUInt64.toBitVec := by
    rcases roundMagnitude_cases (x.toBits.toNat % signBit) with ⟨-, hkept⟩ | hfinite
    · have hsame : (nearestBits x).toUInt64 = x.toBits := by
        apply UInt64.toNat_inj.1
        rw [hword, nearestBits, hkept]
        simp only [signBit] at *
        omega
      rw [hsame]
      exact x.toModel.valid
    · constructor
      intro hexponent hmantissa
      have hfield : nearestBits x / hiddenBit % 2048 = 2047 := by
        rw [← hword, ← UInt64.toNat_toBitVec, ← Binary64.toNat_unpackExponent, hexponent]
        rfl
      have hfraction : nearestBits x % hiddenBit ≠ 0 := by
        rw [← hword, ← UInt64.toNat_toBitVec, ← Binary64.toNat_unpackMantissa]
        exact fun hzero => hmantissa (BitVec.eq_of_toNat_eq hzero)
      simp only [signBit, hiddenBit, largeExponent, specialExponent] at *
      omega
  rw [show nearest x = Float.ofBits (nearestBits x).toUInt64 from rfl, Binary64.toBits_ofBits hvalid, hword]

private theorem nearest_nearest (x : Float) : nearest (nearest x) = nearest x := by
  have hbits : nearestBits (nearest x) = nearestBits x := by
    rw [nearestBits, toBits_nearest, nearestBits_div, nearestBits_mod, roundMagnitude_roundMagnitude]
    rfl
  exact congrArg (fun n : Nat => Float.ofBits n.toUInt64) hbits

end Binary32

/-- What has been rounded is not rounded again. -/
theorem FloatType.round_round (t : FloatType) (x : Float) : t.round (t.round x) = t.round x := by
  cases t with
  | f32 => exact Binary32.nearest_nearest x
  | f64 => rfl

end BraceScript
