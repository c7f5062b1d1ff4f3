import RtosCore.ArenaCode
import Mathlib.Data.Nat.Bitwise

/-! The word a C caller holds: the generation above bit 16, the index below. -/

namespace RtosCore

namespace Handle

variable {K : Kind} {h : Handle K}

def Fits (h : Handle K) : Prop := h.index.toNat < 2 ^ 16 ∧ h.generation.toNat < 2 ^ 16

instance : Decidable h.Fits := inferInstanceAs (Decidable (_ ∧ _))

theorem toNat_toRaw (fits : h.Fits) :
    h.toRaw.toNat = 2 ^ 16 * h.generation.toNat + h.index.toNat := by
  obtain ⟨index, generation⟩ := fits
  have shift : (16 : UInt32).toNat = 16 := rfl
  rw [toRaw, UInt32.toNat_or, UInt32.toNat_shiftLeft, shift, Nat.mod_eq_of_lt (by decide : 16 < 32),
    Nat.mod_eq_of_lt (by rw [Nat.shiftLeft_eq]; omega), Nat.shiftLeft_eq, Nat.mul_comm]
  exact (Nat.two_pow_add_eq_or_of_lt index _).symm

theorem index_fromRaw (w : UInt32) : (fromRaw w : Handle K).index.toNat = w.toNat % 2 ^ 16 := by
  change (w &&& 0xFFFF).toNat = _
  rw [UInt32.toNat_and]
  exact Nat.and_two_pow_sub_one_eq_mod _ 16

theorem generation_fromRaw (w : UInt32) :
    (fromRaw w : Handle K).generation.toNat = w.toNat / 2 ^ 16 := by
  have shift : (16 : UInt32).toNat = 16 := rfl
  change (w >>> 16).toNat = _
  rw [UInt32.toNat_shiftRight, shift, Nat.mod_eq_of_lt (by decide : 16 < 32),
    Nat.shiftRight_eq_div_pow]

theorem fits_fromRaw (w : UInt32) : (fromRaw w : Handle K).Fits := by
  have bound := UInt32.toNat_lt w
  refine ⟨?_, ?_⟩
  · rw [index_fromRaw]
    exact Nat.mod_lt _ (by decide)
  · rw [generation_fromRaw]
    omega

theorem fromRaw_toRaw (fits : h.Fits) : fromRaw h.toRaw = h := by
  have word := toNat_toRaw fits
  obtain ⟨index, generation⟩ := fits
  ext
  · rw [index_fromRaw, word]
    omega
  · rw [generation_fromRaw, word]
    omega

theorem toRaw_fromRaw (w : UInt32) : (fromRaw w : Handle K).toRaw = w := by
  rw [← UInt32.toNat_inj, toNat_toRaw (fits_fromRaw w), index_fromRaw, generation_fromRaw]
  omega

theorem fromRaw_zero : (fromRaw 0 : Handle K) = NULL := by
  ext <;> rfl

/-- Only a generation of zero makes the word of slot 0 the null word. -/
theorem toRaw_ne_zero (fits : h.Fits) (issued : 0 < h.generation.toNat) : h.toRaw ≠ 0 := by
  intro zero
  have word := toNat_toRaw fits
  rw [zero] at word
  change 0 = _ at word
  omega

end Handle

end RtosCore
