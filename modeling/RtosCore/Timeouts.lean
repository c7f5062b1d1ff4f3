import Mathlib.Data.ENat.Basic
import RtosCore.Conversions

/-! What a timeout means: how many ticks it lasts at most, which may be no number. In the count that
stands for it `0` and the width's maximum are taken, and neither a long wait nor one of no ticks
keeps clear of them. -/

namespace RtosCore

theorem TickWidth.not_MAX_le_zero (W : TickWidth) : ¬ W.MAX ≤ 0 := by
  cases W <;> decide

namespace Timeout

variable (C : Config) (d : Duration) (n : UInt64) (x : Timeout)

def lasts : Timeout → ℕ∞
  | none => 0
  | ticks n => (n.toNat : ℕ)
  | forever => ⊤

theorem lasts_eq_top_iff : x.lasts = ⊤ ↔ x = forever := by
  cases x <;> simp [lasts]

theorem blocks_iff : x.blocks = true ↔ x ≠ none := by
  cases x <;> simp [blocks]

theorem lasts_fromTicks :
    (fromTicks C n).lasts = if C.Tick.MAX ≤ n then ⊤ else ((n.toNat : ℕ) : ℕ∞) := by
  rw [fromTicks]
  by_cases zero : n = 0
  · rw [if_pos zero, zero, if_neg C.Tick.not_MAX_le_zero]
    rfl
  · rw [if_neg zero]
    split_ifs <;> rfl

theorem fromTicks_eq_forever_iff : fromTicks C n = forever ↔ C.Tick.MAX ≤ n := by
  rw [← lasts_eq_top_iff, lasts_fromTicks]
  split_ifs with reached <;> simp [reached]

theorem blocks_fromTicks : (fromTicks C n).blocks = true ↔ n ≠ 0 := by
  rw [fromTicks]
  split_ifs with zero <;> simp [blocks, zero]

section After

/-- Saturation is the maximum, which is no number of ticks. -/
theorem max_le_toTicks_iff : C.Tick.MAX ≤ d.toTicks C ↔
    C.Tick.MAX.toNat * 1000000 ≤ d.micros.toNat * C.TICK_RATE_HZ.toNat := by
  have capped : (d.toTicks C).toNat ≤ C.Tick.MAX.toNat := by
    rw [Duration.toTicks_scaled]
    exact min_le_right _ _
  rw [UInt64.le_iff_toNat_le, capped.ge_iff_eq, Duration.toTicks_scaled]
  exact scaled_eq_top_iff (by decide)

theorem lasts_after : (after C d).lasts =
    if C.Tick.MAX.toNat * 1000000 ≤ d.micros.toNat * C.TICK_RATE_HZ.toNat then ⊤
    else ((d.micros.toNat * C.TICK_RATE_HZ.toNat / 1000000 : ℕ) : ℕ∞) := by
  rw [after, lasts_fromTicks]
  refine if_ctx_congr (max_le_toTicks_iff C d) (fun _ => rfl) fun short => ?_
  rw [Duration.toTicks_scaled, scaled, min_eq_left]
  exact Nat.div_le_of_le_mul (by omega)

theorem after_ne_forever_iff : after C d ≠ forever ↔
    d.micros.toNat * C.TICK_RATE_HZ.toNat < C.Tick.MAX.toNat * 1000000 := by
  rw [after, ne_eq, fromTicks_eq_forever_iff, max_le_toTicks_iff, not_le]

/-- No span is that long at 64 bits with less than a tick a microsecond. Anywhere else one is, but
at a rate of `0`. -/
theorem forall_after_ne_forever_iff : (∀ d, after C d ≠ forever) ↔
    C.TICK_RATE_HZ = 0 ∨ C.Tick = .bits64 ∧ C.TICK_RATE_HZ.toNat < 1000000 := by
  have zero : C.TICK_RATE_HZ = 0 ↔ C.TICK_RATE_HZ.toNat = 0 := UInt32.toNat_inj.symm
  have longest : (∀ d, after C d ≠ forever) ↔
      (2 ^ 64 - 1) * C.TICK_RATE_HZ.toNat < C.Tick.MAX.toNat * 1000000 := by
    constructor
    · exact fun all => (after_ne_forever_iff C ⟨0xFFFFFFFFFFFFFFFF⟩).mp (all _)
    · intro short d
      rw [after_ne_forever_iff]
      exact (Nat.mul_le_mul_right _ (Nat.le_sub_one_of_lt d.micros.toNat_lt)).trans_lt short
  rw [longest, zero]
  cases C.Tick with
  | bits16 =>
    have top : TickWidth.bits16.MAX.toNat = 2 ^ 16 - 1 := rfl
    simp only [top, reduceCtorEq, false_and, or_false]
    omega
  | bits32 =>
    have top : TickWidth.bits32.MAX.toNat = 2 ^ 32 - 1 := rfl
    simp only [top, reduceCtorEq, false_and, or_false]
    omega
  | bits64 =>
    have top : TickWidth.bits64.MAX.toNat = 2 ^ 64 - 1 := rfl
    simp only [top, true_and]
    omega

end After

section RoundTrip

theorem min_MAX_eq_zero_iff (W : TickWidth) {a : UInt64} : min a W.MAX = 0 ↔ a = 0 := by
  have pos : 0 < W.MAX.toNat := UInt64.lt_iff_toNat_lt.mp (UInt64.not_le.mp W.not_MAX_le_zero)
  rw [← UInt64.toNat_inj, ← UInt64.toNat_inj, UInt64.toNat_min, UInt64.toNat_zero]
  omega

theorem roundTrip_eq_forever_iff : fromTicks C (x.toTicks C) = forever ↔
    x = forever ∨ ∃ n, x = ticks n ∧ C.Tick.MAX ≤ n := by
  rw [fromTicks_eq_forever_iff]
  cases x with
  | none => simp [toTicks, C.Tick.not_MAX_le_zero]
  | ticks n => simp [toTicks, le_min_self_iff]
  | forever => simp [toTicks]

theorem blocks_roundTrip : (fromTicks C (x.toTicks C)).blocks = true ↔
    x ≠ none ∧ x ≠ ticks 0 := by
  rw [blocks_fromTicks]
  cases x with
  | none => simp [toTicks]
  | ticks n => simp [toTicks, min_MAX_eq_zero_iff]
  | forever =>
    have some : C.Tick.MAX ≠ 0 := fun zero => C.Tick.not_MAX_le_zero (zero ▸ UInt64.le_refl _)
    simp [toTicks, some]

theorem forever_kept_iff : (fromTicks C (x.toTicks C) = forever ↔ x = forever) ↔
    ∀ n, x = ticks n → n < C.Tick.MAX := by
  rw [roundTrip_eq_forever_iff]
  cases x with
  | none => simp
  | ticks n => simp
  | forever => simp

theorem lasts_kept_iff : (fromTicks C (x.toTicks C)).lasts = x.lasts ↔
    ∀ n, x = ticks n → n < C.Tick.MAX := by
  rw [lasts_fromTicks]
  cases x with
  | none => simp [toTicks, lasts, C.Tick.not_MAX_le_zero]
  | forever => simp [toTicks, lasts]
  | ticks n =>
    rw [toTicks]
    by_cases reached : C.Tick.MAX ≤ n
    · rw [if_pos (le_min_self_iff.mpr reached)]
      simp [lasts, reached]
    · rw [if_neg (mt le_min_self_iff.mp reached)]
      have below := UInt64.not_le.mp reached
      have kept : (min n C.Tick.MAX).toNat = n.toNat := by
        rw [UInt64.toNat_min, min_eq_left (UInt64.lt_iff_toNat_lt.mp below).le]
      simp [lasts, below, kept]

theorem blocks_kept_iff : (fromTicks C (x.toTicks C)).blocks = x.blocks ↔ x ≠ ticks 0 := by
  rw [Bool.eq_iff_iff, blocks_roundTrip, blocks_iff]
  cases x <;> simp

end RoundTrip

structure KeepsMeaning (C : Config) (d : Duration) (x : Timeout) : Prop where
  finite : after C d ≠ forever
  forever : fromTicks C (x.toTicks C) = forever ↔ x = forever
  blocks : (fromTicks C (x.toTicks C)).blocks = x.blocks

theorem keepsMeaning_iff : KeepsMeaning C d x ↔
    d.micros.toNat * C.TICK_RATE_HZ.toNat < C.Tick.MAX.toNat * 1000000 ∧
      ∀ n, x = ticks n → 0 < n ∧ n < C.Tick.MAX := by
  constructor
  · intro kept
    refine ⟨(after_ne_forever_iff C d).mp kept.finite, fun n is => ⟨?_, ?_⟩⟩
    · have some := (blocks_kept_iff C x).mp kept.blocks
      rw [is, ne_eq, ticks.injEq] at some
      exact UInt64.pos_iff_ne_zero.mpr some
    · exact (forever_kept_iff C x).mp kept.forever n is
  · rintro ⟨short, counted⟩
    refine ⟨(after_ne_forever_iff C d).mpr short, ?_, ?_⟩
    · exact (forever_kept_iff C x).mpr fun n is => (counted n is).2
    · rw [blocks_kept_iff]
      exact fun is => absurd (counted 0 is).1 (UInt64.lt_irrefl 0)

end Timeout

open Timeout

/-- A wait keeps its meaning exactly while its count is none of the two that are taken. -/
theorem timeout_meaning_kept_iff (C : Config) (d : Duration) (x : Timeout) :
    (after C d ≠ forever ↔
        d.micros.toNat * C.TICK_RATE_HZ.toNat < C.Tick.MAX.toNat * 1000000) ∧
      ((fromTicks C (x.toTicks C) = forever ↔ x = forever) ↔
        ∀ n, x = ticks n → n < C.Tick.MAX) ∧
      ((fromTicks C (x.toTicks C)).blocks = x.blocks ↔ x ≠ ticks 0) ∧
      (KeepsMeaning C d x ↔
        d.micros.toNat * C.TICK_RATE_HZ.toNat < C.Tick.MAX.toNat * 1000000 ∧
          ∀ n, x = ticks n → 0 < n ∧ n < C.Tick.MAX) :=
  ⟨after_ne_forever_iff C d, forever_kept_iff C x, blocks_kept_iff C x, keepsMeaning_iff C d x⟩

theorem timeout_meaning_lost :
    after DefaultConfig (Duration.secs 42949673) = forever ∧
    after { DefaultConfig with Tick := .bits16, TICK_RATE_HZ := 1000 } (Duration.millis 65535) =
      forever ∧
    fromTicks DefaultConfig ((ticks 0xFFFFFFFF).toTicks DefaultConfig) = forever ∧
    (ticks 0).blocks = true ∧
    (fromTicks DefaultConfig ((ticks 0).toTicks DefaultConfig)).blocks = false ∧
    ¬ ∀ (C : Config) (d : Duration) (x : Timeout), 0 < C.TICK_RATE_HZ → KeepsMeaning C d x := by
  refine ⟨by decide, by decide, by decide, by decide, by decide, fun kept => ?_⟩
  exact (kept DefaultConfig (Duration.secs 42949673) .none (by decide)).finite (by decide)

end RtosCore
