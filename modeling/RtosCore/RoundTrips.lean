import RtosCore.Conversions

/-! There and back again. A count of ticks told in milliseconds, and read as ticks again, is the
same count exactly when it is a whole number of milliseconds; otherwise at most the two floors are
lost. The other way about is the same with the units changed. -/

namespace RtosCore

section Floors

variable {p q n : ℕ}

theorem there_and_back_le (pos : 0 < p) : n * p / q * q / p ≤ n :=
  calc n * p / q * q / p ≤ n * p / p := Nat.div_le_div_right (Nat.div_mul_le_self _ _)
    _ = n := Nat.mul_div_cancel _ pos

/-- Nothing is lost when the first floor loses nothing. -/
theorem there_and_back_eq_iff (pos : 0 < p) : n * p / q * q / p = n ↔ q ∣ n * p := by
  have floor := Nat.div_mul_le_self (n * p) q
  constructor
  · intro back
    have whole : n * p ≤ n * p / q * q := by
      conv_lhs => rw [← back]
      exact Nat.div_mul_le_self _ _
    exact Dvd.intro_left _ (le_antisymm floor whole)
  · intro divides
    rw [Nat.div_mul_cancel divides, Nat.mul_div_cancel _ pos]

theorem there_and_back_lost (pos : 0 < p) (pos' : 0 < q) :
    n * p + 2 ≤ n * p / q * q / p * p + p + q := by
  have first := Nat.div_add_mod (n * p) q
  have second := Nat.div_add_mod (n * p / q * q) p
  have rest := Nat.mod_lt (n * p) pos'
  have rest' := Nat.mod_lt (n * p / q * q) pos
  rw [mul_comm q] at first
  rw [mul_comm p] at second
  omega

end Floors

namespace Config

variable {C : Config} {ms ticks : UInt64}

structure RoundTrips (C : Config) (ms ticks : UInt64) : Prop where
  ticksKept : C.msToTicks (C.ticksToMs ticks) = ticks ↔ ticks ≤ C.Tick.MAX ∧
    if ticks.toNat * 1000 < 2 ^ 64 then C.TICK_RATE_HZ.toNat ∣ ticks.toNat * 1000
    else C.TICK_RATE_HZ ≠ 1 ∧ ticks.toNat = 2 ^ 64 - 1
  ticksLost : ticks ≤ C.Tick.MAX → ticks.toNat * 1000 < 2 ^ 64 →
    C.msToTicks (C.ticksToMs ticks) ≤ ticks ∧ ticks.toNat * 1000 + 2 ≤
      (C.msToTicks (C.ticksToMs ticks)).toNat * 1000 + 1000 + C.TICK_RATE_HZ.toNat
  msKept : C.ticksToMs (C.msToTicks ms) = ms ↔
    if ms.toNat * C.TICK_RATE_HZ.toNat < 2 ^ 64 then
      1000 ∣ ms.toNat * C.TICK_RATE_HZ.toNat ∧
        ms.toNat * C.TICK_RATE_HZ.toNat ≤ C.Tick.MAX.toNat * 1000
    else C.Tick = .bits64 ∧ ms.toNat = 2 ^ 64 - 1
  msLost : ms.toNat * C.TICK_RATE_HZ.toNat < 2 ^ 64 →
    ms.toNat * C.TICK_RATE_HZ.toNat / 1000 ≤ C.Tick.MAX.toNat →
    C.ticksToMs (C.msToTicks ms) ≤ ms ∧ ms.toNat * C.TICK_RATE_HZ.toNat + 2 ≤
      (C.ticksToMs (C.msToTicks ms)).toNat * C.TICK_RATE_HZ.toNat + C.TICK_RATE_HZ.toNat + 1000

section Trips

variable (positive : 0 < C.TICK_RATE_HZ)

include positive

theorem rate_toNat_pos : 0 < C.TICK_RATE_HZ.toNat := UInt32.lt_iff_toNat_lt.mp positive

theorem toNat_ticks_back (fits : ticks.toNat * 1000 < 2 ^ 64) :
    (C.msToTicks (C.ticksToMs ticks)).toNat = min
      (ticks.toNat * 1000 / C.TICK_RATE_HZ.toNat * C.TICK_RATE_HZ.toNat / 1000)
      C.Tick.MAX.toNat := by
  have small : ticks.toNat * 1000 / C.TICK_RATE_HZ.toNat ≤ 2 ^ 64 - 1 :=
    (Nat.div_le_self _ _).trans (Nat.le_sub_one_of_lt fits)
  have there : (C.ticksToMs ticks).toNat = ticks.toNat * 1000 / C.TICK_RATE_HZ.toNat := by
    rw [C.toNat_ticksToMs ticks positive, scaledAtOnce, if_pos fits, min_eq_left small]
  have product := (Nat.div_mul_le_self (ticks.toNat * 1000) C.TICK_RATE_HZ.toNat).trans_lt fits
  rw [toNat_msToTicks, there, scaledAtOnce, if_pos product]

theorem toNat_ticks_back_saturated (large : ¬ ticks.toNat * 1000 < 2 ^ 64) :
    (C.msToTicks (C.ticksToMs ticks)).toNat = if C.TICK_RATE_HZ = 1 then
      min ((2 ^ 64 - 1) / 1000) C.Tick.MAX.toNat else C.Tick.MAX.toNat := by
  have pos := rate_toNat_pos positive
  have there : (C.ticksToMs ticks).toNat = 2 ^ 64 - 1 := by
    rw [C.toNat_ticksToMs ticks positive, scaledAtOnce, if_neg large]
  have one : C.TICK_RATE_HZ = 1 ↔ C.TICK_RATE_HZ.toNat = 1 := UInt32.toNat_inj.symm
  rw [toNat_msToTicks, there, scaledAtOnce, if_congr one rfl rfl]
  by_cases single : C.TICK_RATE_HZ.toNat = 1
  · rw [single, if_pos (by decide), if_pos rfl, Nat.mul_one]
  · rw [if_neg (by omega), if_neg single]

theorem ticks_kept_iff : C.msToTicks (C.ticksToMs ticks) = ticks ↔ ticks ≤ C.Tick.MAX ∧
    if ticks.toNat * 1000 < 2 ^ 64 then C.TICK_RATE_HZ.toNat ∣ ticks.toNat * 1000
    else C.TICK_RATE_HZ ≠ 1 ∧ ticks.toNat = 2 ^ 64 - 1 := by
  have last := C.Tick.MAX.toNat_lt
  rw [← UInt64.toNat_inj, UInt64.le_iff_toNat_le]
  by_cases fits : ticks.toNat * 1000 < 2 ^ 64
  · rw [toNat_ticks_back positive fits, if_pos fits, ← there_and_back_eq_iff (by decide : 0 < 1000)]
    have le := there_and_back_le (n := ticks.toNat) (q := C.TICK_RATE_HZ.toNat)
      (by decide : 0 < 1000)
    omega
  · rw [toNat_ticks_back_saturated positive fits, if_neg fits]
    split_ifs with single
    · rw [single]
      refine iff_of_false (fun same => ?_) fun both => both.2.1 rfl
      rw [← same] at fits
      have small := min_le_left ((2 ^ 64 - 1) / 1000) C.Tick.MAX.toNat
      omega
    · constructor
      · intro same
        refine ⟨same.ge, single, ?_⟩
        have bound := ticks.toNat_lt
        revert same fits
        cases C.Tick with
        | bits16 =>
          have top : TickWidth.bits16.MAX.toNat = 2 ^ 16 - 1 := rfl
          omega
        | bits32 =>
          have top : TickWidth.bits32.MAX.toNat = 2 ^ 32 - 1 := rfl
          omega
        | bits64 =>
          have top : TickWidth.bits64.MAX.toNat = 2 ^ 64 - 1 := rfl
          omega
      · rintro ⟨le, -, most⟩
        omega

theorem toNat_ms_back (fits : ms.toNat * C.TICK_RATE_HZ.toNat < 2 ^ 64) :
    (C.ticksToMs (C.msToTicks ms)).toNat =
      min (ms.toNat * C.TICK_RATE_HZ.toNat / 1000) C.Tick.MAX.toNat * 1000 /
        C.TICK_RATE_HZ.toNat := by
  have there : (C.msToTicks ms).toNat =
      min (ms.toNat * C.TICK_RATE_HZ.toNat / 1000) C.Tick.MAX.toNat := by
    rw [toNat_msToTicks, scaledAtOnce, if_pos fits]
  have product : min (ms.toNat * C.TICK_RATE_HZ.toNat / 1000) C.Tick.MAX.toNat * 1000 < 2 ^ 64 :=
    calc _ ≤ ms.toNat * C.TICK_RATE_HZ.toNat / 1000 * 1000 :=
          Nat.mul_le_mul_right _ (min_le_left _ _)
      _ ≤ ms.toNat * C.TICK_RATE_HZ.toNat := Nat.div_mul_le_self _ _
      _ < 2 ^ 64 := fits
  rw [C.toNat_ticksToMs _ positive, there, scaledAtOnce, if_pos product]
  exact min_eq_left ((Nat.div_le_self _ _).trans (Nat.le_sub_one_of_lt product))

theorem toNat_ms_back_saturated (large : ¬ ms.toNat * C.TICK_RATE_HZ.toNat < 2 ^ 64) :
    (C.ticksToMs (C.msToTicks ms)).toNat = if C.Tick.MAX.toNat * 1000 < 2 ^ 64 then
      C.Tick.MAX.toNat * 1000 / C.TICK_RATE_HZ.toNat else 2 ^ 64 - 1 := by
  have there : (C.msToTicks ms).toNat = C.Tick.MAX.toNat := by
    rw [toNat_msToTicks, scaledAtOnce, if_neg large]
  rw [C.toNat_ticksToMs _ positive, there, scaledAtOnce]
  split_ifs with fits
  · exact min_eq_left ((Nat.div_le_self _ _).trans (Nat.le_sub_one_of_lt fits))
  · rfl

theorem ms_kept_iff : C.ticksToMs (C.msToTicks ms) = ms ↔
    if ms.toNat * C.TICK_RATE_HZ.toNat < 2 ^ 64 then
      1000 ∣ ms.toNat * C.TICK_RATE_HZ.toNat ∧
        ms.toNat * C.TICK_RATE_HZ.toNat ≤ C.Tick.MAX.toNat * 1000
    else C.Tick = .bits64 ∧ ms.toNat = 2 ^ 64 - 1 := by
  have pos := rate_toNat_pos positive
  rw [← UInt64.toNat_inj]
  by_cases fits : ms.toNat * C.TICK_RATE_HZ.toNat < 2 ^ 64
  · rw [toNat_ms_back positive fits, if_pos fits]
    have floor := Nat.div_mul_le_self (ms.toNat * C.TICK_RATE_HZ.toNat) 1000
    constructor
    · intro back
      have whole : ms.toNat * C.TICK_RATE_HZ.toNat ≤
          min (ms.toNat * C.TICK_RATE_HZ.toNat / 1000) C.Tick.MAX.toNat * 1000 := by
        conv_lhs => rw [← back]
        exact Nat.div_mul_le_self _ _
      constructor
      · refine Dvd.intro_left _ (le_antisymm floor (whole.trans ?_))
        exact Nat.mul_le_mul_right _ (min_le_left _ _)
      · exact whole.trans (Nat.mul_le_mul_right _ (min_le_right _ _))
    · rintro ⟨divides, within⟩
      have narrow : ms.toNat * C.TICK_RATE_HZ.toNat / 1000 ≤ C.Tick.MAX.toNat :=
        Nat.div_le_of_le_mul (mul_comm _ 1000 ▸ within)
      rw [min_eq_left narrow]
      exact (there_and_back_eq_iff pos).mpr divides
  · rw [toNat_ms_back_saturated positive fits, if_neg fits]
    have below : ∀ top, top * 1000 < 2 ^ 64 → top * 1000 / C.TICK_RATE_HZ.toNat ≠ ms.toNat := by
      intro top small same
      have back := Nat.div_mul_le_self (top * 1000) C.TICK_RATE_HZ.toNat
      rw [same] at back
      omega
    cases C.Tick with
    | bits16 =>
      rw [if_pos (by decide)]
      exact iff_of_false (below _ (by decide)) fun both => TickWidth.noConfusion both.1
    | bits32 =>
      rw [if_pos (by decide)]
      exact iff_of_false (below _ (by decide)) fun both => TickWidth.noConfusion both.1
    | bits64 =>
      rw [if_neg (by decide), and_iff_right rfl]
      exact eq_comm

theorem roundTrips : C.RoundTrips ms ticks where
  ticksKept := ticks_kept_iff positive
  ticksLost narrow fits := by
    rw [UInt64.le_iff_toNat_le] at narrow ⊢
    have le := there_and_back_le (n := ticks.toNat) (q := C.TICK_RATE_HZ.toNat)
      (by decide : 0 < 1000)
    have lost := there_and_back_lost (n := ticks.toNat) (by decide : 0 < 1000)
      (rate_toNat_pos positive)
    rw [toNat_ticks_back positive fits, min_eq_left (le.trans narrow)]
    exact ⟨le, lost⟩
  msKept := ms_kept_iff positive
  msLost fits narrow := by
    rw [UInt64.le_iff_toNat_le, toNat_ms_back positive fits, min_eq_left narrow]
    have pos := rate_toNat_pos positive
    exact ⟨there_and_back_le pos, there_and_back_lost pos (by decide)⟩

end Trips

end Config

end RtosCore
