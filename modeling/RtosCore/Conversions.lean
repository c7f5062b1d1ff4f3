import RtosCore.TimeCode

/-! Milliseconds, durations and ticks. `Duration.toTicks` scales in parts and is exact at every
width. `msToTicks` and `ticksToMs` multiply first: between the first product that is no word and the
first that is out of reach for the result, they give up on a count that has its place. -/

namespace RtosCore

theorem Config.rate_lt (C : Config) : C.TICK_RATE_HZ.toNat < 2 ^ 32 := C.TICK_RATE_HZ.toNat_lt

theorem Config.rate_pos {C : Config} (valid : C.validate = .ok ()) : 0 < C.TICK_RATE_HZ := by
  rw [validate] at valid
  split_ifs at valid with ok
  exact ok.1

theorem defaultConfig_valid : DefaultConfig.validate = .ok () := by
  decide

theorem posixDemoConfig_valid (width : ℕ) : (PosixDemoConfig width).validate = .ok () := by
  by_cases wide : width = 64
  · rw [PosixDemoConfig, if_pos wide]
    decide
  · rw [PosixDemoConfig, if_neg wide]
    decide

namespace Duration

variable (C : Config) (d : Duration)

theorem rest_lt : d.micros.toNat % 1000000 * C.TICK_RATE_HZ.toNat < 2 ^ 64 :=
  calc d.micros.toNat % 1000000 * C.TICK_RATE_HZ.toNat ≤ 1000000 * 2 ^ 32 :=
        Nat.mul_le_mul (Nat.mod_lt _ (by decide)).le C.rate_lt.le
    _ < 2 ^ 64 := by decide

theorem toNat_fromSecs : (d.fromSecs C).map UInt64.toNat =
    if d.micros.toNat / 1000000 * C.TICK_RATE_HZ.toNat < 2 ^ 64 then
      some (d.micros.toNat / 1000000 * C.TICK_RATE_HZ.toNat)
    else none :=
  toNat_checkedMul _ _

theorem toNat_fromRem : (d.fromRem C).map UInt64.toNat =
    some (d.micros.toNat % 1000000 * C.TICK_RATE_HZ.toNat / 1000000) := by
  have product : (checkedMul (d.micros % 1000000) C.TICK_RATE_HZ.toUInt64).map UInt64.toNat =
      some (d.micros.toNat % 1000000 * C.TICK_RATE_HZ.toNat) :=
    (toNat_checkedMul _ _).trans (if_pos (d.rest_lt C))
  obtain ⟨n, rest, toNat_n⟩ := Option.map_eq_some_iff.mp product
  rw [fromRem, rest, Option.map_some, Option.map_some, UInt64.toNat_div, toNat_n]
  rfl

theorem toNat_toTicks : (d.toTicks C).toNat =
    scaledInParts (2 ^ 64) C.Tick.MAX.toNat C.TICK_RATE_HZ.toNat 1000000 d.micros.toNat := by
  obtain ⟨b, rest, toNat_b⟩ := Option.map_eq_some_iff.mp (d.toNat_fromRem C)
  have whole := d.toNat_fromSecs C
  by_cases fits : d.micros.toNat / 1000000 * C.TICK_RATE_HZ.toNat < 2 ^ 64
  · rw [if_pos fits] at whole
    obtain ⟨a, secs, toNat_a⟩ := Option.map_eq_some_iff.mp whole
    rw [toTicks, secs, rest, scaledInParts, if_pos ⟨fits, d.rest_lt C⟩]
    rw [UInt64.toNat_min, toNat_saturatingAdd, toNat_a, toNat_b]
  · rw [if_neg fits, Option.map_eq_none_iff] at whole
    rw [toTicks, whole, scaledInParts, if_neg (fun both => fits both.1)]

theorem toTicks_scaled : (d.toTicks C).toNat =
    scaled C.Tick.MAX.toNat C.TICK_RATE_HZ.toNat 1000000 d.micros.toNat := by
  rw [toNat_toTicks]
  refine scaledInParts_eq (by decide) ?_ C.Tick.MAX.toNat_lt
  calc 1000000 * C.TICK_RATE_HZ.toNat ≤ 1000000 * 2 ^ 32 := Nat.mul_le_mul_left _ C.rate_lt.le
    _ ≤ 2 ^ 64 := by decide

variable {ms : UInt64}

theorem micros_millis (fits : ms.toNat * 1000 < 2 ^ 64) :
    (millis ms).micros.toNat = 1000 * ms.toNat := by
  rw [millis, toNat_saturatingMul, mul_comm 1000]
  exact min_eq_left (Nat.le_sub_one_of_lt fits)

theorem asMillis_millis (fits : ms.toNat * 1000 < 2 ^ 64) : (millis ms).asMillis = ms := by
  rw [← UInt64.toNat_inj, asMillis, UInt64.toNat_div, micros_millis fits]
  exact Nat.mul_div_cancel_left _ (by decide)

structure FloorsExactly (C : Config) (d : Duration) : Prop where
  floored : (d.toTicks C).toNat =
    min (d.micros.toNat * C.TICK_RATE_HZ.toNat / 1000000) C.Tick.MAX.toNat
  monotone : ∀ e : Duration, d.micros ≤ e.micros → d.toTicks C ≤ e.toTicks C
  neverUp : (d.toTicks C).toNat * 1000000 ≤ d.micros.toNat * C.TICK_RATE_HZ.toNat
  fromSecs : (d.fromSecs C).map UInt64.toNat =
    if d.micros.toNat / 1000000 * C.TICK_RATE_HZ.toNat < 2 ^ 64 then
      some (d.micros.toNat / 1000000 * C.TICK_RATE_HZ.toNat)
    else none
  fromRem : (d.fromRem C).map UInt64.toNat =
    some (d.micros.toNat % 1000000 * C.TICK_RATE_HZ.toNat / 1000000)
  sum : ∀ a b, d.fromSecs C = some a → d.fromRem C = some b → (saturatingAdd a b).toNat =
    min (d.micros.toNat * C.TICK_RATE_HZ.toNat / 1000000) (2 ^ 64 - 1)
  refused : d.fromSecs C = none →
    C.Tick.MAX.toNat ≤ d.micros.toNat * C.TICK_RATE_HZ.toNat / 1000000

theorem floorsExactly : FloorsExactly C d where
  floored := d.toTicks_scaled C
  monotone e longer := by
    rw [UInt64.le_iff_toNat_le, toTicks_scaled, toTicks_scaled]
    exact scaled_mono (UInt64.le_iff_toNat_le.mp longer)
  neverUp := by
    rw [toTicks_scaled]
    exact scaled_mul_le
  fromSecs := d.toNat_fromSecs C
  fromRem := d.toNat_fromRem C
  sum a b secs rest := by
    have toNat_b := d.toNat_fromRem C
    have toNat_a := d.toNat_fromSecs C
    rw [rest, Option.map_some, Option.some_inj] at toNat_b
    rw [secs, Option.map_some] at toNat_a
    split_ifs at toNat_a
    rw [Option.some_inj] at toNat_a
    rw [toNat_saturatingAdd, toNat_a, toNat_b, floor_in_parts (by decide)]
  refused none := by
    have whole := d.toNat_fromSecs C
    rw [none, Option.map_none] at whole
    split_ifs at whole with fits
    calc C.Tick.MAX.toNat ≤ 2 ^ 64 := C.Tick.MAX.toNat_lt.le
      _ ≤ d.micros.toNat / 1000000 * C.TICK_RATE_HZ.toNat := not_lt.mp fits
      _ ≤ d.micros.toNat * C.TICK_RATE_HZ.toNat / 1000000 := by
        rw [← floor_in_parts (by decide)]
        exact Nat.le_add_right _ _

end Duration

/-- At every rate and width, a span comes to the floor of its ticks or to the most there are. -/
theorem duration_to_ticks_is_exact (C : Config) (d : Duration) : d.FloorsExactly C :=
  d.floorsExactly C

example : (Duration.millis 15).toTicks DefaultConfig = 1 := by decide

namespace Config

variable (C : Config) (ms ticks : UInt64)

theorem toNat_msToTicks : (C.msToTicks ms).toNat =
    scaledAtOnce (2 ^ 64) C.Tick.MAX.toNat C.TICK_RATE_HZ.toNat 1000 ms.toNat := by
  rw [msToTicks, elim_checkedMul, UInt64.toNat_min, scaledAtOnce, UInt32.toNat_toUInt64]
  split_ifs with fits
  · rw [UInt64.toNat_div, toNat_mul_of_lt fits]
    rfl
  · exact min_self _

theorem toNat_ticksToMs (positive : 0 < C.TICK_RATE_HZ) : (C.ticksToMs ticks).toNat =
    scaledAtOnce (2 ^ 64) (2 ^ 64 - 1) 1000 C.TICK_RATE_HZ.toNat ticks.toNat := by
  have pos : 0 < C.TICK_RATE_HZ.toNat := UInt32.lt_iff_toNat_lt.mp positive
  have rate : (max C.TICK_RATE_HZ.toUInt64 1).toNat = C.TICK_RATE_HZ.toNat := by
    rw [UInt64.toNat_max, UInt32.toNat_toUInt64]
    exact max_eq_left pos
  have thousand : (1000 : UInt64).toNat = 1000 := rfl
  rw [ticksToMs, elim_checkedMul, scaledAtOnce, thousand]
  split_ifs with fits
  · have small : ticks.toNat * 1000 / C.TICK_RATE_HZ.toNat ≤ 2 ^ 64 - 1 :=
      (Nat.div_le_self _ _).trans (Nat.le_sub_one_of_lt fits)
    rw [checkedDiv_of_pos _ _ (rate ▸ pos), Option.getD_some, UInt64.toNat_div, rate,
      toNat_mul_of_lt fits, min_eq_left small]
    rfl
  · rfl

/-- The product is a word, or more than the width's ticks. -/
def MsInReach : Prop :=
  ms.toNat * C.TICK_RATE_HZ.toNat < 2 ^ 64 ∨
    C.Tick.MAX.toNat * 1000 ≤ ms.toNat * C.TICK_RATE_HZ.toNat

def TicksInReach : Prop :=
  ticks.toNat * 1000 < 2 ^ 64 ∨ (2 ^ 64 - 1) * C.TICK_RATE_HZ.toNat ≤ ticks.toNat * 1000

instance : Decidable (C.MsInReach ms) := inferInstanceAs (Decidable (_ ∨ _))

instance : Decidable (C.TicksInReach ticks) := inferInstanceAs (Decidable (_ ∨ _))

structure ConvertsExactly (C : Config) (ms ticks : UInt64) : Prop where
  msToTicks : (C.msToTicks ms).toNat =
    min (ms.toNat * C.TICK_RATE_HZ.toNat / 1000) C.Tick.MAX.toNat
  ticksToMs : (C.ticksToMs ticks).toNat =
    min (ticks.toNat * 1000 / C.TICK_RATE_HZ.toNat) (2 ^ 64 - 1)
  duration : ms.toNat * 1000 < 2 ^ 64 → C.msToTicks ms = (Duration.millis ms).toTicks C

theorem msToTicks_exact_iff : (C.msToTicks ms).toNat =
    min (ms.toNat * C.TICK_RATE_HZ.toNat / 1000) C.Tick.MAX.toNat ↔ C.MsInReach ms := by
  rw [toNat_msToTicks]
  exact scaledAtOnce_eq_iff (by decide)

theorem ticksToMs_exact_iff (positive : 0 < C.TICK_RATE_HZ) : (C.ticksToMs ticks).toNat =
    min (ticks.toNat * 1000 / C.TICK_RATE_HZ.toNat) (2 ^ 64 - 1) ↔ C.TicksInReach ticks := by
  rw [C.toNat_ticksToMs ticks positive]
  exact scaledAtOnce_eq_iff (UInt32.lt_iff_toNat_lt.mp positive)

theorem msToTicks_eq_duration_iff (fits : ms.toNat * 1000 < 2 ^ 64) :
    C.msToTicks ms = (Duration.millis ms).toTicks C ↔ C.MsInReach ms := by
  have span : ((Duration.millis ms).toTicks C).toNat =
      scaled C.Tick.MAX.toNat C.TICK_RATE_HZ.toNat 1000 ms.toNat := by
    rw [Duration.toTicks_scaled, Duration.micros_millis fits]
    exact scaled_refine (q := 1000) (by decide : 0 < 1000)
  rw [← UInt64.toNat_inj, span]
  exact C.msToTicks_exact_iff ms

/-- Only at 64 bits is a product out of words before its ticks are out of the width, and there at
every rate but one. -/
theorem forall_msInReach_iff (positive : 0 < C.TICK_RATE_HZ) :
    (∀ ms, C.MsInReach ms) ↔ C.Tick ≠ .bits64 ∨ C.TICK_RATE_HZ = 1 := by
  have rate := C.rate_lt
  have pos : 0 < C.TICK_RATE_HZ.toNat := UInt32.lt_iff_toNat_lt.mp positive
  have first := ceilDiv_mul_lt (B := 2 ^ 64) pos
  have last := le_ceilDiv_mul (B := 2 ^ 64) pos
  have one : C.TICK_RATE_HZ = 1 ↔ C.TICK_RATE_HZ.toNat = 1 := UInt32.toNat_inj.symm
  refine (forall_toNat (P := fun n => n * _ < 2 ^ 64 ∨ _ ≤ n * _)).trans ?_
  rw [forall_lt_or_le_iff (by decide), one]
  cases C.Tick with
  | bits16 => exact iff_of_true (Or.inr (le_trans (by decide) last)) (Or.inl TickWidth.noConfusion)
  | bits32 => exact iff_of_true (Or.inr (le_trans (by decide) last)) (Or.inl TickWidth.noConfusion)
  | bits64 =>
    have top : TickWidth.bits64.MAX.toNat = 2 ^ 64 - 1 := rfl
    rw [top, or_iff_right (not_not_intro rfl)]
    omega

theorem forall_ticksInReach_iff (positive : 0 < C.TICK_RATE_HZ) :
    (∀ ticks, C.TicksInReach ticks) ↔ C.TICK_RATE_HZ = 1 := by
  have pos : 0 < C.TICK_RATE_HZ.toNat := UInt32.lt_iff_toNat_lt.mp positive
  have one : C.TICK_RATE_HZ = 1 ↔ C.TICK_RATE_HZ.toNat = 1 := UInt32.toNat_inj.symm
  have first : 2 ^ 64 ⌈/⌉ 1000 * 1000 = 18446744073709552000 := by decide
  refine (forall_toNat (P := fun n => n * 1000 < 2 ^ 64 ∨ _ ≤ n * 1000)).trans ?_
  rw [forall_lt_or_le_iff (by decide), first, one]
  omega

end Config

/-- Each conversion is exact on the counts within its reach, and `msToTicks` agrees with
`Duration.toTicks` on the same ones. -/
theorem tick_conversions_exact_iff (C : Config) (ms ticks : UInt64)
    (positive : 0 < C.TICK_RATE_HZ) :
    ((C.msToTicks ms).toNat = min (ms.toNat * C.TICK_RATE_HZ.toNat / 1000) C.Tick.MAX.toNat ↔
        C.MsInReach ms) ∧
      ((C.ticksToMs ticks).toNat = min (ticks.toNat * 1000 / C.TICK_RATE_HZ.toNat) (2 ^ 64 - 1) ↔
        C.TicksInReach ticks) ∧
      (ms.toNat * 1000 < 2 ^ 64 →
        (C.msToTicks ms = (Duration.millis ms).toTicks C ↔ C.MsInReach ms)) ∧
      (C.ConvertsExactly ms ticks ↔ C.MsInReach ms ∧ C.TicksInReach ticks) := by
  have msIff := C.msToTicks_exact_iff ms
  have ticksIff := C.ticksToMs_exact_iff ticks positive
  have durationIff := C.msToTicks_eq_duration_iff ms
  refine ⟨msIff, ticksIff, durationIff, ?_, ?_⟩
  · intro exact
    exact ⟨msIff.mp exact.msToTicks, ticksIff.mp exact.ticksToMs⟩
  · rintro ⟨inMs, inTicks⟩
    exact ⟨msIff.mpr inMs, ticksIff.mpr inTicks, fun fits => (durationIff fits).mpr inMs⟩

theorem tick_conversions_exact_at : DefaultConfig.ConvertsExactly 15 3 :=
  (tick_conversions_exact_iff DefaultConfig 15 3
    (Config.rate_pos defaultConfig_valid)).2.2.2.mpr (by decide)

/-- A product that is no word, of ticks and of milliseconds that are: both profiles give up, and at a
megahertz `msToTicks` parts from `Duration.toTicks`. -/
theorem tick_conversions_give_up :
    ((PosixDemoConfig 64).msToTicks 18446744073709552 = 0xFFFFFFFFFFFFFFFF ∧
      18446744073709552 * 1000 / 1000 < (PosixDemoConfig 64).Tick.MAX.toNat) ∧
    (DefaultConfig.ticksToMs 18446744073709552 = 0xFFFFFFFFFFFFFFFF ∧
      18446744073709552 * 1000 / 100 < 2 ^ 64 - 1) ∧
    (18446744073710 * 1000 < 2 ^ 64 ∧
      Config.msToTicks { PosixDemoConfig 64 with TICK_RATE_HZ := 1000000 } 18446744073710 ≠
        (Duration.millis 18446744073710).toTicks
          { PosixDemoConfig 64 with TICK_RATE_HZ := 1000000 }) ∧
    ¬ ∀ (C : Config) (ms ticks : UInt64), 0 < C.TICK_RATE_HZ → C.ConvertsExactly ms ticks := by
  refine ⟨by decide, by decide, by decide, fun exact => ?_⟩
  have early := (exact (PosixDemoConfig 64) 18446744073709552 0 (by decide)).msToTicks
  exact absurd early (by decide)

end RtosCore
