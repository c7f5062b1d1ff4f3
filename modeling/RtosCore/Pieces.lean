import RtosCore.Conversions

/-! A wait cut into pieces. Every piece is rounded down to ticks by itself, so a task that waits
piece by piece wakes early by what the remainders of the pieces add up to, and by nothing else. -/

namespace RtosCore

section Floors

variable {q : ℕ} {ns : List ℕ}

/-- What is left over when every part is rounded down by itself. -/
def carry (q : ℕ) (ns : List ℕ) : ℕ := (ns.map (· % q)).sum / q

theorem sum_parts (q : ℕ) (ns : List ℕ) :
    q * (ns.map (· / q)).sum + (ns.map (· % q)).sum = ns.sum := by
  induction ns with
  | nil => rfl
  | cons n ns ih =>
    have whole := Nat.div_add_mod n q
    rw [List.map_cons, List.map_cons, List.sum_cons, List.sum_cons, List.sum_cons, mul_add]
    omega

theorem sum_div (pos : 0 < q) (ns : List ℕ) :
    ns.sum / q = (ns.map (· / q)).sum + carry q ns := by
  conv_lhs => rw [← sum_parts q ns]
  exact Nat.mul_add_div pos _ _

theorem sum_rests_le (pos : 0 < q) (ns : List ℕ) :
    (ns.map (· % q)).sum + ns.length ≤ q * ns.length := by
  induction ns with
  | nil => simp
  | cons n ns ih =>
    have rest := Nat.mod_lt n pos
    rw [List.map_cons, List.sum_cons, List.length_cons, mul_add]
    omega

theorem carry_le (pos : 0 < q) (ns : List ℕ) : carry q ns ≤ ns.length - 1 := by
  have rests := sum_rests_le pos ns
  rcases Nat.eq_zero_or_pos ns.length with none | some
  · rw [List.length_eq_zero_iff] at none
    subst none
    exact (Nat.zero_div q).le
  · have below : carry q ns < ns.length := by
      rw [carry, Nat.div_lt_iff_lt_mul pos, mul_comm]
      omega
    omega

theorem carry_replicate (q n k : ℕ) : carry q (List.replicate k n) = k * (n % q) / q := by
  rw [carry, List.map_replicate, List.sum_replicate, smul_eq_mul]

end Floors

namespace Duration

/-- The tick count of the timeout `after(d)`. At the width's maximum that timeout is `Forever`, and
what is meant is the count and not how long a call would block. -/
def waits (C : Config) (d : Duration) : UInt64 := (Timeout.after C d).toTicks C

def total (ds : List Duration) : Duration := ⟨(ds.map Duration.micros).sum⟩

def elapse (C : Config) (e : Tick C.Tick) (ds : List Duration) : Tick C.Tick :=
  (ds.map (waits C)).foldl Tick.wrappingAdd e

variable {C : Config} {ds : List Duration}

theorem toTicks_le (C : Config) (d : Duration) : d.toTicks C ≤ C.Tick.MAX := by
  rw [UInt64.le_iff_toNat_le, toTicks_scaled]
  exact min_le_right _ _

theorem waits_eq (C : Config) (d : Duration) : d.waits C = d.toTicks C := by
  have top := d.toTicks_le C
  rw [waits, Timeout.after, Timeout.fromTicks]
  split_ifs with zero all
  · rw [Timeout.toTicks, zero]
  · rw [Timeout.toTicks]
    exact le_antisymm all top
  · rw [Timeout.toTicks]
    exact min_eq_left top

theorem toNat_waits (C : Config) (d : Duration) : (d.waits C).toNat =
    scaled C.Tick.MAX.toNat C.TICK_RATE_HZ.toNat 1000000 d.micros.toNat := by
  rw [waits_eq, toTicks_scaled]

theorem toNat_total (fits : (ds.map fun d => d.micros.toNat).sum < 2 ^ 64) :
    (total ds).micros.toNat = (ds.map fun d => d.micros.toNat).sum := by
  induction ds with
  | nil => rfl
  | cons d ds ih =>
    rw [List.map_cons, List.sum_cons] at fits ⊢
    have rest := ih (by omega)
    rw [total] at rest ⊢
    rw [List.map_cons, List.sum_cons, UInt64.toNat_add, rest, Nat.mod_eq_of_lt fits]

theorem sum_waits (narrow : (ds.map fun d => d.micros.toNat * C.TICK_RATE_HZ.toNat).sum / 1000000 ≤
      C.Tick.MAX.toNat) :
    ((ds.map (waits C)).map UInt64.toNat).sum =
      ((ds.map fun d => d.micros.toNat * C.TICK_RATE_HZ.toNat).map (· / 1000000)).sum := by
  rw [List.map_map, List.map_map]
  refine congrArg List.sum (List.map_congr_left fun d mem => ?_)
  have part : d.micros.toNat * C.TICK_RATE_HZ.toNat ≤
      (ds.map fun d => d.micros.toNat * C.TICK_RATE_HZ.toNat).sum :=
    List.single_le_sum (fun _ _ => Nat.zero_le _) _ (List.mem_map_of_mem mem)
  exact (toNat_waits C d).trans (min_eq_left ((Nat.div_le_div_right part).trans narrow))

end Duration

/-- By the counts of its timeouts, a task that waits piece by piece is early, against one wait for
the whole, by exactly the carry of the pieces, which is less than a tick for each of them; for `k`
equal pieces that is what `k` times their remainder comes to. -/
theorem pieces_wake_early_by_the_carry (C : Config) (e : Tick C.Tick) (ds : List Duration)
    (fits : (ds.map fun d => d.micros.toNat).sum < 2 ^ 64)
    (narrow : (ds.map fun d => d.micros.toNat * C.TICK_RATE_HZ.toNat).sum / 1000000 ≤
      C.Tick.MAX.toNat) :
    let early := carry 1000000 (ds.map fun d => d.micros.toNat * C.TICK_RATE_HZ.toNat)
    ((Duration.elapse C e ds).since e).toNat + early =
        ((e.wrappingAdd ((Duration.total ds).waits C)).since e).toNat ∧
      early ≤ ds.length - 1 ∧
      ∀ d k, ds = List.replicate k d →
        early = k * (d.micros.toNat * C.TICK_RATE_HZ.toNat % 1000000) / 1000000 := by
  intro early
  have floors := sum_div (q := 1000000) (by decide)
    (ds.map fun d => d.micros.toNat * C.TICK_RATE_HZ.toNat)
  have whole : ((Duration.total ds).waits C).toNat =
      (ds.map fun d => d.micros.toNat * C.TICK_RATE_HZ.toNat).sum / 1000000 := by
    rw [Duration.toNat_waits, Duration.toNat_total fits, scaled, ← List.sum_map_mul_right]
    exact min_eq_left narrow
  refine ⟨?_, ?_, ?_⟩
  · have inside : (ds.map fun d => d.micros.toNat * C.TICK_RATE_HZ.toNat).sum / 1000000 <
        C.Tick.period := C.Tick.lt_period.mpr narrow
    have once := Tick.since_run e [(Duration.total ds).waits C]
    rw [Duration.elapse, Tick.since_run, Duration.sum_waits narrow]
    rw [List.foldl_cons, List.foldl_nil, List.map_cons, List.map_nil, List.sum_singleton,
      whole, Nat.mod_eq_of_lt inside] at once
    rw [once, floors, Nat.mod_eq_of_lt (by omega)]
  · exact (carry_le (by decide) _).trans_eq (by rw [List.length_map])
  · rintro d k rfl
    change carry 1000000 (List.map _ _) = _
    rw [List.map_replicate, carry_replicate]

theorem pieces_wake_early_by_the_carry_default :
    let ds := List.replicate 3 (Duration.millis 15)
    let e : Tick DefaultConfig.Tick := Tick.new 0xFFFFFFFF
    let early := carry 1000000 (ds.map fun d => d.micros.toNat * DefaultConfig.TICK_RATE_HZ.toNat)
    ((Duration.elapse DefaultConfig e ds).since e).toNat + early =
        ((e.wrappingAdd ((Duration.total ds).waits DefaultConfig)).since e).toNat ∧
      early ≤ ds.length - 1 ∧
      ∀ d k, ds = List.replicate k d →
        early = k * (d.micros.toNat * DefaultConfig.TICK_RATE_HZ.toNat % 1000000) / 1000000 :=
  pieces_wake_early_by_the_carry DefaultConfig (Tick.new 0xFFFFFFFF)
    (List.replicate 3 (Duration.millis 15)) (by decide) (by decide)

end RtosCore
