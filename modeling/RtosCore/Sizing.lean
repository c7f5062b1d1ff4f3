import Mathlib.Data.Nat.Log
import RtosCore.Conversions
import RtosCore.TraceCode

/-! How large things are. `slots_for` rounds up to what a set of lists accepts, and a configuration
that passes its checks asks for nothing that the types here cannot be built with. -/

namespace RtosCore

def saturatingSum (usizeBits a b : ℕ) : ℕ := min (a + b) (2 ^ usizeBits - 1)

/-- `usize::next_power_of_two`. One that is no `usize` is a panic, or zero where overflow is not
checked. -/
def nextPowerOfTwo (checked : Bool) (usizeBits n : ℕ) : Except Exit ℕ :=
  if 2 ^ Nat.clog 2 n < 2 ^ usizeBits then .ok (2 ^ Nat.clog 2 n)
  else if checked then .error .panic else .ok 0

def slotsFor (checked : Bool) (usizeBits items lists : ℕ) : Except Exit ℕ :=
  nextPowerOfTwo checked usizeBits (saturatingSum usizeBits items lists)

def Proposes (checked : Bool) (usizeBits items lists : ℕ) (g : Sizes) : Prop :=
  slotsFor checked usizeBits items lists = .ok g.N ∧ g.L = lists

section PowersOfTwo

variable {n k N : ℕ}

theorem pow_clog_le (isPowerOfTwo : N.isPowerOfTwo) (le : n ≤ N) : 2 ^ Nat.clog 2 n ≤ N := by
  obtain ⟨k, rfl⟩ := isPowerOfTwo
  exact Nat.pow_le_pow_right (by decide) (Nat.clog_le_of_le_pow le)

theorem pow_clog_lt (some : 0 < n) : 2 ^ Nat.clog 2 n < 2 * n := by
  rcases Nat.lt_or_ge 1 n with more | one
  · have previous := Nat.pow_pred_clog_lt_self (b := 2) (by decide) more
    have positive := Nat.clog_pos (b := 2) (by decide) more
    obtain ⟨c, size⟩ := Nat.exists_eq_succ_of_ne_zero positive.ne'
    rw [size, Nat.pred_succ] at previous
    rw [size, pow_succ]
    omega
  · obtain rfl : n = 1 := by omega
    decide

theorem pow_clog_eq_iff (some : 0 < n) : 2 ^ Nat.clog 2 n = n ↔ n.isPowerOfTwo := by
  constructor
  · intro same
    exact ⟨_, same.symm⟩
  · rintro ⟨k, rfl⟩
    rw [Nat.clog_pow 2 k (by decide)]

end PowersOfTwo

section Proposals

variable {checked : Bool} {usizeBits items lists : ℕ} {g : Sizes}

theorem slotsFor_small (wide : 16 ≤ usizeBits) (small : items + lists ≤ 0x8000) :
    slotsFor checked usizeBits items lists = .ok (2 ^ Nat.clog 2 (items + lists)) := by
  have words : 2 ^ 16 ≤ 2 ^ usizeBits := Nat.pow_le_pow_right (by decide) wide
  have whole : saturatingSum usizeBits items lists = items + lists := min_eq_left (by omega)
  have bound : 2 ^ Nat.clog 2 (items + lists) ≤ 0x8000 := pow_clog_le ⟨15, rfl⟩ small
  rw [slotsFor, whole, nextPowerOfTwo, if_pos (by omega)]

theorem not_proposes (wide : 16 ≤ usizeBits) (large : 0x8000 < items + lists) :
    ¬ Proposes checked usizeBits items lists g := by
  rintro ⟨proposed, -⟩
  have words : 2 ^ 16 ≤ 2 ^ usizeBits := Nat.pow_le_pow_right (by decide) wide
  have above : 0x8000 < saturatingSum usizeBits items lists := lt_min large (by omega)
  have positive := g.L_pos.trans g.L_lt_N
  have bound := g.N_le
  have rounded := Nat.le_pow_clog (b := 2) (by decide) (saturatingSum usizeBits items lists)
  rw [slotsFor, nextPowerOfTwo] at proposed
  split_ifs at proposed
  · have same := Except.ok.inj proposed
    omega
  · have same := Except.ok.inj proposed
    omega

theorem Proposes.iff (wide : 16 ≤ usizeBits) : Proposes checked usizeBits items lists g ↔
    g.N = 2 ^ Nat.clog 2 (items + lists) ∧ g.L = lists ∧ items + lists ≤ 0x8000 := by
  by_cases small : items + lists ≤ 0x8000
  · rw [Proposes, slotsFor_small wide small, Except.ok.injEq]
    exact and_congr eq_comm (and_iff_left_of_imp fun _ => small).symm
  · exact iff_of_false (not_proposes wide (not_le.mp small)) fun proposed => small proposed.2.2

theorem exists_sizes_iff : (∃ g : Sizes, g.L = lists ∧ items ≤ g.CAPACITY) ↔
    0 < lists ∧ lists ≤ 255 ∧ items + lists ≤ 0x8000 := by
  constructor
  · rintro ⟨g, rfl, room⟩
    have below := g.L_lt_N
    have bound := g.N_le
    rw [Sizes.CAPACITY] at room
    exact ⟨g.L_pos, g.L_le, by omega⟩
  · rintro ⟨some, few, small⟩
    refine ⟨⟨0x8000, lists, ⟨15, rfl⟩, some, by omega, le_rfl, few⟩, rfl, ?_⟩
    change items ≤ 0x8000 - lists
    omega

theorem exists_proposes_iff (wide : 16 ≤ usizeBits) :
    (∃ g, Proposes checked usizeBits items lists g) ↔
      (0 < lists ∧ lists ≤ 255 ∧ items + lists ≤ 0x8000) ∧ (items = 0 → ¬ lists.isPowerOfTwo) := by
  simp only [Proposes.iff wide]
  constructor
  · rintro ⟨g, rounded, rfl, small⟩
    refine ⟨⟨g.L_pos, g.L_le, small⟩, ?_⟩
    rintro rfl power
    have same := (pow_clog_eq_iff g.L_pos).mpr power
    have below := g.L_lt_N
    rw [Nat.zero_add] at rounded
    omega
  · rintro ⟨⟨some, few, small⟩, between⟩
    have rounded := Nat.le_pow_clog (b := 2) (by decide) (items + lists)
    have below : lists < 2 ^ Nat.clog 2 (items + lists) := by
      rcases Nat.eq_zero_or_pos items with rfl | items_pos
      · rw [Nat.zero_add] at rounded ⊢
        exact lt_of_le_of_ne rounded fun same => between rfl ((pow_clog_eq_iff some).mp same.symm)
      · omega
    exact ⟨⟨_, lists, ⟨_, rfl⟩, some, below, pow_clog_le ⟨15, rfl⟩ small, few⟩, rfl, rfl, small⟩

end Proposals

/-- `slots_for` proposes a size that a set of lists accepts whenever there is one with room for the
items, unless there are no items and the lists alone are a power of two; it is the least such size, and
less than twice what was asked for. -/
theorem slots_for_is_least (checked : Bool) (usizeBits : {n : ℕ // 16 ≤ n}) (items lists : ℕ) :
    ((∃ g, Proposes checked usizeBits items lists g) ↔
      (∃ g : Sizes, g.L = lists ∧ items ≤ g.CAPACITY) ∧ (items = 0 → ¬ lists.isPowerOfTwo)) ∧
    ∀ g, Proposes checked usizeBits items lists g →
      items ≤ g.CAPACITY ∧ g.N < 2 * (items + lists) ∧
        ∀ g' : Sizes, g'.L = lists → items ≤ g'.CAPACITY → g.N ≤ g'.N := by
  refine ⟨?_, fun g proposed => ?_⟩
  · rw [exists_proposes_iff usizeBits.2, exists_sizes_iff]
  · obtain ⟨size, rfl, small⟩ := (Proposes.iff usizeBits.2).mp proposed
    have some := g.L_pos
    have rounded := Nat.le_pow_clog (b := 2) (by decide) (items + g.L)
    have few := pow_clog_lt (n := items + g.L) (by omega)
    refine ⟨by rw [Sizes.CAPACITY]; omega, by omega, fun g' same room => ?_⟩
    have below := g'.L_lt_N
    rw [Sizes.CAPACITY] at room
    rw [size]
    exact pow_clog_le g'.isPowerOfTwo (by omega)

namespace Priority

def new (raw maxPriorities : UInt8) : Except Error Priority :=
  if raw < maxPriorities then .ok ⟨raw⟩ else .error .invalidPriority

def highest (maxPriorities : UInt8) : Except Error Priority :=
  if maxPriorities = 0 then .error .invalidArgument else .ok ⟨maxPriorities - 1⟩

end Priority

def Config.pools (C : Config) : List ℕ :=
  [C.MAX_TASKS, C.MAX_QUEUES, C.MAX_TIMERS, C.MAX_EVENT_GROUPS, C.MAX_STREAM_BUFFERS]

structure Config.Builds (C : Config) : Prop where
  arenas : ∀ n ∈ C.pools, n ≤ Handle.MAX_INDEX.toNat
  lists : ∀ n ∈ C.pools, 0 < n → ∀ checked usizeBits, 16 ≤ usizeBits →
    ∃ g, Proposes checked usizeBits n 1 g
  timerTask : ∃ p, Priority.new C.TIMER_TASK_PRIORITY C.MAX_PRIORITIES = .ok p
  highest : ∃ top, Priority.highest C.MAX_PRIORITIES = .ok top ∧
    ∀ raw, (∃ p, Priority.new raw C.MAX_PRIORITIES = .ok p) ↔ raw ≤ top.raw
  firstTick : (RtosCore.Tick.new C.INITIAL_TICK_COUNT : RtosCore.Tick C.Tick).get = C.INITIAL_TICK_COUNT

namespace Priority

variable {raw maxPriorities : UInt8}

theorem exists_new_iff : (∃ p, new raw maxPriorities = .ok p) ↔ raw < maxPriorities := by
  rw [new]
  split_ifs with inside
  · exact iff_of_true ⟨_, rfl⟩ inside
  · refine iff_of_false ?_ inside
    rintro ⟨p, ⟨⟩⟩

theorem highest_of_pos (some : 1 ≤ maxPriorities) : ∃ top, highest maxPriorities = .ok top ∧
    ∀ raw, raw < maxPriorities ↔ raw ≤ top.raw := by
  have positive : 1 ≤ maxPriorities.toNat := UInt8.le_iff_toNat_le.mp some
  have nonzero : maxPriorities ≠ 0 := by
    rintro rfl
    exact absurd positive (by decide)
  refine ⟨⟨maxPriorities - 1⟩, if_neg nonzero, fun raw => ?_⟩
  rw [UInt8.lt_iff_toNat_lt, UInt8.le_iff_toNat_le, UInt8.toNat_sub_of_le _ _ some]
  change _ ↔ raw.toNat ≤ maxPriorities.toNat - 1
  omega

end Priority

/-- A configuration that passes `validate` asks for nothing that cannot be built: every pool fits an
arena and, with one list, a set of lists, where `0x7FFF` items are also the most that do. -/
theorem validated_config_builds (C : Config) (valid : C.validate = .ok ()) :
    C.Builds ∧ ∀ checked usizeBits n, 16 ≤ usizeBits →
      ((∃ g, Proposes checked usizeBits n 1 g) ↔ 0 < n ∧ n ≤ 0x7FFF) := by
  have one : ∀ checked usizeBits n, 16 ≤ usizeBits →
      ((∃ g, Proposes checked usizeBits n 1 g) ↔ 0 < n ∧ n ≤ 0x7FFF) := by
    intro checked usizeBits n wide
    rw [exists_proposes_iff wide]
    constructor
    · rintro ⟨⟨-, -, small⟩, between⟩
      have some : n ≠ 0 := fun none => between none ⟨0, rfl⟩
      omega
    · rintro ⟨some, few⟩
      exact ⟨by omega, by omega⟩
  refine ⟨?_, one⟩
  have checks := valid
  rw [Config.validate] at checks
  split_ifs at checks with all
  obtain ⟨-, some, timer, -, -, -, -, -, -, -, -, -, -, first, tasks, queues, timers, groups, buffers⟩ := all
  have pools : ∀ n ∈ C.pools, n ≤ 0x7FFF := by
    simp [Config.pools, tasks, queues, timers, groups, buffers]
  obtain ⟨top, highest, below⟩ := Priority.highest_of_pos some
  exact
    { arenas := fun n mem => (pools n mem).trans (by decide)
      lists := fun n mem some checked usizeBits wide =>
        (one checked usizeBits n wide).mpr ⟨some, pools n mem⟩
      timerTask := Priority.exists_new_iff.mpr timer
      highest := ⟨top, highest, fun raw => Priority.exists_new_iff.trans (below raw)⟩
      firstTick := UInt64.toNat_inj.mp <| (C.Tick.toNat_mask _).trans <|
        Nat.mod_eq_of_lt (C.Tick.lt_period.mpr (UInt64.le_iff_toNat_le.mp first)) }

end RtosCore
