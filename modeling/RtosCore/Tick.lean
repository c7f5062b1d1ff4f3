import Mathlib.Data.ZMod.Basic

/-! `tick.rs`: the tick count. One `u64` path serves three widths, by a mask. Counts of width `W`
are the residues modulo `2 ^ BITS`, and adding, subtracting and elapsed time are theirs. -/

namespace RtosCore

inductive TickWidth
  | bits16 | bits32 | bits64
  deriving DecidableEq, Repr

namespace TickWidth

def BITS : TickWidth → ℕ
  | bits16 => 16
  | bits32 => 32
  | bits64 => 64

def MAX : TickWidth → UInt64
  | bits16 => 0xFFFF
  | bits32 => 0xFFFFFFFF
  | bits64 => 0xFFFFFFFFFFFFFFFF

variable (W : TickWidth)

def period : ℕ := 2 ^ W.BITS

instance : NeZero W.period := ⟨(Nat.two_pow_pos W.BITS).ne'⟩

theorem toNat_MAX : W.MAX.toNat = W.period - 1 := by
  cases W <;> rfl

theorem period_dvd : W.period ∣ 2 ^ 64 := by
  cases W <;> exact Nat.pow_dvd_pow 2 (by decide)

theorem lt_period {n : ℕ} : n < W.period ↔ n ≤ W.MAX.toNat := by
  rw [toNat_MAX]
  have := NeZero.pos W.period
  omega

theorem toNat_mask (x : UInt64) : (x &&& W.MAX).toNat = x.toNat % W.period := by
  rw [UInt64.toNat_and, toNat_MAX]
  exact Nat.and_two_pow_sub_one_eq_mod _ W.BITS

theorem mask_le (x : UInt64) : x &&& W.MAX ≤ W.MAX := by
  rw [UInt64.le_iff_toNat_le, toNat_mask, ← lt_period]
  exact Nat.mod_lt _ (NeZero.pos _)

end TickWidth

@[ext] structure Tick (W : TickWidth) where
  raw : UInt64
  masked : raw ≤ W.MAX
  deriving DecidableEq, Repr

namespace Tick

variable {W : TickWidth}

def new (raw : UInt64) : Tick W := ⟨raw &&& W.MAX, W.mask_le raw⟩

def get (t : Tick W) : UInt64 := t.raw

def wrappingAdd (t : Tick W) (n : UInt64) : Tick W := new (t.raw + n)

def wrappingSub (t : Tick W) (n : UInt64) : Tick W := new (t.raw - n)

def checkedAdd (t : Tick W) (n : UInt64) : Option (Tick W) :=
  let sum := (t.raw + n) &&& W.MAX
  if sum < t.raw ∨ W.MAX < n then none else some (new sum)

def since (t earlier : Tick W) : UInt64 := (t.raw - earlier.raw) &&& W.MAX

def overflowsBy (t : Tick W) (n : UInt64) : Bool := (t.checkedAdd n).isNone

variable (t e : Tick W) (n : UInt64)

section Residues

variable (W) in
def residue (x : UInt64) : ZMod W.period := x.toNat

/-- Words wrap at a multiple of the period. -/
theorem residue_add (x y : UInt64) : residue W (x + y) = residue W x + residue W y := by
  have wraps : (x + y).toNat ≡ x.toNat + y.toNat [MOD W.period] := by
    rw [UInt64.toNat_add]
    exact (Nat.mod_modEq _ _).of_dvd W.period_dvd
  rw [residue, (ZMod.natCast_eq_natCast_iff _ _ _).mpr wraps, Nat.cast_add]
  rfl

theorem residue_sub (x y : UInt64) : residue W (x - y) = residue W x - residue W y := by
  rw [eq_sub_iff_add_eq, ← residue_add, UInt64.sub_add_cancel]

theorem residue_mask (x : UInt64) : residue W (x &&& W.MAX) = residue W x := by
  rw [residue, W.toNat_mask, ZMod.natCast_mod]
  rfl

theorem val_residue (x : UInt64) : (residue W x).val = x.toNat % W.period := ZMod.val_natCast _ _

theorem toNat_of_masked {x : UInt64} (masked : x ≤ W.MAX) : x.toNat = (residue W x).val := by
  rw [val_residue]
  exact (Nat.mod_eq_of_lt (W.lt_period.mpr (UInt64.le_iff_toNat_le.mp masked))).symm

theorem residue_injective : Function.Injective fun t : Tick W => residue W t.raw := by
  intro t e same
  have counts : t.raw.toNat = e.raw.toNat := by
    rw [toNat_of_masked t.masked, toNat_of_masked e.masked]
    exact congrArg ZMod.val same
  exact Tick.ext (UInt64.toNat_inj.mp counts)

theorem residue_wrappingAdd : residue W (t.wrappingAdd n).raw = residue W t.raw + residue W n :=
  (residue_mask _).trans (residue_add _ _)

theorem residue_wrappingSub : residue W (t.wrappingSub n).raw = residue W t.raw - residue W n :=
  (residue_mask _).trans (residue_sub _ _)

theorem toNat_since : (t.since e).toNat = (residue W t.raw - residue W e.raw).val := by
  rw [since, toNat_of_masked (W.mask_le _), residue_mask, residue_sub]

theorem residue_run (ns : List UInt64) : residue W (ns.foldl wrappingAdd e).raw =
    residue W e.raw + ((ns.map UInt64.toNat).sum : ℕ) := by
  induction ns generalizing e with
  | nil => simp
  | cons n ns ih =>
    rw [List.foldl_cons, ih, residue_wrappingAdd, List.map_cons, List.sum_cons, Nat.cast_add,
      add_assoc]
    rfl

end Residues

theorem toNat_wrappingAdd : (t.wrappingAdd n).get.toNat = (t.get.toNat + n.toNat) % W.period := by
  rw [get, toNat_of_masked (t.wrappingAdd n).masked, residue_wrappingAdd, residue, residue,
    ← Nat.cast_add, ZMod.val_natCast]
  rfl

theorem toNat_wrappingSub :
    ((t.wrappingSub n).get.toNat : ℤ) = ((t.get.toNat : ℤ) - n.toNat) % W.period := by
  have difference : residue W (t.wrappingSub n).raw = (((t.get.toNat : ℤ) - n.toNat : ℤ) : ZMod _) := by
    rw [residue_wrappingSub]
    push_cast
    rfl
  rw [get, toNat_of_masked (t.wrappingSub n).masked, difference, ZMod.val_intCast]

theorem wrappingSub_wrappingAdd : (t.wrappingAdd n).wrappingSub n = t :=
  residue_injective (by simp only [residue_wrappingAdd, residue_wrappingSub, add_sub_cancel_right])

theorem wrappingAdd_wrappingSub : (t.wrappingSub n).wrappingAdd n = t :=
  residue_injective (by simp only [residue_wrappingAdd, residue_wrappingSub, sub_add_cancel])

theorem get_lt_period : t.get.toNat < W.period :=
  W.lt_period.mpr (UInt64.le_iff_toNat_le.mp t.masked)

/-- The C kernel's test. A step within the width goes round at most once, and comes out below where
it started exactly if it did. -/
theorem wrappingAdd_lt_iff (narrow : n ≤ W.MAX) :
    (t.wrappingAdd n).get < t.get ↔ W.MAX.toNat < t.get.toNat + n.toNat := by
  have start := t.get_lt_period
  have step : n.toNat < W.period := W.lt_period.mpr (UInt64.le_iff_toNat_le.mp narrow)
  rw [UInt64.lt_iff_toNat_lt, toNat_wrappingAdd, ← not_le, ← not_le, ← W.lt_period]
  by_cases fits : t.get.toNat + n.toNat < W.period
  · rw [Nat.mod_eq_of_lt fits]
    omega
  · rw [Nat.mod_eq_sub_mod (by omega), Nat.mod_eq_of_lt (by omega)]
    omega

/-- A step past the width has a test of its own: it may come out anywhere. -/
theorem checkedAdd_eq : t.checkedAdd n =
    if W.MAX.toNat < t.get.toNat + n.toNat then none else some (t.wrappingAdd n) := by
  have masked : (new ((t.raw + n) &&& W.MAX) : Tick W) = t.wrappingAdd n :=
    residue_injective (residue_mask _)
  have test : ((t.raw + n) &&& W.MAX < t.raw ∨ W.MAX < n) ↔
      W.MAX.toNat < t.get.toNat + n.toNat := by
    by_cases narrow : n ≤ W.MAX
    · rw [or_iff_left (UInt64.not_lt.mpr narrow)]
      exact t.wrappingAdd_lt_iff n narrow
    · have wide := UInt64.lt_iff_toNat_lt.mp (UInt64.not_le.mp narrow)
      exact iff_of_true (Or.inr (UInt64.not_le.mp narrow)) (wide.trans_le (Nat.le_add_left _ _))
  rw [checkedAdd, masked]
  exact if_congr test rfl rfl

theorem overflowsBy_iff :
    t.overflowsBy n = true ↔ W.MAX.toNat < t.get.toNat + n.toNat := by
  rw [overflowsBy, checkedAdd_eq]
  split_ifs with wraps <;> simp [wraps]

theorem since_run (ns : List UInt64) : ((ns.foldl wrappingAdd e).since e).toNat =
    (ns.map UInt64.toNat).sum % W.period := by
  rw [toNat_since, residue_run, add_sub_cancel_left, ZMod.val_natCast]

/-- What adding `n` to `t`, or taking it away, comes to. -/
structure StepsExactly (t : Tick W) (n : UInt64) : Prop where
  checkedAdd : (∃ s, t.checkedAdd n = some s ∧ s.get.toNat = t.get.toNat + n.toNat) ↔
    t.get.toNat + n.toNat ≤ W.MAX.toNat
  refused : t.checkedAdd n = none ↔ W.MAX.toNat < t.get.toNat + n.toNat
  overflowsBy : t.overflowsBy n = true ↔ W.MAX.toNat < t.get.toNat + n.toNat
  overflowList : n ≤ W.MAX → (t.overflowsBy n = true ↔ (t.wrappingAdd n).get < t.get)
  wrappingAdd : (t.wrappingAdd n).get.toNat = (t.get.toNat + n.toNat) % 2 ^ W.BITS
  wrappingSub : ((t.wrappingSub n).get.toNat : ℤ) = ((t.get.toNat : ℤ) - n.toNat) % (2 ^ W.BITS : ℕ)
  addThenSub : (t.wrappingAdd n).wrappingSub n = t
  subThenAdd : (t.wrappingSub n).wrappingAdd n = t

/-- What `since` makes of the increments after `e`, and of a timeout compared with it. -/
structure ElapsesExactly (e : Tick W) (ns : List UInt64) : Prop where
  since : ((ns.foldl wrappingAdd e).since e).toNat = (ns.map UInt64.toNat).sum % 2 ^ W.BITS
  timeout : (ns.map UInt64.toNat).sum < 2 ^ W.BITS → ∀ timeout : UInt64,
    timeout ≤ (ns.foldl wrappingAdd e).since e ↔ timeout.toNat ≤ (ns.map UInt64.toNat).sum

theorem stepsExactly : StepsExactly t n where
  checkedAdd := by
    rw [checkedAdd_eq]
    constructor
    · rintro ⟨s, added, -⟩
      by_contra wraps
      rw [if_pos (not_le.mp wraps)] at added
      cases added
    · intro fits
      rw [if_neg (not_lt.mpr fits)]
      refine ⟨_, rfl, ?_⟩
      rw [toNat_wrappingAdd, Nat.mod_eq_of_lt (W.lt_period.mpr fits)]
  refused := by
    rw [checkedAdd_eq]
    split_ifs with wraps <;> simp [wraps]
  overflowsBy := t.overflowsBy_iff n
  overflowList narrow := (t.overflowsBy_iff n).trans (t.wrappingAdd_lt_iff n narrow).symm
  wrappingAdd := t.toNat_wrappingAdd n
  wrappingSub := t.toNat_wrappingSub n
  addThenSub := t.wrappingSub_wrappingAdd n
  subThenAdd := t.wrappingAdd_wrappingSub n

theorem elapsesExactly (ns : List UInt64) : ElapsesExactly e ns where
  since := e.since_run ns
  timeout recent timeout := by
    rw [UInt64.le_iff_toNat_le, since_run]
    exact iff_of_eq (congrArg _ (Nat.mod_eq_of_lt recent))

end Tick

/-- At every width, one step and any number of steps are what they are for integers, up to the
wrap, and the wrap is seen. -/
theorem tick_arithmetic_is_exact (W : TickWidth) :
    (∀ (t : Tick W) (n : UInt64), t.StepsExactly n) ∧
      ∀ (e : Tick W) (ns : List UInt64), e.ElapsesExactly ns :=
  ⟨Tick.stepsExactly, Tick.elapsesExactly⟩

example : ((Tick.new 65530 : Tick .bits16).wrappingAdd 10).since (Tick.new 65530) = 10 := by decide

end RtosCore
