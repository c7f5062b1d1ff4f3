import Mathlib.Algebra.Order.Floor.Div
import Mathlib.Data.UInt

/-! Scaling a count by a ratio. The floor of `n * p / q` is taken, and `top` where the floor is more.
Words below `B` do not hold every product on the way: one way to compute it gives up too early,
the other never does. -/

namespace RtosCore

/-- `n` at `p` for every `q`. -/
def scaled (top p q n : ℕ) : ℕ := min (n * p / q) top

/-- The product first; `top` if it is no word. -/
def scaledAtOnce (B top p q n : ℕ) : ℕ :=
  if n * p < B then min (n * p / q) top else top

/-- The whole `q`s of `n` and the rest of it apart; `top` if a product is no word. -/
def scaledInParts (B top p q n : ℕ) : ℕ :=
  if n / q * p < B ∧ n % q * p < B then
    min (min (n / q * p + n % q * p / q) (B - 1)) top
  else top

variable {B top p q n : ℕ}

theorem scaled_mono : Monotone (scaled top p q) := fun _ _ le =>
  min_le_min_right _ (Nat.div_le_div_right (Nat.mul_le_mul_right _ le))

theorem scaled_mul_le : scaled top p q n * q ≤ n * p :=
  calc scaled top p q n * q ≤ n * p / q * q := Nat.mul_le_mul_right _ (min_le_left _ _)
    _ ≤ n * p := Nat.div_mul_le_self _ _

theorem scaled_eq_top_iff (pos : 0 < q) : scaled top p q n = top ↔ top * q ≤ n * p := by
  rw [scaled, min_eq_right_iff, Nat.le_div_iff_mul_le pos]

theorem scaled_refine {a : ℕ} (pos : 0 < a) :
    scaled top p (a * q) (a * n) = scaled top p q n := by
  rw [scaled, mul_assoc, Nat.mul_div_mul_left _ _ pos, scaled]

theorem floor_in_parts (pos : 0 < q) : n / q * p + n % q * p / q = n * p / q :=
  calc n / q * p + n % q * p / q = (q * (n / q * p) + n % q * p) / q :=
        (Nat.mul_add_div pos _ _).symm
    _ = n * p / q := by rw [← mul_assoc, ← add_mul, Nat.div_add_mod]

theorem scaledAtOnce_eq_iff (pos : 0 < q) :
    scaledAtOnce B top p q n = scaled top p q n ↔ n * p < B ∨ top * q ≤ n * p := by
  by_cases fits : n * p < B
  · exact iff_of_true (if_pos fits) (Or.inl fits)
  · rw [scaledAtOnce, if_neg fits, eq_comm, scaled_eq_top_iff pos, or_iff_right fits]

theorem le_ceilDiv_mul (pos : 0 < p) : B ≤ B ⌈/⌉ p * p := by
  rw [mul_comm]
  exact (ceilDiv_le_iff_le_mul pos).mp le_rfl

theorem ceilDiv_mul_lt (pos : 0 < p) : B ⌈/⌉ p * p < B + p := by
  rw [Nat.ceilDiv_eq_add_pred_div]
  exact (Nat.div_mul_le_self _ _).trans_lt (by omega)

theorem forall_lt_or_le_iff {t : ℕ} (room : 1 < B) :
    (∀ n < B, n * p < B ∨ t ≤ n * p) ↔ p ≤ 1 ∨ t ≤ B ⌈/⌉ p * p := by
  rcases Nat.lt_or_ge 1 p with many | few
  · have pos : 0 < p := Nat.zero_lt_of_lt many
    rw [or_iff_right (not_le.mpr many)]
    constructor
    · intro all
      have counts : B ⌈/⌉ p ≤ B - 1 := (ceilDiv_le_iff_le_mul pos).mpr <|
        calc B ≤ 2 * (B - 1) := by omega
          _ ≤ p * (B - 1) := Nat.mul_le_mul_right _ many
      exact (all _ (by omega)).resolve_left (not_lt.mpr (le_ceilDiv_mul pos))
    · intro above n _
      rw [or_iff_not_imp_left, not_lt]
      intro late
      have first : B ⌈/⌉ p ≤ n := (ceilDiv_le_iff_le_mul pos).mpr (by rwa [mul_comm])
      exact above.trans (Nat.mul_le_mul_right _ first)
  · have shrinks (n : ℕ) : n * p ≤ n := mul_le_of_le_one_right (Nat.zero_le n) few
    exact iff_of_true (fun n counts => Or.inl ((shrinks n).trans_lt counts)) (Or.inl few)

/-- The rest has a product that is a word, and the whole part has none only beyond `top`. -/
theorem scaledInParts_eq (pos : 0 < q) (rest : q * p ≤ B) (below : top < B) :
    scaledInParts B top p q n = scaled top p q n := by
  have restFits : n % q * p < B := by
    rcases Nat.eq_zero_or_pos p with rfl | some
    · rw [mul_zero]
      exact Nat.zero_lt_of_lt below
    · exact (Nat.mul_lt_mul_of_pos_right (Nat.mod_lt n pos) some).trans_le rest
  by_cases fits : n / q * p < B
  · rw [scaledInParts, if_pos ⟨fits, restFits⟩, floor_in_parts pos, min_assoc,
      min_eq_right (Nat.le_sub_one_of_lt below), scaled]
  · have reached : top ≤ n * p / q :=
      calc top ≤ n / q * p := below.le.trans (not_lt.mp fits)
        _ ≤ n / q * p + n % q * p / q := Nat.le_add_right _ _
        _ = n * p / q := floor_in_parts pos
    rw [scaledInParts, if_neg (fun both => fits both.1), scaled, min_eq_right reached]

section Words

def checkedMul (a b : UInt64) : Option UInt64 :=
  if a.toNat * b.toNat < 2 ^ 64 then some (a * b) else none

def checkedDiv (a b : UInt64) : Option UInt64 := if b = 0 then none else some (a / b)

def saturatingMul (a b : UInt64) : UInt64 :=
  if a.toNat * b.toNat < 2 ^ 64 then a * b else 0xFFFFFFFFFFFFFFFF

def saturatingAdd (a b : UInt64) : UInt64 :=
  if a.toNat + b.toNat < 2 ^ 64 then a + b else 0xFFFFFFFFFFFFFFFF

variable (a b : UInt64)

theorem toNat_mul_of_lt {a b : UInt64} (fits : a.toNat * b.toNat < 2 ^ 64) :
    (a * b).toNat = a.toNat * b.toNat := by
  rw [UInt64.toNat_mul, Nat.mod_eq_of_lt fits]

theorem toNat_checkedMul : (checkedMul a b).map UInt64.toNat =
    if a.toNat * b.toNat < 2 ^ 64 then some (a.toNat * b.toNat) else none := by
  rw [checkedMul]
  split_ifs with fits
  · rw [Option.map_some, toNat_mul_of_lt fits]
  · rfl

theorem elim_checkedMul (d : UInt64) (f : UInt64 → UInt64) : (checkedMul a b).elim d f =
    if a.toNat * b.toNat < 2 ^ 64 then f (a * b) else d := by
  rw [checkedMul]
  split_ifs <;> rfl

theorem checkedDiv_of_pos (pos : 0 < b.toNat) : checkedDiv a b = some (a / b) := by
  rw [checkedDiv, if_neg]
  rintro rfl
  exact absurd pos (lt_irrefl 0)

theorem toNat_saturatingMul :
    (saturatingMul a b).toNat = min (a.toNat * b.toNat) (2 ^ 64 - 1) := by
  rw [saturatingMul]
  split_ifs with fits
  · rw [toNat_mul_of_lt fits, min_eq_left (Nat.le_sub_one_of_lt fits)]
  · rw [min_eq_right (by omega)]
    rfl

theorem toNat_saturatingAdd :
    (saturatingAdd a b).toNat = min (a.toNat + b.toNat) (2 ^ 64 - 1) := by
  rw [saturatingAdd]
  split_ifs with fits
  · rw [UInt64.toNat_add, Nat.mod_eq_of_lt fits, min_eq_left (Nat.le_sub_one_of_lt fits)]
  · rw [min_eq_right (by omega)]
    rfl

theorem le_min_self_iff {a b : UInt64} : b ≤ min a b ↔ b ≤ a := by
  rw [UInt64.le_iff_toNat_le, UInt64.le_iff_toNat_le, UInt64.toNat_min, le_min_iff,
    and_iff_left le_rfl]

theorem forall_toNat {P : ℕ → Prop} : (∀ x : UInt64, P x.toNat) ↔ ∀ n < 2 ^ 64, P n := by
  constructor
  · intro words n below
    simpa only [UInt64.toNat_ofNat_of_lt' below] using words (UInt64.ofNat n)
  · exact fun numbers x => numbers _ x.toNat_lt

end Words

end RtosCore
