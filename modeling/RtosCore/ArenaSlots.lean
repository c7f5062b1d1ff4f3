import RtosCore.ArenaCode
import Mathlib.Data.Nat.Bitwise

/-! What the arena does to one slot. A generation is a sixteen-bit counter that is never zero,
with the free bit above it; occupying a slot moves the counter on, freeing it sets the bit, and
nothing else touches either. -/

namespace RtosCore

def counter (generation : UInt32) : ℕ := generation.toNat % 65536

/-- Nothing above the free bit, and a counter that is not zero. -/
def WellFormed (generation : UInt32) : Prop := generation.toNat < 131072 ∧ 0 < counter generation

section Generations

variable {g : UInt32}

theorem toNat_low : (g &&& 0xFFFF).toNat = counter g := by
  rw [UInt32.toNat_and]
  exact Nat.and_two_pow_sub_one_eq_mod _ 16

/-- The counter after `0xFFFF` is 1. -/
theorem toNat_occupied : (occupied g).toNat = counter g % 65535 + 1 := by
  have low := toNat_low (g := g)
  have small : counter g < 65536 := Nat.mod_lt _ (by decide)
  have next : ((g &&& 0xFFFF) + 1).toNat = counter g + 1 := by
    have one : (1 : UInt32).toNat = 1 := rfl
    rw [UInt32.toNat_add, low, one, Nat.mod_eq_of_lt (by omega)]
  have last : (0xFFFF : UInt32).toNat = 65535 := rfl
  have nonzero : (g &&& 0xFFFF) + 1 ≠ 0 := by
    intro zero
    rw [zero] at next
    exact absurd next (by change ¬ 0 = _; omega)
  unfold occupied
  by_cases wraps : 0xFFFF < (g &&& 0xFFFF) + 1
  · rw [if_pos (Or.inl wraps)]
    rw [UInt32.lt_iff_toNat_lt, next, last] at wraps
    have full : counter g = 65535 := by omega
    rw [full]
    rfl
  · rw [if_neg (by simp [wraps, nonzero]), next]
    rw [UInt32.lt_iff_toNat_lt, next, last] at wraps
    rw [Nat.mod_eq_of_lt (by omega)]

theorem toNat_FREE : FREE.toNat = 2 ^ 16 := rfl

theorem toNat_eq_counter (h : g.toNat < 65536) : g.toNat = counter g :=
  (Nat.mod_eq_of_lt h).symm

theorem live_iff (h : WellFormed g) :
    live g = true ↔ g.toNat < 65536 := by
  have bound := h.1
  have zero : (0 : UInt32).toNat = 0 := rfl
  rw [live, decide_eq_true_eq, ← UInt32.toNat_inj, UInt32.toNat_and, toNat_FREE, zero,
    Nat.and_two_pow, Nat.testBit_eq_decide_div_mod_eq]
  have bit : g.toNat / 2 ^ 16 % 2 = 0 ↔ g.toNat < 65536 := by omega
  rw [← bit]
  simp

theorem toNat_or_FREE (h : WellFormed g) :
    (g ||| FREE).toNat = 65536 + counter g := by
  have bound := h.1
  have small : counter g < 2 ^ 16 := Nat.mod_lt _ (by decide)
  have set : 65536 + counter g = 2 ^ 16 ||| counter g := by
    have := Nat.two_pow_add_eq_or_of_lt small 1
    simpa using this
  rw [UInt32.toNat_or, toNat_FREE]
  by_cases high : g.toNat < 65536
  · rw [toNat_eq_counter high, set, Nat.or_comm]
  · have split : g.toNat = 65536 + counter g := by
      unfold counter
      omega
    rw [split, set, Nat.or_comm, ← Nat.or_assoc, Nat.or_self]

theorem counter_of_toNat {n c : ℕ} (h : g.toNat = n) (hc : n % 65536 = c) :
    counter g = c := by
  rw [counter, h, hc]

theorem counter_or_FREE (h : WellFormed g) :
    counter (g ||| FREE) = counter g := by
  have small : counter g < 65536 := Nat.mod_lt _ (by decide)
  exact counter_of_toNat (toNat_or_FREE h) (by omega)

theorem wellFormed_or_FREE (h : WellFormed g) : WellFormed (g ||| FREE) := by
  have small : counter g < 65536 := Nat.mod_lt _ (by decide)
  refine ⟨by rw [toNat_or_FREE h]; omega, ?_⟩
  rw [counter_or_FREE h]
  exact h.2

theorem not_live_or_FREE (h : WellFormed g) : live (g ||| FREE) = false := by
  rw [← Bool.not_eq_true, live_iff (wellFormed_or_FREE h), toNat_or_FREE h]
  omega

theorem occupied_lt : (occupied g).toNat < 65536 := by
  have := Nat.mod_lt (counter g) (show 0 < 65535 by decide)
  rw [toNat_occupied]
  omega

theorem counter_occupied : counter (occupied g) = counter g % 65535 + 1 := by
  rw [← toNat_eq_counter occupied_lt, toNat_occupied]

theorem wellFormed_occupied : WellFormed (occupied g) := by
  have := occupied_lt (g := g)
  refine ⟨by omega, ?_⟩
  rw [counter_occupied]
  omega

theorem live_occupied : live (occupied g) = true :=
  (live_iff wellFormed_occupied).mpr occupied_lt

theorem wellFormed_new : WellFormed (FREE ||| 1) := by
  constructor <;> decide

theorem not_live_new : live (FREE ||| 1) = false := by decide

end Generations

variable {K : Kind} {T : Type} {p : Shape}

namespace Arena

variable {a : Arena K T p} {h : Handle K} {slot : Slot T} {i : ℕ}

/-- The slot a handle names, if the generations agree. -/
def found (a : Arena K T p) (h : Handle K) : Option (Slot T) :=
  (a.slots[p.asUsize h.index]?).filter fun slot => slot.generation = h.generation

def put (a : Arena K T p) (i : ℕ) (slot : Slot T) (len : ℕ) : Arena K T p :=
  ⟨a.slots.setIfInBounds i slot, len⟩

theorem found_eq_some : a.found h = some slot ↔
    a.slots[p.asUsize h.index]? = some slot ∧ slot.generation = h.generation := by
  rw [found, Option.filter_eq_some_iff, decide_eq_true_eq]

theorem found_eq_none : a.found h = none ↔
    ∀ slot, a.slots[p.asUsize h.index]? = some slot → slot.generation ≠ h.generation := by
  simp [found, Option.filter_eq_none_iff]

theorem lt_of_slot (hi : a.slots[i]? = some slot) : i < p.N := by
  by_contra out
  rw [Vector.getElem?_eq_none (by omega)] at hi
  cases hi

theorem slot_exists (a : Arena K T p) (hi : i < p.N) : ∃ slot, a.slots[i]? = some slot :=
  ⟨a.slots[i], Vector.getElem?_eq_getElem hi⟩

theorem slots_put (hi : i < p.N) (len : ℕ) (j : ℕ) :
    (a.put i slot len).slots[j]? = if j = i then some slot else a.slots[j]? := by
  rw [put, Vector.getElem?_setIfInBounds]
  by_cases same : i = j
  · rw [if_pos same, if_pos same.symm, if_pos (same ▸ hi)]
  · rw [if_neg same, if_neg (Ne.symm same)]

theorem get_eq : a.get h = (a.found h).map Slot.value := by
  unfold get found
  cases a.slots[p.asUsize h.index]? with
  | none => rfl
  | some slot => by_cases same : slot.generation = h.generation <;> simp [same]

theorem resolve_eq_ok {v : T} : a.resolve h = .ok v ↔ a.get h = some v := by
  unfold resolve get
  cases a.slots[p.asUsize h.index]? with
  | none => simp
  | some slot => by_cases same : slot.generation = h.generation <;> simp [same]

theorem resolveMut_eq (write : T → T) :
    a.resolveMut h write = (a.resolve h, (a.getMut h write).2) := by
  unfold resolveMut resolve getMut
  cases a.slots[p.asUsize h.index]? with
  | none => rfl
  | some slot => by_cases same : slot.generation = h.generation <;> simp [same]

section Missed

variable (missed : a.found h = none)

include missed

theorem getMut_missed (write : T → T) : a.getMut h write = (none, a) := by
  unfold getMut
  cases hit : a.slots[p.asUsize h.index]? with
  | none => rfl
  | some slot => exact if_pos (found_eq_none.mp missed slot hit)

theorem discard_missed [Inhabited T] : a.discard h = (false, a) := by
  unfold discard
  cases hit : a.slots[p.asUsize h.index]? with
  | none => rfl
  | some slot => exact if_pos (found_eq_none.mp missed slot hit)

theorem remove_missed [Inhabited T] : a.remove h = (none, a) := by
  unfold remove
  cases hit : a.slots[p.asUsize h.index]? with
  | none => rfl
  | some slot => exact if_pos (found_eq_none.mp missed slot hit)

end Missed

section Hit

variable (hit : a.found h = some slot)

include hit

theorem getMut_hit (write : T → T) : a.getMut h write = (some slot.value,
    a.put (p.asUsize h.index) { slot with value := write slot.value } a.len) := by
  obtain ⟨there, same⟩ := found_eq_some.mp hit
  simp only [getMut, there]
  exact if_neg (not_not.mpr same)

theorem discard_hit [Inhabited T] : a.discard h = (true, a.put (p.asUsize h.index)
    ⟨slot.generation ||| FREE, if p.needsDrop then default else slot.value⟩
    (p.wrappingPred a.len)) := by
  obtain ⟨there, same⟩ := found_eq_some.mp hit
  simp only [discard, there]
  exact if_neg (not_not.mpr same)

theorem remove_hit [Inhabited T] : a.remove h = (some slot.value, a.put (p.asUsize h.index)
    ⟨slot.generation ||| FREE, default⟩ (p.wrappingPred a.len)) := by
  obtain ⟨there, same⟩ := found_eq_some.mp hit
  simp only [remove, there]
  exact if_neg (not_not.mpr same)

end Hit

theorem tryInsert_cases (a : Arena K T p) (v : T) :
    ((∀ (i : ℕ) (slot : Slot T), a.slots[i]? = some slot → live slot.generation) ∧
      a.tryInsert v = (.error v, a)) ∨
    ∃ (i : ℕ) (slot : Slot T), a.slots[i]? = some slot ∧ live slot.generation = false ∧
      a.tryInsert v = (.ok ⟨UInt32.ofNat i, occupied slot.generation⟩,
        a.put i ⟨occupied slot.generation, v⟩ (p.wrappingSucc a.len)) := by
  unfold tryInsert
  cases search : a.slots.toList.findIdx? fun s => !live s.generation with
  | none =>
    refine Or.inl ⟨fun i slot hi => ?_, rfl⟩
    have mem : slot ∈ a.slots.toList := by
      rw [← Vector.getElem?_toList] at hi
      exact List.mem_of_getElem? hi
    simpa using List.findIdx?_eq_none_iff.mp search slot mem
  | some i =>
    obtain ⟨hi, free, -⟩ := List.findIdx?_eq_some_iff_getElem.mp search
    have slot : a.slots[i]? = some a.slots.toList[i] := by
      rw [← Vector.getElem?_toList, List.getElem?_eq_getElem hi]
    refine Or.inr ⟨i, _, slot, by simpa using free, ?_⟩
    simp only [slot]
    rfl

end Arena

end RtosCore
