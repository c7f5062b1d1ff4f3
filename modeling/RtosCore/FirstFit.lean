import Mathlib.Data.Finset.Card
import Mathlib.Data.Finset.Range

/-! First fit. Numbers are taken lowest first and given back in any order, any number at a time.
However long this goes on, the numbers in use are never spread further than they have to be. -/

namespace RtosCore

/-- A history of first fit: the numbers taken so far, the most that were held at once, and those
held now. -/
inductive FirstFit : Finset ℕ → ℕ → Finset ℕ → Prop
  | start : FirstFit ∅ 0 ∅
  | take {used held : Finset ℕ} {peak i : ℕ} (earlier : FirstFit used peak held)
      (free : i ∉ held) (lower : ∀ j < i, j ∈ held) :
      FirstFit (insert i used) (max peak (held.card + 1)) (insert i held)
  | give {used held left : Finset ℕ} {peak : ℕ} (earlier : FirstFit used peak held)
      (fewer : left ⊆ held) : FirstFit used peak left

namespace FirstFit

variable {used held : Finset ℕ} {peak i : ℕ}

theorem take_bounded (within : held ⊆ Finset.range peak) (free : i ∉ held)
    (lower : ∀ j < i, j ∈ held) :
    (i < peak ∧ held.card + 1 ≤ peak) ∨ (i = peak ∧ held = Finset.range peak) := by
  rcases lt_or_ge i peak with inside | outside
  · have more : insert i held ⊆ Finset.range peak :=
      Finset.insert_subset (Finset.mem_range.mpr inside) within
    have bound := Finset.card_le_card more
    rw [Finset.card_insert_of_notMem free, Finset.card_range] at bound
    exact Or.inl ⟨inside, bound⟩
  · have all : Finset.range peak ⊆ held := fun j mem =>
      lower j ((Finset.mem_range.mp mem).trans_le outside)
    have full := Finset.Subset.antisymm within all
    refine Or.inr ⟨le_antisymm ?_ outside, full⟩
    by_contra beyond
    exact lt_irrefl peak (Finset.mem_range.mp (within (lower peak (not_le.mp beyond))))

theorem used_eq (history : FirstFit used peak held) :
    used = Finset.range peak ∧ held ⊆ Finset.range peak := by
  induction history with
  | start => exact ⟨rfl, Finset.empty_subset _⟩
  | @take used held peak i _ free lower ih =>
    obtain ⟨rfl, within⟩ := ih
    rcases take_bounded within free lower with ⟨inside, room⟩ | ⟨rfl, full⟩
    · rw [max_eq_left room]
      have mem := Finset.mem_range.mpr inside
      exact ⟨Finset.insert_eq_self.mpr mem, Finset.insert_subset mem within⟩
    · have card : held.card = i := by rw [full, Finset.card_range]
      rw [card, max_eq_right (Nat.le_succ i), full, ← Finset.range_add_one]
      exact ⟨rfl, Finset.Subset.refl _⟩
  | give _ fewer ih => exact ⟨ih.1, fewer.trans ih.2⟩

end FirstFit

end RtosCore
