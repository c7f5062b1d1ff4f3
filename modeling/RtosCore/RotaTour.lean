import RtosCore.Rota

/-! Going through a list that changes on the way. Whoever goes stands at a member; others put
members in, take them out and move them, one at a time. As long as they leave alone where it
stands, all that was ahead of it is ahead of it still, in the same order, but for the one they
have touched. -/

namespace RtosCore

variable {α : Type*} [DecidableEq α]

def SameBut (z : α) (l l' : List α) : Prop := l'.filter (· != z) = l.filter (· != z)

/-- Where a tour stands, and what comes after it. -/
def ahead (stand : Option α) (l : List α) : List α :=
  stand.elim [] fun x => l.dropWhile (· ≠ x)

section Ahead

variable {l : List α} {stand : Option α} {x : α}

theorem ahead_sublist : (ahead stand l).Sublist l := by
  cases stand with
  | none => exact List.nil_sublist l
  | some x => exact List.dropWhile_sublist _

theorem ahead_start : ahead l.head? l = l := by
  cases l with
  | nil => rfl
  | cons x l => simp [ahead]

theorem ahead_step (nodup : l.Nodup) (hx : x ∈ l) : ahead (some x) l = x :: ahead (succ x l) l := by
  obtain ⟨ys, zs, rfl⟩ := List.append_of_mem hx
  have hys := notMem_before nodup
  rw [ahead, Option.elim_some, dropWhile_ne hys, succ_eq hys]
  cases zs with
  | nil => rfl
  | cons z zs =>
    rw [List.append_cons] at nodup ⊢
    rw [List.head?_cons, ahead, Option.elim_some, dropWhile_ne (notMem_before nodup)]

/-- Whoever waits among those ahead still waits after a step, or is where the step is made from. -/
theorem exists_waiting {q r : List α} {waits : α → Bool} (nodup : (x :: q).Nodup)
    (sub : r.Sublist (x :: q)) (wait : ∀ y ∈ r, waits y) :
    ∃ r' : List α, r'.Sublist q ∧ (∀ y ∈ r', (waits y && y != x) = true) ∧
      ∀ seen : List α, r'.Sublist seen → r.Sublist (x :: seen) := by
  have passed := (List.nodup_cons.mp nodup).1
  rcases List.sublist_cons_iff.mp sub with sub' | ⟨r', rfl, sub'⟩
  · refine ⟨r, sub', fun y hy => ?_, fun seen found => found.cons x⟩
    have other : y ≠ x := fun e => passed (e ▸ sub'.subset hy)
    simpa [other] using wait y hy
  · refine ⟨r', sub', fun y hy => ?_, fun seen found => found.cons_cons x⟩
    have other : y ≠ x := fun e => passed (e ▸ sub'.subset hy)
    simpa [other] using wait y (List.mem_cons_of_mem x hy)

end Ahead

namespace SameBut

variable {l l' r : List α} {y z : α} {stand : Option α}

theorem mem_iff (same : SameBut z l l') (other : y ≠ z) : y ∈ l' ↔ y ∈ l := by
  have mem : y ∈ l'.filter (· != z) ↔ y ∈ l.filter (· != z) := by rw [same]
  simpa [other] using mem

theorem count_eq (same : SameBut z l l') (other : y ≠ z) : l'.count y = l.count y := by
  have counts : (l'.filter (· != z)).count y = (l.filter (· != z)).count y := by rw [same]
  have away : (y != z) = true := bne_iff_ne.mpr other
  rwa [List.count_filter (p := (· != z)) away, List.count_filter (p := (· != z)) away] at counts

theorem sublist (same : SameBut z l l') (away : z ∉ r) (sub : r.Sublist l) : r.Sublist l' := by
  have whole : r.filter (· != z) = r :=
    List.filter_eq_self.mpr fun y hy => bne_iff_ne.mpr fun e => away (e ▸ hy)
  have part := sub.filter (· != z)
  rw [whole, ← same] at part
  exact part.trans List.filter_sublist

theorem length_le (same : SameBut z l l') (nodup : l'.Nodup) : l'.length ≤ l.length + 1 := by
  have once : (l'.filter fun y => !(y != z)).length ≤ 1 := by
    have alike : (fun y : α => !(y != z)) = (· == z) := by
      funext y
      rw [bne, Bool.not_not]
    rw [alike, ← List.countP_eq_length_filter]
    exact List.nodup_iff_count_le_one.mp nodup z
  have parts := List.length_eq_length_filter_add (l := l') (· != z)
  have rest : (l'.filter (· != z)).length ≤ l.length := by
    rw [same]
    exact List.length_filter_le _ _
  omega

theorem further (same : SameBut z l l') (elsewhere : stand ≠ some z) :
    SameBut z (ahead stand l) (ahead stand l') := by
  cases stand with
  | none => rfl
  | some x =>
    have passes : (fun y => !(y != z) || decide (y ≠ x)) = fun y => decide (y ≠ x) := by
      funext y
      rcases eq_or_ne y z with rfl | other
      · have away : y ≠ x := fun e => elsewhere (congrArg some e.symm)
        simp [away]
      · simp [other]
    change (l'.dropWhile (· ≠ x)).filter (· != z) = (l.dropWhile (· ≠ x)).filter (· != z)
    rw [← passes, ← List.dropWhile_filter, ← List.dropWhile_filter, same]

end SameBut

namespace Rota

variable {r : Rota α} {p : α → Bool} {z : α}

theorem sameBut_erase : SameBut z r.items (r.erase z).items := by
  rw [SameBut, erase_items, r.nodup.erase_eq_filter, List.filter_filter]
  simp only [Bool.and_self]

theorem sameBut_place : SameBut z r.items (r.place p z).items := by
  by_cases member : z ∈ r.items
  · rw [place, dif_pos member]
    rfl
  · rw [SameBut, place_items member, insertBefore, List.filter_append,
      List.filter_cons_of_neg (by simp), ← List.filter_append, List.takeWhile_append_dropWhile]

end Rota

end RtosCore
