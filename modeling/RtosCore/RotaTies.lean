import RtosCore.RotaOrder

/-! When the order of newcomers matters. Two that are placed by different values end up the same
either way, even in a list that is in no order; of two that are placed by one value the first to
come stands in front, and stays in front whoever comes later. -/

namespace RtosCore

variable {α V : Type*}

theorem insertBefore_cons (p : α → Bool) (x z : α) (l : List α) :
    insertBefore p x (z :: l) = if p z then x :: z :: l else z :: insertBefore p x l := by
  cases hz : p z <;> simp [insertBefore, hz]

theorem sublist_insertBefore (p : α → Bool) (x : α) (l : List α) :
    l.Sublist (insertBefore p x l) := by
  conv_lhs => rw [← List.takeWhile_append_dropWhile (p := fun y => !p y) (l := l)]
  exact (List.Sublist.refl _).append (List.sublist_cons_self x _)

/-- Two items cannot each stand in front of the other. -/
theorem not_both_front {x y : α} {l : List α} (nodup : l.Nodup) (front : [x, y].Sublist l) :
    ¬ [y, x].Sublist l := by
  intro back
  induction l with
  | nil => exact absurd front.length_le (by simp)
  | cons z l ih =>
    have hz := (List.nodup_cons.mp nodup).1
    rcases List.sublist_cons_iff.mp front with inner | ⟨r, same, hy⟩
    · rcases List.sublist_cons_iff.mp back with inner' | ⟨r, same, -⟩
      · exact ih (List.nodup_cons.mp nodup).2 inner inner'
      · rw [List.cons.injEq] at same
        exact hz (same.1 ▸ inner.subset (by simp))
    · rw [List.cons.injEq] at same
      obtain ⟨rfl, rfl⟩ := same
      have hne : y ≠ x := fun e => hz (hy.subset (by simp [e]))
      rcases List.sublist_cons_iff.mp back with inner' | ⟨r, same, -⟩
      · exact hz (inner'.subset (by simp))
      · rw [List.cons.injEq] at same
        exact hne same.1

variable [LinearOrder V] {val : α → V} {x y : α}

theorem insertBefore_swap (lt : val x < val y) (l : List α) :
    insertBefore (fun z => decide (val x < val z)) x
        (insertBefore (fun z => decide (val y < val z)) y l) =
      insertBefore (fun z => decide (val y < val z)) y
        (insertBefore (fun z => decide (val x < val z)) x l) := by
  have gt : ¬ val y < val x := lt.not_gt
  induction l with
  | nil => simp [insertBefore, lt, gt]
  | cons z l ih =>
    by_cases hy : val y < val z
    · have hx : val x < val z := lt.trans hy
      simp [insertBefore_cons, hx, hy, lt, gt]
    · by_cases hx : val x < val z
      · simp [insertBefore_cons, hx, hy, gt]
      · simp [insertBefore_cons, hx, hy, ih]

theorem insertBefore_comm (ne : val x ≠ val y) (l : List α) :
    insertBefore (fun z => decide (val x < val z)) x
        (insertBefore (fun z => decide (val y < val z)) y l) =
      insertBefore (fun z => decide (val y < val z)) y
        (insertBefore (fun z => decide (val x < val z)) x l) := by
  rcases ne.lt_or_gt with lt | gt
  · exact insertBefore_swap lt l
  · exact (insertBefore_swap gt l).symm

theorem insertBefore_tie (tie : val x = val y) (l : List α) :
    [x, y].Sublist (insertBefore (fun z => decide (val y < val z)) y
      (insertBefore (fun z => decide (val x < val z)) x l)) := by
  induction l with
  | nil => simp [insertBefore, tie]
  | cons z l ih =>
    rw [insertBefore_cons]
    by_cases hx : val x < val z
    · simp [insertBefore_cons, tie, tie ▸ hx]
    · have hy : ¬ val y < val z := tie ▸ hx
      rw [if_neg (by simpa using hx), insertBefore_cons, if_neg (by simpa using hy)]
      exact ih.cons z

end RtosCore
