import RtosCore.RotaTurns

/-! Turns that go round a ring: each is the ring's first item, which then goes to the back.
However far they get, two items of the ring are never more than one turn apart. Strangers in a
rota, however they come and go, only stand between the turns of the others. -/

namespace RtosCore

variable {α : Type*}

/-- The turns read the ring off from its front, as often as they last. -/
inductive GoesRound : List α → List α → Prop
  | nil (ring : List α) : GoesRound ring []
  | turn {x : α} {rest turns : List α} (later : GoesRound (rest ++ [x]) turns) :
      GoesRound (x :: rest) (x :: turns)

inductive Turn : List α → Option α → List α → Prop
  | passed (ring : List α) : Turn ring none ring
  | taken (x : α) (rest : List α) : Turn (x :: rest) (some x) (rest ++ [x])

namespace Turn

variable {ring ring' turns : List α} {who : Option α}

theorem rotate (h : Turn ring who ring') : ring' = ring.rotate who.toList.length := by
  cases h with
  | passed => rw [Option.toList_none, List.length_nil, List.rotate_zero]
  | taken x rest =>
    rw [Option.toList_some, List.length_singleton, List.rotate_cons_succ, List.rotate_zero]

theorem goesRound (h : Turn ring who ring') (later : GoesRound ring' turns) :
    GoesRound ring (who.toList ++ turns) := by
  cases h with
  | passed => exact later
  | taken => exact later.turn

end Turn

namespace GoesRound

variable {ring turns : List α} {x y : α}

theorem getElem? (h : GoesRound ring turns) {i : ℕ} (hi : i < turns.length) :
    turns[i]? = ring[i % ring.length]? := by
  have front : turns[i]? = (ring.rotate i).head? := by
    induction h generalizing i with
    | nil => exact absurd hi (Nat.not_lt_zero i)
    | turn later ih =>
      cases i with
      | zero => rfl
      | succ i =>
        rw [List.getElem?_cons_succ, ih (Nat.lt_of_succ_lt_succ hi), List.rotate_cons_succ]
  cases ring with
  | nil =>
    cases h
    exact absurd hi (Nat.not_lt_zero i)
  | cons z rest =>
    rw [front, ← List.rotate_mod, List.head?_rotate (Nat.mod_lt i (by simp))]

variable [DecidableEq α]

/-- Who stands further in front has as many turns as the other, or one more. -/
theorem count_between (h : GoesRound ring turns) (nodup : ring.Nodup)
    (front : [x, y].Sublist ring) :
    turns.count y ≤ turns.count x ∧ turns.count x ≤ turns.count y + 1 := by
  induction h generalizing x y with
  | nil => simp
  | @turn z rest turns later ih =>
    have nodup' : (rest ++ [z]).Nodup := (List.perm_append_singleton z rest).nodup_iff.mpr nodup
    have hz := (List.nodup_cons.mp nodup).1
    rcases List.sublist_cons_iff.mp front with inner | ⟨back, same, hy⟩
    · -- Neither of the two has the turn, and neither goes to the back.
      have hx : z ≠ x := fun e => hz (e ▸ inner.subset (by simp))
      have hy : z ≠ y := fun e => hz (e ▸ inner.subset (by simp))
      rw [List.count_cons_of_ne hx, List.count_cons_of_ne hy]
      exact ih nodup' (inner.trans (List.sublist_append_left rest [z]))
    · -- The one in front has its turn and is now behind the other.
      rw [List.cons.injEq] at same
      obtain ⟨rfl, rfl⟩ := same
      have hne : x ≠ y := fun e => hz (e ▸ hy.subset (by simp))
      have behind := ih nodup' (hy.append (List.Sublist.refl [x]))
      rw [List.count_cons_self, List.count_cons_of_ne hne]
      omega

theorem count_le (h : GoesRound ring turns) (nodup : ring.Nodup) (hx : x ∈ ring) (hy : y ∈ ring) :
    turns.count x ≤ turns.count y + 1 := by
  rcases eq_or_ne x y with rfl | hne
  · exact Nat.le_succ _
  · obtain ⟨us, vs, cut⟩ := List.append_of_mem hx
    rw [cut, List.mem_append, List.mem_cons] at hy
    rcases hy with before | rfl | behind
    · have front : [y, x].Sublist ring := by
        rw [cut]
        exact (List.singleton_sublist.mpr before).append
          (List.singleton_sublist.mpr List.mem_cons_self)
      exact (h.count_between nodup front).1.trans (Nat.le_succ _)
    · exact absurd rfl hne
    · have front : [x, y].Sublist ring := by
        rw [cut]
        exact ((List.singleton_sublist.mpr behind).cons_cons x).trans
          (List.sublist_append_right us _)
      exact (h.count_between nodup front).2

end GoesRound

namespace Rota

variable [DecidableEq α] {r : Rota α} {p : α → Bool} {stays : α → Bool} {x : α}

theorem erase_place (hx : x ∉ r.items) : (r.place p x).erase x = r := by
  have other : r.cursor ≠ some x := fun hc => hx (r.cursor_mem x hc)
  ext1
  · rw [erase_items, place_items hx, insertBefore, List.erase_append_right]
    · rw [List.erase_cons_head, List.takeWhile_append_dropWhile]
    · exact fun h => hx ((List.takeWhile_sublist _).subset h)
  · rw [erase_cursor, place_cursor, if_neg other]

theorem filter_erase_order (hx : stays x = false) :
    (r.erase x).order.filter stays = r.order.filter stays := by
  rw [erase_order, r.nodup_order.erase_eq_filter, List.filter_filter]
  refine List.filter_congr fun y _ => ?_
  rcases eq_or_ne y x with rfl | hy
  · simp [hx]
  · simp [hy]

theorem filter_place_order (hx : stays x = false) :
    (r.place p x).order.filter stays = r.order.filter stays := by
  by_cases member : x ∈ r.items
  · rw [place, dif_pos member]
  · rw [← filter_erase_order hx, erase_place member]

theorem turn_advance (r : Rota α) (stays : α → Bool) :
    Turn (r.order.filter stays) (r.nextUp.filter stays) (r.advance.order.filter stays) := by
  have next : r.nextUp = r.order.head? := r.nextUp_eq
  rw [advance_order, next]
  cases r.order with
  | nil => exact Turn.passed []
  | cons y ys =>
    rw [List.head?_cons, List.rotate_cons_succ, List.rotate_zero, List.filter_append]
    cases hy : stays y with
    | false => simpa [Option.filter_some, hy] using Turn.passed (ys.filter stays)
    | true => simpa [Option.filter_some, hy] using Turn.taken y (ys.filter stays)

end Rota

end RtosCore
