import RtosCore.Rota
import Mathlib.Order.Lattice
import Mathlib.Order.Basic

/-! Lists in order of a value, equal values in order of arrival. Placing a newcomer in front of
the first larger value is a stable insertion; anything may leave from anywhere. And queues:
lists in order of arrival alone, which newcomers join at the end. -/

namespace RtosCore

variable {α V : Type*} [LinearOrder V]

/-- Before in the order of values, or of the same value and earlier. -/
def Before (val : α → V) (time : α → ℕ) (x y : α) : Prop :=
  val x < val y ∨ val x = val y ∧ time x < time y

theorem Before.le {val : α → V} {time : α → ℕ} {x y : α} (h : Before val time x y) :
    val x ≤ val y :=
  h.elim le_of_lt fun h => h.1.le

structure InOrder (val : α → V) (time : α → ℕ) (now : ℕ) (items : List α) : Prop where
  sorted : items.Pairwise (Before val time)
  past : ∀ x ∈ items, time x < now

namespace InOrder

variable {val val' : α → V} {time time' : α → ℕ} {now now' : ℕ} {x : α} {items items' : List α}

theorem nil : InOrder val time now [] := ⟨List.Pairwise.nil, by simp⟩

theorem of_sorted [DecidableEq α] (sorted : (items.map val).Pairwise (· ≤ ·))
    (nodup : items.Nodup) : InOrder val items.idxOf items.length items where
  sorted := by
    rw [List.pairwise_map, List.pairwise_iff_getElem] at sorted
    refine List.pairwise_iff_getElem.mpr fun i j hi hj hij => ?_
    rcases (sorted i j hi hj hij).lt_or_eq with lt | eq
    · exact Or.inl lt
    · have before : items.idxOf items[i] < items.idxOf items[j] := by
        rwa [nodup.idxOf_getElem, nodup.idxOf_getElem]
      exact Or.inr ⟨eq, before⟩
  past x hx := List.idxOf_lt_length_of_mem hx

theorem values_sorted (h : InOrder val time now items) : (items.map val).Pairwise (· ≤ ·) :=
  List.pairwise_map.mpr (h.sorted.imp Before.le)

theorem stay (h : InOrder val time now items) (sub : items'.Sublist items)
    (same : ∀ y ∈ items', val' y = val y) (moment : ∀ y ∈ items', time' y = time y)
    (later : now ≤ now') : InOrder val' time' now' items' where
  sorted := by
    refine (h.sorted.sublist sub).imp_of_mem fun {y z} hy hz before => ?_
    rw [Before, same y hy, same z hz, moment y hy, moment z hz]
    exact before
  past y hy := by
    rw [moment y hy]
    exact (h.past y (sub.subset hy)).trans_le later

theorem above_dropWhile (h : InOrder val time now items) {v : V} :
    ∀ y ∈ items.dropWhile (fun y => !decide (v < val y)), v < val y := by
  induction items with
  | nil => simp
  | cons z items ih =>
    obtain ⟨first, rest⟩ := List.pairwise_cons.mp h.sorted
    by_cases hz : v < val z
    · rw [List.dropWhile_cons_of_neg (by simpa using hz)]
      intro y hy
      rcases List.mem_cons.mp hy with rfl | hy
      · exact hz
      · exact hz.trans_le (first y hy).le
    · rw [List.dropWhile_cons_of_pos (by simpa using hz)]
      exact ih ⟨rest, fun y hy => h.past y (List.mem_cons_of_mem _ hy)⟩

/-- The newcomer goes behind every value that is not larger than its own. -/
theorem insert (h : InOrder val time now items) (latest : time x = now) :
    InOrder val time (now + 1) (insertBefore (fun y => decide (val x < val y)) x items) where
  sorted := by
    have split : items.takeWhile (fun y => !decide (val x < val y)) ++
        items.dropWhile (fun y => !decide (val x < val y)) = items :=
      List.takeWhile_append_dropWhile
    have sorted := h.sorted
    rw [← split, List.pairwise_append] at sorted
    obtain ⟨left, right, across⟩ := sorted
    refine List.pairwise_append.mpr ⟨left, List.pairwise_cons.mpr ⟨fun z hz => ?_, right⟩, ?_⟩
    · exact Or.inl (h.above_dropWhile z hz)
    · intro y hy z hz
      rcases List.mem_cons.mp hz with rfl | hz
      · have le : val y ≤ val z := by simpa using List.mem_takeWhile_imp hy
        have earlier := h.past y ((List.takeWhile_sublist _).subset hy)
        rcases le.lt_or_eq with lt | eq
        · exact Or.inl lt
        · exact Or.inr ⟨eq, latest ▸ earlier⟩
      · exact across y hy z hz
  past y hy := by
    rcases mem_insertBefore.mp hy with rfl | hy
    · omega
    · exact (h.past y hy).trans (Nat.lt_succ_self now)

theorem le_of_last (h : InOrder val time now items) {v : V} {last : α}
    (hlast : items.getLast? = some last) (le : val last ≤ v) : ∀ y ∈ items, val y ≤ v := by
  obtain ⟨ys, rfl⟩ := List.getLast?_eq_some_iff.mp hlast
  intro y hy
  rcases List.mem_append.mp hy with hy | hy
  · have before := (List.pairwise_append.mp h.sorted).2.2 y hy last (by simp)
    exact before.le.trans le
  · rwa [List.mem_singleton.mp hy]

end InOrder

/-- Those of `start` that have kept their place, in its order, and behind them the others in the
order in which they joined. A time of 0 is that of no joining. -/
def InQueue (start : List α) (time : α → ℕ) (items : List α) : Prop :=
  ∃ old new, items = old ++ new ∧ old.Sublist start ∧ (∀ x ∈ old, time x = 0) ∧
    (∀ x ∈ new, 0 < time x) ∧ new.Pairwise (time · < time ·)

namespace InQueue

variable {start items : List α} {time time' : α → ℕ} {x : α}

theorem self (items : List α) : InQueue items (fun _ => 0) items :=
  ⟨items, [], by simp, List.Sublist.refl _, by simp, by simp, List.Pairwise.nil⟩

theorem congr (h : InQueue start time items) (same : ∀ y ∈ items, time' y = time y) :
    InQueue start time' items := by
  obtain ⟨old, new, rfl, sub, kept, joined, order⟩ := h
  refine ⟨old, new, rfl, sub, fun y hy => ?_, fun y hy => ?_, order.imp_of_mem fun {y z} hy hz lt => ?_⟩
  · rw [same y (List.mem_append_left _ hy)]
    exact kept y hy
  · rw [same y (List.mem_append_right _ hy)]
    exact joined y hy
  · rwa [same y (List.mem_append_right _ hy), same z (List.mem_append_right _ hz)]

theorem leave [DecidableEq α] (h : InQueue start time items) (x : α) :
    InQueue start time (items.erase x) := by
  obtain ⟨old, new, rfl, sub, kept, joined, order⟩ := h
  by_cases hx : x ∈ old
  · exact ⟨old.erase x, new, List.erase_append_left _ hx, List.erase_sublist.trans sub,
      fun y hy => kept y (List.mem_of_mem_erase hy), joined, order⟩
  · exact ⟨old, new.erase x, List.erase_append_right _ hx, sub, kept,
      fun y hy => joined y (List.mem_of_mem_erase hy), order.sublist List.erase_sublist⟩

theorem join (h : InQueue start time items) (joins : 0 < time x)
    (latest : ∀ y ∈ items, time y < time x) : InQueue start time (items ++ [x]) := by
  obtain ⟨old, new, rfl, sub, kept, joined, order⟩ := h
  refine ⟨old, new ++ [x], List.append_assoc .., sub, kept, fun y hy => ?_, ?_⟩
  · rcases List.mem_append.mp hy with hy | hy
    · exact joined y hy
    · rwa [List.mem_singleton.mp hy]
  · refine List.pairwise_append.mpr ⟨order, List.pairwise_singleton _ _, fun y hy z hz => ?_⟩
    rw [List.mem_singleton.mp hz]
    exact latest y (List.mem_append_right _ hy)

end InQueue

end RtosCore
