import RtosCore.Independence
import RtosCore.WakeOrder

/-! Two calls are there only for speed. `move_to_end` is a removal and an `insert_end` in one,
and `insert_sorted` is `insert` for a list that is in order, without the walk when the tail
shows that there is none to make. Each leaves every field as the longer way does. -/

namespace RtosCore

variable {V : Type} [ListValue V] {g : Sizes}

namespace Model

variable {m : Model V} {l : ListId} {x : ItemId} {v : V}

theorem insertSorted_step (sorted : l.toNat < g.L → (m.values l).Pairwise (· ≤ ·)) :
    m.step g (.insertSorted l x v) = m.step g (.insert l x v) := by
  rw [step, step, insertion, insertion]
  by_cases range : l.toNat < g.L ∧ x.toNat < g.CAPACITY
  · have order := InOrder.of_sorted (sorted range.1) (m.rota l).nodup
    have same : (m.setValue x v).place l (m.aboveTail l v) x =
        (m.setValue x v).place l (m.above v) x := by
      unfold place
      split
      · rfl
      · ext1
        · exact congrArg (Function.update m.rota l) (Rota.place_congr (aboveTail_eq order v))
        · rfl
    rw [same]
  · rw [if_pos range, if_pos range]

theorem values_sorted_insert (sorted : (m.values l).Pairwise (· ≤ ·)) (free : ¬ m.Linked x) :
    (((m.setValue x v).place l (m.above v) x).values l).Pairwise (· ≤ ·) := by
  have order := InOrder.of_sorted sorted (m.rota l).nodup
  have joined := order_placed (k := l) (p := m.above v) order free (some v) fun _ y _ => by
    rw [keeping, setValue_value, if_pos rfl]
    rfl
  exact joined.values_sorted

end Model

namespace Refines

open ListsOf

variable {s t : ListsOf V g} {m : Model V} {l : ListId} {x : ItemId} {v : V} {b : Build}

theorem call_congr (h : Refines s m) {op op' : Op V} (same : m.step g op = m.step g op') :
    ListsOf.call b op s = ListsOf.call b op' s := by
  have follows := h.call b op
  have follows' := h.call b op'
  rw [same] at follows
  refine Prod.ext ?_ (follows.refines.ext follows'.refines fun y hy free => ?_)
  · rw [h.call_answer, h.call_answer, same]
  · have stale := follows.stale y hy free
    have stale' := follows'.stale y hy free
    exact ⟨stale.1.trans stale'.1.symm, stale.2.trans stale'.2.symm⟩

theorem isSorted_iff (h : Refines s m) (hl : l.toNat < g.L) :
    (ListsOf.query b (.isSorted l) s).1 = .ok (.flag true) ↔ (m.values l).Pairwise (· ≤ ·) := by
  rw [h.query_eq, Model.ask, Model.ofList, if_neg (not_not.mpr hl), Except.mapError]
  simp

theorem moveToEnd_eq_pair (h : Refines s m) (hx : x ∈ (m.rota l).items) (b : Build) :
    ListsOf.call b (.moveToEnd l x) s = (.ok (.moved true),
      (ListsOf.call b (.insertEnd l x) (ListsOf.call b (.remove x) s).2).2) := by
  have range := h.bounds l x hx
  have step : m.step g (.moveToEnd l x) = (.ok (.moved true), m.moveToEnd l x) :=
    Model.step_moves range hx
  obtain ⟨a, removed⟩ : ∃ a, m.step g (.remove x) = (.ok a, m.erase x) :=
    Model.step_leaves rfl range.2 (Model.linked_of_mem hx)
  have joined : (m.erase x).step g (.insertEnd l x) = (.ok .unit, m.moveToEnd l x) :=
    Model.step_joins rfl range Model.not_linked_erase
  have fused := h.call b (.moveToEnd l x)
  rw [step] at fused
  have first := h.call b (.remove x)
  rw [removed] at first
  have second := first.refines.call b (.insertEnd l x)
  rw [joined] at second
  refine Prod.ext ?_ (fused.refines.ext second.refines fun y hy free => ?_)
  · rw [h.call_answer, step]
    rfl
  · -- a free item is not `x`, so it was free before `x` came back, too
    have free' : ¬ (m.erase x).Linked y := fun linked =>
      free ((Model.linked_place Model.not_linked_erase).mpr (Or.inr linked))
    have one := fused.stale y hy free
    have two := second.stale y hy free
    have three := first.stale y hy free'
    exact ⟨one.1.trans (two.1.trans three.1).symm, one.2.trans (two.2.trans three.2).symm⟩

end Refines

/-- From any reachable state: a member is moved exactly as the two calls would move it, down to
the last link, and anything else stays where it is. -/
theorem move_to_end_is_remove_then_insert_end (b : Build) (ops : List (Op V)) (l : ListId)
    (x : ItemId) :
    let s := ListsOf.after b ops (ListsOf.new : ListsOf V g)
    (x ∈ s.visited l → ListsOf.call b (.moveToEnd l x) s = (.ok (.moved true),
      (ListsOf.call b (.insertEnd l x) (ListsOf.call b (.remove x) s).2).2)) ∧
    (x ∉ s.visited l → (ListsOf.call b (.moveToEnd l x) s).1 ≠ .ok (.moved true) ∧
      (ListsOf.call b (.moveToEnd l x) s).2 = s) := by
  intro s
  have h : Refines s _ := after_refines b ops
  constructor
  · intro hx
    exact h.moveToEnd_eq_pair (h.visited_eq l ▸ hx) b
  · intro hx
    have outcome := h.moveToEnd_outcome (b := b) (l := l) (x := x)
    rw [if_neg hx] at outcome
    have refusal : Refusal (ListsOf.call b (.moveToEnd l x) s).1 := by
      rw [outcome]
      split
      · trivial
      · rfl
    refine ⟨?_, (h.exactErrors b).unchanged _ refusal⟩
    rw [outcome]
    split <;> nofun

/-- From any reachable state in which `is_sorted` says yes to the list, or the list does not
exist, the shortcut answers what the walk answers and leaves what it leaves. -/
theorem insert_sorted_is_insert (b : Build) (ops : List (Op V)) (l : ListId) (x : ItemId) (v : V)
    (sorted : (ListsOf.query b (.isSorted l) (ListsOf.after b ops (ListsOf.new : ListsOf V g))).1 =
      .ok (.flag true) ∨ ¬ l.toNat < g.L) :
    let s := ListsOf.after b ops (ListsOf.new : ListsOf V g)
    ListsOf.call b (.insertSorted l x v) s = ListsOf.call b (.insert l x v) s ∧
      ((ListsOf.call b (.insertSorted l x v) s).1 = .ok .unit →
        (ListsOf.query b (.isSorted l) (ListsOf.call b (.insertSorted l x v) s).2).1 =
          .ok (.flag true)) := by
  intro s
  have h : Refines s _ := after_refines b ops
  have values : l.toNat < g.L → ((Model.initial.after g ops).values l).Pairwise (· ≤ ·) :=
    fun hl => (h.isSorted_iff hl).mp (sorted.resolve_right (not_not.mpr hl))
  have same := h.call_congr (b := b) (Model.insertSorted_step (x := x) (v := v) values)
  rw [same]
  refine ⟨rfl, fun accepted => ?_⟩
  obtain ⟨⟨hl, hx⟩, free⟩ := ((h.exactErrors b).insert_ok _ l x rfl).mp accepted
  rw [h.inSomeList_iff] at free
  have refines := (h.call b (.insert l x v)).refines
  rw [Model.step_joins rfl ⟨hl, hx⟩ free] at refines
  exact (refines.isSorted_iff hl).mpr (Model.values_sorted_insert (values hl) free)

theorem insert_sorted_is_insert_small :
    let s := ListsOf.after ⟨true, true⟩ [.insert 0 0 5, .nextRoundRobin 0]
      (ListsOf.new : ListsOf UInt32 Sizes.small)
    ListsOf.call ⟨true, true⟩ (.insertSorted 0 1 5) s = ListsOf.call ⟨true, true⟩ (.insert 0 1 5) s ∧
      ((ListsOf.call ⟨true, true⟩ (.insertSorted 0 1 5) s).1 = .ok .unit →
        (ListsOf.query ⟨true, true⟩ (.isSorted 0)
          (ListsOf.call ⟨true, true⟩ (.insertSorted 0 1 5) s).2).1 = .ok (.flag true)) :=
  insert_sorted_is_insert ⟨true, true⟩ _ 0 1 5 (Or.inl (by decide))

end RtosCore
