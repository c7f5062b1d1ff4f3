import RtosCore.Independence
import RtosCore.RotaTurns

/-! Whom the round robin visits, and when. The next turns of a list, one for each of its items,
give every item one turn. That order is all there is to know about a cursor: a turn sends its
first item to the back, whoever leaves is struck out of it, and a newcomer stands at its end,
or just in front of the item under the cursor. -/

namespace RtosCore

variable {V : Type} [ListValue V] {g : Sizes}

def Answer.choice {ε : Type} : Except ε Answer → Option ItemId
  | .ok (.chosen i) => i
  | _ => none

namespace ListsOf

def turns (b : Build) (l : ListId) (n : ℕ) (s : ListsOf V g) : List (Except Exit Answer) :=
  (run b (List.replicate n (.nextRoundRobin l)) s).1

/-- The items chosen by as many of them as the list is long. -/
def visitOrder (b : Build) (l : ListId) (s : ListsOf V g) : List ItemId :=
  (turns b l (s.metaOf l).len.toNat s).filterMap Answer.choice

structure VisitLaw (b : Build) (s : ListsOf V g) : Prop where
  chosen : ∀ l, turns b l (s.metaOf l).len.toNat s =
    (visitOrder b l s).map fun x => .ok (.chosen (some x))
  nodup : ∀ l, (visitOrder b l s).Nodup
  mem : ∀ l : ListId, l.toNat < g.L → ∀ x : ItemId,
    x ∈ visitOrder b l s ↔ x.toNat < g.CAPACITY ∧ s.containerOf x = l
  empty : ∀ l, visitOrder b l s = [] ↔ s.visited l = []
  turn : ∀ l x xs, visitOrder b l s = x :: xs →
    (call b (.nextRoundRobin l) s).1 = .ok (.chosen (some x)) ∧
      visitOrder b l (call b (.nextRoundRobin l) s).2 = xs ++ [x]
  period : ∀ l n k, k + (s.metaOf l).len.toNat < n →
    (turns b l n s)[k + (s.metaOf l).len.toNat]? = (turns b l n s)[k]?
  leaves : ∀ op y l, op.removes = some y → y ∈ s.visited l →
    visitOrder b l (call b op s).2 = (visitOrder b l s).erase y
  joins_marker : ∀ l y, (call b (.insertEnd l y) s).1 = .ok .unit →
    (s.metaOf l).cursor = g.endOf l →
      visitOrder b l (call b (.insertEnd l y) s).2 = visitOrder b l s ++ [y]
  joins_item : ∀ l y, (call b (.insertEnd l y) s).1 = .ok .unit →
    (s.metaOf l).cursor ≠ g.endOf l →
      ∃ xs, visitOrder b l s = xs ++ [(s.metaOf l).cursor] ∧
        visitOrder b l (call b (.insertEnd l y) s).2 = xs ++ [y, (s.metaOf l).cursor]
  others : ∀ op l, ¬ s.Touches op l → visitOrder b l (call b op s).2 = visitOrder b l s
  setValue : ∀ x v l, visitOrder b l (call b (.setValue x v) s).2 = visitOrder b l s
  refused : ∀ op l, Refusal (call b op s).1 → visitOrder b l (call b op s).2 = visitOrder b l s

end ListsOf

namespace Refines

open ListsOf

variable {s t : ListsOf V g} {m m' : Model V} {l : ListId} {b : Build}

theorem turns_eq (h : Refines s m) (hl : l.toNat < g.L) (b : Build) (n : ℕ) :
    turns b l n s = ((m.rota l).turns n).map fun i => .ok (.chosen i) := by
  induction n generalizing s m with
  | zero => rfl
  | succ n ih =>
    have step : m.step g (.nextRoundRobin l) = (.ok (.chosen (m.rota l).nextUp), m.advance l) := by
      rw [Model.step, if_neg (not_not.mpr hl)]
    have follows := h.call b (.nextRoundRobin l)
    rw [step] at follows
    have rest := ih follows.refines
    rw [Model.advance_rota, if_pos rfl] at rest
    rw [Rota.turns, List.map_cons, ← rest, turns, List.replicate_succ, run, h.call_answer, step]
    rfl

theorem order_invalid (h : Refines s m) (hl : ¬ l.toNat < g.L) : (m.rota l).order = [] := by
  rw [List.eq_nil_iff_length_eq_zero, Rota.length_order, h.notMem_invalid hl]
  rfl

omit [ListValue V] in
theorem len_invalid (hl : ¬ l.toNat < g.L) (s : ListsOf V g) : (s.metaOf l).len.toNat = 0 := by
  rw [metaOf, getElem?_metas_invalid hl]
  rfl

theorem turns_order (h : Refines s m) (b : Build) (l : ListId) :
    turns b l (s.metaOf l).len.toNat s = (m.rota l).order.map fun x => .ok (.chosen (some x)) := by
  by_cases hl : l.toNat < g.L
  · rw [h.turns_eq hl, h.len l hl, Rota.turns_length, List.map_map]
    rfl
  · rw [len_invalid hl, h.order_invalid hl]
    rfl

theorem visitOrder_eq (h : Refines s m) (b : Build) (l : ListId) :
    visitOrder b l s = (m.rota l).order := by
  rw [visitOrder, h.turns_order, List.filterMap_map]
  exact List.filterMap_some

theorem visitOrder_congr (h : Refines s m) (h' : Refines t m') (same : m'.rota l = m.rota l) :
    visitOrder b l t = visitOrder b l s := by
  rw [h.visitOrder_eq, h'.visitOrder_eq, same]

theorem insertEnd_ok (h : Refines s m) {y : ItemId}
    (accepted : (ListsOf.call b (.insertEnd l y) s).1 = .ok .unit) :
    l.toNat < g.L ∧ y ∉ (m.rota l).items ∧
      Refines (ListsOf.call b (.insertEnd l y) s).2 (m.place l (m.atCursor l) y) ∧
      (m.place l (m.atCursor l) y).rota l = (m.rota l).place (m.rota l).atCursor y := by
  obtain ⟨⟨hl, hy⟩, free⟩ := ((h.exactErrors b).insert_ok _ l y rfl).mp accepted
  rw [h.inSomeList_iff] at free
  have refines := (h.call b (.insertEnd l y)).refines
  rw [Model.step_joins rfl ⟨hl, hy⟩ free] at refines
  exact ⟨hl, Model.notMem_of_free free, refines, Model.rota_insertEnd free⟩

theorem turn_order (h : Refines s m) {x : ItemId} {xs : List ItemId}
    (order : (m.rota l).order = x :: xs) :
    (ListsOf.call b (.nextRoundRobin l) s).1 = .ok (.chosen (some x)) ∧
      visitOrder b l (ListsOf.call b (.nextRoundRobin l) s).2 = xs ++ [x] := by
  have hx : x ∈ (m.rota l).items := (m.rota l).order_perm.mem_iff.mp (by simp [order])
  constructor
  · rw [h.nextRoundRobin_member hx, Rota.nextUp_eq]
    exact congrArg (fun xs : List ItemId => Except.ok (Answer.chosen xs.head?)) order
  · rw [(h.nextRoundRobin_refines hx).visitOrder_eq, Model.advance_rota, if_pos rfl,
      Rota.advance_order, order, List.rotate_cons_succ, List.rotate_zero]

theorem removed_order (h : Refines s m) {op : Op V} {y : ItemId} (hop : op.removes = some y)
    (hy : y ∈ (m.rota l).items) :
    visitOrder b l (ListsOf.call b op s).2 = (visitOrder b l s).erase y := by
  obtain ⟨a, step⟩ := Model.step_leaves hop (h.item_lt hy) (Model.linked_of_mem hy)
  have refines := (h.call b op).refines
  rw [step] at refines
  rw [h.visitOrder_eq, refines.visitOrder_eq, ← Rota.erase_order]
  rfl

theorem visitLaw (h : Refines s m) (b : Build) : VisitLaw b s where
  chosen l := by rw [h.turns_order, h.visitOrder_eq]
  nodup l := by
    rw [h.visitOrder_eq]
    exact (m.rota l).nodup_order
  mem l hl x := by
    rw [h.visitOrder_eq, (m.rota l).order_perm.mem_iff, ← h.visited_eq]
    exact h.ringInvariant.mem_visited l hl x
  empty l := by
    rw [h.visitOrder_eq, h.visited_eq, List.eq_nil_iff_length_eq_zero, Rota.length_order,
      List.length_eq_zero_iff]
  turn l x xs order := h.turn_order (h.visitOrder_eq b l ▸ order)
  period l n k hk := by
    by_cases hl : l.toNat < g.L
    · rw [h.len l hl] at hk ⊢
      rw [h.turns_eq hl, List.getElem?_map, List.getElem?_map, Rota.turns_period hk]
    · rw [len_invalid hl, Nat.add_zero]
  leaves op y l hop hy := h.removed_order hop (h.visited_eq l ▸ hy)
  joins_marker l y accepted hc := by
    obtain ⟨hl, hy, refines, rota⟩ := h.insertEnd_ok accepted
    rw [refines.visitOrder_eq, h.visitOrder_eq, rota]
    exact Rota.placeAtCursor_order_marker hy ((h.cursor_eq_endOf hl).mp hc)
  joins_item l y accepted hc := by
    obtain ⟨hl, hy, refines, rota⟩ := h.insertEnd_ok accepted
    have item := mt (h.cursor_eq_endOf hl).mpr hc
    obtain ⟨c, hc⟩ := Option.ne_none_iff_exists'.mp item
    rw [refines.visitOrder_eq, h.visitOrder_eq, rota, h.cursor l hl, hc, Option.getD_some]
    exact Rota.placeAtCursor_order_item hy hc
  others op l away :=
    h.visitOrder_congr (h.call b op).refines
      (Model.step_rota fun touched => away ((h.touches_iff op).mpr touched))
  setValue x v l := by
    refine h.visitOrder_congr (h.call b (.setValue x v)).refines ?_
    rw [Model.rota_setValue]
  refused op l refusal := by
    rw [(h.call b op).refused ((h.refusal_iff op).mp refusal)]

end Refines

/-- In every reachable state the order of the visits obeys the law of the round robin. -/
theorem visit_order_law (b : Build) (ops : List (Op V)) :
    (ListsOf.after b ops (ListsOf.new : ListsOf V g)).VisitLaw b :=
  (after_refines b ops).visitLaw b

/-- A newcomer stands in front of the item under the cursor, the last to be visited again. -/
example : ListsOf.visitOrder ⟨true, true⟩ 0
    (ListsOf.after ⟨true, true⟩ [.insertEnd 0 0, .nextRoundRobin 0, .insertEnd 0 1]
      (ListsOf.new : ListsOf UInt32 Sizes.small)) = [1, 0] := by
  decide

end RtosCore
