import RtosCore.ListMove
import RtosCore.ListQueries

/-! Whole scripts. One call after another refines the model step after step, and the model
says everything about the state that can be observed: two states with the same rotas differ
at most in the links that items outside every list still carry. -/

namespace RtosCore

variable {V : Type} [ListValue V] {g : Sizes}

namespace ListsOf

/-- The items passed on the first `len` steps of the way along `next` from the marker. -/
def visited (s : ListsOf V g) (l : ListId) : List ItemId :=
  List.iterate s.nextOf (s.nextOf (g.endOf l)) (s.metaOf l).len.toNat

def Free (s : ListsOf V g) (x : UInt16) : Prop :=
  x.toNat < g.CAPACITY ∧ s.containerOf x = NO_LIST

/-- The states differ at most in the links of free items. -/
structure SameRings (s t : ListsOf V g) : Prop where
  value : ∀ y : UInt16, y.toNat < g.N → t.valueOf y = s.valueOf y
  container : ∀ y : UInt16, y.toNat < g.N → t.containerOf y = s.containerOf y
  metas : ∀ l : ListId, l.toNat < g.L → t.metaOf l = s.metaOf l
  links : ∀ y : UInt16, y.toNat < g.N → ¬ s.Free y →
    t.nextOf y = s.nextOf y ∧ t.prevOf y = s.prevOf y

end ListsOf

namespace Refines

open ListsOf

variable {s t : ListsOf V g} {m m' : Model V} {l : ListId} {x : ItemId}

theorem visited_eq (h : Refines s m) (l : ListId) : s.visited l = (m.rota l).items := by
  by_cases hl : l.toNat < g.L
  · rw [visited, h.len l hl]
    exact (h.ring l hl).forward.iterate_eq
  · have none : s.metaOf l = default := by rw [metaOf, getElem?_metas_invalid hl]; rfl
    rw [visited, none, h.notMem_invalid hl]
    rfl

theorem free_iff (h : Refines s m) : s.Free x ↔ x.toNat < g.CAPACITY ∧ ¬ m.Linked x :=
  and_congr_right h.containerOf_free

theorem on_ring (h : Refines s m) {y : UInt16} (hy : y.toNat < g.N) (used : ¬ s.Free y) :
    ∃ l : ListId, l.toNat < g.L ∧ y ∈ g.endOf l :: (m.rota l).items := by
  rcases Sizes.slot_cases hy with item | ⟨l, hl, rfl⟩
  · have linked : m.Linked y := by
      by_contra free
      exact used (h.free_iff.mpr ⟨item, free⟩)
    obtain ⟨l, hl⟩ := linked
    exact ⟨l, (h.bounds l y hl).1, List.mem_cons_of_mem _ hl⟩
  · exact ⟨l, hl, List.mem_cons_self⟩

theorem links_eq {W : Type} [ListValue W] {t : ListsOf W g} {m' : Model W} (h : Refines s m)
    (h' : Refines t m') (rota : m'.rota = m.rota) {y : UInt16} (hy : y.toNat < g.N)
    (used : ¬ s.Free y) : t.nextOf y = s.nextOf y ∧ t.prevOf y = s.prevOf y := by
  obtain ⟨l, hl, mem⟩ := h.on_ring hy used
  have ring := h'.ring l hl
  rw [rota] at ring
  exact ring.links_eq (h.ring l hl) mem

theorem metaOf_eq {W : Type} [ListValue W] {t : ListsOf W g} {m' : Model W} (h : Refines s m)
    (h' : Refines t m') (rota : m'.rota = m.rota) (hl : l.toNat < g.L) :
    t.metaOf l = s.metaOf l := by
  have cursor : (t.metaOf l).cursor = (s.metaOf l).cursor := by
    rw [h'.cursor l hl, h.cursor l hl, rota]
  have len : (t.metaOf l).len = (s.metaOf l).len := UInt16.toNat_inj.mp (by
    rw [h'.len l hl, h.len l hl, rota])
  calc t.metaOf l = ⟨(t.metaOf l).cursor, (t.metaOf l).len⟩ := rfl
    _ = ⟨(s.metaOf l).cursor, (s.metaOf l).len⟩ := by rw [cursor, len]
    _ = s.metaOf l := rfl

theorem containerOf_congr {W : Type} [ListValue W] {t : ListsOf W g} {m' : Model W}
    (h : Refines s m) (h' : Refines t m') (rota : m'.rota = m.rota) {y : UInt16}
    (hy : y.toNat < g.N) : t.containerOf y = s.containerOf y := by
  have home : ∀ x, m'.home x = m.home x := fun x => by simp only [Model.home, rota]
  rcases Sizes.slot_cases hy with item | ⟨l, hl, rfl⟩
  · rw [h'.container y item, h.container y item, home]
  · rw [h'.markerContainer l hl, h.markerContainer l hl]

theorem valueOf_congr (h : Refines s m) (h' : Refines t m) {y : UInt16} (hy : y.toNat < g.N) :
    t.valueOf y = s.valueOf y := by
  rcases Sizes.slot_cases hy with item | ⟨l, hl, rfl⟩
  · rw [h'.value y item, h.value y item]
  · rw [h'.markerValue l hl, h.markerValue l hl]

theorem sameRings (h : Refines s m) (h' : Refines t m) : SameRings s t where
  value _ hy := h.valueOf_congr h' hy
  container _ hy := h.containerOf_congr h' rfl hy
  metas _ hl := h.metaOf_eq h' rfl hl
  links _ hy used := h.links_eq h' rfl hy used

theorem of_sameRings (h : Refines s m) (same : SameRings s t) : Refines t m := by
  have itemN : ∀ x : ItemId, x.toNat < g.CAPACITY → x.toNat < g.N := fun x hx =>
    hx.trans g.capacity_lt_N
  have used : ∀ l : ListId, l.toNat < g.L → ∀ y ∈ g.endOf l :: (m.rota l).items, ¬ s.Free y := by
    intro l hl y hy free
    obtain ⟨item, free⟩ := h.free_iff.mp free
    exact free_notMem item free hl hy
  constructor
  case ring =>
    intro l hl
    refine (h.ring l hl).congr (fun y hy => ?_) fun y hy => ?_
    · exact (same.links y (h.slot_lt hl hy) (used l hl y hy)).1
    · exact (same.links y (h.slot_lt hl hy) (used l hl y hy)).2
  case cursor => exact fun l hl => (congrArg Meta.cursor (same.metas l hl)).trans (h.cursor l hl)
  case len => exact fun l hl => same.metas l hl ▸ h.len l hl
  case bounds => exact h.bounds
  case container => exact fun x hx => (same.container x (itemN x hx)).trans (h.container x hx)
  case value => exact fun x hx => (same.value x (itemN x hx)).trans (h.value x hx)
  case markerValue =>
    exact fun l hl => (same.value _ (Sizes.endOf_lt hl)).trans (h.markerValue l hl)
  case markerContainer =>
    exact fun l hl => (same.container _ (Sizes.endOf_lt hl)).trans (h.markerContainer l hl)

theorem call_follows (h : Refines s m) (op : Op V) :
    ∃ s', Follows s s' (fun b => ListsOf.call b op) (m.step g op) := by
  cases op with
  | insert l x v => exact h.insert_follows l x v
  | insertKeepingValue l x => exact h.insertKeepingValue_follows l x
  | insertEnd l x => exact h.insertEnd_follows l x
  | insertSorted l x v => exact h.insertSorted_follows l x v
  | moveToEnd l x => exact h.moveToEnd_follows l x
  | remove x => exact h.remove_follows x
  | unlink x => exact h.unlink_follows x
  | setValue x v => exact h.setValue_follows x v
  | nextRoundRobin l => exact h.nextRoundRobin_follows l

theorem call (h : Refines s m) (b : Build) (op : Op V) :
    Follows s (ListsOf.call b op s).2 (fun b => ListsOf.call b op) (m.step g op) := by
  obtain ⟨s', follows⟩ := h.call_follows op
  rwa [follows.answer b]

theorem call_answer (h : Refines s m) (b : Build) (op : Op V) :
    (ListsOf.call b op s).1 = (m.step g op).1.mapError Exit.err := by
  rw [(h.call b op).answer b]

theorem call_build (h : Refines s m) (b b' : Build) (op : Op V) :
    ListsOf.call b op s = ListsOf.call b' op s := by
  rw [(h.call b op).answer b, (h.call b op).answer b']

theorem run_follows (h : Refines s m) (b : Build) (ops : List (Op V)) :
    (ListsOf.run b ops s).1 = (m.run g ops).1.map (Except.mapError Exit.err) ∧
      Refines (ListsOf.after b ops s) (m.after g ops) := by
  induction ops generalizing s m with
  | nil => exact ⟨rfl, h⟩
  | cons op ops ih =>
    obtain ⟨answers, refines⟩ := ih (h.call b op).refines
    constructor
    · rw [ListsOf.run, Model.run, List.map_cons, answers, h.call_answer]
    · exact refines

end Refines

/-- Every reachable state refines the state the model reaches by the same script. -/
theorem after_refines (b : Build) (ops : List (Op V)) :
    Refines (ListsOf.after b ops (ListsOf.new : ListsOf V g)) (Model.initial.after g ops) :=
  (new_refines.run_follows b ops).2

end RtosCore
