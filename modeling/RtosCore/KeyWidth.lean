import RtosCore.ListContract
import Mathlib.Order.Hom.Basic

/-! The lists only compare keys. A script whose keys are translated by a strictly increasing
map that fixes zero runs alike in both widths, although the two runs may reach a place by
different branches: a largest key of the one width is an ordinary key of the other. -/

namespace RtosCore

variable {V W : Type} [ListValue V] [ListValue W] {g : Sizes} {f : V → W}

def Op.mapValue (f : V → W) : Op V → Op W
  | .insert l x v => .insert l x (f v)
  | .insertKeepingValue l x => .insertKeepingValue l x
  | .insertEnd l x => .insertEnd l x
  | .insertSorted l x v => .insertSorted l x (f v)
  | .moveToEnd l x => .moveToEnd l x
  | .remove x => .remove x
  | .unlink x => .unlink x
  | .setValue x v => .setValue x (f v)
  | .nextRoundRobin l => .nextRoundRobin l

def Reply.mapValue (f : V → W) : Reply V → Reply W
  | .value v => .value (f v)
  | .container l => .container l
  | .flag b => .flag b
  | .count n => .count n
  | .item i => .item i
  | .link i => .link i
  | .itemValue i v => .itemValue i (f v)
  | .items is => .items is

namespace Model

variable {m : Model V} {l : ListId} {x : ItemId} {v : V} {p : ItemId → Bool}

def mapValue (f : V → W) (m : Model V) : Model W where
  rota := m.rota
  value := f ∘ m.value
  disjoint := m.disjoint

theorem mapValue_initial (zero : f ListValue.ZERO = ListValue.ZERO) :
    (initial : Model V).mapValue f = initial := by
  ext1
  · rfl
  · funext x
    exact zero

section Places

omit [ListValue V] [ListValue W]

theorem mapValue_setValue : (m.mapValue f).setValue x (f v) = (m.setValue x v).mapValue f := by
  ext1
  · rfl
  · exact (Function.comp_update f m.value x v).symm

theorem mapValue_place : (m.mapValue f).place l p x = (m.place l p x).mapValue f := by
  unfold place
  split
  · rename_i hx
    rw [dif_pos (show m.Linked x from hx)]
  · rename_i hx
    rw [dif_neg (show ¬ m.Linked x from hx)]
    rfl

theorem mapValue_insertion (placed : Model V) :
    (m.mapValue f).insertion g l x (placed.mapValue f) =
      ((m.insertion g l x placed).1, (m.insertion g l x placed).2.mapValue f) := by
  have linked : (m.mapValue f).Linked x ↔ m.Linked x := Iff.rfl
  unfold insertion
  simp only [linked]
  split
  · rfl
  · split <;> rfl

theorem mapValue_removal (answer : ListId → Answer) :
    (m.mapValue f).removal g x answer =
      ((m.removal g x answer).1, (m.removal g x answer).2.mapValue f) := by
  have home : (m.mapValue f).home x = m.home x := rfl
  unfold removal
  rw [home]
  split
  · rfl
  · split <;> rfl

end Places

theorem mapValue_above (mono : StrictMono f) : (m.mapValue f).above (f v) = m.above v := by
  funext y
  exact decide_eq_decide.mpr mono.lt_iff_lt

theorem mapValue_aboveTail (mono : StrictMono f) :
    (m.mapValue f).aboveTail l (f v) = m.aboveTail l v := by
  have le : ∀ y, decide ((m.mapValue f).value y ≤ f v) = decide (m.value y ≤ v) := fun y =>
    decide_eq_decide.mpr mono.le_iff_le
  funext y
  rw [aboveTail, aboveTail, mapValue_above mono]
  simp only [le]
  rfl

theorem mapValue_step (mono : StrictMono f) (m : Model V) (op : Op V) :
    (m.mapValue f).step g (op.mapValue f) = ((m.step g op).1, (m.step g op).2.mapValue f) := by
  cases op with
  | insert l x v =>
    rw [Op.mapValue, step, mapValue_above mono, mapValue_setValue, mapValue_place,
      mapValue_insertion]
    rfl
  | insertKeepingValue l x =>
    have value : (m.mapValue f).value x = f (m.value x) := rfl
    rw [Op.mapValue, step, value, mapValue_above mono, mapValue_place, mapValue_insertion]
    rfl
  | insertEnd l x => exact (congrArg _ mapValue_place).trans (mapValue_insertion _)
  | insertSorted l x v =>
    rw [Op.mapValue, step, mapValue_aboveTail mono, mapValue_setValue, mapValue_place,
      mapValue_insertion]
    rfl
  | moveToEnd l x =>
    have moved : (m.mapValue f).moveToEnd l x = (m.moveToEnd l x).mapValue f := by
      rw [moveToEnd, moveToEnd, ← mapValue_place]
      rfl
    rw [Op.mapValue, step, step, moved]
    split
    · rfl
    · split
      · rename_i hx
        rw [if_pos (show x ∈ (m.rota l).items from hx)]
      · rename_i hx
        rw [if_neg (show x ∉ (m.rota l).items from hx)]
  | remove x => exact mapValue_removal _
  | unlink x => exact mapValue_removal _
  | setValue x v =>
    rw [Op.mapValue, step, step, mapValue_setValue]
    split <;> rfl
  | nextRoundRobin l =>
    rw [Op.mapValue, step, step]
    split <;> rfl

theorem mapValue_run (mono : StrictMono f) (m : Model V) (ops : List (Op V)) :
    (m.mapValue f).run g (ops.map (Op.mapValue f)) =
      ((m.run g ops).1, (m.run g ops).2.mapValue f) := by
  induction ops generalizing m with
  | nil => rfl
  | cons op ops ih => rw [List.map_cons, run, mapValue_step mono, ih, run]

section Replies

omit [ListValue V] [ListValue W]

theorem mapValue_ofList (reply : Reply V) :
    (ofList g l reply).map (Reply.mapValue f) = ofList g l (reply.mapValue f) := by
  unfold ofList
  split <;> rfl

theorem mapValue_ofItem (reply : Reply V) :
    (ofItem g x reply).map (Reply.mapValue f) = ofItem g x (reply.mapValue f) := by
  unfold ofItem
  split <;> rfl

theorem mapValue_ofMember (reply : ListId → Reply V) :
    (m.ofMember g x reply).map (Reply.mapValue f) =
      (m.mapValue f).ofMember g x fun l => (reply l).mapValue f := by
  have home : (m.mapValue f).home x = m.home x := rfl
  unfold ofMember
  rw [home]
  split
  · rfl
  · split <;> rfl

theorem mapValue_values : (m.mapValue f).values l = (m.values l).map f := by
  rw [values, values, List.map_map]
  rfl

end Replies

theorem mapValue_ask (mono : StrictMono f) {q : Query}
    (ends : ∀ l, q = .headValue l ∨ q = .tailValue l → (m.rota l).items ≠ []) :
    (m.mapValue f).ask g q = (m.ask g q).map (Reply.mapValue f) := by
  cases q with
  | value x =>
    rw [ask, ask, mapValue_ofItem]
    rfl
  | container x =>
    rw [ask, ask, mapValue_ofItem]
    rfl
  | isEmpty l =>
    rw [ask, ask, mapValue_ofList]
    rfl
  | isEmptyOf l => rfl
  | len l =>
    rw [ask, ask, mapValue_ofList]
    rfl
  | head l =>
    rw [ask, ask, mapValue_ofList]
    rfl
  | headValue l =>
    obtain ⟨x, xs, items⟩ := List.exists_cons_of_ne_nil (ends l (Or.inl rfl))
    rw [ask, ask, mapValue_ofList, mapValue_values, values, items]
    rfl
  | tailValue l =>
    obtain ⟨xs, x, items⟩ := (List.eq_nil_or_concat _).resolve_left (ends l (Or.inr rfl))
    rw [ask, ask, mapValue_ofList, mapValue_values, values, items, Reply.mapValue]
    simp
  | isSorted l =>
    have sorted : decide (((m.values l).map f).Pairwise (· ≤ ·)) =
        decide ((m.values l).Pairwise (· ≤ ·)) := by
      refine decide_eq_decide.mpr ?_
      simp only [List.pairwise_map, mono.le_iff_le]
    rw [ask, ask, mapValue_ofList, mapValue_values, sorted]
    rfl
  | cursorOf l =>
    rw [ask, ask, mapValue_ofList]
    rfl
  | next x =>
    rw [ask, ask, mapValue_ofMember]
    rfl
  | nextAndValue x =>
    rw [ask, ask, mapValue_ofMember]
    rfl
  | iter l => rfl

end Model

namespace ListsOf

def SameLinks (s : ListsOf V g) (t : ListsOf W g) : Prop :=
  ∀ y : UInt16, y.toNat < g.N → t.nextOf y = s.nextOf y ∧ t.prevOf y = s.prevOf y

/-- The same links, containers, cursors and counts in every slot, and each item's value
translated. -/
structure SameShape (f : V → W) (s : ListsOf V g) (t : ListsOf W g) : Prop where
  links : SameLinks s t
  container : ∀ y : UInt16, y.toNat < g.N → t.containerOf y = s.containerOf y
  metas : ∀ l : ListId, l.toNat < g.L → t.metaOf l = s.metaOf l
  order : ∀ l : ListId, t.visited l = s.visited l
  value : ∀ x : ItemId, x.toNat < g.CAPACITY → t.valueOf x = f (s.valueOf x)

/-- The reading calls answer alike, an item's key being translated; the key at the end of an
empty list is the largest of its own width. -/
structure SameReplies (f : V → W) (b : Build) (s : ListsOf V g) (t : ListsOf W g) : Prop where
  reads : ∀ q : Query, (∀ l, q = .headValue l ∨ q = .tailValue l → s.visited l ≠ []) →
    (query b q t).1 = (query b q s).1.map (Reply.mapValue f)
  empty : ∀ l : ListId, l.toNat < g.L → s.visited l = [] → ∀ q,
    q = .headValue l ∨ q = .tailValue l →
      (query b q s).1 = .ok (.value ListValue.MAX) ∧ (query b q t).1 = .ok (.value ListValue.MAX)

end ListsOf

namespace Refines

open ListsOf

variable {s : ListsOf V g} {t : ListsOf W g} {m : Model V} {b : Build} {ops : List (Op V)}

theorem new_sameLinks : SameLinks (ListsOf.new : ListsOf V g) (ListsOf.new : ListsOf W g) := by
  intro y hy
  rcases Sizes.slot_cases hy with item | ⟨l, hl, rfl⟩
  · rw [nextOf, nextOf, prevOf, prevOf, node_new_item item, node_new_item item]
    exact ⟨rfl, rfl⟩
  · rw [nextOf, nextOf, prevOf, prevOf, node_new_endOf hl, node_new_endOf hl]
    exact ⟨rfl, rfl⟩

/-- One call on each side: the rings are the same because the orders are, and items outside
every list keep the links they had. -/
theorem sameLinks_call (mono : StrictMono f) (h : Refines s m) (h' : Refines t (m.mapValue f))
    (links : SameLinks s t) (op : Op V) :
    SameLinks (ListsOf.call b op s).2 (ListsOf.call b (op.mapValue f) t).2 := by
  have follows := h.call b op
  have follows' := h'.call b (op.mapValue f)
  rw [Model.mapValue_step mono] at follows'
  intro y hy
  by_cases free : (ListsOf.call b op s).2.Free y
  · obtain ⟨item, free⟩ := follows.refines.free_iff.mp free
    have stale := follows.stale y item free
    have stale' := follows'.stale y item free
    rw [stale.1, stale.2, stale'.1, stale'.2]
    exact links y hy
  · exact follows.refines.links_eq follows'.refines rfl hy free

theorem sameLinks_run (mono : StrictMono f) (h : Refines s m) (h' : Refines t (m.mapValue f))
    (links : SameLinks s t) :
    SameLinks (ListsOf.after b ops s) (ListsOf.after b (ops.map (Op.mapValue f)) t) := by
  induction ops generalizing s t m with
  | nil => exact links
  | cons op ops ih =>
    have refines' := (h'.call b (op.mapValue f)).refines
    rw [Model.mapValue_step mono] at refines'
    exact ih (h.call b op).refines refines' (h.sameLinks_call mono h' links op)

theorem sameShape (h : Refines s m) (h' : Refines t (m.mapValue f)) (links : SameLinks s t) :
    SameShape f s t where
  links := links
  container _ hy := h.containerOf_congr h' rfl hy
  metas _ hl := h.metaOf_eq h' rfl hl
  order l := (h'.visited_eq l).trans (h.visited_eq l).symm
  value x hx := by
    rw [h'.value x hx, h.value x hx]
    rfl

theorem sameReplies (mono : StrictMono f) (h : Refines s m) (h' : Refines t (m.mapValue f)) :
    SameReplies f b s t where
  reads q ends := by
    have ends : ∀ l, q = .headValue l ∨ q = .tailValue l → (m.rota l).items ≠ [] :=
      fun l hq => h.visited_eq l ▸ ends l hq
    rw [h.query_eq, h'.query_eq, Model.mapValue_ask mono ends]
    cases m.ask g q <;> rfl
  empty l hl none q hq := by
    have none : (m.rota l).items = [] := h.visited_eq l ▸ none
    have ask : ∀ {U : Type} (reply : Reply U), Model.ofList g l reply = .ok reply :=
      fun reply => if_neg (not_not.mpr hl)
    rw [h.query_eq, h'.query_eq]
    rcases hq with rfl | rfl <;>
      rw [Model.ask, Model.ask, Model.mapValue_values, Model.values, none, ask, ask] <;>
      exact ⟨rfl, rfl⟩

end Refines

/-- The same script on keys of two widths: the same answers and the same lists. -/
theorem key_width_independence (mono : StrictMono f) (zero : f ListValue.ZERO = ListValue.ZERO)
    (b : Build) (ops : List (Op V)) :
    let ops' := ops.map (Op.mapValue f)
    let s := ListsOf.after b ops (ListsOf.new : ListsOf V g)
    let t := ListsOf.after b ops' (ListsOf.new : ListsOf W g)
    (ListsOf.run b ops' (ListsOf.new : ListsOf W g)).1 =
        (ListsOf.run b ops (ListsOf.new : ListsOf V g)).1 ∧
      ListsOf.SameShape f s t ∧ ListsOf.SameReplies f b s t := by
  intro ops' s t
  have start : Refines (ListsOf.new : ListsOf V g) Model.initial := new_refines
  have start' : Refines (ListsOf.new : ListsOf W g) ((Model.initial : Model V).mapValue f) :=
    Model.mapValue_initial zero ▸ new_refines
  obtain ⟨answers, refines⟩ := start.run_follows b ops
  obtain ⟨answers', refines'⟩ := start'.run_follows b ops'
  have run : (Model.initial.mapValue f).run g ops' = _ := Model.mapValue_run mono Model.initial ops
  rw [Model.after, run] at refines'
  rw [run] at answers'
  have links : ListsOf.SameLinks s t := start.sameLinks_run mono start' Refines.new_sameLinks
  exact ⟨answers'.trans answers.symm, refines.sameShape refines' links,
    refines.sameReplies mono refines'⟩

theorem toUInt64_strictMono : StrictMono UInt32.toUInt64 := by
  intro v w h
  change v.toUInt64.toNat < w.toUInt64.toNat
  rw [UInt32.toNat_toUInt64, UInt32.toNat_toUInt64]
  exact h

theorem key_width_independence_small :
    let ops : List (Op UInt32) :=
      [.insert 0 0 5, .insert 0 1 0xFFFFFFFF, .nextRoundRobin 0, .remove 1, .insert 1 1 0xFFFFFFFF,
        .insert 1 0 9]
    let ops' := ops.map (Op.mapValue UInt32.toUInt64)
    let s := ListsOf.after ⟨true, true⟩ ops (ListsOf.new : ListsOf UInt32 Sizes.small)
    let t := ListsOf.after ⟨true, true⟩ ops' (ListsOf.new : ListsOf UInt64 Sizes.small)
    (ListsOf.run ⟨true, true⟩ ops' (ListsOf.new : ListsOf UInt64 Sizes.small)).1 =
        (ListsOf.run ⟨true, true⟩ ops (ListsOf.new : ListsOf UInt32 Sizes.small)).1 ∧
      ListsOf.SameShape UInt32.toUInt64 s t ∧
      ListsOf.SameReplies UInt32.toUInt64 ⟨true, true⟩ s t :=
  key_width_independence toUInt64_strictMono rfl ⟨true, true⟩ _

end RtosCore
