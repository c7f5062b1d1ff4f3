import RtosCore.ListCode
import Mathlib.Data.Nat.Bits

/-! Reading and writing the slots. Below `N` a link and the slot it is read as are the same
number in every build, so a call that follows such links is a sequence of plain reads and
writes. Everything after this module reasons about links and never about indices. -/

namespace RtosCore

namespace Sizes

variable {g : Sizes}

theorem capacity_add_L : g.CAPACITY + g.L = g.N := by
  have := g.L_lt_N
  unfold CAPACITY
  omega

theorem capacity_lt_N : g.CAPACITY < g.N := by
  have := g.capacity_add_L
  have := g.L_pos
  omega

theorem toNat_endOf {l : ListId} (hl : l.toNat < g.L) :
    (g.endOf l).toNat = g.CAPACITY + l.toNat := by
  have := g.capacity_add_L
  have := g.N_le
  rw [endOf, UInt16.toNat_ofNat_of_lt']
  change _ < 65536
  omega

theorem endOf_lt {l : ListId} (hl : l.toNat < g.L) : (g.endOf l).toNat < g.N := by
  have := g.capacity_add_L
  rw [toNat_endOf hl]
  omega

theorem endOf_inj {l l' : ListId} (hl : l.toNat < g.L) (hl' : l'.toNat < g.L)
    (h : g.endOf l = g.endOf l') : l = l' := by
  have := congrArg UInt16.toNat h
  rw [toNat_endOf hl, toNat_endOf hl'] at this
  exact UInt8.toNat_inj.mp (by omega)

theorem ne_endOf {l : ListId} {x : UInt16} (hl : l.toNat < g.L) (hx : x.toNat < g.CAPACITY) :
    x ≠ g.endOf l := by
  rintro rfl
  rw [toNat_endOf hl] at hx
  omega

theorem isEnd_endOf {l : ListId} (hl : l.toNat < g.L) : g.isEnd (g.endOf l) = true := by
  simp [isEnd, toNat_endOf hl]

theorem isEnd_item {x : UInt16} (hx : x.toNat < g.CAPACITY) : g.isEnd x = false := by
  simpa [isEnd] using hx

/-- A slot below `N` is an item or the marker of a list. -/
theorem slot_cases {y : UInt16} (hy : y.toNat < g.N) :
    y.toNat < g.CAPACITY ∨ ∃ l : ListId, l.toNat < g.L ∧ y = g.endOf l := by
  have sum := g.capacity_add_L
  have small := g.L_le
  by_cases item : y.toNat < g.CAPACITY
  · exact Or.inl item
  · let l : ListId := UInt8.ofNat (y.toNat - g.CAPACITY)
    have toNat_l : l.toNat = y.toNat - g.CAPACITY :=
      UInt8.toNat_ofNat_of_lt' (by change _ < 256; omega)
    have hl : l.toNat < g.L := by omega
    exact Or.inr ⟨l, hl, UInt16.toNat_inj.mp (by rw [toNat_endOf hl]; omega)⟩

theorem ne_noList {l : ListId} (hl : l.toNat < g.L) : l ≠ NO_LIST := by
  rintro rfl
  have := g.L_le
  have : NO_LIST.toNat = 255 := rfl
  omega

end Sizes

namespace Call

variable {V : Type} {g : Sizes} {α β : Type} {s s' : ListsOf V g}

theorem bind_apply (m : Call V g α) (k : α → Call V g β) (s : ListsOf V g) :
    (m >>= k) s = match m s with
      | (.ok a, s') => k a s'
      | (.error e, s') => (.error e, s') := rfl

theorem pure_apply (a : α) (s : ListsOf V g) : (Pure.pure a : Call V g α) s = (.ok a, s) := rfl

theorem bind_ok {m : Call V g α} {a : α} (h : m s = (.ok a, s')) (k : α → Call V g β) :
    (m >>= k) s = k a s' := by
  rw [bind_apply, h]

theorem bind_error {m : Call V g α} {e : Exit} (h : m s = (.error e, s')) (k : α → Call V g β) :
    (m >>= k) s = (.error e, s') := by
  rw [bind_apply, h]

end Call

namespace ListsOf

variable {V : Type} {g : Sizes}

def setNode (s : ListsOf V g) (x : UInt16) (n : Node V) : ListsOf V g :=
  { s with nodes := s.nodes.setIfInBounds x.toNat n }

def metaOf (s : ListsOf V g) (l : ListId) : Meta := s.metas[l.toNat]?.getD default

def setMeta (s : ListsOf V g) (l : ListId) (m : Meta) : ListsOf V g :=
  { s with metas := s.metas.setIfInBounds l.toNat m }

variable {s : ListsOf V g} {x y : UInt16} {l k : ListId} {n : Node V} {m : Meta} {b : Build}

@[simp] theorem metaOf_setNode : (s.setNode x n).metaOf l = s.metaOf l := rfl

theorem metaOf_setMeta (hl : l.toNat < g.L) :
    (s.setMeta l m).metaOf k = if k = l then m else s.metaOf k := by
  have same : l.toNat = k.toNat ↔ k = l := UInt8.toNat_inj.trans eq_comm
  simp only [metaOf, setMeta, Vector.getElem?_setIfInBounds, same, hl, if_true]
  split <;> rfl

theorem getElem?_metas (hl : l.toNat < g.L) : s.metas[l.toNat]? = some (s.metaOf l) := by
  simp [metaOf, hl]

theorem getElem?_metas_invalid (hl : ¬ l.toNat < g.L) : s.metas[l.toNat]? = none := by
  simpa using hl

theorem listMeta_eq (hl : l.toNat < g.L) : listMeta l s = (.ok (s.metaOf l), s) := by
  rw [listMeta, getElem?_metas hl]

theorem listMeta_invalid (hl : ¬ l.toNat < g.L) :
    listMeta l s = (.error (.err .invalidArgument), s) := by
  rw [listMeta, getElem?_metas_invalid hl]
  rfl

theorem listMetaMut_eq (hl : l.toNat < g.L) (f : Meta → Meta) :
    listMetaMut l f s = (.ok (f (s.metaOf l)), s.setMeta l (f (s.metaOf l))) := by
  rw [listMetaMut, getElem?_metas hl]
  rfl

/-- A link below `N` is its own slot: the mask changes nothing. -/
theorem slot_eq (hx : x.toNat < g.N) : slot g b x = x.toNat := by
  obtain ⟨k, hk⟩ := g.isPowerOfTwo
  unfold slot
  split
  · rw [Sizes.MASK, hk, Nat.and_two_pow_sub_one_eq_mod, Nat.mod_eq_of_lt (hk ▸ hx)]
  · rfl

theorem item_invalid (hx : ¬ x.toNat < g.CAPACITY) :
    item b x s = (.error (.err .invalidArgument), s) := by
  rw [item, if_pos (by omega)]
  rfl

variable [ListValue V]

def node (s : ListsOf V g) (x : UInt16) : Node V := s.nodes[x.toNat]?.getD Node.EMPTY

def nextOf (s : ListsOf V g) (x : UInt16) : UInt16 := (s.node x).next

def prevOf (s : ListsOf V g) (x : UInt16) : UInt16 := (s.node x).prev

def valueOf (s : ListsOf V g) (x : UInt16) : V := (s.node x).value

def containerOf (s : ListsOf V g) (x : UInt16) : ListId := (s.node x).container

def setNext (s : ListsOf V g) (x next : UInt16) : ListsOf V g :=
  s.setNode x { s.node x with next }

def setPrev (s : ListsOf V g) (x prev : UInt16) : ListsOf V g :=
  s.setNode x { s.node x with prev }

theorem node_setNode (hx : x.toNat < g.N) :
    (s.setNode x n).node y = if y = x then n else s.node y := by
  have same : x.toNat = y.toNat ↔ y = x := UInt16.toNat_inj.trans eq_comm
  simp only [node, setNode, Vector.getElem?_setIfInBounds, same, hx, if_true]
  split <;> rfl

theorem nextOf_setNode (hx : x.toNat < g.N) :
    (s.setNode x n).nextOf y = if y = x then n.next else s.nextOf y := by
  rw [nextOf, node_setNode hx, apply_ite Node.next, nextOf]

theorem prevOf_setNode (hx : x.toNat < g.N) :
    (s.setNode x n).prevOf y = if y = x then n.prev else s.prevOf y := by
  rw [prevOf, node_setNode hx, apply_ite Node.prev, prevOf]

theorem valueOf_setNode (hx : x.toNat < g.N) :
    (s.setNode x n).valueOf y = if y = x then n.value else s.valueOf y := by
  rw [valueOf, node_setNode hx, apply_ite Node.value, valueOf]

theorem containerOf_setNode (hx : x.toNat < g.N) :
    (s.setNode x n).containerOf y = if y = x then n.container else s.containerOf y := by
  rw [containerOf, node_setNode hx, apply_ite Node.container, containerOf]

variable {t : UInt16}

theorem nextOf_setNext (hx : x.toNat < g.N) :
    (s.setNext x t).nextOf y = if y = x then t else s.nextOf y :=
  nextOf_setNode hx

theorem prevOf_setPrev (hx : x.toNat < g.N) :
    (s.setPrev x t).prevOf y = if y = x then t else s.prevOf y :=
  prevOf_setNode hx

theorem prevOf_setNext (hx : x.toNat < g.N) : (s.setNext x t).prevOf y = s.prevOf y := by
  rw [setNext, prevOf_setNode hx]
  split
  · rename_i h
    rw [h, prevOf]
  · rfl

theorem nextOf_setPrev (hx : x.toNat < g.N) : (s.setPrev x t).nextOf y = s.nextOf y := by
  rw [setPrev, nextOf_setNode hx]
  split
  · rename_i h
    rw [h, nextOf]
  · rfl

theorem valueOf_setNext (hx : x.toNat < g.N) : (s.setNext x t).valueOf y = s.valueOf y := by
  rw [setNext, valueOf_setNode hx]
  split
  · rename_i h
    rw [h, valueOf]
  · rfl

theorem valueOf_setPrev (hx : x.toNat < g.N) : (s.setPrev x t).valueOf y = s.valueOf y := by
  rw [setPrev, valueOf_setNode hx]
  split
  · rename_i h
    rw [h, valueOf]
  · rfl

theorem containerOf_setNext (hx : x.toNat < g.N) :
    (s.setNext x t).containerOf y = s.containerOf y := by
  rw [setNext, containerOf_setNode hx]
  split
  · rename_i h
    rw [h, containerOf]
  · rfl

theorem containerOf_setPrev (hx : x.toNat < g.N) :
    (s.setPrev x t).containerOf y = s.containerOf y := by
  rw [setPrev, containerOf_setNode hx]
  split
  · rename_i h
    rw [h, containerOf]
  · rfl

/-- Two states are the same when they agree slot by slot. -/
theorem ext_slots {s' : ListsOf V g} (nodes : ∀ x : UInt16, x.toNat < g.N → s.node x = s'.node x)
    (metas : ∀ l : ListId, l.toNat < g.L → s.metaOf l = s'.metaOf l) : s = s' := by
  have := g.N_le
  have := g.L_le
  ext1
  · ext1 i hi
    have hn : (UInt16.ofNat i).toNat = i := UInt16.toNat_ofNat_of_lt' (by change _ < 65536; omega)
    have := nodes (UInt16.ofNat i) (by rwa [hn])
    simpa [node, hn, hi] using this
  · ext1 i hi
    have hn : (UInt8.ofNat i).toNat = i := UInt8.toNat_ofNat_of_lt' (by change _ < 256; omega)
    have := metas (UInt8.ofNat i) (by rwa [hn])
    simpa [metaOf, hn, hi] using this

theorem ext_fields {s' : ListsOf V g}
    (next : ∀ y : UInt16, y.toNat < g.N → s.nextOf y = s'.nextOf y)
    (prev : ∀ y : UInt16, y.toNat < g.N → s.prevOf y = s'.prevOf y)
    (value : ∀ y : UInt16, y.toNat < g.N → s.valueOf y = s'.valueOf y)
    (container : ∀ y : UInt16, y.toNat < g.N → s.containerOf y = s'.containerOf y)
    (metas : ∀ l : ListId, l.toNat < g.L → s.metaOf l = s'.metaOf l) : s = s' := by
  refine ext_slots (fun y hy => ?_) metas
  have fields : ∀ t : ListsOf V g,
      t.node y = ⟨t.valueOf y, t.prevOf y, t.nextOf y, t.containerOf y⟩ := fun _ => rfl
  rw [fields, fields, next y hy, prev y hy, value y hy, container y hy]

@[simp] theorem metaOf_setNext : (s.setNext x t).metaOf l = s.metaOf l := rfl

@[simp] theorem metaOf_setPrev : (s.setPrev x t).metaOf l = s.metaOf l := rfl

@[simp] theorem nextOf_setMeta : (s.setMeta l m).nextOf y = s.nextOf y := rfl

@[simp] theorem prevOf_setMeta : (s.setMeta l m).prevOf y = s.prevOf y := rfl

@[simp] theorem valueOf_setMeta : (s.setMeta l m).valueOf y = s.valueOf y := rfl

@[simp] theorem containerOf_setMeta : (s.setMeta l m).containerOf y = s.containerOf y := rfl

theorem getElem?_nodes (hx : x.toNat < g.N) : s.nodes[x.toNat]? = some (s.node x) := by
  simp [node, hx]

theorem atLink_eq (hx : x.toNat < g.N) : atLink b x s = (.ok (s.node x), s) := by
  rw [atLink, slot_eq hx, getElem?_nodes hx]

theorem atLinkMut_eq (hx : x.toNat < g.N) (f : Node V → Node V) :
    atLinkMut b x f s = (.ok (), s.setNode x (f (s.node x))) := by
  rw [atLinkMut, slot_eq hx, getElem?_nodes hx]
  rfl

theorem atLinkMut_next (hx : x.toNat < g.N) (next : UInt16) :
    atLinkMut b x (fun n => { n with next }) s = (.ok (), s.setNext x next) :=
  atLinkMut_eq hx _

theorem atLinkMut_prev (hx : x.toNat < g.N) (prev : UInt16) :
    atLinkMut b x (fun n => { n with prev }) s = (.ok (), s.setPrev x prev) :=
  atLinkMut_eq hx _

theorem item_eq (hx : x.toNat < g.CAPACITY) : item b x s = (.ok (s.node x), s) := by
  rw [item, if_neg (by omega), atLink_eq (by have := g.capacity_lt_N; omega)]

theorem node_newMarker {j : ℕ} (hj : j < g.L) :
    (newMarker s j).node y =
      if y.toNat = g.CAPACITY + j then
        ⟨ListValue.MAX, UInt16.ofNat (g.CAPACITY + j), UInt16.ofNat (g.CAPACITY + j), NO_LIST⟩
      else s.node y := by
  have := g.capacity_add_L
  have inside : g.CAPACITY + j < g.N := by omega
  simp only [node, newMarker, Vector.getElem?_setIfInBounds, inside, if_true,
    eq_comm (a := g.CAPACITY + j)]
  split <;> rfl

theorem metaOf_newMarker {j : ℕ} (hj : j < g.L) :
    (newMarker s j).metaOf l =
      if l.toNat = j then ⟨UInt16.ofNat (g.CAPACITY + j), 0⟩ else s.metaOf l := by
  simp only [metaOf, newMarker, Vector.getElem?_setIfInBounds, hj, if_true, eq_comm (a := j)]
  split <;> rfl

/-- What the loop of `new` has written after the first `k` lists. -/
theorem foldl_newMarker {k : ℕ} (hk : k ≤ g.L) (y : UInt16) (l : ListId) :
    ((List.range k).foldl newMarker s).node y =
        (if g.CAPACITY ≤ y.toNat ∧ y.toNat < g.CAPACITY + k then ⟨ListValue.MAX, y, y, NO_LIST⟩
          else s.node y) ∧
      ((List.range k).foldl newMarker s).metaOf l =
        if l.toNat < k then ⟨g.endOf l, 0⟩ else s.metaOf l := by
  induction k with
  | zero => simp
  | succ k ih =>
    obtain ⟨nodes, metas⟩ := ih (by omega)
    rw [List.range_succ, List.foldl_append, List.foldl_cons, List.foldl_nil,
      node_newMarker (by omega), metaOf_newMarker (by omega), nodes, metas]
    constructor
    · by_cases hy : y.toNat = g.CAPACITY + k
      · rw [if_pos hy, if_pos (by omega), ← hy, UInt16.ofNat_toNat]
      · rw [if_neg hy]
        exact if_congr (by omega) rfl rfl
    · by_cases hl : l.toNat = k
      · rw [if_pos hl, if_pos (by omega), Sizes.endOf, hl]
      · rw [if_neg hl]
        exact if_congr (by omega) rfl rfl

theorem node_new_item (hx : x.toNat < g.CAPACITY) :
    (new : ListsOf V g).node x = Node.EMPTY := by
  have hN : x.toNat < g.N := by have := g.capacity_lt_N; omega
  rw [new, (foldl_newMarker le_rfl x 0).1, if_neg (by omega)]
  simp [node, hN]

theorem node_new_endOf (hl : l.toNat < g.L) :
    (new : ListsOf V g).node (g.endOf l) =
      ⟨ListValue.MAX, g.endOf l, g.endOf l, NO_LIST⟩ := by
  rw [new, (foldl_newMarker le_rfl (g.endOf l) 0).1, if_pos]
  rw [Sizes.toNat_endOf hl]
  omega

theorem metaOf_new (hl : l.toNat < g.L) : (new : ListsOf V g).metaOf l = ⟨g.endOf l, 0⟩ := by
  rw [new, (foldl_newMarker le_rfl 0 l).2, if_pos hl]

end ListsOf

end RtosCore
