import RtosCore.ListRemove

/-! `move_to_end`, the fused call. Its writes go through a cursor it may have moved itself;
the state they leave is, slot for slot, that of `remove` followed by `insert_end`. -/

namespace RtosCore

variable {V : Type} [ListValue V] {g : Sizes}

namespace ListsOf

variable {s : ListsOf V g} {b : Build} {l k : ListId} {x y : UInt16}

def steppedBack (s : ListsOf V g) (l : ListId) (x : ItemId) : UInt16 :=
  if (s.metaOf l).cursor = x then s.prevOf x else (s.metaOf l).cursor

/-- The slot `move_to_end` links the item behind. -/
def behindCursor (s : ListsOf V g) (l : ListId) (x : ItemId) : UInt16 :=
  (s.joined (s.prevOf x) (s.nextOf x)).prevOf (s.steppedBack l x)

def taken (s : ListsOf V g) (l : ListId) (x : ItemId) : ListsOf V g :=
  let s₁ := s.joined (s.prevOf x) (s.nextOf x)
  if (s.metaOf l).cursor = x then s₁.setMeta l { s.metaOf l with cursor := s.prevOf x } else s₁

/-- What `move_to_end` writes for an item of list `l`. -/
def moved (s : ListsOf V g) (l : ListId) (x : ItemId) : ListsOf V g :=
  let s₁ := (s.taken l x).setNode x
    { (s.taken l x).node x with prev := s.behindCursor l x, next := s.steppedBack l x }
  (s₁.setNext (s.behindCursor l x) x).setPrev (s.steppedBack l x) x

theorem node_taken : (s.taken l x).node y = (s.joined (s.prevOf x) (s.nextOf x)).node y := by
  unfold taken
  split <;> rfl

theorem stepBack_eq (hl : l.toNat < g.L) :
    stepBack l x (s.prevOf x) (s.metaOf l).cursor (s.joined (s.prevOf x) (s.nextOf x)) =
      (.ok (s.steppedBack l x), s.taken l x) := by
  unfold stepBack steppedBack taken
  split
  · rw [Call.bind_ok (listMetaMut_eq hl _)]
    rfl
  · rfl

theorem moveToEnd_eq (hl : l.toNat < g.L) (hx : x.toNat < g.CAPACITY)
    (container : s.containerOf x = l) (hp : (s.prevOf x).toNat < g.N)
    (hn : (s.nextOf x).toNat < g.N) (hc : (s.steppedBack l x).toNat < g.N)
    (hb : (s.behindCursor l x).toNat < g.N) :
    moveToEnd b l x s = (.ok true, s.moved l x) := by
  have member : ¬ (s.node x).container ≠ l := not_not.mpr container
  have hp' : (s.node x).prev.toNat < g.N := hp
  have hn' : (s.node x).next.toNat < g.N := hn
  have hxN := hx.trans g.capacity_lt_N
  have behind : ((s.taken l x).node (s.steppedBack l x)).prev = s.behindCursor l x := by
    rw [node_taken]
    rfl
  rw [moveToEnd, Call.bind_ok (listMeta_eq hl), Call.bind_ok (item_eq hx), if_neg member,
    Call.bind_ok (atLinkMut_prev hn' _), Call.bind_ok (atLinkMut_next hp' _)]
  refine (Call.bind_ok (stepBack_eq hl) _).trans ?_
  rw [Call.bind_ok (atLink_eq hc), behind, Call.bind_ok (atLinkMut_eq hxN _),
    Call.bind_ok (atLinkMut_next hb _), Call.bind_ok (atLinkMut_prev hc _)]
  rfl

section Fields

variable (hx : x.toNat < g.N) (hc : (s.steppedBack l x).toNat < g.N)
  (hb : (s.behindCursor l x).toNat < g.N)
include hx hc hb

theorem nextOf_moved : (s.moved l x).nextOf y =
    if y = s.behindCursor l x then x else if y = x then s.steppedBack l x
    else (s.joined (s.prevOf x) (s.nextOf x)).nextOf y := by
  rw [moved, nextOf_setPrev hc, nextOf_setNext hb, nextOf_setNode hx, nextOf, node_taken (y := y)]
  rfl

theorem prevOf_moved : (s.moved l x).prevOf y =
    if y = s.steppedBack l x then x else if y = x then s.behindCursor l x
    else (s.joined (s.prevOf x) (s.nextOf x)).prevOf y := by
  rw [moved, prevOf_setPrev hc, prevOf_setNext hb, prevOf_setNode hx, prevOf, node_taken (y := y)]
  rfl

variable (hp : (s.prevOf x).toNat < g.N) (hn : (s.nextOf x).toNat < g.N)
include hp hn

theorem valueOf_moved : (s.moved l x).valueOf y = s.valueOf y := by
  rw [moved, valueOf_setPrev hc, valueOf_setNext hb, valueOf_setNode hx, valueOf, node_taken,
    node_taken]
  split
  · rename_i e
    rw [e]
    exact valueOf_joined hp hn
  · exact valueOf_joined hp hn

theorem containerOf_moved : (s.moved l x).containerOf y = s.containerOf y := by
  rw [moved, containerOf_setPrev hc, containerOf_setNext hb, containerOf_setNode hx, containerOf,
    node_taken, node_taken]
  split
  · rename_i e
    rw [e]
    exact containerOf_joined hp hn
  · exact containerOf_joined hp hn

end Fields

theorem metaOf_moved (hl : l.toNat < g.L) : (s.moved l x).metaOf k =
    if k = l then { s.metaOf l with cursor := s.steppedBack l x } else s.metaOf k := by
  rw [moved, metaOf_setPrev, metaOf_setNext, metaOf_setNode, steppedBack, taken]
  split
  · rw [metaOf_setMeta hl]
    rfl
  · split
    · rename_i e
      rw [e]
      rfl
    · rfl

end ListsOf

namespace Refines

open ListsOf

variable {s : ListsOf V g} {m : Model V} {l : ListId} {x : UInt16}

theorem metaOf_unlinked_cursor (hl : l.toNat < g.L) :
    ((s.unlinked l x).metaOf l).cursor = s.steppedBack l x := by
  rw [metaOf_unlinked hl, if_pos rfl]
  rfl

theorem prevOf_unlinked_cursor (hx : x.toNat < g.N) :
    (s.unlinked l x).prevOf (s.steppedBack l x) = s.behindCursor l x := by
  rw [prevOf_unlinked hx]
  rfl

/-- The fused call leaves the state of the pair. -/
theorem moved_eq_linked (h : Refines s m) (hx : x ∈ (m.rota l).items) :
    s.moved l x =
      (s.unlinked l x).linked l x (s.behindCursor l x) (s.steppedBack l x) none := by
  obtain ⟨hl, hxC⟩ := h.bounds l x hx
  have hxN := hxC.trans g.capacity_lt_N
  obtain ⟨ys, zs, items, hxy, prev, next, hp, hn⟩ := h.neighbours hx
  have h' := h.unlinked_refines hx
  have hc : (s.steppedBack l x).toNat < g.N := by
    have := h'.cursor_lt hl
    rwa [metaOf_unlinked_cursor hl] at this
  have hb : (s.behindCursor l x).toNat < g.N := by
    have := h'.slot_lt hl ((h'.ring l hl).prev_mem (h'.cursor_slot hl))
    rwa [metaOf_unlinked_cursor hl, prevOf_unlinked_cursor hxN] at this
  refine ext_fields (fun y _ => ?_) (fun y _ => ?_) (fun y _ => ?_) (fun y _ => ?_) fun k _ => ?_
  · rw [nextOf_moved hxN hc hb, nextOf_linked hxN hb hc, nextOf_unlinked hxN]
  · rw [prevOf_moved hxN hc hb, prevOf_linked hxN hb hc, prevOf_unlinked hxN]
  · rw [valueOf_moved hxN hc hb hp hn, valueOf_linked hxN hb hc, valueOf_unlinked hxN hp hn,
      valueOf_unlinked hxN hp hn, Option.getD_none]
    split
    · rename_i e
      rw [e]
    · rfl
  · rw [containerOf_moved hxN hc hb hp hn, containerOf_linked hxN hb hc,
      containerOf_unlinked hxN hp hn]
    split
    · rename_i e
      rw [e, h.containerOf_mem hx]
    · rfl
  · rw [metaOf_moved hl, metaOf_linked hl]
    split
    · rw [metaOf_unlinked hl, if_pos rfl, UInt16.sub_add_cancel]
      rfl
    · rename_i e
      rw [metaOf_unlinked hl, if_neg e]

theorem moveToEnd_follows (h : Refines s m) (l : ListId) (x : ItemId) :
    ∃ s', Follows s s' (fun b => call b (.moveToEnd l x)) (m.step g (.moveToEnd l x)) := by
  rw [Model.step]
  by_cases valid : l.toNat < g.L ∧ x.toNat < g.CAPACITY
  · obtain ⟨hl, hxC⟩ := valid
    have hxN := hxC.trans g.capacity_lt_N
    rw [if_neg (not_not.mpr ⟨hl, hxC⟩)]
    by_cases hx : x ∈ (m.rota l).items
    · rw [if_pos hx]
      obtain ⟨-, -, -, -, -, -, hp, hn⟩ := h.neighbours hx
      have h' := h.unlinked_refines hx
      obtain ⟨ys, zs, items, hplace, cursor, prev⟩ := h'.cursor_split hl x
      rw [metaOf_unlinked_cursor hl] at cursor prev
      rw [prevOf_unlinked_cursor hxN] at prev
      obtain ⟨hb, hc⟩ := h'.link_slots hl items
      have state := h.moved_eq_linked hx
      have next := h'.linked_refines hl hxC Model.not_linked_erase items hplace none
      rw [cursor] at hc
      rw [prev] at hb
      rw [cursor, prev, ← state] at next
      refine ⟨s.moved l x, fun b => Call.bind_ok
        (moveToEnd_eq hl hxC (h.containerOf_mem hx) hp hn hc hb) _, next,
        fun refusal => absurd (show true = false from refusal) (by decide), fun y hy free => ?_⟩
      have free' : ¬ (m.erase x).Linked y := fun linked =>
        free ((Model.linked_place Model.not_linked_erase).mpr (Or.inr linked))
      have second := h'.linked_stale hl hxC Model.not_linked_erase items hy (v := none) free
      simp only [cursor, prev] at second
      have first := h.unlinked_stale hx hy free'
      rw [state]
      exact ⟨second.1.trans first.1, second.2.trans first.2⟩
    · rw [if_neg hx]
      have other : (s.node x).container ≠ l := fun e => hx ((h.containerOf_eq hxC hl).mp e)
      refine ⟨s, h.follows_refused fun b => Call.bind_ok (a := false) ?_ _⟩
      rw [moveToEnd, Call.bind_ok (listMeta_eq hl), Call.bind_ok (item_eq hxC), if_pos other]
      rfl
  · rw [if_pos valid]
    refine ⟨s, h.follows_refused fun b => Call.bind_error ?_ _⟩
    by_cases hl : l.toNat < g.L
    · rw [moveToEnd, Call.bind_ok (listMeta_eq hl),
        Call.bind_error (item_invalid fun hx => valid ⟨hl, hx⟩)]
    · rw [moveToEnd, Call.bind_error (listMeta_invalid hl)]

end Refines

end RtosCore
