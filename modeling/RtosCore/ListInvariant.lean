import RtosCore.ListRuns
import Mathlib.Data.List.Perm.Basic

/-! The invariant of the node array in the array's own terms: rings, inverse links,
containers, counts, cursors and markers. What it is worth is the second half: a call
follows no link that the mask would change, and none of an item outside every list. -/

namespace RtosCore

variable {V : Type} [ListValue V] {g : Sizes}

namespace ListsOf

def ringOf (s : ListsOf V g) (l : ListId) : List UInt16 := g.endOf l :: s.visited l

def itemsOf (s : ListsOf V g) (l : ListId) : List ℕ :=
  (List.range g.CAPACITY).filter fun i => s.containerOf (UInt16.ofNat i) = l

structure RingInvariant (s : ListsOf V g) : Prop where
  nodup : ∀ l : ListId, l.toNat < g.L → (s.visited l).Nodup
  mem_visited : ∀ l : ListId, l.toNat < g.L → ∀ x : ItemId,
    x ∈ s.visited l ↔ x.toNat < g.CAPACITY ∧ s.containerOf x = l
  arrives : ∀ l : ListId, l.toNat < g.L →
    s.nextOf^[(s.metaOf l).len.toNat] (s.nextOf (g.endOf l)) = g.endOf l
  prev_next : ∀ l : ListId, l.toNat < g.L → ∀ y ∈ s.ringOf l, s.prevOf (s.nextOf y) = y
  next_prev : ∀ l : ListId, l.toNat < g.L → ∀ y ∈ s.ringOf l, s.nextOf (s.prevOf y) = y
  cursor : ∀ l : ListId, l.toNat < g.L → (s.metaOf l).cursor ∈ s.ringOf l
  marker : ∀ l : ListId, l.toNat < g.L →
    s.valueOf (g.endOf l) = ListValue.MAX ∧ s.containerOf (g.endOf l) = NO_LIST
  one_list : ∀ l k : ListId, l.toNat < g.L → k.toNat < g.L → ∀ x : ItemId,
    x ∈ s.visited l → x ∈ s.visited k → l = k
  len : ∀ l : ListId, l.toNat < g.L → (s.metaOf l).len.toNat = (s.itemsOf l).length
  len_le : ∀ l : ListId, l.toNat < g.L → (s.metaOf l).len.toNat ≤ g.CAPACITY
  slots : ∀ l : ListId, l.toNat < g.L → ∀ y ∈ s.ringOf l,
    y.toNat < g.N ∧ (s.nextOf y).toNat < g.N ∧ (s.prevOf y).toNat < g.N

/-- No call of either kind follows a link that is not below `N`, which would panic without the
mask, nor one of a free item, which may hold anything. -/
structure FollowsOnlyRings (s : ListsOf V g) : Prop where
  ends : ∀ (b : Build) (op : Op V),
    (call b op s).1 ≠ .error .panic ∧ (call b op s).1 ≠ .error .diverges
  ends_query : ∀ (b : Build) (q : Query),
    (query b q s).1 ≠ .error .panic ∧ (query b q s).1 ≠ .error .diverges
  mask : ∀ (debug : Bool) (op : Op V), call ⟨debug, false⟩ op s = call ⟨debug, true⟩ op s
  mask_query : ∀ (debug : Bool) (q : Query),
    query ⟨debug, false⟩ q s = query ⟨debug, true⟩ q s
  stale : ∀ t : ListsOf V g, SameRings s t → ∀ (b : Build) (op : Op V),
    (call b op t).1 = (call b op s).1 ∧ SameRings (call b op s).2 (call b op t).2
  stale_query : ∀ t : ListsOf V g, SameRings s t → ∀ (b : Build) (q : Query),
    (query b q t).1 = (query b q s).1

end ListsOf

namespace Refines

open ListsOf

variable {s t : ListsOf V g} {m : Model V} {l : ListId}

theorem ringOf_eq (h : Refines s m) : s.ringOf l = g.endOf l :: (m.rota l).items := by
  rw [ringOf, h.visited_eq]

theorem itemsOf_perm (h : Refines s m) (hl : l.toNat < g.L) :
    (s.itemsOf l).Perm ((m.rota l).items.map UInt16.toNat) := by
  have small : ∀ i < g.CAPACITY, (UInt16.ofNat i).toNat = i := fun i hi => by
    have := g.capacity_lt_N
    have := g.N_le
    exact UInt16.toNat_ofNat_of_lt' (by change _ < 65536; omega)
  have nodup : ((m.rota l).items.map UInt16.toNat).Nodup :=
    (m.rota l).nodup.map fun _ _ => UInt16.toNat_inj.mp
  refine (List.perm_ext_iff_of_nodup (List.nodup_range.filter _) nodup).mpr fun i => ?_
  rw [List.mem_filter, List.mem_range, decide_eq_true_eq, List.mem_map]
  constructor
  · rintro ⟨hi, container⟩
    exact ⟨_, (h.containerOf_eq (by rwa [small i hi]) hl).mp container, small i hi⟩
  · rintro ⟨x, hx, rfl⟩
    rw [UInt16.ofNat_toNat]
    exact ⟨h.item_lt hx, h.containerOf_mem hx⟩

theorem ringInvariant (h : Refines s m) : RingInvariant s where
  nodup l _ := h.visited_eq l ▸ (m.rota l).nodup
  mem_visited l hl x := by
    rw [h.visited_eq]
    constructor
    · exact fun hx => ⟨h.item_lt hx, h.containerOf_mem hx⟩
    · exact fun hx => (h.containerOf_eq hx.1 hl).mp hx.2
  arrives l hl := by
    rw [h.len l hl]
    exact (h.ring l hl).forward.arrives
  prev_next l hl y hy := (h.ring l hl).prev_next (h.ringOf_eq ▸ hy)
  next_prev l hl y hy := (h.ring l hl).next_prev (h.ringOf_eq ▸ hy)
  cursor l hl := h.ringOf_eq ▸ h.cursor_slot hl
  marker l hl := ⟨h.markerValue l hl, h.markerContainer l hl⟩
  one_list l k _ _ x hx hx' := by
    rw [h.visited_eq] at hx hx'
    exact m.disjoint l k x hx hx'
  len l hl := by
    rw [h.len l hl, (h.itemsOf_perm hl).length_eq, List.length_map]
  len_le l hl := by
    rw [h.len l hl]
    exact h.length_le l
  slots l hl y hy := by
    have ring := h.ring l hl
    rw [h.ringOf_eq] at hy
    exact ⟨h.slot_lt hl hy, h.slot_lt hl (ring.next_mem hy), h.slot_lt hl (ring.prev_mem hy)⟩

theorem followsOnlyRings (h : Refines s m) : FollowsOnlyRings s where
  ends b op := by
    rw [h.call_answer]
    cases (m.step g op).1 <;> exact ⟨nofun, nofun⟩
  ends_query b q := by
    rw [h.query_eq]
    cases m.ask g q <;> exact ⟨nofun, nofun⟩
  mask _ op := h.call_build _ _ op
  mask_query _ q := by rw [h.query_eq, h.query_eq]
  stale t same b op := by
    have h' := h.of_sameRings same
    rw [h.call_answer, h'.call_answer]
    exact ⟨rfl, (h.call b op).refines.sameRings (h'.call b op).refines⟩
  stale_query t same b q := by
    rw [h.query_eq, (h.of_sameRings same).query_eq]

end Refines

/-- After any script of calls, with any arguments, the node array is what it should be. -/
theorem reachable_ring_invariant (b : Build) (ops : List (Op V)) :
    let s := ListsOf.after b ops (ListsOf.new : ListsOf V g)
    s.RingInvariant ∧ s.FollowsOnlyRings :=
  ⟨(after_refines b ops).ringInvariant, (after_refines b ops).followsOnlyRings⟩

end RtosCore
