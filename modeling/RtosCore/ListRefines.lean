import RtosCore.LinkRing
import RtosCore.ListModel
import RtosCore.ListSlots

/-! The slots refine the rotas. `Refines s m` says that every list of `m` is a ring of `s`
through its own marker, that containers, counts, cursors and values agree, and that the
markers still carry what `new` gave them. Every call keeps it and answers what the model
answers, in every build. -/

namespace RtosCore

variable {V : Type} [ListValue V] {g : Sizes}

structure Refines (s : ListsOf V g) (m : Model V) : Prop where
  ring : ∀ l : ListId, l.toNat < g.L → LinkRing s.nextOf s.prevOf (g.endOf l) (m.rota l).items
  cursor : ∀ l : ListId, l.toNat < g.L →
    (s.metaOf l).cursor = (m.rota l).cursor.getD (g.endOf l)
  len : ∀ l : ListId, l.toNat < g.L → (s.metaOf l).len.toNat = (m.rota l).items.length
  bounds : ∀ l x, x ∈ (m.rota l).items → l.toNat < g.L ∧ x.toNat < g.CAPACITY
  container : ∀ x : ItemId, x.toNat < g.CAPACITY → s.containerOf x = (m.home x).getD NO_LIST
  value : ∀ x : ItemId, x.toNat < g.CAPACITY → s.valueOf x = m.value x
  markerValue : ∀ l : ListId, l.toNat < g.L → s.valueOf (g.endOf l) = ListValue.MAX
  markerContainer : ∀ l : ListId, l.toNat < g.L → s.containerOf (g.endOf l) = NO_LIST

theorem new_refines : Refines (ListsOf.new : ListsOf V g) Model.initial where
  ring l hl := by
    apply LinkRing.singleton <;>
      simp [ListsOf.nextOf, ListsOf.prevOf, ListsOf.node_new_endOf hl]
  cursor l hl := by simp [ListsOf.metaOf_new hl, Model.initial, Rota.empty]
  len l hl := by simp [ListsOf.metaOf_new hl, Model.initial, Rota.empty]
  bounds l x hx := by simp [Model.initial, Rota.empty] at hx
  container x hx := by
    have home : (Model.initial : Model V).home x = none :=
      Model.home_eq_none.mpr (by simp [Model.Linked, Model.initial, Rota.empty])
    simp [ListsOf.containerOf, ListsOf.node_new_item hx, home, Node.EMPTY]
  value x hx := by simp [ListsOf.valueOf, ListsOf.node_new_item hx, Model.initial, Node.EMPTY]
  markerValue l hl := by simp [ListsOf.valueOf, ListsOf.node_new_endOf hl]
  markerContainer l hl := by simp [ListsOf.containerOf, ListsOf.node_new_endOf hl]

theorem length_le_of_bound {xs : List UInt16} {n : ℕ} (nodup : xs.Nodup)
    (h : ∀ x ∈ xs, x.toNat < n) : xs.length ≤ n := by
  have nodup' : (xs.map UInt16.toNat).Nodup := nodup.map fun _ _ => UInt16.toNat_inj.mp
  have inside : xs.map UInt16.toNat ⊆ List.range n := by
    intro i hi
    obtain ⟨x, hx, rfl⟩ := List.mem_map.mp hi
    exact List.mem_range.mpr (h x hx)
  simpa using (List.subperm_of_subset nodup' inside).length_le

namespace Refines

variable {s : ListsOf V g} {m : Model V} {l k : ListId} {x y : UInt16}

theorem item_lt (h : Refines s m) (hx : x ∈ (m.rota l).items) : x.toNat < g.CAPACITY :=
  (h.bounds l x hx).2

theorem slot_lt (h : Refines s m) (hl : l.toNat < g.L)
    (hy : y ∈ g.endOf l :: (m.rota l).items) : y.toNat < g.N := by
  rcases List.mem_cons.mp hy with rfl | hy
  · exact Sizes.endOf_lt hl
  · exact (h.item_lt hy).trans g.capacity_lt_N

theorem next_endOf (h : Refines s m) (hl : l.toNat < g.L) :
    (s.node (g.endOf l)).next = (m.rota l).items.headD (g.endOf l) :=
  (h.ring l hl).next_marker

theorem prev_endOf (h : Refines s m) (hl : l.toNat < g.L) :
    (s.node (g.endOf l)).prev = (m.rota l).items.getLastD (g.endOf l) :=
  (h.ring l hl).prev_marker

theorem next_member (h : Refines s m) (hl : l.toNat < g.L) {ys zs : List ItemId}
    (items : (m.rota l).items = ys ++ x :: zs) : (s.node x).next = zs.headD (g.endOf l) :=
  (items ▸ h.ring l hl).next_item

theorem cursor_slot (h : Refines s m) (hl : l.toNat < g.L) :
    (s.metaOf l).cursor ∈ g.endOf l :: (m.rota l).items := by
  rw [h.cursor l hl]
  cases hc : (m.rota l).cursor with
  | none => simp
  | some c => simpa using Or.inr ((m.rota l).cursor_mem c hc)

theorem cursor_eq_endOf (h : Refines s m) (hl : l.toNat < g.L) :
    (s.metaOf l).cursor = g.endOf l ↔ (m.rota l).cursor = none := by
  rw [h.cursor l hl]
  cases hc : (m.rota l).cursor with
  | none => simp
  | some c => simpa using Sizes.ne_endOf hl (h.item_lt ((m.rota l).cursor_mem c hc))

theorem cursor_lt (h : Refines s m) (hl : l.toNat < g.L) : (s.metaOf l).cursor.toNat < g.N :=
  h.slot_lt hl (h.cursor_slot hl)

/-- The rings of two lists share no node. -/
theorem rings_disjoint (h : Refines s m) (hl : l.toNat < g.L) (hk : k.toNat < g.L)
    (hy : y ∈ g.endOf l :: (m.rota l).items) (hy' : y ∈ g.endOf k :: (m.rota k).items) :
    l = k := by
  rcases List.mem_cons.mp hy with rfl | hy <;> rcases List.mem_cons.mp hy' with e | hy'
  · exact Sizes.endOf_inj hl hk e
  · exact absurd rfl (Sizes.ne_endOf hl (h.item_lt hy'))
  · exact absurd e (Sizes.ne_endOf hk (h.item_lt hy))
  · exact m.disjoint l k y hy hy'

omit [ListValue V] in
theorem free_notMem (hx : x.toNat < g.CAPACITY) (free : ¬ m.Linked x) (hl : l.toNat < g.L) :
    x ∉ g.endOf l :: (m.rota l).items := by
  intro hm
  rcases List.mem_cons.mp hm with e | hm
  · exact Sizes.ne_endOf hl hx e
  · exact free ⟨l, hm⟩

theorem containerOf_mem (h : Refines s m) (hx : x ∈ (m.rota l).items) : s.containerOf x = l := by
  rw [h.container x (h.item_lt hx), Model.home_eq_some.mpr hx, Option.getD_some]

theorem containerOf_free (h : Refines s m) (hx : x.toNat < g.CAPACITY) :
    s.containerOf x = NO_LIST ↔ ¬ m.Linked x := by
  constructor
  · rintro hc ⟨l, hl⟩
    rw [h.containerOf_mem hl] at hc
    exact Sizes.ne_noList (h.bounds l x hl).1 hc
  · intro free
    rw [h.container x hx, Model.home_eq_none.mpr free, Option.getD_none]

theorem containerOf_eq (h : Refines s m) (hx : x.toNat < g.CAPACITY) (hl : l.toNat < g.L) :
    s.containerOf x = l ↔ x ∈ (m.rota l).items := by
  constructor
  · intro hc
    by_cases linked : m.Linked x
    · obtain ⟨k, hk⟩ := linked
      rwa [← hc, h.containerOf_mem hk]
    · rw [(h.containerOf_free hx).mpr linked] at hc
      exact absurd hc.symm (Sizes.ne_noList hl)
  · exact h.containerOf_mem

theorem len_eq_zero (h : Refines s m) (hl : l.toNat < g.L) :
    (s.metaOf l).len = 0 ↔ (m.rota l).items = [] := by
  have zero : (0 : UInt16).toNat = 0 := rfl
  rw [← UInt16.toNat_inj, h.len l hl, zero, List.length_eq_zero_iff]

theorem length_le (h : Refines s m) (l : ListId) : (m.rota l).items.length ≤ g.CAPACITY :=
  length_le_of_bound (m.rota l).nodup fun _ hx => h.item_lt hx

theorem length_lt (h : Refines s m) (hx : x.toNat < g.CAPACITY) (hm : x ∉ (m.rota l).items) :
    (m.rota l).items.length < g.CAPACITY := by
  have nodup : (x :: (m.rota l).items).Nodup := List.nodup_cons.mpr ⟨hm, (m.rota l).nodup⟩
  refine length_le_of_bound nodup fun y hy => ?_
  rcases List.mem_cons.mp hy with rfl | hy
  · exact hx
  · exact h.item_lt hy

end Refines

/-- The answers with which a call must not have changed anything: `Err`, `Ok(false)` and
`Ok(None)`. -/
def Refusal {ε : Type} : Except ε Answer → Prop
  | .error _ => True
  | .ok (.moved done) => done = false
  | .ok (.chosen item) => item = none
  | .ok _ => False

/-- In every build the call `c` answers `r.1` and leaves the one state `s'`, which refines
`r.2`. An item in no list keeps the links it was last given. -/
structure Follows (s s' : ListsOf V g) (c : Build → Call V g Answer)
    (r : Except Error Answer × Model V) : Prop where
  answer : ∀ b, c b s = (r.1.mapError Exit.err, s')
  refines : Refines s' r.2
  refused : Refusal r.1 → s' = s
  stale : ∀ x : ItemId, x.toNat < g.CAPACITY → ¬ r.2.Linked x →
    s'.nextOf x = s.nextOf x ∧ s'.prevOf x = s.prevOf x

theorem Refines.follows_refused {s : ListsOf V g} {m : Model V} (h : Refines s m)
    {c : Build → Call V g Answer} {a : Except Error Answer}
    (answer : ∀ b, c b s = (a.mapError Exit.err, s)) : Follows s s c (a, m) :=
  ⟨answer, h, fun _ => rfl, fun _ _ _ => ⟨rfl, rfl⟩⟩

end RtosCore
