import RtosCore.ListRefines

/-! The four inserts. All of them end in `link_between`, so what differs is only how they
find the two slots to link between. -/

namespace RtosCore

variable {V : Type} [ListValue V] {g : Sizes}

namespace ListsOf

variable {s : ListsOf V g} {b : Build} {l k : ListId} {x y before after : UInt16} {v : Option V}

/-- What `link_between` writes when it does not refuse. -/
def linked (s : ListsOf V g) (l : ListId) (x before after : UInt16) (v : Option V) :
    ListsOf V g :=
  let s₁ := ((s.setNode x ⟨v.getD (s.valueOf x), before, after, l⟩).setNext before x).setPrev after x
  s₁.setMeta l { s.metaOf l with len := (s.metaOf l).len + 1 }

theorem linkBetween_eq (hl : l.toNat < g.L) (hx : x.toNat < g.CAPACITY)
    (free : s.containerOf x = NO_LIST) (hb : before.toNat < g.N) (ha : after.toNat < g.N) :
    linkBetween b l x before after v s = (.ok (), s.linked l x before after v) := by
  have hxN : x.toNat < g.N := hx.trans g.capacity_lt_N
  have busy : ¬ (s.node x).container ≠ NO_LIST := not_not.mpr free
  rw [linkBetween, Call.bind_ok (item_eq hx), if_neg busy, Call.bind_ok (atLinkMut_eq hxN _),
    Call.bind_ok (atLinkMut_next hb x), Call.bind_ok (atLinkMut_prev ha x),
    Call.bind_ok (listMetaMut_eq hl _)]
  rfl

omit [ListValue V] in
theorem linkBetween_invalid (hx : ¬ x.toNat < g.CAPACITY) :
    linkBetween b l x before after v s = (.error (.err .invalidArgument), s) := by
  rw [linkBetween, Call.bind_error (item_invalid hx)]

theorem linkBetween_busy (hx : x.toNat < g.CAPACITY) (busy : s.containerOf x ≠ NO_LIST) :
    linkBetween b l x before after v s = (.error (.err .busy), s) := by
  have busy : (s.node x).container ≠ NO_LIST := busy
  rw [linkBetween, Call.bind_ok (item_eq hx), if_pos busy]
  rfl

section Fields

variable (hx : x.toNat < g.N) (hb : before.toNat < g.N) (ha : after.toNat < g.N)
include hx hb ha

theorem nextOf_linked : (s.linked l x before after v).nextOf y =
    if y = before then x else if y = x then after else s.nextOf y := by
  simp only [linked, nextOf_setMeta, nextOf_setPrev ha, nextOf_setNext hb, nextOf_setNode hx]

theorem prevOf_linked : (s.linked l x before after v).prevOf y =
    if y = after then x else if y = x then before else s.prevOf y := by
  simp only [linked, prevOf_setMeta, prevOf_setPrev ha, prevOf_setNext hb, prevOf_setNode hx]

theorem valueOf_linked : (s.linked l x before after v).valueOf y =
    if y = x then v.getD (s.valueOf x) else s.valueOf y := by
  simp only [linked, valueOf_setMeta, valueOf_setPrev ha, valueOf_setNext hb, valueOf_setNode hx]

theorem containerOf_linked : (s.linked l x before after v).containerOf y =
    if y = x then l else s.containerOf y := by
  simp only [linked, containerOf_setMeta, containerOf_setPrev ha, containerOf_setNext hb,
    containerOf_setNode hx]

end Fields

theorem metaOf_linked (hl : l.toNat < g.L) : (s.linked l x before after v).metaOf k =
    if k = l then { s.metaOf l with len := (s.metaOf l).len + 1 } else s.metaOf k := by
  rw [linked, metaOf_setMeta hl]
  rfl

end ListsOf

/-- The value an insert stores, if it stores one. -/
def Model.keeping (m : Model V) (x : ItemId) : Option V → Model V
  | some v => m.setValue x v
  | none => m

namespace Refines

open ListsOf

variable {s : ListsOf V g} {m : Model V} {l : ListId} {x : UInt16} {v : Option V}
  {ys zs : List ItemId} {p : ItemId → Bool}

omit [ListValue V] in
@[simp] theorem keeping_rota : (m.keeping x v).rota = m.rota := by
  cases v <;> rfl

omit [ListValue V] in
@[simp] theorem home_keeping {y : ItemId} : (m.keeping x v).home y = m.home y := by
  cases v <;> rfl

omit [ListValue V] in
theorem getLastD_slot (items : (m.rota l).items = ys ++ zs) :
    ys.getLastD (g.endOf l) ∈ g.endOf l :: (m.rota l).items := by
  have : ys.getLastD (g.endOf l) ∈ g.endOf l :: ys := List.getLastD_mem_cons
  rw [items]
  simp only [List.mem_cons, List.mem_append] at this ⊢
  tauto

omit [ListValue V] in
theorem headD_slot (items : (m.rota l).items = ys ++ zs) :
    zs.headD (g.endOf l) ∈ g.endOf l :: (m.rota l).items := by
  rw [items]
  cases zs <;> simp

theorem link_slots (h : Refines s m) (hl : l.toNat < g.L) (items : (m.rota l).items = ys ++ zs) :
    (ys.getLastD (g.endOf l)).toNat < g.N ∧ (zs.headD (g.endOf l)).toNat < g.N :=
  ⟨h.slot_lt hl (getLastD_slot items), h.slot_lt hl (headD_slot items)⟩

theorem linked_ring (h : Refines s m) (hl : l.toNat < g.L) (hx : x.toNat < g.CAPACITY)
    (free : ¬ m.Linked x) (items : (m.rota l).items = ys ++ zs) (v : Option V) :
    let s' := s.linked l x (ys.getLastD (g.endOf l)) (zs.headD (g.endOf l)) v
    LinkRing s'.nextOf s'.prevOf (g.endOf l) (ys ++ x :: zs) := by
  have hxN : x.toNat < g.N := hx.trans g.capacity_lt_N
  have hbefore := getLastD_slot (g := g) items
  have hafter := headD_slot (g := g) items
  obtain ⟨hb, ha⟩ := h.link_slots hl items
  have ring := h.ring l hl
  have hxl := free_notMem hx free hl
  rw [items] at ring hxl hbefore hafter
  have hxb : x ≠ ys.getLastD (g.endOf l) := fun e => hxl (e ▸ hbefore)
  have hxa : x ≠ zs.headD (g.endOf l) := fun e => hxl (e ▸ hafter)
  refine ring.insert hxl ?_ ?_ ?_ ?_ ?_ ?_
  · rw [nextOf_linked hxN hb ha, if_pos rfl]
  · rw [nextOf_linked hxN hb ha, if_neg hxb, if_pos rfl]
  · intro y hy hne
    have hyx : y ≠ x := fun e => hxl (e ▸ hy)
    rw [nextOf_linked hxN hb ha, if_neg hne, if_neg hyx]
  · rw [prevOf_linked hxN hb ha, if_pos rfl]
  · rw [prevOf_linked hxN hb ha, if_neg hxa, if_pos rfl]
  · intro y hy hne
    have hyx : y ≠ x := fun e => hxl (e ▸ hy)
    rw [prevOf_linked hxN hb ha, if_neg hne, if_neg hyx]

theorem linked_elsewhere (h : Refines s m) (hl : l.toNat < g.L) (hx : x.toNat < g.CAPACITY)
    (items : (m.rota l).items = ys ++ zs) (v : Option V) {y : UInt16} (hyx : y ≠ x)
    (hyl : y ∉ g.endOf l :: (m.rota l).items) :
    let s' := s.linked l x (ys.getLastD (g.endOf l)) (zs.headD (g.endOf l)) v
    s'.nextOf y = s.nextOf y ∧ s'.prevOf y = s.prevOf y := by
  have hxN : x.toNat < g.N := hx.trans g.capacity_lt_N
  have hbefore := getLastD_slot (g := g) items
  have hafter := headD_slot (g := g) items
  obtain ⟨hb, ha⟩ := h.link_slots hl items
  have hyb : y ≠ ys.getLastD (g.endOf l) := fun e => hyl (e ▸ hbefore)
  have hya : y ≠ zs.headD (g.endOf l) := fun e => hyl (e ▸ hafter)
  exact ⟨by rw [nextOf_linked hxN hb ha, if_neg hyb, if_neg hyx],
    by rw [prevOf_linked hxN hb ha, if_neg hya, if_neg hyx]⟩

theorem len_linked (h : Refines s m) (hl : l.toNat < g.L) (hx : x.toNat < g.CAPACITY)
    (free : ¬ m.Linked x) (items : (m.rota l).items = ys ++ zs) :
    ((s.metaOf l).len + 1).toNat = (ys ++ x :: zs).length := by
  have room := h.length_lt hx (Model.notMem_of_free free : x ∉ (m.rota l).items)
  have len := h.len l hl
  have := g.N_le
  have := g.capacity_lt_N
  have : (1 : UInt16).toNat = 1 := rfl
  rw [UInt16.toNat_add, len]
  rw [items] at room len ⊢
  simp only [List.length_append, List.length_cons] at room ⊢
  omega

theorem value_keeping (h : Refines s m) (hx : x.toNat < g.CAPACITY) {y : ItemId}
    (hy : y.toNat < g.CAPACITY) :
    (if y = x then v.getD (s.valueOf x) else s.valueOf y) = (m.keeping x v).value y := by
  cases v with
  | none =>
    simp only [Model.keeping, Option.getD_none]
    split
    · rename_i e
      rw [e, h.value x hx]
    · exact h.value y hy
  | some v =>
    simp only [Model.keeping, Option.getD_some, Model.setValue_value]
    rw [h.value y hy]

/-- Linking `x` between two neighbours of list `l` is placing it there in the rota. -/
theorem linked_refines (h : Refines s m) (hl : l.toNat < g.L) (hx : x.toNat < g.CAPACITY)
    (free : ¬ m.Linked x) (items : (m.rota l).items = ys ++ zs)
    (hp : insertBefore p x (ys ++ zs) = ys ++ x :: zs) (v : Option V) :
    Refines (s.linked l x (ys.getLastD (g.endOf l)) (zs.headD (g.endOf l)) v)
      ((m.keeping x v).place l p x) := by
  have hxN : x.toNat < g.N := hx.trans g.capacity_lt_N
  obtain ⟨hb, ha⟩ := h.link_slots hl items
  have free' : ¬ (m.keeping x v).Linked x := by simpa [Model.Linked] using free
  have placed : (((m.keeping x v).place l p x).rota l).items = ys ++ x :: zs := by
    rw [Model.place_rota free', if_pos rfl, keeping_rota,
      Rota.place_items (Model.notMem_of_free free), items, hp]
  have other : ∀ k, k ≠ l → ((m.keeping x v).place l p x).rota k = m.rota k := by
    intro k hk
    rw [Model.place_rota free', if_neg hk, keeping_rota]
  constructor
  case ring =>
    intro k hk
    rcases eq_or_ne k l with rfl | hkl
    · rw [placed]
      exact h.linked_ring hk hx free items v
    · rw [other k hkl]
      have elsewhere : ∀ y ∈ g.endOf k :: (m.rota k).items, _ := fun y hy =>
        h.linked_elsewhere hl hx items v (fun e => free_notMem hx free hk (e ▸ hy))
          fun hyl => hkl (h.rings_disjoint hk hl hy hyl)
      exact (h.ring k hk).congr (fun y hy => (elsewhere y hy).1) fun y hy => (elsewhere y hy).2
  case cursor =>
    intro k hk
    rw [metaOf_linked hl]
    rcases eq_or_ne k l with rfl | hkl
    · rw [if_pos rfl, Model.place_rota free', if_pos rfl, Rota.place_cursor, keeping_rota]
      exact h.cursor k hk
    · rw [if_neg hkl, other k hkl]
      exact h.cursor k hk
  case len =>
    intro k hk
    rw [metaOf_linked hl]
    rcases eq_or_ne k l with rfl | hkl
    · rw [if_pos rfl, placed]
      exact h.len_linked hk hx free items
    · rw [if_neg hkl, other k hkl]
      exact h.len k hk
  case bounds =>
    intro k y hy
    rcases (Model.mem_place free').mp hy with ⟨rfl, rfl⟩ | hy
    · exact ⟨hl, hx⟩
    · rw [keeping_rota] at hy
      exact h.bounds k y hy
  case container =>
    intro y hy
    rw [containerOf_linked hxN hb ha, Model.home_place free']
    split
    · rfl
    · rw [h.container y hy, home_keeping]
  case value =>
    intro y hy
    rw [valueOf_linked hxN hb ha, Model.place_value]
    exact h.value_keeping hx hy
  case markerValue =>
    intro k hk
    rw [valueOf_linked hxN hb ha, if_neg (Sizes.ne_endOf hk hx).symm]
    exact h.markerValue k hk
  case markerContainer =>
    intro k hk
    rw [containerOf_linked hxN hb ha, if_neg (Sizes.ne_endOf hk hx).symm]
    exact h.markerContainer k hk

theorem linked_stale (hl : l.toNat < g.L) (hx : x.toNat < g.CAPACITY) (free : ¬ m.Linked x)
    (h : Refines s m) (items : (m.rota l).items = ys ++ zs) {y : ItemId}
    (hy : y.toNat < g.CAPACITY) (hfree : ¬ ((m.keeping x v).place l p x).Linked y) :
    let s' := s.linked l x (ys.getLastD (g.endOf l)) (zs.headD (g.endOf l)) v
    s'.nextOf y = s.nextOf y ∧ s'.prevOf y = s.prevOf y := by
  have free' : ¬ (m.keeping x v).Linked x := by simpa [Model.Linked] using free
  rw [Model.linked_place free', not_or] at hfree
  obtain ⟨hyx, old⟩ := hfree
  have old : ¬ m.Linked y := by simpa [Model.Linked] using old
  exact h.linked_elsewhere hl hx items v hyx (free_notMem hy old hl)

/-- An insert that finds the neighbours of its place in the rota does what the model says. -/
theorem insertion_follows (h : Refines s m) {c : Build → Call V g Unit}
    (refuses : ¬ (l.toNat < g.L ∧ x.toNat < g.CAPACITY) →
      ∀ b, c b s = (.error (.err .invalidArgument), s))
    (finds : l.toNat < g.L → x.toNat < g.CAPACITY → ∃ ys zs, (m.rota l).items = ys ++ zs ∧
      insertBefore p x (ys ++ zs) = ys ++ x :: zs ∧
      ∀ b, c b s = linkBetween b l x (ys.getLastD (g.endOf l)) (zs.headD (g.endOf l)) v s) :
    ∃ s', Follows s s' (fun b => do c b; return .unit)
      (m.insertion g l x ((m.keeping x v).place l p x)) := by
  unfold Model.insertion
  by_cases valid : l.toNat < g.L ∧ x.toNat < g.CAPACITY
  · obtain ⟨hl, hx⟩ := valid
    obtain ⟨ys, zs, items, hp, hc⟩ := finds hl hx
    rw [if_neg (not_not.mpr ⟨hl, hx⟩)]
    by_cases busy : m.Linked x
    · rw [if_pos busy]
      have hbusy : s.containerOf x ≠ NO_LIST := fun e => (h.containerOf_free hx).mp e busy
      refine ⟨s, h.follows_refused fun b => Call.bind_error ?_ _⟩
      rw [hc b, linkBetween_busy hx hbusy]
    · rw [if_neg busy]
      obtain ⟨hb, ha⟩ := h.link_slots hl items
      refine ⟨_, ?_, h.linked_refines hl hx busy items hp v, False.elim,
        fun y hy hfree => linked_stale hl hx busy h items hy hfree⟩
      intro b
      refine Call.bind_ok (a := ()) ?_ _
      rw [hc b, linkBetween_eq hl hx ((h.containerOf_free hx).mpr busy) hb ha]
  · rw [if_pos valid]
    exact ⟨s, h.follows_refused fun b => Call.bind_error (refuses valid b) _⟩

theorem cursor_split (h : Refines s m) (hl : l.toNat < g.L) (x : ItemId) :
    ∃ ys zs, (m.rota l).items = ys ++ zs ∧
      insertBefore (m.atCursor l) x (ys ++ zs) = ys ++ x :: zs ∧
      zs.headD (g.endOf l) = (s.metaOf l).cursor ∧
      ys.getLastD (g.endOf l) = s.prevOf (s.metaOf l).cursor := by
  have ring := h.ring l hl
  have cursor := h.cursor l hl
  cases hc : (m.rota l).cursor with
  | none =>
    rw [hc, Option.getD_none] at cursor
    refine ⟨(m.rota l).items, [], by simp, ?_, by rw [cursor, List.headD_nil],
      by rw [cursor, ring.prev_marker]⟩
    rw [List.append_nil]
    exact insertBefore_none (fun y _ => by simp [Model.atCursor, hc]) x
  | some c =>
    rw [hc, Option.getD_some] at cursor
    obtain ⟨ys, zs, items⟩ := List.append_of_mem ((m.rota l).cursor_mem c hc)
    have nodup := (m.rota l).nodup
    rw [items] at ring nodup
    refine ⟨ys, c :: zs, items, ?_, by rw [cursor, List.headD_cons],
      by rw [cursor, ring.prev_item]⟩
    refine insertBefore_split (fun y hy => ?_) (fun z hz => ?_) x
    · have hyc : y ≠ c := fun e => (List.nodup_append.mp nodup).2.2 y hy c (by simp) e
      simp [Model.atCursor, hc, hyc]
    · simp only [List.head?_cons, Option.mem_some_iff] at hz
      simp [Model.atCursor, hc, hz]

/-- The walk compares with every item that is not sorted after `w` and then with the node in
front of which it stops, the marker at the latest. No step of it is the one the debug build
gives up at. -/
theorem walk_turns (h : Refines s m) (hl : l.toNat < g.L) {w : V} (hw : w < ListValue.MAX)
    (b : Build) (ys zs : List ItemId) (fuel guard : ℕ) (items : (m.rota l).items = ys ++ zs)
    (within : guard + zs.length ≤ g.N) :
    walk b w fuel guard (ys.getLastD (g.endOf l)) (zs.headD (g.endOf l)) s =
      if (zs.takeWhile fun y => !m.above w y).length < fuel then
        (.ok ((ys ++ zs.takeWhile fun y => !m.above w y).getLastD (g.endOf l),
          (zs.dropWhile fun y => !m.above w y).headD (g.endOf l)), s)
      else (.error .diverges, s) := by
  induction zs generalizing ys fuel guard with
  | nil =>
    cases fuel with
    | zero => rfl
    | succ fuel =>
      have stop : w < (s.node (g.endOf l)).value := by
        have := h.markerValue l hl
        rw [ListsOf.valueOf] at this
        rwa [this]
      rw [List.headD_nil, walk, Call.bind_ok (atLink_eq (Sizes.endOf_lt hl)), if_pos stop]
      simp [Call.pure_apply]
  | cons z zs ih =>
    cases fuel with
    | zero => rw [if_neg (Nat.not_lt_zero _)]; rfl
    | succ fuel =>
      have hz : z ∈ (m.rota l).items := by simp [items]
      have hzN : z.toNat < g.N := (h.item_lt hz).trans g.capacity_lt_N
      have value : (s.node z).value = m.value z := h.value z (h.item_lt hz)
      rw [List.headD_cons, walk, Call.bind_ok (atLink_eq hzN), value]
      by_cases above : w < m.value z
      · simp [above, Model.above, Call.pure_apply]
      · have unguarded : ¬ (b.debug && decide (g.N < guard + 1)) = true := by
          simp only [List.length_cons] at within
          simp only [Bool.and_eq_true, decide_eq_true_eq]
          omega
        have step := ih (ys ++ [z]) fuel (guard + 1) (by simp [items])
          (by simp only [List.length_cons] at within; omega)
        rw [if_neg above, if_neg unguarded, h.next_member hl items]
        simpa [Model.above, above] using step

theorem walk_eq (h : Refines s m) (hl : l.toNat < g.L) {w : V} (hw : w < ListValue.MAX)
    (b : Build) {fuel : ℕ} (enough : (m.rota l).items.length < fuel) :
    walk b w fuel 0 (g.endOf l) (s.nextOf (g.endOf l)) s =
      (.ok (((m.rota l).items.takeWhile fun y => !m.above w y).getLastD (g.endOf l),
        ((m.rota l).items.dropWhile fun y => !m.above w y).headD (g.endOf l)), s) := by
  have len := h.length_le l
  have room := g.capacity_lt_N
  have few : ((m.rota l).items.takeWhile fun y => !m.above w y).length < fuel :=
    ((List.takeWhile_sublist _).length_le).trans_lt enough
  have turns := h.walk_turns hl hw b [] (m.rota l).items fuel 0 rfl (by omega)
  rw [if_pos few] at turns
  rw [(h.ring l hl).next_marker]
  exact turns

theorem sortedPlace_eq (h : Refines s m) (hl : l.toNat < g.L) (w : V) (b : Build) :
    sortedPlace b l w s =
      (.ok (((m.rota l).items.takeWhile fun y => !m.above w y).getLastD (g.endOf l),
        ((m.rota l).items.dropWhile fun y => !m.above w y).headD (g.endOf l)), s) := by
  rw [sortedPlace, Call.bind_ok (atLink_eq (Sizes.endOf_lt hl))]
  by_cases hw : w = ListValue.MAX
  · -- nothing is sorted after `MAX`, so the walk would run to the marker
    have none : ∀ y ∈ (m.rota l).items, (!m.above w y) = true := by
      intro y _
      simp [Model.above, hw, ListValue.le_max]
    rw [if_pos hw, List.takeWhile_eq_self_iff.mpr none, List.dropWhile_eq_nil_iff.mpr none,
      h.prev_endOf hl]
    rfl
  · have hlt : w < ListValue.MAX := lt_of_le_of_ne (ListValue.le_max w) hw
    have len := h.length_le l
    have := g.capacity_lt_N
    rw [if_neg hw]
    exact h.walk_eq hl hlt b (by omega)

theorem insertInner_eq (h : Refines s m) (hl : l.toNat < g.L) (w : V) (b : Build)
    (key : sortKey b x v s = (.ok w, s)) :
    insertInner b l x v s = linkBetween b l x
      (((m.rota l).items.takeWhile fun y => !m.above w y).getLastD (g.endOf l))
      (((m.rota l).items.dropWhile fun y => !m.above w y).headD (g.endOf l)) v s := by
  rw [insertInner, Call.bind_ok (listMeta_eq hl), Call.bind_ok key,
    Call.bind_ok (h.sortedPlace_eq hl w b)]

theorem insert_invalid (h : Refines s m) (w : V) (b : Build)
    (invalid : ¬ (l.toNat < g.L ∧ x.toNat < g.CAPACITY)) :
    ListsOf.insert b l x w s = (.error (.err .invalidArgument), s) := by
  by_cases hl : l.toNat < g.L
  · rw [ListsOf.insert, h.insertInner_eq hl w b rfl,
      linkBetween_invalid fun hx => invalid ⟨hl, hx⟩]
  · rw [ListsOf.insert, insertInner, Call.bind_error (listMeta_invalid hl)]

theorem insert_follows (h : Refines s m) (l : ListId) (x : ItemId) (w : V) :
    ∃ s', Follows s s' (fun b => call b (.insert l x w)) (m.step g (.insert l x w)) := by
  refine h.insertion_follows (v := some w) (fun invalid b => h.insert_invalid w b invalid)
    fun hl _ => ?_
  exact ⟨_, _, List.takeWhile_append_dropWhile.symm,
    by rw [List.takeWhile_append_dropWhile]; rfl, fun b => h.insertInner_eq hl w b rfl⟩

theorem insertKeepingValue_follows (h : Refines s m) (l : ListId) (x : ItemId) :
    ∃ s', Follows s s' (fun b => call b (.insertKeepingValue l x))
      (m.step g (.insertKeepingValue l x)) := by
  refine h.insertion_follows (v := none) (fun invalid b => ?_) fun hl hx => ?_
  · by_cases hl : l.toNat < g.L
    · have hx : ¬ x.toNat < g.CAPACITY := fun hx => invalid ⟨hl, hx⟩
      rw [insertKeepingValue, insertInner, Call.bind_ok (listMeta_eq hl), sortKey,
        Call.bind_error (by rw [ListsOf.value, Call.bind_error (item_invalid hx)])]
    · rw [insertKeepingValue, insertInner, Call.bind_error (listMeta_invalid hl)]
  · have key : ∀ b, sortKey b x none s = (.ok (m.value x), s) := by
      intro b
      rw [sortKey, ListsOf.value, Call.bind_ok (item_eq hx), ← h.value x hx]
      rfl
    exact ⟨_, _, List.takeWhile_append_dropWhile.symm,
      by rw [List.takeWhile_append_dropWhile]; rfl,
      fun b => h.insertInner_eq hl _ b (key b)⟩

theorem insertEnd_follows (h : Refines s m) (l : ListId) (x : ItemId) :
    ∃ s', Follows s s' (fun b => call b (.insertEnd l x)) (m.step g (.insertEnd l x)) := by
  refine h.insertion_follows (v := none) (fun invalid b => ?_) fun hl hx => ?_
  · by_cases hl : l.toNat < g.L
    · have hc : (s.metaOf l).cursor.toNat < g.N := h.cursor_lt hl
      rw [insertEnd, Call.bind_ok (listMeta_eq hl), Call.bind_ok (atLink_eq hc),
        linkBetween_invalid fun hx => invalid ⟨hl, hx⟩]
    · rw [insertEnd, Call.bind_error (listMeta_invalid hl)]
  · obtain ⟨ys, zs, items, hp, cursor, prev⟩ := h.cursor_split hl x
    refine ⟨ys, zs, items, hp, fun b => ?_⟩
    rw [insertEnd, Call.bind_ok (listMeta_eq hl), Call.bind_ok (atLink_eq (h.cursor_lt hl)),
      cursor, prev]
    rfl

theorem insertSorted_follows (h : Refines s m) (l : ListId) (x : ItemId) (w : V) :
    ∃ s', Follows s s' (fun b => call b (.insertSorted l x w)) (m.step g (.insertSorted l x w)) := by
  have run : ∀ b, l.toNat < g.L → insertSorted b l x w s =
      (if (s.node ((m.rota l).items.getLastD (g.endOf l))).value ≤ w then
        linkBetween b l x ((m.rota l).items.getLastD (g.endOf l)) (g.endOf l) (some w)
      else ListsOf.insert b l x w) s := by
    intro b hl
    have slot := h.slot_lt hl (List.getLastD_mem_cons (l := (m.rota l).items))
    rw [insertSorted, Call.bind_ok (listMeta_eq hl),
      Call.bind_ok (atLink_eq (Sizes.endOf_lt hl)), h.prev_endOf hl, Call.bind_ok (atLink_eq slot)]
  refine h.insertion_follows (v := some w) (fun invalid b => ?_) fun hl _ => ?_
  · by_cases hl : l.toNat < g.L
    · rw [run b hl]
      split
      · exact linkBetween_invalid fun hx => invalid ⟨hl, hx⟩
      · exact h.insert_invalid w b invalid
    · rw [insertSorted, Call.bind_error (listMeta_invalid hl)]
  · have value : ∀ t ∈ (m.rota l).items.getLast?,
        (s.node ((m.rota l).items.getLastD (g.endOf l))).value = m.value t := by
      intro t ht
      rw [List.getLastD_eq_getLast?, Option.mem_def.mp ht, Option.getD_some]
      exact h.value t (h.item_lt (List.mem_of_getLast? ht))
    by_cases append : (s.node ((m.rota l).items.getLastD (g.endOf l))).value ≤ w
    · refine ⟨(m.rota l).items, [], by simp, ?_, fun b => by rw [run b hl, if_pos append]; rfl⟩
      rw [List.append_nil]
      refine insertBefore_none (fun y hy => ?_) x
      have ht := List.getLast?_eq_some_getLast (List.ne_nil_of_mem hy)
      have last := value _ ht
      rw [last] at append
      simp [Model.aboveTail, ht, append]
    · refine ⟨_, _, List.takeWhile_append_dropWhile.symm, ?_,
        fun b => by rw [run b hl, if_neg append]; exact h.insertInner_eq hl w b rfl⟩
      rw [List.takeWhile_append_dropWhile]
      refine insertBefore_congr (fun y _ => ?_) x
      cases ht : (m.rota l).items.getLast? with
      | none => simp [Model.aboveTail, ht]
      | some t =>
        rw [value t ht] at append
        simp [Model.aboveTail, ht, append]

end Refines

end RtosCore
