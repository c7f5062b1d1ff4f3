import RtosCore.ListInsert

/-! The calls that take items out of a list, move them inside one, advance its cursor or
change a value. `move_to_end` writes the very state that `remove` and `insert_end` leave. -/

namespace RtosCore

variable {V : Type} [ListValue V] {g : Sizes}

namespace ListsOf

variable {s : ListsOf V g} {b : Build} {l k : ListId} {x y p n : UInt16}

/-- The two writes that take the node between `p` and `n` out of its ring. -/
def joined (s : ListsOf V g) (p n : UInt16) : ListsOf V g := (s.setPrev n p).setNext p n

/-- What `uxListRemove` writes for an item of list `l`. -/
def unlinked (s : ListsOf V g) (l : ListId) (x : ItemId) : ListsOf V g :=
  let s₁ := s.joined (s.prevOf x) (s.nextOf x)
  (s₁.setNode x { s₁.node x with container := NO_LIST }).setMeta l
    { cursor := if (s.metaOf l).cursor = x then s.prevOf x else (s.metaOf l).cursor
      len := (s.metaOf l).len - 1 }

section Fields

variable (hp : p.toNat < g.N) (hn : n.toNat < g.N)
include hp hn

theorem nextOf_joined : (s.joined p n).nextOf y = if y = p then n else s.nextOf y := by
  rw [joined, nextOf_setNext hp, nextOf_setPrev hn]

theorem prevOf_joined : (s.joined p n).prevOf y = if y = n then p else s.prevOf y := by
  rw [joined, prevOf_setNext hp, prevOf_setPrev hn]

theorem valueOf_joined : (s.joined p n).valueOf y = s.valueOf y := by
  rw [joined, valueOf_setNext hp, valueOf_setPrev hn]

theorem containerOf_joined : (s.joined p n).containerOf y = s.containerOf y := by
  rw [joined, containerOf_setNext hp, containerOf_setPrev hn]

end Fields

section Unlinked

variable (hx : x.toNat < g.N)
include hx

theorem nextOf_unlinked :
    (s.unlinked l x).nextOf y = (s.joined (s.prevOf x) (s.nextOf x)).nextOf y := by
  rw [unlinked, nextOf_setMeta, nextOf_setNode hx]
  split
  · rename_i e
    rw [e]
    rfl
  · rfl

theorem prevOf_unlinked :
    (s.unlinked l x).prevOf y = (s.joined (s.prevOf x) (s.nextOf x)).prevOf y := by
  rw [unlinked, prevOf_setMeta, prevOf_setNode hx]
  split
  · rename_i e
    rw [e]
    rfl
  · rfl

theorem valueOf_unlinked (hp : (s.prevOf x).toNat < g.N) (hn : (s.nextOf x).toNat < g.N) :
    (s.unlinked l x).valueOf y = s.valueOf y := by
  rw [unlinked, valueOf_setMeta, valueOf_setNode hx]
  split
  · rename_i e
    rw [e]
    exact valueOf_joined hp hn
  · exact valueOf_joined hp hn

theorem containerOf_unlinked (hp : (s.prevOf x).toNat < g.N) (hn : (s.nextOf x).toNat < g.N) :
    (s.unlinked l x).containerOf y = if y = x then NO_LIST else s.containerOf y := by
  rw [unlinked, containerOf_setMeta, containerOf_setNode hx, containerOf_joined hp hn]

end Unlinked

theorem metaOf_unlinked (hl : l.toNat < g.L) : (s.unlinked l x).metaOf k =
    if k = l then
      { cursor := if (s.metaOf l).cursor = x then s.prevOf x else (s.metaOf l).cursor
        len := (s.metaOf l).len - 1 }
    else s.metaOf k := by
  rw [unlinked, metaOf_setMeta hl]
  rfl

theorem unlinkInner_eq (hx : x.toNat < g.CAPACITY) (hl : l.toNat < g.L)
    (container : s.containerOf x = l) (hp : (s.prevOf x).toNat < g.N)
    (hn : (s.nextOf x).toNat < g.N) :
    unlinkInner b x s = (.ok ((s.metaOf l).len - 1), s.unlinked l x) := by
  have hc : (s.node x).container = l := container
  have hne : ¬ (s.node x).container = NO_LIST := by
    rw [hc]
    exact Sizes.ne_noList hl
  have hxN := hx.trans g.capacity_lt_N
  have hp' : (s.node x).prev.toNat < g.N := hp
  have hn' : (s.node x).next.toNat < g.N := hn
  rw [unlinkInner, Call.bind_ok (item_eq hx), if_neg hne,
    Call.bind_ok (atLinkMut_prev hn' _), Call.bind_ok (atLinkMut_next hp' _),
    Call.bind_ok (atLinkMut_eq hxN _), hc, Call.bind_ok (listMetaMut_eq hl _)]
  rfl

omit [ListValue V] in
theorem unlinkInner_invalid (hx : ¬ x.toNat < g.CAPACITY) :
    unlinkInner b x s = (.error (.err .invalidArgument), s) := by
  rw [unlinkInner, Call.bind_error (item_invalid hx)]

theorem unlinkInner_free (hx : x.toNat < g.CAPACITY) (free : s.containerOf x = NO_LIST) :
    unlinkInner b x s = (.error (.err .notActive), s) := by
  have hc : (s.node x).container = NO_LIST := free
  rw [unlinkInner, Call.bind_ok (item_eq hx), if_pos hc]
  rfl

end ListsOf

namespace Refines

open ListsOf

variable {s : ListsOf V g} {m : Model V} {l : ListId} {x : UInt16}

theorem neighbours (h : Refines s m) (hx : x ∈ (m.rota l).items) :
    ∃ ys zs, (m.rota l).items = ys ++ x :: zs ∧ x ∉ ys ∧ s.prevOf x = ys.getLastD (g.endOf l) ∧
      s.nextOf x = zs.headD (g.endOf l) ∧ (s.prevOf x).toNat < g.N ∧ (s.nextOf x).toNat < g.N := by
  have hl := (h.bounds l x hx).1
  obtain ⟨ys, zs, items⟩ := List.append_of_mem hx
  have ring := h.ring l hl
  have hm : x ∈ g.endOf l :: (m.rota l).items := List.mem_cons_of_mem _ hx
  have hp := h.slot_lt hl (ring.prev_mem hm)
  have hn := h.slot_lt hl (ring.next_mem hm)
  have nodup := (m.rota l).nodup
  rw [items] at ring nodup
  exact ⟨ys, zs, items, notMem_before nodup, ring.prev_item, ring.next_item, hp, hn⟩

theorem joined_ring (h : Refines s m) (hx : x ∈ (m.rota l).items) (k : ListId)
    (hk : k.toNat < g.L) :
    let s₁ := s.joined (s.prevOf x) (s.nextOf x)
    LinkRing s₁.nextOf s₁.prevOf (g.endOf k) ((m.erase x).rota k).items := by
  intro s₁
  have hl := (h.bounds l x hx).1
  obtain ⟨ys, zs, items, hxy, prev, next, hp, hn⟩ := h.neighbours hx
  rw [Model.erase_rota hx]
  split
  · rename_i e
    have ring := h.ring l hl
    rw [items] at ring
    rw [e, Rota.erase_items, items, erase_middle hxy]
    refine ring.remove ?_ ?_ ?_ ?_
    · rw [nextOf_joined hp hn, ← prev, if_pos rfl, next]
    · intro y _ hne
      rw [nextOf_joined hp hn, if_neg (prev ▸ hne)]
    · rw [prevOf_joined hp hn, ← next, if_pos rfl, prev]
    · intro y _ hne
      rw [prevOf_joined hp hn, if_neg (next ▸ hne)]
  · rename_i hkl
    have ring := h.ring l hl
    have hm : x ∈ g.endOf l :: (m.rota l).items := List.mem_cons_of_mem _ hx
    refine (h.ring k hk).congr (fun y hy => ?_) fun y hy => ?_
    · have hyp : y ≠ s.prevOf x := fun e => hkl (h.rings_disjoint hk hl hy (e ▸ ring.prev_mem hm))
      rw [nextOf_joined hp hn, if_neg hyp]
    · have hyn : y ≠ s.nextOf x := fun e => hkl (h.rings_disjoint hk hl hy (e ▸ ring.next_mem hm))
      rw [prevOf_joined hp hn, if_neg hyn]

theorem cursor_eq_item (h : Refines s m) (hl : l.toNat < g.L) (hx : x.toNat < g.CAPACITY) :
    (s.metaOf l).cursor = x ↔ (m.rota l).cursor = some x := by
  rw [h.cursor l hl]
  cases (m.rota l).cursor with
  | none => simpa using (Sizes.ne_endOf hl hx).symm
  | some c => simp

theorem len_unlinked (h : Refines s m) (hx : x ∈ (m.rota l).items) :
    ((s.metaOf l).len - 1).toNat = ((m.erase x).rota l).items.length := by
  have len := h.len l (h.bounds l x hx).1
  have pos := List.length_pos_of_mem hx
  have one : (1 : UInt16).toNat = 1 := rfl
  rw [Model.erase_rota hx, if_pos rfl, Rota.erase_items, List.length_erase_of_mem hx, ← len,
    UInt16.toNat_sub_of_le _ _ (UInt16.le_iff_toNat_le.mpr (by omega)), one]

theorem unlinked_refines (h : Refines s m) (hx : x ∈ (m.rota l).items) :
    Refines (s.unlinked l x) (m.erase x) := by
  obtain ⟨hl, hxC⟩ := h.bounds l x hx
  have hxN := hxC.trans g.capacity_lt_N
  obtain ⟨ys, zs, items, hxy, prev, next, hp, hn⟩ := h.neighbours hx
  constructor
  case ring =>
    intro k hk
    exact (h.joined_ring hx k hk).congr (fun y _ => nextOf_unlinked hxN)
      fun y _ => prevOf_unlinked hxN
  case cursor =>
    intro k hk
    rw [metaOf_unlinked hl, Model.erase_rota hx]
    split
    · rename_i e
      rw [e, Rota.erase_cursor]
      by_cases hc : (m.rota l).cursor = some x
      · rw [if_pos hc, if_pos ((h.cursor_eq_item hl hxC).mpr hc), prev, items, pred_eq hxy,
          List.getLastD_eq_getLast?]
      · rw [if_neg hc, if_neg fun e => hc ((h.cursor_eq_item hl hxC).mp e)]
        exact h.cursor l hl
    · exact h.cursor k hk
  case len =>
    intro k hk
    rw [metaOf_unlinked hl]
    split
    · rename_i e
      rw [e]
      exact h.len_unlinked hx
    · rename_i e
      rw [Model.erase_rota hx, if_neg e]
      exact h.len k hk
  case bounds =>
    intro k y hy
    exact h.bounds k y (Model.mem_erase.mp hy).2
  case container =>
    intro y hy
    rw [containerOf_unlinked hxN hp hn, Model.home_erase]
    split
    · rfl
    · exact h.container y hy
  case value =>
    intro y hy
    rw [valueOf_unlinked hxN hp hn]
    exact h.value y hy
  case markerValue =>
    intro k hk
    rw [valueOf_unlinked hxN hp hn]
    exact h.markerValue k hk
  case markerContainer =>
    intro k hk
    rw [containerOf_unlinked hxN hp hn, if_neg (Sizes.ne_endOf hk hxC).symm]
    exact h.markerContainer k hk

/-- The links of an item that is in no list after a removal are as they were, those of the
removed item among them. -/
theorem unlinked_stale (h : Refines s m) (hx : x ∈ (m.rota l).items) {y : ItemId}
    (hy : y.toNat < g.CAPACITY) (free : ¬ (m.erase x).Linked y) :
    (s.unlinked l x).nextOf y = s.nextOf y ∧ (s.unlinked l x).prevOf y = s.prevOf y := by
  obtain ⟨hl, hxC⟩ := h.bounds l x hx
  have hxN := hxC.trans g.capacity_lt_N
  obtain ⟨ys, zs, items, hxy, prev, next, hp, hn⟩ := h.neighbours hx
  have items' : ((m.erase x).rota l).items = ys ++ zs := by
    rw [Model.erase_rota hx, if_pos rfl, Rota.erase_items, items, erase_middle hxy]
  have out : y ∉ g.endOf l :: ((m.erase x).rota l).items := by
    intro hm
    rcases List.mem_cons.mp hm with e | hm
    · exact Sizes.ne_endOf hl hy e
    · exact free ⟨l, hm⟩
  have hyp : y ≠ s.prevOf x := fun e => out (e ▸ prev ▸ getLastD_slot items')
  have hyn : y ≠ s.nextOf x := fun e => out (e ▸ next ▸ headD_slot items')
  rw [nextOf_unlinked hxN, prevOf_unlinked hxN, nextOf_joined hp hn, prevOf_joined hp hn,
    if_neg hyp, if_neg hyn]
  exact ⟨rfl, rfl⟩

theorem removal_follows (h : Refines s m) {c : Build → Call V g Answer} {answer : ListId → Answer}
    (accepts : ∀ l, ¬ Refusal (.ok (answer l) : Except Error Answer))
    (refuses : ∀ e b, unlinkInner b x s = (.error e, s) → c b s = (.error e, s))
    (answers : ∀ l b, x ∈ (m.rota l).items →
      unlinkInner b x s = (.ok ((s.metaOf l).len - 1), s.unlinked l x) →
      c b s = (.ok (answer l), s.unlinked l x)) :
    ∃ s', Follows s s' c (m.removal g x answer) := by
  unfold Model.removal
  by_cases hx : x.toNat < g.CAPACITY
  · rw [if_neg (not_not.mpr hx)]
    cases home : m.home x with
    | none =>
      have free := (h.containerOf_free hx).mpr (Model.home_eq_none.mp home)
      exact ⟨s, h.follows_refused fun b => refuses _ b (unlinkInner_free hx free)⟩
    | some l =>
      have hm := Model.home_eq_some.mp home
      obtain ⟨ys, zs, -, -, -, -, hp, hn⟩ := h.neighbours hm
      have run := fun b => unlinkInner_eq (b := b) hx (h.bounds l x hm).1
        (h.containerOf_mem hm) hp hn
      exact ⟨_, fun b => answers l b hm (run b), h.unlinked_refines hm,
        fun refusal => absurd refusal (accepts l),
        fun y hy free => h.unlinked_stale hm hy free⟩
  · rw [if_pos hx]
    exact ⟨s, h.follows_refused fun b => refuses _ b (unlinkInner_invalid hx)⟩

theorem remove_follows (h : Refines s m) (x : ItemId) :
    ∃ s', Follows s s' (fun b => call b (.remove x)) (m.step g (.remove x)) := by
  refine h.removal_follows (fun _ => id) (fun e b hr => ?_) fun l b hx hr => ?_
  · exact Call.bind_error (by rw [remove, Call.bind_error hr]) _
  · rw [← h.len_unlinked hx]
    exact Call.bind_ok (by rw [remove, Call.bind_ok hr]; rfl) _

theorem unlink_follows (h : Refines s m) (x : ItemId) :
    ∃ s', Follows s s' (fun b => call b (.unlink x)) (m.step g (.unlink x)) := by
  refine h.removal_follows (fun _ => id) (fun e b hr => ?_) fun l b hx hr => ?_
  · exact Call.bind_error (by rw [unlink, Call.bind_error hr]) _
  · exact Call.bind_ok (a := ()) (by rw [unlink, Call.bind_ok hr]; rfl) _

section Revalued

variable (hx : x.toNat < g.N) (v : V) (y : UInt16)
include hx

theorem links_revalued :
    (s.setNode x { s.node x with value := v }).nextOf y = s.nextOf y ∧
      (s.setNode x { s.node x with value := v }).prevOf y = s.prevOf y := by
  rw [nextOf_setNode hx, prevOf_setNode hx]
  by_cases e : y = x
  · rw [if_pos e, if_pos e, e]
    exact ⟨rfl, rfl⟩
  · rw [if_neg e, if_neg e]
    exact ⟨rfl, rfl⟩

theorem containerOf_revalued :
    (s.setNode x { s.node x with value := v }).containerOf y = s.containerOf y := by
  rw [containerOf_setNode hx]
  split
  · rename_i e
    rw [e, containerOf]
  · rfl

end Revalued

theorem revalued_refines (h : Refines s m) (hx : x.toNat < g.CAPACITY) (v : V) :
    Refines (s.setNode x { s.node x with value := v }) (m.setValue x v) := by
  have hxN := hx.trans g.capacity_lt_N
  constructor
  case ring =>
    exact fun k hk => (h.ring k hk).congr (fun y _ => (links_revalued hxN v y).1)
      fun y _ => (links_revalued hxN v y).2
  case cursor => exact h.cursor
  case len => exact h.len
  case bounds => exact h.bounds
  case container => exact fun y hy => (containerOf_revalued hxN v y).trans (h.container y hy)
  case value =>
    intro y hy
    rw [valueOf_setNode hxN, Model.setValue_value, h.value y hy]
  case markerValue =>
    intro k hk
    rw [valueOf_setNode hxN, if_neg (Sizes.ne_endOf hk hx).symm]
    exact h.markerValue k hk
  case markerContainer =>
    exact fun k hk => (containerOf_revalued hxN v _).trans (h.markerContainer k hk)

theorem setValue_follows (h : Refines s m) (x : ItemId) (v : V) :
    ∃ s', Follows s s' (fun b => call b (.setValue x v)) (m.step g (.setValue x v)) := by
  rw [Model.step]
  by_cases hx : x.toNat < g.CAPACITY
  · have hxN := hx.trans g.capacity_lt_N
    rw [if_neg (not_not.mpr hx)]
    refine ⟨_, fun b => ?_, h.revalued_refines hx v, False.elim,
      fun y _ _ => links_revalued hxN v y⟩
    refine Call.bind_ok (a := ()) ?_ _
    rw [ListsOf.setValue, Call.bind_ok (item_eq hx), atLinkMut_eq hxN]
  · rw [if_pos hx]
    refine ⟨s, h.follows_refused fun b => Call.bind_error ?_ _⟩
    rw [ListsOf.setValue, Call.bind_error (item_invalid hx)]

/-- The cursor moves to the item whose turn the rota says it is, jumping over the marker. -/
theorem nextOfCursor_eq (h : Refines s m) (hl : l.toNat < g.L) {y : ItemId}
    (up : (m.rota l).nextUp = some y) (b : Build) :
    nextOfCursor b l (s.metaOf l).cursor s = (.ok y, s) := by
  have ring := h.ring l hl
  have cursor := h.cursor l hl
  have hy := Sizes.ne_endOf hl (h.item_lt (Rota.nextUp_mem up))
  have head : ∀ z, (m.rota l).items.head? = some z → (s.node (g.endOf l)).next = z := by
    intro z hz
    have := ring.next_marker
    rwa [List.headD_eq_head?_getD, hz, Option.getD_some] at this
  rw [nextOfCursor, Call.bind_ok (atLink_eq (h.cursor_lt hl)), cursor]
  unfold Rota.nextUp at up
  cases hc : (m.rota l).cursor with
  | none =>
    rw [hc] at up
    rw [Option.getD_none, head y up, if_neg hy]
    rfl
  | some c =>
    rw [hc] at up
    obtain ⟨ys, zs, items, hcy, -, next, -, -⟩ := h.neighbours ((m.rota l).cursor_mem c hc)
    have next : (s.node c).next = zs.headD (g.endOf l) := next
    have succ : succ c (m.rota l).items = zs.head? := by rw [items, succ_eq hcy]
    rw [Option.getD_some, next]
    simp only [succ] at up
    cases zs with
    | nil =>
      rw [List.headD_nil, if_pos rfl, Call.bind_ok (atLink_eq (Sizes.endOf_lt hl)), head y up]
      rfl
    | cons z zs =>
      have hz : z = y := by simpa using up
      rw [List.headD_cons, hz, if_neg hy]
      rfl

theorem advanced_refines (h : Refines s m) (hl : l.toNat < g.L) {y : ItemId}
    (up : (m.rota l).nextUp = some y) :
    Refines (s.setMeta l { s.metaOf l with cursor := y }) (m.advance l) := by
  constructor
  case ring =>
    intro k hk
    rw [Model.advance_items]
    exact h.ring k hk
  case cursor =>
    intro k hk
    rw [metaOf_setMeta hl, Model.advance_rota]
    split
    · rw [Rota.advance_cursor, up, Option.getD_some]
    · exact h.cursor k hk
  case len =>
    intro k hk
    rw [metaOf_setMeta hl, Model.advance_items]
    split
    · rename_i e
      rw [e]
      exact h.len l hl
    · exact h.len k hk
  case bounds =>
    intro k x hx
    rw [Model.advance_items] at hx
    exact h.bounds k x hx
  case container =>
    intro x hx
    rw [Model.home_advance]
    exact h.container x hx
  case value => exact h.value
  case markerValue => exact h.markerValue
  case markerContainer => exact h.markerContainer

theorem nextRoundRobin_follows (h : Refines s m) (l : ListId) :
    ∃ s', Follows s s' (fun b => call b (.nextRoundRobin l)) (m.step g (.nextRoundRobin l)) := by
  rw [Model.step]
  by_cases hl : l.toNat < g.L
  · rw [if_neg (not_not.mpr hl)]
    cases up : (m.rota l).nextUp with
    | none =>
      have empty := Rota.nextUp_eq_none.mp up
      rw [Model.advance_of_empty empty]
      refine ⟨s, h.follows_refused fun b => Call.bind_ok (a := none) ?_ _⟩
      rw [nextRoundRobin, Call.bind_ok (listMeta_eq hl), if_pos ((h.len_eq_zero hl).mpr empty)]
      rfl
    | some y =>
      have hy := Rota.nextUp_mem up
      have nonempty : ¬ (s.metaOf l).len = 0 := fun e => by
        rw [(h.len_eq_zero hl).mp e] at hy
        exact List.not_mem_nil hy
      refine ⟨_, fun b => ?_, h.advanced_refines hl up, nofun, fun x _ _ => ⟨rfl, rfl⟩⟩
      refine Call.bind_ok (a := some y) ?_ _
      rw [nextRoundRobin, Call.bind_ok (listMeta_eq hl), if_neg nonempty,
        Call.bind_ok (h.nextOfCursor_eq hl up b), Call.bind_ok (listMetaMut_eq hl _),
        Sizes.isEnd_item (h.item_lt hy), Bool.and_false, if_neg Bool.false_ne_true]
      rfl
  · rw [if_pos hl]
    refine ⟨s, h.follows_refused fun b => Call.bind_error ?_ _⟩
    rw [nextRoundRobin, Call.bind_error (listMeta_invalid hl)]

end Refines

end RtosCore
