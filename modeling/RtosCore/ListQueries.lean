import RtosCore.ListRemove
import Mathlib.Data.List.Chain

/-! The calls that only read answer what the rotas say and leave the lists alone. Neither
loop among them needs its bound: the ordered walk meets the marker first, and the counted one
reaches it as the count runs out. -/

namespace RtosCore

variable {V : Type} [ListValue V] {g : Sizes}

namespace ListsOf

variable {s : ListsOf V g} {l : ListId} {x : ItemId} {reply : Reply V}

omit [ListValue V] in
theorem ofList_eq {c : Call V g (Reply V)}
    (invalid : ¬ l.toNat < g.L → c s = (.error (.err .invalidArgument), s))
    (valid : l.toNat < g.L → c s = (.ok reply, s)) :
    c s = ((Model.ofList g l reply).mapError Exit.err, s) := by
  unfold Model.ofList
  split
  · rename_i hl
    exact invalid hl
  · rename_i hl
    exact valid (not_not.mp hl)

omit [ListValue V] in
theorem ofItem_eq {c : Call V g (Reply V)}
    (invalid : ¬ x.toNat < g.CAPACITY → c s = (.error (.err .invalidArgument), s))
    (valid : x.toNat < g.CAPACITY → c s = (.ok reply, s)) :
    c s = ((Model.ofItem g x reply).mapError Exit.err, s) := by
  unfold Model.ofItem
  split
  · rename_i hx
    exact invalid hx
  · rename_i hx
    exact valid (not_not.mp hx)

end ListsOf

namespace Refines

open ListsOf

variable {s : ListsOf V g} {m : Model V} {l : ListId} {x : ItemId} {b : Build}

theorem notMem_invalid (h : Refines s m) (hl : ¬ l.toNat < g.L) : (m.rota l).items = [] :=
  List.eq_nil_iff_forall_not_mem.mpr fun x hx => hl (h.bounds l x hx).1

theorem len_pos (h : Refines s m) (hl : l.toNat < g.L) :
    0 < (s.metaOf l).len ↔ (m.rota l).items ≠ [] := by
  have zero : (0 : UInt16).toNat = 0 := rfl
  rw [UInt16.lt_iff_toNat_lt, h.len l hl, zero, List.length_pos_iff]

theorem atLink_endOf (hl : l.toNat < g.L) (s : ListsOf V g) :
    atLink b (g.endOf l) s = (.ok (s.node (g.endOf l)), s) :=
  atLink_eq (Sizes.endOf_lt hl)

theorem headValue_eq (h : Refines s m) (hl : l.toNat < g.L) :
    headValue b l s = (.ok ((m.values l).headD ListValue.MAX), s) := by
  have slot : (s.node (g.endOf l)).next.toNat < g.N :=
    h.slot_lt hl ((h.ring l hl).next_mem List.mem_cons_self)
  rw [headValue, Call.bind_ok (listMeta_eq hl), Call.bind_ok (atLink_endOf hl s),
    Call.bind_ok (atLink_eq slot), Call.pure_apply, h.next_endOf hl]
  have value : s.valueOf ((m.rota l).items.headD (g.endOf l)) =
      (m.values l).headD ListValue.MAX := by
    unfold Model.values
    cases items : (m.rota l).items with
    | nil => exact h.markerValue l hl
    | cons y ys => exact h.value y (h.item_lt (items ▸ List.mem_cons_self))
  rw [← value, valueOf]

theorem tailValue_eq (h : Refines s m) (hl : l.toNat < g.L) :
    tailValue b l s = (.ok ((m.values l).getLastD ListValue.MAX), s) := by
  have slot : (s.node (g.endOf l)).prev.toNat < g.N :=
    h.slot_lt hl ((h.ring l hl).prev_mem List.mem_cons_self)
  rw [tailValue, Call.bind_ok (listMeta_eq hl), Call.bind_ok (atLink_endOf hl s),
    Call.bind_ok (atLink_eq slot), Call.pure_apply, h.prev_endOf hl]
  have value : s.valueOf ((m.rota l).items.getLastD (g.endOf l)) =
      (m.values l).getLastD ListValue.MAX := by
    unfold Model.values
    rw [List.getLastD_eq_getLast?, List.getLastD_eq_getLast?, List.getLast?_map]
    cases last : (m.rota l).items.getLast? with
    | none => exact h.markerValue l hl
    | some y => exact h.value y (h.item_lt (List.mem_of_getLast? last))
  rw [← value, valueOf]

theorem head_eq (h : Refines s m) (hl : l.toNat < g.L) :
    head b l s = (.ok (m.rota l).items.head?, s) := by
  rw [head, Call.bind_ok (listMeta_eq hl), Call.bind_ok (atLink_endOf hl s), Call.pure_apply]
  simp only [h.len_pos hl, h.next_endOf hl]
  cases items : (m.rota l).items with
  | nil => simp
  | cons y ys =>
    have hy := Sizes.isEnd_item (h.item_lt (items ▸ List.mem_cons_self))
    simp [hy]

/-- From the items `zs` that are left the walk answers whether the values seen since
`previous` keep rising. -/
theorem sortedFrom_eq (h : Refines s m) (hl : l.toNat < g.L) {ys zs : List ItemId}
    (items : (m.rota l).items = ys ++ zs) {fuel guard : ℕ} (enough : zs.length < fuel)
    (small : guard + zs.length ≤ g.N) (previous : Option V) :
    sortedFrom b fuel guard previous (zs.headD (g.endOf l)) s =
      (.ok (decide ((previous.toList ++ zs.map m.value).IsChain (· ≤ ·))), s) := by
  induction zs generalizing ys fuel guard previous with
  | nil =>
    obtain ⟨fuel, rfl⟩ := Nat.exists_eq_add_of_lt enough
    rw [List.length_nil, zero_add, sortedFrom, List.headD_nil, if_pos (Sizes.isEnd_endOf hl)]
    cases previous <;> simp [Call.pure_apply]
  | cons z zs ih =>
    obtain ⟨fuel, rfl⟩ := Nat.exists_eq_add_of_lt enough
    have hz := h.item_lt (l := l) (x := z) (by simp [items])
    have items' : (m.rota l).items = (ys ++ [z]) ++ zs := by simp [items]
    have value : (s.node z).value = m.value z := h.value z hz
    rw [sortedFrom, List.headD_cons, if_neg (by simp [Sizes.isEnd_item hz]),
      Call.bind_ok (atLink_eq (hz.trans g.capacity_lt_N)), value, h.next_member hl items]
    have rest : (if g.N < guard + 1 then Call.fail .invalidArgument else
        sortedFrom b ((z :: zs).length + fuel) (guard + 1) (some (m.value z))
          (zs.headD (g.endOf l)) : Call V g Bool) s =
        (.ok (decide ((m.value z :: zs.map m.value).IsChain (· ≤ ·))), s) := by
      rw [List.length_cons] at small ⊢
      rw [if_neg (by omega)]
      exact ih items' (by omega) (by omega) _
    cases previous with
    | none => exact rest
    | some p =>
      by_cases hp : m.value z < p
      · simp [hp, hp.not_ge, Call.pure_apply]
      · rw [Option.any_some, decide_eq_false hp, if_neg Bool.false_ne_true, rest]
        simp [not_lt.mp hp]

theorem isSorted_eq (h : Refines s m) (hl : l.toNat < g.L) :
    isSorted b l s = (.ok (decide ((m.values l).Pairwise (· ≤ ·))), s) := by
  have all : (m.rota l).items = [] ++ (m.rota l).items := rfl
  have short := (h.length_le l).trans g.capacity_lt_N.le
  rw [isSorted, Call.bind_ok (listMeta_eq hl), Call.bind_ok (atLink_endOf hl s),
    h.next_endOf hl, h.sortedFrom_eq hl all (by omega) (by omega)]
  exact congrArg (fun sorted => (Except.ok sorted, s))
    (decide_eq_decide.mpr List.isChain_iff_pairwise)

theorem iterFrom_eq (h : Refines s m) (hl : l.toNat < g.L) {ys zs : List ItemId}
    (items : (m.rota l).items = ys ++ zs) :
    iterFrom b zs.length (zs.headD (g.endOf l)) s = (.ok zs, s) := by
  induction zs generalizing ys with
  | nil => rfl
  | cons z zs ih =>
    have hz := h.item_lt (l := l) (x := z) (by simp [items])
    have items' : (m.rota l).items = (ys ++ [z]) ++ zs := by simp [items]
    rw [List.length_cons, iterFrom, List.headD_cons,
      Call.bind_ok (atLink_eq (hz.trans g.capacity_lt_N)), h.next_member hl items,
      Call.bind_ok (ih items')]
    rfl

theorem iter_eq (h : Refines s m) (l : ListId) : iter b l s = (.ok (m.rota l).items, s) := by
  unfold iter
  by_cases hl : l.toNat < g.L
  · rw [getElem?_metas hl]
    change (atLink b (g.endOf l) >>= fun last => iterFrom b (s.metaOf l).len.toNat last.next) s = _
    rw [Call.bind_ok (atLink_endOf hl s), h.len l hl, h.next_endOf hl]
    exact h.iterFrom_eq hl (List.nil_append _).symm
  · rw [getElem?_metas_invalid hl, h.notMem_invalid hl]
    rfl

theorem isEnd_next (h : Refines s m) (hx : x ∈ (m.rota l).items) :
    (if g.isEnd (s.node x).next then none else some (s.node x).next) =
      succ x (m.rota l).items := by
  obtain ⟨ys, zs, items, hxy, -, next, -, -⟩ := h.neighbours hx
  have next : (s.node x).next = zs.headD (g.endOf l) := next
  rw [items, succ_eq hxy, next]
  cases zs with
  | nil => simp [Sizes.isEnd_endOf (h.bounds l x hx).1]
  | cons z zs =>
    have hz := Sizes.isEnd_item (h.item_lt (l := l) (x := z) (by simp [items]))
    simp [hz]

theorem member_eq (h : Refines s m) {c : Call V g (Reply V)} {reply : ListId → Reply V}
    (invalid : ¬ x.toNat < g.CAPACITY → c s = (.error (.err .invalidArgument), s))
    (free : x.toNat < g.CAPACITY → (s.node x).container = NO_LIST →
      c s = (.error (.err .notActive), s))
    (member : ∀ l, x ∈ (m.rota l).items → x.toNat < g.CAPACITY →
      (s.node x).container ≠ NO_LIST → c s = (.ok (reply l), s)) :
    c s = ((m.ofMember g x reply).mapError Exit.err, s) := by
  unfold Model.ofMember
  by_cases hx : x.toNat < g.CAPACITY
  · rw [if_neg (not_not.mpr hx)]
    cases home : m.home x with
    | none => exact free hx ((h.containerOf_free hx).mpr (Model.home_eq_none.mp home))
    | some l =>
      have hm := Model.home_eq_some.mp home
      exact member l hm hx fun e => (h.containerOf_free hx).mp e ⟨l, hm⟩
  · rw [if_pos hx]
    exact invalid hx

theorem container_eq (h : Refines s m) (hx : x.toNat < g.CAPACITY) :
    ListsOf.container b x s = (.ok (m.home x), s) := by
  have stored : (s.node x).container = (m.home x).getD NO_LIST := h.container x hx
  rw [ListsOf.container, Call.bind_ok (item_eq hx), Call.pure_apply, stored]
  cases home : m.home x with
  | none => rfl
  | some l =>
    have hl := (h.bounds l x (Model.home_eq_some.mp home)).1
    rw [Option.getD_some, if_neg (Sizes.ne_noList hl)]

theorem query_eq (h : Refines s m) (q : Query) (b : Build) :
    query b q s = ((m.ask g q).mapError Exit.err, s) := by
  cases q with
  | value x =>
    refine ofItem_eq (fun hx => Call.bind_error ?_ _) fun hx =>
      Call.bind_ok (a := m.value x) ?_ _
    · rw [ListsOf.value, Call.bind_error (item_invalid hx)]
    · rw [ListsOf.value, Call.bind_ok (item_eq hx), Call.pure_apply, ← h.value x hx, valueOf]
  | container x =>
    refine ofItem_eq (fun hx => Call.bind_error ?_ _) fun hx =>
      Call.bind_ok (h.container_eq hx) _
    rw [ListsOf.container, Call.bind_error (item_invalid hx)]
  | isEmpty l =>
    refine ofList_eq (fun hl => Call.bind_error ?_ _) fun hl =>
      Call.bind_ok (a := decide ((m.rota l).items = [])) ?_ _
    · rw [isEmpty, Call.bind_error (listMeta_invalid hl)]
    · rw [isEmpty, Call.bind_ok (listMeta_eq hl), Call.pure_apply]
      simp [h.len_eq_zero hl]
  | isEmptyOf l =>
    refine Call.bind_ok (a := decide ((m.rota l).items = [])) ?_ _
    unfold isEmptyOf
    by_cases hl : l.toNat < g.L
    · rw [getElem?_metas hl]
      simp [h.len_eq_zero hl]
    · rw [getElem?_metas_invalid hl, h.notMem_invalid hl]
      rfl
  | len l =>
    refine ofList_eq (fun hl => Call.bind_error ?_ _) fun hl => Call.bind_ok ?_ _
    · rw [ListsOf.len, Call.bind_error (listMeta_invalid hl)]
    · rw [ListsOf.len, Call.bind_ok (listMeta_eq hl), h.len l hl]
      rfl
  | head l =>
    refine ofList_eq (fun hl => Call.bind_error ?_ _) fun hl => Call.bind_ok (h.head_eq hl) _
    rw [head, Call.bind_error (listMeta_invalid hl)]
  | headValue l =>
    refine ofList_eq (fun hl => Call.bind_error ?_ _) fun hl => Call.bind_ok (h.headValue_eq hl) _
    rw [headValue, Call.bind_error (listMeta_invalid hl)]
  | tailValue l =>
    refine ofList_eq (fun hl => Call.bind_error ?_ _) fun hl => Call.bind_ok (h.tailValue_eq hl) _
    rw [tailValue, Call.bind_error (listMeta_invalid hl)]
  | isSorted l =>
    refine ofList_eq (fun hl => Call.bind_error ?_ _) fun hl => Call.bind_ok (h.isSorted_eq hl) _
    rw [isSorted, Call.bind_error (listMeta_invalid hl)]
  | cursorOf l =>
    refine ofList_eq (fun hl => Call.bind_error ?_ _) fun hl => Call.bind_ok ?_ _
    · rw [cursorOf, Call.bind_error (listMeta_invalid hl)]
    · rw [cursorOf, Call.bind_ok (listMeta_eq hl), h.cursor l hl]
      rfl
  | next x =>
    refine h.member_eq (fun hx => Call.bind_error ?_ _) (fun hx free => Call.bind_error ?_ _)
      fun l hm hx linked => Call.bind_ok ?_ _
    · rw [ListsOf.next, Call.bind_error (item_invalid hx)]
    · rw [ListsOf.next, Call.bind_ok (item_eq hx), if_pos free]
      rfl
    · rw [ListsOf.next, Call.bind_ok (item_eq hx), if_neg linked, h.isEnd_next hm]
      rfl
  | nextAndValue x =>
    refine h.member_eq (fun hx => Call.bind_error ?_ _) (fun hx free => Call.bind_error ?_ _)
      fun l hm hx linked =>
        Call.bind_ok (a := (succ x (m.rota l).items, m.value x)) ?_ _
    · rw [nextAndValue, Call.bind_error (item_invalid hx)]
    · rw [nextAndValue, Call.bind_ok (item_eq hx), if_pos free]
      rfl
    · rw [nextAndValue, Call.bind_ok (item_eq hx), if_neg linked, h.isEnd_next hm,
        ← h.value x hx]
      rfl
  | iter l => exact Call.bind_ok (h.iter_eq l) _

end Refines

end RtosCore
