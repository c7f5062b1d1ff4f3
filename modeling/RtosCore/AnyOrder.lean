import RtosCore.RotaTies
import RtosCore.Independence

/-! Sorted inserts in any order. The order in which items are put into lists by their values
shows in nothing at all, links included, unless two of them join one list with one value: then
the first to come stands in front. The lists need not be in order beforehand. -/

namespace RtosCore

variable {V : Type} [ListValue V] {g : Sizes}

structure Entry (V : Type) where
  list : ListId
  item : ItemId
  value : V

def Op.entry (value : ItemId → V) : Op V → Option (Entry V)
  | .insert l x v => some ⟨l, x, v⟩
  | .insertKeepingValue l x => some ⟨l, x, value x⟩
  | _ => none

namespace Op

variable {value : ItemId → V} {op : Op V} {e : Entry V}

omit [ListValue V] in
theorem inserts_of_entry (entry : op.entry value = some e) :
    op.inserts = some (e.list, e.item) := by
  cases op with
  | insert | insertKeepingValue =>
    cases entry
    rfl
  | _ => cases entry

omit [ListValue V] in
theorem item_of_entry (entry : op.entry value = some e) : op.item = some e.item :=
  (names_of_inserts (inserts_of_entry entry)).2

end Op

namespace ListsOf

/-- Both calls are accepted as things stand, and join one list with one value. -/
def Ties (b : Build) (s : ListsOf V g) (op op' : Op V) : Prop :=
  (call b op s).1 = .ok .unit ∧ (call b op' s).1 = .ok .unit ∧
    ∃ e e', op.entry s.valueOf = some e ∧ op'.entry s.valueOf = some e' ∧
      e.list = e'.list ∧ e.value = e'.value

end ListsOf

namespace Model

variable {m : Model V} {e e' : Entry V} {x : ItemId}

def Accepts (g : Sizes) (m : Model V) (e : Entry V) : Prop :=
  ListsOf.InRange g e.list e.item ∧ ¬ m.Linked e.item

def join (g : Sizes) (m : Model V) (e : Entry V) : Model V :=
  (m.insertion g e.list e.item
    ((m.setValue e.item e.value).place e.list (m.above e.value) e.item)).2

theorem join_refused (refused : ¬ m.Accepts g e) : m.join g e = m := by
  rw [join, insertion]
  split
  · rfl
  · rename_i range
    split
    · rfl
    · rename_i free
      exact absurd ⟨not_not.mp range, free⟩ refused

theorem join_accepted (accepted : m.Accepts g e) :
    m.join g e = (m.setValue e.item e.value).place e.list (m.above e.value) e.item := by
  have range : ¬ ¬ (e.list.toNat < g.L ∧ e.item.toNat < g.CAPACITY) := not_not.mpr accepted.1
  rw [join, insertion, if_neg range, if_neg accepted.2]

theorem join_rota (accepted : m.Accepts g e) (k : ListId) : (m.join g e).rota k =
    if k = e.list then (m.rota e.list).place (m.above e.value) e.item else m.rota k := by
  have free : ¬ (m.setValue e.item e.value).Linked e.item := accepted.2
  rw [join_accepted accepted, place_rota free]
  rfl

theorem join_value (accepted : m.Accepts g e) (y : ItemId) :
    (m.join g e).value y = if y = e.item then e.value else m.value y := by
  rw [join_accepted accepted, place_value, setValue_value]

theorem join_items (accepted : m.Accepts g e) : ((m.join g e).rota e.list).items =
    insertBefore (m.above e.value) e.item (m.rota e.list).items := by
  rw [join_rota accepted, if_pos rfl, Rota.place_items (notMem_of_free accepted.2)]

theorem join_cursor (accepted : m.Accepts g e) (k : ListId) :
    ((m.join g e).rota k).cursor = (m.rota k).cursor := by
  rw [join_rota accepted]
  split
  · rename_i hk
    rw [Rota.place_cursor, hk]
  · rfl

theorem join_value_ne (other : x ≠ e.item) : (m.join g e).value x = m.value x := by
  by_cases accepted : m.Accepts g e
  · rw [join_value accepted, if_neg other]
  · rw [join_refused accepted]

theorem linked_join_ne (other : x ≠ e.item) : (m.join g e).Linked x ↔ m.Linked x := by
  by_cases accepted : m.Accepts g e
  · have free : ¬ (m.setValue e.item e.value).Linked e.item := accepted.2
    rw [join_accepted accepted, linked_place free, or_iff_right other]
    rfl
  · rw [join_refused accepted]

theorem linked_join (linked : m.Linked x) : (m.join g e).Linked x := by
  by_cases accepted : m.Accepts g e
  · have other : x ≠ e.item := fun same => accepted.2 (same ▸ linked)
    exact (linked_join_ne other).mpr linked
  · rwa [join_refused accepted]

theorem accepts_join (other : e'.item ≠ e.item) : (m.join g e).Accepts g e' ↔ m.Accepts g e' :=
  and_congr_right fun _ => not_congr (linked_join_ne other)

theorem sublist_join (k : ListId) : (m.rota k).items.Sublist ((m.join g e).rota k).items := by
  by_cases accepted : m.Accepts g e
  · rcases eq_or_ne k e.list with rfl | hk
    · rw [join_items accepted]
      exact sublist_insertBefore _ _ _
    · rw [join_rota accepted, if_neg hk]
  · rw [join_refused accepted]

/-- The items of one list after both joins, each placed by the values the items have then. -/
theorem join_join_items (accepted : m.Accepts g e) (accepted' : m.Accepts g e')
    (other : e.item ≠ e'.item) (same : e.list = e'.list) :
    let val := ((m.join g e).join g e').value
    (((m.join g e).join g e').rota e.list).items =
      insertBefore (fun z => decide (val e'.item < val z)) e'.item
        (insertBefore (fun z => decide (val e.item < val z)) e.item (m.rota e.list).items) := by
  intro val
  have second : (m.join g e).Accepts g e' := (accepts_join other.symm).mpr accepted'
  have value : ∀ z, val z = if z = e'.item then e'.value else if z = e.item then e.value
      else m.value z := by
    intro z
    rw [← join_value accepted, ← join_value second]
  have key' : val e'.item = e'.value := by rw [value, if_pos rfl]
  have key : val e.item = e.value := by rw [value, if_neg other, if_pos rfl]
  have old : ∀ z ∈ (m.rota e.list).items, val z = m.value z := by
    intro z hz
    have ne : z ≠ e.item := fun h => accepted.2 (h ▸ linked_of_mem hz)
    have ne' : z ≠ e'.item := fun h => accepted'.2 (h ▸ linked_of_mem hz)
    rw [value, if_neg ne', if_neg ne]
  have first : insertBefore (m.above e.value) e.item (m.rota e.list).items =
      insertBefore (fun z => decide (val e.item < val z)) e.item (m.rota e.list).items :=
    insertBefore_congr (fun z hz => by rw [above, key, old z hz]) _
  rw [same, join_items second, ← same, join_items accepted, first]
  refine insertBefore_congr (fun z hz => ?_) _
  have ne' : z ≠ e'.item := by
    rintro rfl
    rcases mem_insertBefore.mp hz with h | h
    · exact other h.symm
    · exact accepted'.2 ⟨_, h⟩
  rw [above, key', value, if_neg ne', join_value accepted]

theorem join_value_comm (other : e.item ≠ e'.item) :
    ((m.join g e).join g e').value = ((m.join g e').join g e).value := by
  funext y
  by_cases hy : y = e.item
  · subst hy
    rw [join_value_ne other]
    by_cases accepted : m.Accepts g e
    · rw [join_value accepted, join_value ((accepts_join other).mpr accepted), if_pos rfl,
        if_pos rfl]
    · rw [join_refused accepted, join_refused (mt (accepts_join other).mp accepted),
        join_value_ne other]
  · rw [join_value_ne hy]
    by_cases accepted : m.Accepts g e'
    · rw [join_value accepted, join_value ((accepts_join other.symm).mpr accepted)]
      split
      · rfl
      · exact join_value_ne hy
    · rw [join_refused accepted, join_refused (mt (accepts_join other.symm).mp accepted),
        join_value_ne hy]

theorem join_rota_apart (accepted : m.Accepts g e) (accepted' : m.Accepts g e')
    (other : e.item ≠ e'.item) (apart : e.list ≠ e'.list) :
    ((m.join g e').join g e).rota e.list = (m.join g e).rota e.list := by
  have first := (accepts_join (m := m) other).mpr accepted
  rw [join_rota first, if_pos rfl, join_rota accepted, if_pos rfl, join_rota accepted',
    if_neg apart]
  refine Rota.place_congr fun z hz => ?_
  have ne : z ≠ e'.item := fun h => accepted'.2 (h ▸ linked_of_mem hz)
  rw [above, above, join_value_ne ne]

theorem join_rota_comm (accepted : m.Accepts g e) (accepted' : m.Accepts g e')
    (other : e.item ≠ e'.item) (untied : e.list = e'.list → e.value ≠ e'.value) (k : ListId) :
    ((m.join g e).join g e').rota k = ((m.join g e').join g e).rota k := by
  have first := (accepts_join (m := m) other).mpr accepted
  have second := (accepts_join (m := m) other.symm).mpr accepted'
  by_cases hk : k = e.list
  · by_cases same : e.list = e'.list
    · have here := join_join_items accepted accepted' other same
      have there := join_join_items accepted' accepted other.symm same.symm
      have values : ((m.join g e).join g e').value e.item ≠
          ((m.join g e).join g e').value e'.item := by
        rw [join_value second, join_value second, if_neg other, if_pos rfl, join_value accepted,
          if_pos rfl]
        exact untied same
      rw [← join_value_comm other, ← same] at there
      subst hk
      ext1
      · rw [here, there]
        exact (insertBefore_comm values _).symm
      · rw [join_cursor second, join_cursor accepted, join_cursor first, join_cursor accepted']
    · subst hk
      rw [join_rota_apart accepted accepted' other same, join_rota second, if_neg same]
  · by_cases hk' : k = e'.list
    · subst hk'
      rw [join_rota_apart accepted' accepted other.symm hk, join_rota first, if_neg hk]
    · rw [join_rota second, if_neg hk', join_rota accepted, if_neg hk, join_rota first, if_neg hk,
        join_rota accepted', if_neg hk']

theorem join_comm (other : e.item ≠ e'.item)
    (untied : m.Accepts g e → m.Accepts g e' → e.list = e'.list → e.value ≠ e'.value) :
    (m.join g e).join g e' = (m.join g e').join g e := by
  by_cases accepted : m.Accepts g e
  · by_cases accepted' : m.Accepts g e'
    · ext1
      · funext k
        exact join_rota_comm accepted accepted' other (untied accepted accepted') k
      · exact join_value_comm other
    · rw [join_refused accepted', join_refused (mt (accepts_join other.symm).mp accepted')]
  · rw [join_refused accepted, join_refused (mt (accepts_join other).mp accepted)]

def Untied (g : Sizes) (m : Model V) (e e' : Entry V) : Prop :=
  e.item ≠ e'.item ∧
    (m.Accepts g e → m.Accepts g e' → e.list = e'.list → e.value ≠ e'.value)

omit [ListValue V] in
theorem Untied.symm (h : m.Untied g e e') : m.Untied g e' e :=
  ⟨h.1.symm, fun accepted' accepted same tie => h.2 accepted accepted' same.symm tie.symm⟩

theorem foldl_join_perm {es es' : List (Entry V)} (perm : es.Perm es')
    (untied : es.Pairwise (m.Untied g)) : es.foldl (join g) m = es'.foldl (join g) m := by
  induction perm generalizing m with
  | nil => rfl
  | @cons e es es' _ ih =>
    obtain ⟨front, rest⟩ := List.pairwise_cons.mp untied
    refine ih (rest.imp_of_mem fun {a b} ha hb h => ⟨h.1, ?_⟩)
    rw [accepts_join (front a ha).1.symm, accepts_join (front b hb).1.symm]
    exact h.2
  | swap e' e es =>
    have pair := (List.pairwise_cons.mp untied).1 e' List.mem_cons_self
    rw [List.foldl_cons, List.foldl_cons, List.foldl_cons, List.foldl_cons,
      join_comm pair.1 pair.2]
  | trans perm _ ih ih' =>
    exact (ih untied).trans (ih' ((perm.pairwise_iff Untied.symm).mp untied))

theorem linked_foldl_join {es : List (Entry V)} (linked : m.Linked x) :
    (es.foldl (join g) m).Linked x := by
  induction es generalizing m with
  | nil => exact linked
  | cons e es ih => exact ih (linked_join linked)

theorem sublist_foldl_join (es : List (Entry V)) (k : ListId) :
    (m.rota k).items.Sublist ((es.foldl (join g) m).rota k).items := by
  induction es generalizing m with
  | nil => exact List.Sublist.refl _
  | cons e es ih => exact (sublist_join k).trans ih

/-- Of two that tie the first to come stands in front, whoever comes later. -/
theorem first_in_front (accepted : m.Accepts g e) (accepted' : m.Accepts g e')
    (other : e.item ≠ e'.item) (same : e.list = e'.list) (tie : e.value = e'.value)
    (es : List (Entry V)) :
    [e.item, e'.item].Sublist (((e :: e' :: es).foldl (join g) m).rota e.list).items := by
  have second := (accepts_join (m := m) other.symm).mpr accepted'
  have values : ((m.join g e).join g e').value e.item =
      ((m.join g e).join g e').value e'.item := by
    rw [join_value second, join_value second, if_neg other, if_pos rfl, join_value accepted,
      if_pos rfl]
    exact tie
  have both := insertBefore_tie values (m.rota e.list).items
  rw [← join_join_items accepted accepted' other same] at both
  exact both.trans (sublist_foldl_join es e.list)

theorem step_entry {op : Op V} {value : ItemId → V} (entry : op.entry value = some e)
    (here : e.item.toNat < g.CAPACITY → m.value e.item = value e.item) :
    (m.step g op).2 = m.join g e := by
  cases op with
  | insert =>
    cases entry
    rfl
  | insertKeepingValue l x =>
    cases entry
    by_cases range : x.toNat < g.CAPACITY
    · have same : m.setValue x (m.value x) = m := by rw [setValue, Function.update_eq_self]
      rw [join, ← here range, same]
      rfl
    · have outside : ¬ (l.toNat < g.L ∧ x.toNat < g.CAPACITY) := fun h => range h.2
      rw [step, join, insertion, insertion, if_pos outside, if_pos outside]
  | _ => cases entry

end Model

structure Batch (g : Sizes) (value : ItemId → V) (m : Model V) (batch : List (Op V))
    (es : List (Entry V)) : Prop where
  entries : batch.map (Op.entry value) = es.map some
  here : ∀ e ∈ es, e.item.toNat < g.CAPACITY → m.value e.item = value e.item
  distinct : es.Pairwise fun e e' => e.item ≠ e'.item

namespace Refines

open ListsOf

variable {s : ListsOf V g} {m : Model V} {b : Build} {value : ItemId → V} {op : Op V}
  {batch : List (Op V)} {e : Entry V} {es : List (Entry V)}

theorem accepted_iff (h : Refines s m) (entry : op.entry value = some e) :
    (ListsOf.call b op s).1 = .ok .unit ↔ m.Accepts g e := by
  rw [(h.exactErrors b).insert_ok op _ _ (Op.inserts_of_entry entry), h.inSomeList_iff]
  rfl

theorem answer_join (h : Refines s m) {t : ListsOf V g} (h' : Refines t (m.join g e))
    {e' : Entry V} (entry : op.entry value = some e') (other : e'.item ≠ e.item) :
    (ListsOf.call b op t).1 = (ListsOf.call b op s).1 := by
  have names := Op.inserts_of_entry entry
  simp only [h.insertion_outcome names, h'.insertion_outcome names,
    Model.linked_join_ne other]

/-- Every call of the batch answers as it would have done first. Items in no list afterwards
have the links they had. -/
theorem batch_run (h : Refines s m) (asked : Batch g value m batch es) (b : Build) :
    (ListsOf.run b batch s).1 = batch.map (fun op => (ListsOf.call b op s).1) ∧
      Refines (ListsOf.after b batch s) (es.foldl (Model.join g) m) ∧
      ∀ y : ItemId, y.toNat < g.CAPACITY → ¬ (es.foldl (Model.join g) m).Linked y →
        (ListsOf.after b batch s).nextOf y = s.nextOf y ∧
          (ListsOf.after b batch s).prevOf y = s.prevOf y := by
  obtain ⟨entries, here, distinct⟩ := asked
  induction batch generalizing s m es with
  | nil =>
    obtain rfl : es = [] := by simpa using entries
    exact ⟨rfl, h, fun _ _ _ => ⟨rfl, rfl⟩⟩
  | cons op batch ih =>
    obtain ⟨e, es, rfl, entry, rest⟩ : ∃ e es', es = e :: es' ∧ op.entry value = some e ∧
        batch.map (Op.entry value) = es'.map some := by
      cases es with
      | nil => simp at entries
      | cons e es =>
        rw [List.map_cons, List.map_cons, List.cons.injEq] at entries
        exact ⟨e, es, rfl, entries.1, entries.2⟩
    obtain ⟨front, distinct⟩ := List.pairwise_cons.mp distinct
    have follows := h.call b op
    have step := Model.step_entry entry (here e List.mem_cons_self)
    have refines := follows.refines
    rw [step] at refines
    have here' : ∀ e' ∈ es, e'.item.toNat < g.CAPACITY →
        (m.join g e).value e'.item = value e'.item := by
      intro e' mem range
      rw [Model.join_value_ne (front e' mem).symm]
      exact here e' (List.mem_cons_of_mem _ mem) range
    obtain ⟨answers, refines', links⟩ := ih refines rest here' distinct
    refine ⟨?_, refines', fun y hy free => ?_⟩
    · change (ListsOf.call b op s).1 :: (ListsOf.run b batch _).1 = _
      rw [answers, List.map_cons]
      refine congrArg _ (List.map_congr_left fun op' mem => ?_)
      have entry' : op'.entry value ∈ es.map some := rest ▸ List.mem_map_of_mem mem
      obtain ⟨e', mem', entry'⟩ := List.mem_map.mp entry'
      exact h.answer_join refines entry'.symm (front e' mem').symm
    · have later := links y hy free
      have free' : ¬ (m.step g op).2.Linked y := by
        rw [step]
        exact fun linked => free (Model.linked_foldl_join (m := m.join g e) linked)
      have first := follows.stale y hy free'
      exact ⟨later.1.trans first.1, later.2.trans first.2⟩

theorem batch_of_joins (h : Refines s m) (joins : ∀ op ∈ batch, (op.entry s.valueOf).isSome)
    (distinct : batch.Pairwise fun op op' => op.item ≠ op'.item) :
    Batch g s.valueOf m batch (batch.filterMap (Op.entry s.valueOf)) where
  entries := by
    rw [List.map_filterMap_some_eq_filter_map_isSome, eq_comm, List.filter_eq_self]
    intro entry mem
    obtain ⟨op, hop, rfl⟩ := List.mem_map.mp mem
    exact joins op hop
  here e _ range := (h.value e.item range).symm
  distinct := by
    refine distinct.filterMap _ fun op op' other e he e' he' same => other ?_
    rw [Op.item_of_entry he, Op.item_of_entry he', same]

theorem after_perm (h : Refines s m) {batch' : List (Op V)} {es' : List (Entry V)}
    (asked : Batch g value m batch es) (asked' : Batch g value m batch' es') (perm : es.Perm es')
    (untied : es.Pairwise (m.Untied g)) :
    ListsOf.after b batch' s = ListsOf.after b batch s := by
  obtain ⟨-, refines, links⟩ := h.batch_run asked b
  obtain ⟨-, refines', links'⟩ := h.batch_run asked' b
  rw [← Model.foldl_join_perm perm untied] at refines' links'
  refine refines'.ext refines fun y hy free => ?_
  have one := links y hy free
  have two := links' y hy free
  exact ⟨two.1.trans one.1.symm, two.2.trans one.2.symm⟩

theorem after_tie (h : Refines s m) {op op' : Op V} {e e' : Entry V}
    (asked : Batch g value m (op :: op' :: batch) (e :: e' :: es))
    (asked' : Batch g value m (op' :: op :: batch) (e' :: e :: es))
    (accepted : m.Accepts g e) (accepted' : m.Accepts g e') (same : e.list = e'.list)
    (tie : e.value = e'.value) :
    ListsOf.after b (op' :: op :: batch) s ≠ ListsOf.after b (op :: op' :: batch) s := by
  intro equal
  have other := (List.pairwise_cons.mp asked.distinct).1 e' List.mem_cons_self
  obtain ⟨-, refines, -⟩ := h.batch_run asked b
  obtain ⟨-, refines', -⟩ := h.batch_run asked' b
  have front := Model.first_in_front accepted accepted' other same tie es
  have back := Model.first_in_front accepted' accepted other.symm same.symm tie.symm es
  rw [← same, ← refines'.visited_eq, equal, refines.visited_eq] at back
  exact not_both_front (Rota.nodup _) front back

end Refines

/-- From any reachable state, with its lists in any order, a batch of inserts of different items
by their values: each call answers as if it were the first, in whatever order they come; and
every order leaves the same nodes, counts and cursors if and only if no two accepted ones join
one list with one value. -/
theorem inserts_in_any_order (b : Build) (ops batch : List (Op V))
    (joins : ∀ op ∈ batch,
      (op.entry (ListsOf.after b ops (ListsOf.new : ListsOf V g)).valueOf).isSome)
    (distinct : batch.Pairwise fun op op' => op.item ≠ op'.item) :
    let s := ListsOf.after b ops (ListsOf.new : ListsOf V g)
    (∀ batch', batch.Perm batch' →
      (ListsOf.run b batch' s).1 = batch'.map fun op => (ListsOf.call b op s).1) ∧
    ((∀ batch', batch.Perm batch' → ListsOf.after b batch' s = ListsOf.after b batch s) ↔
      batch.Pairwise fun op op' => ¬ s.Ties b op op') := by
  intro s
  have h := after_refines (g := g) b ops
  have asked : ∀ batch', batch.Perm batch' → Batch g s.valueOf _ batch'
      (batch'.filterMap (Op.entry s.valueOf)) := fun batch' perm =>
    h.batch_of_joins (fun op mem => joins op (perm.mem_iff.mpr mem))
      ((perm.pairwise_iff fun other => other.symm).mp distinct)
  refine ⟨fun batch' perm => (h.batch_run (asked batch' perm) b).1, fun all => ?_, fun untied => ?_⟩
  · refine List.pairwise_iff_forall_sublist.mpr fun {op op'} sub ties => ?_
    obtain ⟨accepted, accepted', e, e', entry, entry', same, tie⟩ := ties
    obtain ⟨rest, perm⟩ : ∃ rest, batch.Perm (op :: op' :: rest) := sub.exists_perm_append
    have swapped : batch.Perm (op' :: op :: rest) := perm.trans (List.Perm.swap _ _ _)
    have one := asked _ perm
    have two := asked _ swapped
    rw [List.filterMap_cons_some entry, List.filterMap_cons_some entry'] at one
    rw [List.filterMap_cons_some entry', List.filterMap_cons_some entry] at two
    exact h.after_tie one two ((h.accepted_iff entry).mp accepted)
      ((h.accepted_iff entry').mp accepted') same tie
      ((all _ swapped).trans (all _ perm).symm)
  · intro batch' perm
    refine h.after_perm (asked batch (List.Perm.refl _)) (asked batch' perm) (perm.filterMap _) ?_
    refine (distinct.and untied).filterMap _ ?_
    rintro op op' ⟨other, free⟩ e he e' he'
    refine ⟨fun same => other ?_, fun accepted accepted' same tie => free ?_⟩
    · rw [Op.item_of_entry he, Op.item_of_entry he', same]
    · exact ⟨(h.accepted_iff he).mpr accepted, (h.accepted_iff he').mpr accepted', e, e', he, he',
        same, tie⟩

theorem inserts_in_any_order_small :
    let s := ListsOf.after ⟨true, true⟩ [.setValue 1 7] (ListsOf.new : ListsOf UInt32 Sizes.small)
    let batch : List (Op UInt32) := [.insert 0 0 5, .insertKeepingValue 0 1]
    (∀ batch', batch.Perm batch' → (ListsOf.run ⟨true, true⟩ batch' s).1 =
      batch'.map fun op => (ListsOf.call ⟨true, true⟩ op s).1) ∧
    ((∀ batch', batch.Perm batch' →
      ListsOf.after ⟨true, true⟩ batch' s = ListsOf.after ⟨true, true⟩ batch s) ↔
      batch.Pairwise fun op op' => ¬ s.Ties ⟨true, true⟩ op op') :=
  inserts_in_any_order ⟨true, true⟩ _ _ (by simp [Op.entry]) (by simp [Op.item])

end RtosCore
