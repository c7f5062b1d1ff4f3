import RtosCore.ListEffects

/-! Calls on different lists and different items do not notice each other. All lists share one
node array, so this is a fact about rings and not about code: a call changes only the lists it
touches and the value of its item, and reads nothing else. -/

namespace RtosCore

variable {V : Type} [ListValue V] {g : Sizes}

namespace Op

def list : Op V → Option ListId
  | .insert l _ _ | .insertKeepingValue l _ | .insertEnd l _ | .insertSorted l _ _
  | .moveToEnd l _ | .nextRoundRobin l => some l
  | .remove _ | .unlink _ | .setValue _ _ => none

def item : Op V → Option ItemId
  | .insert _ x _ | .insertKeepingValue _ x | .insertEnd _ x | .insertSorted _ x _
  | .moveToEnd _ x | .remove x | .unlink x | .setValue x _ => some x
  | .nextRoundRobin _ => none

omit [ListValue V] in
theorem names_of_inserts {op : Op V} {l : ListId} {x : ItemId} (names : op.inserts = some (l, x)) :
    op.list = some l ∧ op.item = some x := by
  cases op with
  | insert | insertKeepingValue | insertEnd | insertSorted =>
    cases names
    exact ⟨rfl, rfl⟩
  | _ => cases names

omit [ListValue V] in
theorem names_of_removes {op : Op V} {x : ItemId} (names : op.removes = some x) :
    op.item = some x := by
  cases op with
  | remove | unlink => exact names
  | _ => cases names

end Op

namespace ListsOf

/-- List `l` is in the footprint of the call: the call names it, or it holds the call's item. -/
def Touches (s : ListsOf V g) (op : Op V) (l : ListId) : Prop :=
  op.list = some l ∨ ∃ x, op.item = some x ∧ x ∈ s.visited l

/-- The footprints of the calls are disjoint. -/
def Independent (s : ListsOf V g) (a b : Op V) : Prop :=
  (∀ x, a.item = some x → b.item ≠ some x) ∧ ∀ l, s.Touches a l → ¬ s.Touches b l

end ListsOf

namespace Model

variable {m m' : Model V} {a b op : Op V} {r : Except Error Answer} {l k : ListId} {x y : ItemId}

def Touches (m : Model V) (op : Op V) (l : ListId) : Prop :=
  op.list = some l ∨ ∃ x, op.item = some x ∧ x ∈ (m.rota l).items

def Independent (m : Model V) (a b : Op V) : Prop :=
  (∀ x, a.item = some x → b.item ≠ some x) ∧ ∀ l, m.Touches a l → ¬ m.Touches b l

omit [ListValue V] in
theorem Independent.symm (h : m.Independent a b) : m.Independent b a :=
  ⟨fun x hb ha => h.1 x ha hb, fun l hb ha => h.2 l ha hb⟩

theorem Effect.rota (effect : Effect m op r m') (h : ¬ m.Touches op k) : m'.rota k = m.rota k := by
  have named : ∀ l, op.list = some l → k ≠ l := fun l hl e => h (Or.inl (e ▸ hl))
  have held : ∀ x, op.item = some x → x ∉ (m.rota k).items := fun x hx hk =>
    h (Or.inr ⟨x, hx, hk⟩)
  cases effect with
  | refused | stayed | valued => rfl
  | joined names =>
    rw [place_rota_ne (named _ (Op.names_of_inserts names).1), Refines.keeping_rota]
  | left names => exact erase_rota_of_notMem (held _ (Op.names_of_removes names))
  | moved => rw [moveToEnd, place_rota_ne (named _ rfl), erase_rota_of_notMem (held _ rfl)]
  | advanced => exact advance_rota_ne (named _ rfl)

theorem Effect.mem (effect : Effect m op r m') (h : op.item ≠ some y) :
    y ∈ (m'.rota k).items ↔ y ∈ (m.rota k).items := by
  have other : ∀ x, op.item = some x → y ≠ x := fun x hx e => h (e ▸ hx)
  cases effect with
  | refused | stayed | valued => rfl
  | joined names =>
    rw [mem_place_ne (other _ (Op.names_of_inserts names).2), Refines.keeping_rota]
  | left names => rw [mem_erase, and_iff_right (other _ (Op.names_of_removes names))]
  | moved => rw [moveToEnd, mem_place_ne (other _ rfl), mem_erase, and_iff_right (other _ rfl)]
  | advanced => rw [advance_items]

theorem Effect.value (effect : Effect m op r m') (h : op.item ≠ some y) :
    m'.value y = m.value y := by
  have other : ∀ x, op.item = some x → y ≠ x := fun x hx e => h (e ▸ hx)
  cases effect with
  | refused | stayed | left | advanced => rfl
  | joined names =>
    rw [place_value, keeping_value_ne (other _ (Op.names_of_inserts names).2)]
  | moved => rw [moveToEnd, place_value, erase_value]
  | valued x v => exact (setValue_value v).trans (if_neg (other x rfl))

theorem step_rota (h : ¬ m.Touches op k) : (m.step g op).2.rota k = m.rota k :=
  (m.step_effect g op).rota h

theorem step_mem (h : op.item ≠ some y) :
    y ∈ ((m.step g op).2.rota k).items ↔ y ∈ (m.rota k).items :=
  (m.step_effect g op).mem h

theorem step_value (h : op.item ≠ some y) : (m.step g op).2.value y = m.value y :=
  (m.step_effect g op).value h

/-- The two models look the same to the call. -/
structure SameFor (op : Op V) (m m' : Model V) : Prop where
  home : ∀ x, op.item = some x → m'.home x = m.home x
  value : ∀ x, op.item = some x → m'.value x = m.value x
  rota : ∀ l, m.Touches op l → m'.rota l = m.rota l
  values : ∀ l, m.Touches op l → ∀ y ∈ (m.rota l).items, m'.value y = m.value y

structure SameEffect (op : Op V) (m : Model V) (r r' : Except Error Answer × Model V) : Prop where
  answer : r'.1 = r.1
  rota : ∀ l, m.Touches op l → r'.2.rota l = r.2.rota l
  value : ∀ x, op.item = some x → r'.2.value x = r.2.value x

namespace SameFor

section Parts

omit [ListValue V]

theorem unchanged (same : SameFor op m m') (answer : Except Error Answer) :
    SameEffect op m (answer, m) (answer, m') :=
  ⟨rfl, same.rota, same.value⟩

theorem linked (same : SameFor op m m') (hx : op.item = some x) : m'.Linked x ↔ m.Linked x := by
  rw [← not_iff_not, ← home_eq_none, ← home_eq_none, same.home x hx]

theorem insertion (same : SameFor op m m') (hl : op.list = some l) (hx : op.item = some x)
    (v : Option V) {p p' : ItemId → Bool} (agree : ∀ y ∈ (m.rota l).items, p' y = p y) :
    SameEffect op m (m.insertion g l x ((m.keeping x v).place l p x))
      (m'.insertion g l x ((m'.keeping x v).place l p' x)) := by
  unfold Model.insertion
  by_cases range : l.toNat < g.L ∧ x.toNat < g.CAPACITY
  · rw [if_neg (not_not.mpr range), if_neg (not_not.mpr range)]
    by_cases busy : m.Linked x
    · rw [if_pos busy, if_pos ((same.linked hx).mpr busy)]
      exact same.unchanged _
    · have busy' : ¬ m'.Linked x := fun h => busy ((same.linked hx).mp h)
      rw [if_neg busy, if_neg busy']
      have free : ¬ (m.keeping x v).Linked x := by simpa [Linked] using busy
      have free' : ¬ (m'.keeping x v).Linked x := by simpa [Linked] using busy'
      have touched : m.Touches op l := Or.inl hl
      refine ⟨rfl, fun k hk => ?_, fun y hy => ?_⟩
      · -- The item is in no list, so the list it joins is the only one touched.
        have named : op.list = some k := by
          refine hk.resolve_right ?_
          rintro ⟨y, hy, mem⟩
          rw [Option.some.inj (hx.symm.trans hy)] at busy
          exact busy ⟨k, mem⟩
        have hkl : k = l := Option.some.inj (named.symm.trans hl)
        rw [hkl, place_rota free, place_rota free', if_pos rfl, if_pos rfl,
          Refines.keeping_rota, Refines.keeping_rota, same.rota l touched]
        exact Rota.place_congr agree
      · have hyx : x = y := Option.some.inj (hx.symm.trans hy)
        rw [place_value, place_value, ← hyx]
        cases v with
        | none => exact same.value x hx
        | some v => rw [keeping, keeping, setValue_value, setValue_value, if_pos rfl, if_pos rfl]
  · rw [if_pos range, if_pos range]
    exact same.unchanged _

theorem removal (same : SameFor op m m') (hx : op.item = some x) {answer answer' : ListId → Answer}
    (agree : ∀ l, m.Touches op l → answer' l = answer l) :
    SameEffect op m (m.removal g x answer) (m'.removal g x answer') := by
  unfold Model.removal
  rw [same.home x hx]
  by_cases range : x.toNat < g.CAPACITY
  · rw [if_neg (not_not.mpr range), if_neg (not_not.mpr range)]
    cases home : m.home x with
    | none => exact same.unchanged _
    | some l =>
      have touched : m.Touches op l := Or.inr ⟨x, hx, home_eq_some.mp home⟩
      refine ⟨congrArg Except.ok (agree l touched), fun k hk => ?_, same.value⟩
      exact congrArg (Rota.erase · x) (same.rota k hk)
  · rw [if_pos range, if_pos range]
    exact same.unchanged _

theorem moveToEnd (same : SameFor (.moveToEnd l x) m m') :
    SameEffect (.moveToEnd l x) m (.ok (.moved true), m.moveToEnd l x)
      (.ok (.moved true), m'.moveToEnd l x) := by
  have erased : ∀ k, m.Touches (.moveToEnd l x) k → (m'.erase x).rota k = (m.erase x).rota k :=
    fun k hk => congrArg (Rota.erase · x) (same.rota k hk)
  have named : m.Touches (.moveToEnd l x) l := Or.inl rfl
  refine ⟨rfl, fun k hk => ?_, fun y hy => ?_⟩
  · have cursor : (m'.erase x).atCursor l = (m.erase x).atCursor l := by
      funext y
      rw [atCursor, atCursor, erased l named]
    rw [Model.moveToEnd, Model.moveToEnd, place_rota not_linked_erase, place_rota not_linked_erase,
      erased k hk, erased l named, cursor]
  · rw [Model.moveToEnd, Model.moveToEnd, place_value, place_value]
    exact same.value y hy

end Parts

theorem step (same : SameFor op m m') : SameEffect op m (m.step g op) (m'.step g op) := by
  cases op with
  | insert l x v =>
    refine same.insertion rfl rfl (some v) fun y hy => ?_
    rw [above, above, same.values l (Or.inl rfl) y hy]
  | insertKeepingValue l x =>
    refine same.insertion rfl rfl none fun y hy => ?_
    rw [above, above, same.values l (Or.inl rfl) y hy, same.value x rfl]
  | insertEnd l x =>
    refine same.insertion rfl rfl none fun y _ => ?_
    rw [atCursor, atCursor, same.rota l (Or.inl rfl)]
  | insertSorted l x v =>
    refine same.insertion rfl rfl (some v) fun y hy => ?_
    have values := same.values l (Or.inl rfl)
    rw [aboveTail, aboveTail, above, above, values y hy, same.rota l (Or.inl rfl)]
    cases last : (m.rota l).items.getLast? with
    | none => rfl
    | some z => rw [Option.any_some, Option.any_some, values z (List.mem_of_getLast? last)]
  | moveToEnd l x =>
    rw [Model.step, Model.step, same.rota l (Or.inl rfl)]
    split
    · exact same.unchanged _
    · split
      · exact same.moveToEnd
      · exact same.unchanged _
  | remove x =>
    refine same.removal rfl fun l touched => ?_
    have erased : (m'.erase x).rota l = (m.erase x).rota l :=
      congrArg (Rota.erase · x) (same.rota l touched)
    rw [erased]
  | unlink x => exact same.removal rfl fun _ _ => rfl
  | setValue x v =>
    rw [Model.step, Model.step]
    split
    · exact same.unchanged _
    · refine ⟨rfl, same.rota, fun y hy => ?_⟩
      have hyx : x = y := Option.some.inj hy
      rw [setValue_value, setValue_value, if_pos hyx.symm, if_pos hyx.symm]
  | nextRoundRobin l =>
    have rota := same.rota l (Or.inl rfl)
    rw [Model.step, Model.step, rota]
    split
    · exact same.unchanged _
    · refine ⟨rfl, fun k hk => ?_, same.value⟩
      rw [advance_rota, advance_rota, rota, same.rota k hk]

end SameFor

omit [ListValue V] in
theorem touches_congr (mem : ∀ x, op.item = some x →
    (x ∈ (m'.rota l).items ↔ x ∈ (m.rota l).items)) : m'.Touches op l ↔ m.Touches op l :=
  or_congr Iff.rfl (exists_congr fun x => and_congr_right fun hx => mem x hx)

namespace Independent

theorem touches_after (h : m.Independent a b) :
    (m.step g a).2.Touches b l ↔ m.Touches b l :=
  touches_congr fun x hx => step_mem fun ha => h.1 x ha hx

/-- What a call sees is not what an independent call changes. -/
theorem sameFor (h : m.Independent a b) : SameFor b m (m.step g a).2 := by
  have other : ∀ x, b.item = some x → a.item ≠ some x := fun x hb ha => h.1 x ha hb
  constructor
  case home => exact fun x hx => home_congr fun k => step_mem (other x hx)
  case value => exact fun x hx => step_value (other x hx)
  case rota => exact fun l touched => step_rota fun ha => h.2 l ha touched
  case values =>
    intro l touched y hy
    exact step_value fun ha => h.2 l (Or.inr ⟨y, ha, hy⟩) touched

theorem rota_comm (h : m.Independent a b) (l : ListId) (touched : m.Touches a l) :
    ((m.step g a).2.step g b).2.rota l = ((m.step g b).2.step g a).2.rota l := by
  have untouched : ¬ (m.step g a).2.Touches b l := fun hb => h.2 l touched (h.touches_after.mp hb)
  rw [step_rota untouched, h.symm.sameFor.step.rota l touched]

theorem value_comm (h : m.Independent a b) {x : ItemId} (named : a.item = some x) :
    ((m.step g a).2.step g b).2.value x = ((m.step g b).2.step g a).2.value x := by
  rw [step_value (h.1 x named), h.symm.sameFor.step.value x named]

theorem step_comm (h : m.Independent a b) :
    ((m.step g a).2.step g b).2 = ((m.step g b).2.step g a).2 := by
  ext1
  · funext l
    by_cases ha : m.Touches a l
    · exact h.rota_comm l ha
    · by_cases hb : m.Touches b l
      · exact (h.symm.rota_comm l hb).symm
      · rw [step_rota (mt h.touches_after.mp hb), step_rota ha,
          step_rota (mt h.symm.touches_after.mp ha), step_rota hb]
  · funext x
    by_cases ha : a.item = some x
    · exact h.value_comm ha
    · by_cases hb : b.item = some x
      · exact (h.symm.value_comm hb).symm
      · rw [step_value hb, step_value ha, step_value ha, step_value hb]

end Independent

end Model

namespace Refines

open ListsOf

variable {s t : ListsOf V g} {m : Model V} {a b : Op V} {l : ListId}

theorem touches_iff (h : Refines s m) (op : Op V) : s.Touches op l ↔ m.Touches op l := by
  rw [ListsOf.Touches, Model.Touches, h.visited_eq]

theorem independent_iff (h : Refines s m) : s.Independent a b ↔ m.Independent a b := by
  simp only [ListsOf.Independent, Model.Independent, h.touches_iff]

/-- An item that is in no list after both calls has the links it had before them. Only the
second call can have taken it out of a list, and then the first had left that list alone. -/
theorem stale_after (h : Refines s m) (ind : m.Independent a b) (build : Build) {y : ItemId}
    (hy : y.toNat < g.CAPACITY) (free : ¬ ((m.step g a).2.step g b).2.Linked y) :
    let first := (ListsOf.call build a s).2
    let second := (ListsOf.call build b first).2
    second.nextOf y = s.nextOf y ∧ second.prevOf y = s.prevOf y := by
  intro first second
  have followsFirst := h.call build a
  have followsSecond := followsFirst.refines.call build b
  have last := followsSecond.stale y hy free
  have kept : first.nextOf y = s.nextOf y ∧ first.prevOf y = s.prevOf y := by
    by_cases linked : (m.step g a).2.Linked y
    · obtain ⟨l, hl⟩ := linked
      have named : b.item = some y := by
        by_contra other
        exact free ⟨l, (Model.step_mem other).mpr hl⟩
      have mem : y ∈ (m.rota l).items := (Model.step_mem (ind.symm.1 y named)).mp hl
      have untouched : ¬ m.Touches a l := fun ha => ind.2 l ha (Or.inr ⟨y, named, mem⟩)
      have range := (h.bounds l y mem).1
      have ring := followsFirst.refines.ring l range
      rw [Model.step_rota untouched] at ring
      exact ring.links_eq (h.ring l range) (List.mem_cons_of_mem _ mem)
    · exact followsFirst.stale y hy linked
  exact ⟨last.1.trans kept.1, last.2.trans kept.2⟩

theorem ext (h : Refines s m) (h' : Refines t m)
    (stale : ∀ y : ItemId, y.toNat < g.CAPACITY → ¬ m.Linked y →
      s.nextOf y = t.nextOf y ∧ s.prevOf y = t.prevOf y) : s = t := by
  have links : ∀ y : UInt16, y.toNat < g.N → s.nextOf y = t.nextOf y ∧ s.prevOf y = t.prevOf y := by
    intro y hy
    by_cases free : t.Free y
    · obtain ⟨item, free⟩ := h'.free_iff.mp free
      exact stale y item free
    · exact h'.links_eq h rfl hy free
  exact ext_fields (fun y hy => (links y hy).1) (fun y hy => (links y hy).2)
    (fun y hy => h'.valueOf_congr h hy) (fun y hy => h'.containerOf_congr h rfl hy)
    fun l hl => h'.metaOf_eq h rfl hl

theorem calls_commute (h : Refines s m) (ind : m.Independent a b) (build : Build) :
    let afterA := ListsOf.call build a s
    let afterB := ListsOf.call build b s
    (ListsOf.call build a afterB.2).1 = afterA.1 ∧ (ListsOf.call build b afterA.2).1 = afterB.1 ∧
      (ListsOf.call build b afterA.2).2 = (ListsOf.call build a afterB.2).2 := by
  intro afterA afterB
  have refinesA := (h.call build a).refines
  have refinesB := (h.call build b).refines
  refine ⟨?_, ?_, ?_⟩
  · rw [refinesB.call_answer, h.call_answer, ind.symm.sameFor.step.answer]
  · rw [refinesA.call_answer, h.call_answer, ind.sameFor.step.answer]
  · have refinesAB := (refinesA.call build b).refines
    have refinesBA := (refinesB.call build a).refines
    rw [← ind.step_comm] at refinesBA
    refine refinesAB.ext refinesBA fun y hy free => ?_
    have one := h.stale_after ind build hy free
    rw [ind.step_comm] at free
    have two := h.stale_after ind.symm build hy free
    exact ⟨one.1.trans two.1.symm, one.2.trans two.2.symm⟩

end Refines

/-- From any reachable state two calls with disjoint footprints may be made in either order:
each answers the same and the nodes, counts and cursors end up the same. -/
theorem independent_calls_commute (build : Build) (ops : List (Op V)) (a b : Op V)
    (ind : (ListsOf.after build ops (ListsOf.new : ListsOf V g)).Independent a b) :
    let s := ListsOf.after build ops (ListsOf.new : ListsOf V g)
    let afterA := ListsOf.call build a s
    let afterB := ListsOf.call build b s
    (ListsOf.call build a afterB.2).1 = afterA.1 ∧ (ListsOf.call build b afterA.2).1 = afterB.1 ∧
      (ListsOf.call build b afterA.2).2 = (ListsOf.call build a afterB.2).2 := by
  have h := after_refines (g := g) build ops
  exact h.calls_commute (h.independent_iff.mp ind) build

theorem independent_calls_commute_small :
    let s := ListsOf.after ⟨true, true⟩ [.insertEnd 0 0] (ListsOf.new : ListsOf UInt32 Sizes.small)
    let afterA := ListsOf.call ⟨true, true⟩ (.remove 0) s
    let afterB := ListsOf.call ⟨true, true⟩ (.insert 1 1 5) s
    (ListsOf.call ⟨true, true⟩ (.remove 0) afterB.2).1 = afterA.1 ∧
      (ListsOf.call ⟨true, true⟩ (.insert 1 1 5) afterA.2).1 = afterB.1 ∧
      (ListsOf.call ⟨true, true⟩ (.insert 1 1 5) afterA.2).2 =
        (ListsOf.call ⟨true, true⟩ (.remove 0) afterB.2).2 := by
  refine independent_calls_commute ⟨true, true⟩ [.insertEnd 0 0] (.remove 0) (.insert 1 1 5) ?_
  have h := after_refines (V := UInt32) (g := Sizes.small) ⟨true, true⟩ [.insertEnd 0 0]
  refine ⟨by simp [Op.item], fun l touched => ?_⟩
  have hl : l = 0 := by
    rcases touched with named | ⟨x, hx, mem⟩
    · cases named
    · rw [← Option.some.inj hx, h.visited_eq] at mem
      exact (h.containerOf_mem mem).symm.trans (by decide)
  rw [hl]
  rintro (named | ⟨x, hx, mem⟩)
  · cases named
  · rw [← Option.some.inj hx] at mem
    exact absurd mem (by decide)

end RtosCore
