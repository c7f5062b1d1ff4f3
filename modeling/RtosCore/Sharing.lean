import RtosCore.RotaRename
import RtosCore.Independence

/-! Sharing one structure. A tenant that keeps to items and lists of its own cannot tell whether
others use the rest: its calls answer as on a smaller structure that it has to itself, with its
own numbering. So neither the size of a structure shows, nor which of its items and lists are
used, nor who else is there. -/

namespace RtosCore

variable {V : Type} {g g' : Sizes}

/-- Which items and lists of the structure of sizes `g'` stand for those of the sizes `g`. -/
structure Tenancy (g g' : Sizes) where
  item : ItemId → ItemId
  list : ListId → ListId
  item_lt : ∀ x : ItemId, x.toNat < g.CAPACITY → (item x).toNat < g'.CAPACITY
  list_lt : ∀ l : ListId, l.toNat < g.L → (list l).toNat < g'.L
  item_inj : ∀ x y : ItemId, x.toNat < g.CAPACITY → y.toNat < g.CAPACITY → item x = item y → x = y
  list_inj : ∀ k l : ListId, k.toNat < g.L → l.toNat < g.L → list k = list l → k = l

namespace Tenancy

variable (e : Tenancy g g')

/-- The slot that stands for a slot of the tenant, end markers included. -/
def slot (y : UInt16) : UInt16 :=
  if y.toNat < g.CAPACITY then e.item y
  else g'.endOf (e.list (UInt8.ofNat (y.toNat - g.CAPACITY)))

theorem slot_item {x : ItemId} (hx : x.toNat < g.CAPACITY) : e.slot x = e.item x := if_pos hx

theorem slot_endOf {l : ListId} (hl : l.toNat < g.L) :
    e.slot (g.endOf l) = g'.endOf (e.list l) := by
  have index : (g.endOf l).toNat = g.CAPACITY + l.toNat := Sizes.toNat_endOf hl
  rw [slot, if_neg (by omega), index, Nat.add_sub_cancel_left, UInt8.ofNat_toNat]

end Tenancy

def Op.rename (e : Tenancy g g') : Op V → Op V
  | .insert l x v => .insert (e.list l) (e.item x) v
  | .insertKeepingValue l x => .insertKeepingValue (e.list l) (e.item x)
  | .insertEnd l x => .insertEnd (e.list l) (e.item x)
  | .insertSorted l x v => .insertSorted (e.list l) (e.item x) v
  | .moveToEnd l x => .moveToEnd (e.list l) (e.item x)
  | .remove x => .remove (e.item x)
  | .unlink x => .unlink (e.item x)
  | .setValue x v => .setValue (e.item x) v
  | .nextRoundRobin l => .nextRoundRobin (e.list l)

def Answer.rename (e : Tenancy g g') : Answer → Answer
  | .chosen x => .chosen (x.map e.item)
  | .unit => .unit
  | .count n => .count n
  | .moved done => .moved done

def Query.rename (e : Tenancy g g') : Query → Query
  | .value x => .value (e.item x)
  | .container x => .container (e.item x)
  | .isEmpty l => .isEmpty (e.list l)
  | .isEmptyOf l => .isEmptyOf (e.list l)
  | .len l => .len (e.list l)
  | .head l => .head (e.list l)
  | .headValue l => .headValue (e.list l)
  | .tailValue l => .tailValue (e.list l)
  | .isSorted l => .isSorted (e.list l)
  | .cursorOf l => .cursorOf (e.list l)
  | .next x => .next (e.item x)
  | .nextAndValue x => .nextAndValue (e.item x)
  | .iter l => .iter (e.list l)

def Reply.rename (e : Tenancy g g') : Reply V → Reply V
  | .value v => .value v
  | .container l => .container (l.map e.list)
  | .flag b => .flag b
  | .count n => .count n
  | .item x => .item (x.map e.item)
  | .link y => .link (e.slot y)
  | .itemValue x v => .itemValue (x.map e.item) v
  | .items xs => .items (xs.map e.item)

def Query.list : Query → Option ListId
  | .isEmpty l | .isEmptyOf l | .len l | .head l | .headValue l | .tailValue l | .isSorted l
  | .cursorOf l | .iter l => some l
  | .value _ | .container _ | .next _ | .nextAndValue _ => none

def Query.item : Query → Option ItemId
  | .value x | .container x | .next x | .nextAndValue x => some x
  | _ => none

def Names (g : Sizes) (list : Option ListId) (item : Option ItemId) : Prop :=
  (∀ l, list = some l → l.toNat < g.L) ∧ ∀ x, item = some x → x.toNat < g.CAPACITY

namespace Model

variable {m m' : Model V} {e : Tenancy g g'} {l k : ListId} {x y : ItemId}

def Within (g : Sizes) (m : Model V) : Prop :=
  ∀ l x, x ∈ (m.rota l).items → l.toNat < g.L ∧ x.toNat < g.CAPACITY

/-- The larger structure holds the tenant's lists under their names there, and the tenant's
items are in no other list. -/
structure Hosts (e : Tenancy g g') (m m' : Model V) : Prop where
  within : m.Within g
  rota : ∀ l : ListId, l.toNat < g.L → Renamed e.item (m.rota l) (m'.rota (e.list l))
  value : ∀ x : ItemId, x.toNat < g.CAPACITY → m'.value (e.item x) = m.value x
  inside : ∀ x : ItemId, x.toNat < g.CAPACITY → ∀ k, e.item x ∈ (m'.rota k).items →
    ∃ l : ListId, l.toNat < g.L ∧ k = e.list l

namespace Hosts

theorem apart (h : Hosts e m m') (hx : x.toNat < g.CAPACITY) :
    ∀ y ∈ (m.rota l).items, e.item y = e.item x → y = x :=
  fun y hy same => e.item_inj y x (h.within l y hy).2 hx same

theorem mem (h : Hosts e m m') (hl : l.toNat < g.L) (hx : x.toNat < g.CAPACITY) :
    e.item x ∈ (m'.rota (e.list l)).items ↔ x ∈ (m.rota l).items :=
  (h.rota l hl).mem (h.apart hx)

theorem linked (h : Hosts e m m') (hx : x.toNat < g.CAPACITY) :
    m'.Linked (e.item x) ↔ m.Linked x := by
  constructor
  · rintro ⟨k, hk⟩
    obtain ⟨l, hl, rfl⟩ := h.inside x hx k hk
    exact ⟨l, (h.mem hl hx).mp hk⟩
  · rintro ⟨l, member⟩
    exact ⟨e.list l, (h.mem (h.within l x member).1 hx).mpr member⟩

theorem home (h : Hosts e m m') (hx : x.toNat < g.CAPACITY) :
    m'.home (e.item x) = (m.home x).map e.list := by
  cases here : m.home x with
  | none => rw [Option.map_none, home_eq_none, h.linked hx, ← home_eq_none, here]
  | some l =>
    have member := home_eq_some.mp here
    rw [Option.map_some, home_eq_some, h.mem (h.within l x member).1 hx]
    exact member

theorem setValue (h : Hosts e m m') (hx : x.toNat < g.CAPACITY) (v : V) :
    Hosts e (m.setValue x v) (m'.setValue (e.item x) v) where
  within := h.within
  rota := h.rota
  value y hy := by
    rw [setValue_value, setValue_value, h.value y hy]
    exact if_congr ⟨e.item_inj y x hy hx, congrArg e.item⟩ rfl rfl
  inside := h.inside

theorem place (h : Hosts e m m') (hl : l.toNat < g.L) (hx : x.toNat < g.CAPACITY)
    {p p' : ItemId → Bool} (agree : ∀ y ∈ (m.rota l).items, p' (e.item y) = p y)
    (free : ¬ m.Linked x) : Hosts e (m.place l p x) (m'.place (e.list l) p' (e.item x)) := by
  have free' : ¬ m'.Linked (e.item x) := mt (h.linked hx).mp free
  constructor
  case within =>
    intro k y hy
    rcases (mem_place free).mp hy with ⟨rfl, rfl⟩ | old
    · exact ⟨hl, hx⟩
    · exact h.within k y old
  case rota =>
    intro k hk
    rw [place_rota free, place_rota free']
    by_cases same : k = l
    · subst same
      rw [if_pos rfl, if_pos rfl]
      exact (h.rota k hk).place (h.apart hx) agree
    · rw [if_neg same, if_neg fun there => same (e.list_inj k l hk hl there)]
      exact h.rota k hk
  case value =>
    intro y hy
    rw [place_value, place_value, h.value y hy]
  case inside =>
    intro y hy k member
    rcases (mem_place free').mp member with ⟨rfl, -⟩ | old
    · exact ⟨l, hl, rfl⟩
    · exact h.inside y hy k old

theorem erase (h : Hosts e m m') (hx : x.toNat < g.CAPACITY) :
    Hosts e (m.erase x) (m'.erase (e.item x)) where
  within k y hy := h.within k y (mem_erase.mp hy).2
  rota l hl := (h.rota l hl).erase (h.apart hx)
  value := h.value
  inside y hy k member := h.inside y hy k (mem_erase.mp member).2

theorem advance (h : Hosts e m m') (hl : l.toNat < g.L) :
    Hosts e (m.advance l) (m'.advance (e.list l)) where
  within k y hy := h.within k y (by rwa [advance_items] at hy)
  rota k hk := by
    rw [advance_rota, advance_rota]
    by_cases same : k = l
    · subst same
      rw [if_pos rfl, if_pos rfl]
      exact (h.rota k hk).advance
    · rw [if_neg same, if_neg fun there => same (e.list_inj k l hk hl there)]
      exact h.rota k hk
  value := h.value
  inside y hy k member := h.inside y hy k (by rwa [advance_items] at member)

theorem values (h : Hosts e m m') (hl : l.toNat < g.L) : m'.values (e.list l) = m.values l := by
  rw [Model.values, Model.values, (h.rota l hl).items, List.map_map]
  exact List.map_congr_left fun y hy => h.value y (h.within l y hy).2

theorem atCursor (h : Hosts e m m') (hl : l.toNat < g.L) :
    ∀ y ∈ (m.rota l).items, m'.atCursor (e.list l) (e.item y) = m.atCursor l y := by
  intro y hy
  have here := (h.rota l hl).cursor_eq_some (h.apart (l := l) (h.within l y hy).2)
  exact decide_eq_decide.mpr (by rw [eq_comm, here, eq_comm])

theorem moveToEnd (h : Hosts e m m') (hl : l.toNat < g.L) (hx : x.toNat < g.CAPACITY) :
    Hosts e (m.moveToEnd l x) (m'.moveToEnd (e.list l) (e.item x)) :=
  (h.erase hx).place hl hx ((h.erase hx).atCursor hl) not_linked_erase

end Hosts

variable [ListValue V]

theorem hosts_initial (e : Tenancy g g') : Hosts e (initial : Model V) initial where
  within _ _ hx := absurd hx List.not_mem_nil
  rota _ _ := Renamed.empty
  value _ _ := rfl
  inside _ _ _ member := absurd member List.not_mem_nil

structure Alike (e : Tenancy g g') (r r' : Except Error Answer × Model V) : Prop where
  answer : r'.1 = r.1.map (Answer.rename e)
  hosts : Hosts e r.2 r'.2

namespace Hosts

omit [ListValue V] in
theorem insertion (h : Hosts e m m') (hl : l.toNat < g.L) (hx : x.toNat < g.CAPACITY)
    {placed placed' : Model V} (both : ¬ m.Linked x → Hosts e placed placed') :
    Alike e (m.insertion g l x placed) (m'.insertion g' (e.list l) (e.item x) placed') := by
  have range : ¬ ¬ (l.toNat < g.L ∧ x.toNat < g.CAPACITY) := not_not.mpr ⟨hl, hx⟩
  have range' : ¬ ¬ ((e.list l).toNat < g'.L ∧ (e.item x).toNat < g'.CAPACITY) :=
    not_not.mpr ⟨e.list_lt l hl, e.item_lt x hx⟩
  rw [Model.insertion, Model.insertion, if_neg range, if_neg range']
  by_cases busy : m.Linked x
  · rw [if_pos busy, if_pos ((h.linked hx).mpr busy)]
    exact ⟨rfl, h⟩
  · rw [if_neg busy, if_neg (mt (h.linked hx).mp busy)]
    exact ⟨rfl, both busy⟩

omit [ListValue V] in
theorem removal (h : Hosts e m m') (hx : x.toNat < g.CAPACITY) {answer answer' : ListId → Answer}
    (same : ∀ l : ListId, l.toNat < g.L → answer' (e.list l) = (answer l).rename e) :
    Alike e (m.removal g x answer) (m'.removal g' (e.item x) answer') := by
  rw [Model.removal, Model.removal, if_neg (not_not.mpr hx),
    if_neg (not_not.mpr (e.item_lt x hx)), h.home hx]
  cases here : m.home x with
  | none => exact ⟨rfl, h⟩
  | some l =>
    have hl := (h.within l x (home_eq_some.mp here)).1
    exact ⟨congrArg Except.ok (same l hl), h.erase hx⟩

theorem above (h : Hosts e m m') (v : V) :
    ∀ y ∈ (m.rota l).items, m'.above v (e.item y) = m.above v y := by
  intro y hy
  rw [Model.above, Model.above, h.value y (h.within l y hy).2]

theorem aboveTail (h : Hosts e m m') (hl : l.toNat < g.L) (v : V) :
    ∀ y ∈ (m.rota l).items, m'.aboveTail (e.list l) v (e.item y) = m.aboveTail l v y := by
  intro y hy
  rw [Model.aboveTail, Model.aboveTail, h.above v y hy, (h.rota l hl).items, List.getLast?_map]
  cases last : (m.rota l).items.getLast? with
  | none => rfl
  | some z =>
    rw [Option.map_some, Option.any_some, Option.any_some,
      h.value z (h.within l z (List.mem_of_getLast? last)).2]

theorem step (h : Hosts e m m') {op : Op V} (names : Names g op.list op.item) :
    Alike e (m.step g op) (m'.step g' (op.rename e)) := by
  obtain ⟨list, item⟩ := names
  cases op with
  | insert l x v =>
    have hl := list l rfl
    have hx := item x rfl
    exact h.insertion hl hx fun free => (h.setValue hx v).place hl hx (h.above v) free
  | insertKeepingValue l x =>
    have hl := list l rfl
    have hx := item x rfl
    refine h.insertion hl hx fun free => h.place hl hx ?_ free
    rw [h.value x hx]
    exact h.above (m.value x)
  | insertEnd l x =>
    have hl := list l rfl
    have hx := item x rfl
    exact h.insertion hl hx fun free => h.place hl hx (h.atCursor hl) free
  | insertSorted l x v =>
    have hl := list l rfl
    have hx := item x rfl
    exact h.insertion hl hx fun free => (h.setValue hx v).place hl hx (h.aboveTail hl v) free
  | moveToEnd l x =>
    have hl := list l rfl
    have hx := item x rfl
    have range : ¬ ¬ (l.toNat < g.L ∧ x.toNat < g.CAPACITY) := not_not.mpr ⟨hl, hx⟩
    have range' : ¬ ¬ ((e.list l).toNat < g'.L ∧ (e.item x).toNat < g'.CAPACITY) :=
      not_not.mpr ⟨e.list_lt l hl, e.item_lt x hx⟩
    rw [Op.rename, Model.step, Model.step, if_neg range, if_neg range']
    by_cases member : x ∈ (m.rota l).items
    · rw [if_pos member, if_pos ((h.mem hl hx).mpr member)]
      exact ⟨rfl, h.moveToEnd hl hx⟩
    · rw [if_neg member, if_neg (mt (h.mem hl hx).mp member)]
      exact ⟨rfl, h⟩
  | remove x =>
    have hx := item x rfl
    refine h.removal hx fun l hl => congrArg Answer.count ?_
    rw [((h.erase hx).rota l hl).items, List.length_map]
  | unlink x => exact h.removal (item x rfl) fun _ _ => rfl
  | setValue x v =>
    have hx := item x rfl
    rw [Op.rename, Model.step, Model.step, if_neg (not_not.mpr hx),
      if_neg (not_not.mpr (e.item_lt x hx))]
    exact ⟨rfl, h.setValue hx v⟩
  | nextRoundRobin l =>
    have hl := list l rfl
    rw [Op.rename, Model.step, Model.step, if_neg (not_not.mpr hl),
      if_neg (not_not.mpr (e.list_lt l hl)), (h.rota l hl).nextUp]
    exact ⟨rfl, h.advance hl⟩

end Hosts

end Model

def Tenancy.Foreign (e : Tenancy g g') (op : Op V) : Prop :=
  (∀ l : ListId, l.toNat < g.L → op.list ≠ some (e.list l)) ∧
    ∀ x : ItemId, x.toNat < g.CAPACITY → op.item ≠ some (e.item x)

namespace Model

variable [ListValue V] {m m' : Model V} {e : Tenancy g g'} {q : Query}

/-- What others call leaves the tenant's lists and items as they were. -/
theorem Hosts.others (h : Hosts e m m') {op : Op V} (foreign : e.Foreign op) :
    Hosts e m (m'.step g' op).2 where
  within := h.within
  rota l hl := by
    have untouched : ¬ m'.Touches op (e.list l) := by
      rintro (named | ⟨y, named, held⟩)
      · exact foreign.1 l hl named
      · rw [(h.rota l hl).items] at held
        obtain ⟨x, hx, rfl⟩ := List.mem_map.mp held
        exact foreign.2 x (h.within l x hx).2 named
    rw [step_rota untouched]
    exact h.rota l hl
  value x hx := (step_value (foreign.2 x hx)).trans (h.value x hx)
  inside x hx k member := h.inside x hx k ((step_mem (foreign.2 x hx)).mp member)

section Replies

variable {l : ListId} {x : ItemId} {reply reply' : Reply V}

omit [ListValue V] in
theorem renamed_ofItem (e : Tenancy g g') (hx : x.toNat < g.CAPACITY)
    (same : reply' = reply.rename e) :
    ofItem g' (e.item x) reply' = (ofItem g x reply).map (Reply.rename e) := by
  rw [ofItem, ofItem, if_neg (not_not.mpr hx), if_neg (not_not.mpr (e.item_lt x hx)), same]
  rfl

omit [ListValue V] in
theorem renamed_ofList (e : Tenancy g g') (hl : l.toNat < g.L) (same : reply' = reply.rename e) :
    ofList g' (e.list l) reply' = (ofList g l reply).map (Reply.rename e) := by
  rw [ofList, ofList, if_neg (not_not.mpr hl), if_neg (not_not.mpr (e.list_lt l hl)), same]
  rfl

omit [ListValue V] in
theorem Hosts.ofMember (h : Hosts e m m') (hx : x.toNat < g.CAPACITY)
    {reply reply' : ListId → Reply V}
    (same : ∀ l, x ∈ (m.rota l).items → reply' (e.list l) = (reply l).rename e) :
    m'.ofMember g' (e.item x) reply' = (m.ofMember g x reply).map (Reply.rename e) := by
  rw [Model.ofMember, Model.ofMember, if_neg (not_not.mpr hx),
    if_neg (not_not.mpr (e.item_lt x hx)), h.home hx]
  cases here : m.home x with
  | none => rfl
  | some l => exact congrArg Except.ok (same l (home_eq_some.mp here))

end Replies

omit [ListValue V] in
theorem Hosts.link (h : Hosts e m m') {l : ListId} (hl : l.toNat < g.L) :
    (m'.rota (e.list l)).cursor.getD (g'.endOf (e.list l)) =
      e.slot ((m.rota l).cursor.getD (g.endOf l)) := by
  rw [(h.rota l hl).cursor]
  cases hc : (m.rota l).cursor with
  | none => exact (e.slot_endOf hl).symm
  | some c => exact (e.slot_item (h.within l c ((m.rota l).cursor_mem c hc)).2).symm

theorem Hosts.ask (h : Hosts e m m') (names : Names g q.list q.item) :
    m'.ask g' (q.rename e) = (m.ask g q).map (Reply.rename e) := by
  obtain ⟨list, item⟩ := names
  have nil : ∀ l : ListId, l.toNat < g.L →
      ((m'.rota (e.list l)).items = [] ↔ (m.rota l).items = []) := by
    intro l hl
    rw [(h.rota l hl).items, List.map_eq_nil_iff]
  cases q with
  | value x =>
    have hx := item x rfl
    exact renamed_ofItem e hx (congrArg Reply.value (h.value x hx))
  | container x =>
    have hx := item x rfl
    exact renamed_ofItem e hx (congrArg Reply.container (h.home hx))
  | isEmpty l =>
    have hl := list l rfl
    exact renamed_ofList e hl (congrArg Reply.flag (decide_eq_decide.mpr (nil l hl)))
  | isEmptyOf l =>
    have hl := list l rfl
    exact congrArg (fun b => Except.ok (Reply.flag b)) (decide_eq_decide.mpr (nil l hl))
  | len l =>
    have hl := list l rfl
    refine renamed_ofList e hl (congrArg Reply.count ?_)
    rw [(h.rota l hl).items, List.length_map]
  | head l =>
    have hl := list l rfl
    refine renamed_ofList e hl (congrArg Reply.item ?_)
    rw [(h.rota l hl).items, List.head?_map]
  | headValue l =>
    have hl := list l rfl
    refine renamed_ofList e hl (congrArg Reply.value ?_)
    rw [h.values hl]
  | tailValue l =>
    have hl := list l rfl
    refine renamed_ofList e hl (congrArg Reply.value ?_)
    rw [h.values hl]
  | isSorted l =>
    have hl := list l rfl
    refine renamed_ofList e hl (congrArg Reply.flag (decide_eq_decide.mpr ?_))
    rw [h.values hl]
  | cursorOf l =>
    have hl := list l rfl
    exact renamed_ofList e hl (congrArg Reply.link (h.link hl))
  | next x =>
    refine h.ofMember (item x rfl) fun l hx => congrArg Reply.item ?_
    exact (h.rota l (h.within l x hx).1).succ hx
  | nextAndValue x =>
    refine h.ofMember (item x rfl) fun l hx => ?_
    have hl := h.within l x hx
    exact congrArg₂ Reply.itemValue ((h.rota l hl.1).succ hx) (h.value x hl.2)
  | iter l =>
    have hl := list l rfl
    exact congrArg (fun xs => Except.ok (Reply.items xs)) (h.rota l hl).items

end Model

/-- The tenant keeps to what it has, and the others to the rest. -/
def Tenancy.Kept (e : Tenancy g g') (script : List (Op V ⊕ Op V)) : Prop :=
  ∀ c ∈ script, c.elim (fun op => Names g op.list op.item) e.Foreign

def Tenancy.calls (e : Tenancy g g') (script : List (Op V ⊕ Op V)) : List (Op V) :=
  script.map (Sum.elim (Op.rename e) id)

def ownCalls (script : List (Op V ⊕ Op V)) : List (Op V) := script.filterMap Sum.getLeft?

def ownAnswers {A : Type} (script : List (Op V ⊕ Op V)) (answers : List A) : List A :=
  ((script.zip answers).filter fun call => call.1.isLeft).map Prod.snd

namespace Refines

variable [ListValue V] {s : ListsOf V g} {t : ListsOf V g'} {m m' : Model V} {b : Build}
  {e : Tenancy g g'} {script : List (Op V ⊕ Op V)}

/-- Both runs, with the tenant's calls made in both and the others' in one. -/
theorem shared_run (h : Refines s m) (h' : Refines t m') (hosts : Model.Hosts e m m')
    (kept : e.Kept script) :
    ownAnswers script (ListsOf.run b (e.calls script) t).1 =
        (ListsOf.run b (ownCalls script) s).1.map (Except.map (Answer.rename e)) ∧
      ∃ n n', Refines (ListsOf.after b (ownCalls script) s) n ∧
        Refines (ListsOf.after b (e.calls script) t) n' ∧ Model.Hosts e n n' := by
  induction script generalizing s t m m' with
  | nil => exact ⟨rfl, m, m', h, h', hosts⟩
  | cons c script ih =>
    have rest : e.Kept script := fun c mem => kept c (List.mem_cons_of_mem _ mem)
    have first := kept c List.mem_cons_self
    cases c with
    | inl op =>
      have alike := hosts.step first
      obtain ⟨answers, after⟩ :=
        ih (h.call b op).refines (h'.call b (op.rename e)).refines alike.hosts rest
      refine ⟨?_, after⟩
      change (ListsOf.call b (op.rename e) t).1 :: ownAnswers script _ =
        (ListsOf.call b op s).1.map _ :: _
      refine congrArg₂ List.cons ?_ answers
      rw [h.call_answer, h'.call_answer, alike.answer]
      cases (m.step g op).1 <;> rfl
    | inr op => exact ih h (h'.call b op).refines (hosts.others first) rest

end Refines

/-- Whoever keeps to its own items and lists of a shared structure is answered as it would be on
a structure of its own, whatever the others call and whatever the numbering. -/
theorem sharing_is_unseen [ListValue V] (b : Build) (e : Tenancy g g')
    (script : List (Op V ⊕ Op V)) (kept : e.Kept script) :
    let s := ListsOf.after b (ownCalls script) (ListsOf.new : ListsOf V g)
    let t := ListsOf.after b (e.calls script) (ListsOf.new : ListsOf V g')
    ownAnswers script (ListsOf.run b (e.calls script) (ListsOf.new : ListsOf V g')).1 =
        (ListsOf.run b (ownCalls script) (ListsOf.new : ListsOf V g)).1.map
          (Except.map (Answer.rename e)) ∧
      ∀ q : Query, Names g q.list q.item →
        (ListsOf.query b (q.rename e) t).1 = (ListsOf.query b q s).1.map (Reply.rename e) := by
  intro s t
  have start : Refines (ListsOf.new : ListsOf V g) Model.initial := new_refines
  have start' : Refines (ListsOf.new : ListsOf V g') Model.initial := new_refines
  obtain ⟨answers, n, n', h, h', hosts⟩ :=
    start.shared_run (b := b) start' (Model.hosts_initial e) kept
  refine ⟨answers, fun q names => ?_⟩
  rw [h.query_eq, h'.query_eq, hosts.ask names]
  cases n.ask g q <;> rfl

theorem small_list_cases {l : UInt8} (hl : l.toNat < Sizes.small.L) : l = 0 ∨ l = 1 := by
  have two : l.toNat < 2 := hl
  simp only [← UInt8.toNat_inj]
  change l.toNat = 0 ∨ l.toNat = 1
  omega

def Tenancy.small : Tenancy Sizes.small Sizes.medium where
  item x := if x = 0 then 4 else 2
  list l := l + 1
  item_lt x hx := by rcases small_cases hx with rfl | rfl <;> decide
  list_lt l hl := by rcases small_list_cases hl with rfl | rfl <;> decide
  item_inj x y hx hy same := by
    rcases small_cases hx with rfl | rfl <;> rcases small_cases hy with rfl | rfl <;>
      revert same <;> decide
  list_inj k l hk hl same := by
    rcases small_list_cases hk with rfl | rfl <;> rcases small_list_cases hl with rfl | rfl <;>
      revert same <;> decide

theorem Tenancy.small_foreign {op : Op V} (list : op.list ≠ some 1 ∧ op.list ≠ some 2)
    (item : op.item ≠ some 4 ∧ op.item ≠ some 2) : Tenancy.small.Foreign op := by
  refine ⟨fun l hl => ?_, fun x hx => ?_⟩
  · rcases small_list_cases hl with rfl | rfl
    · exact list.1
    · exact list.2
  · rcases small_cases hx with rfl | rfl
    · exact item.1
    · exact item.2

theorem sharing_is_unseen_small :
    let e := Tenancy.small
    let script : List (Op UInt32 ⊕ Op UInt32) :=
      [.inr (.insert 0 3 1), .inl (.insert 0 0 5), .inr (.nextRoundRobin 0),
        .inl (.insertEnd 1 1), .inl (.nextRoundRobin 0), .inr (.remove 3)]
    let s := ListsOf.after ⟨true, true⟩ (ownCalls script) (ListsOf.new : ListsOf UInt32 Sizes.small)
    let t := ListsOf.after ⟨true, true⟩ (e.calls script)
      (ListsOf.new : ListsOf UInt32 Sizes.medium)
    ownAnswers script (ListsOf.run ⟨true, true⟩ (e.calls script)
        (ListsOf.new : ListsOf UInt32 Sizes.medium)).1 =
        (ListsOf.run ⟨true, true⟩ (ownCalls script)
          (ListsOf.new : ListsOf UInt32 Sizes.small)).1.map (Except.map (Answer.rename e)) ∧
      ∀ q : Query, Names Sizes.small q.list q.item →
        (ListsOf.query ⟨true, true⟩ (q.rename e) t).1 =
          (ListsOf.query ⟨true, true⟩ q s).1.map (Reply.rename e) := by
  intro e script
  refine sharing_is_unseen ⟨true, true⟩ e script ?_
  have foreign : ∀ op ∈ [Op.insert 0 3 (1 : UInt32), .nextRoundRobin 0, .remove 3],
      e.Foreign op := by
    intro op mem
    refine Tenancy.small_foreign ?_ ?_ <;> revert op <;> decide
  have own : ∀ op ∈ [Op.insert 0 0 (5 : UInt32), .insertEnd 1 1, .nextRoundRobin 0],
      Names Sizes.small op.list op.item := by
    simp [Names, Op.list, Op.item, Sizes.small, Sizes.CAPACITY]
  simp [Tenancy.Kept, script, foreign, own]

end RtosCore
