import RtosCore.ListCode
import RtosCore.Rota
import Mathlib.Data.Fintype.Basic
import Mathlib.Logic.Function.Basic

/-! What the lists are for, with no slots, links or markers: every list is a rota of items,
every item has a value, and no item is in two lists. The steps are those of `list.c`. -/

namespace RtosCore

@[ext] structure Model (V : Type) where
  rota : ListId → Rota ItemId
  value : ItemId → V
  disjoint : ∀ l l' x, x ∈ (rota l).items → x ∈ (rota l').items → l = l'

namespace Model

variable {V : Type}

def initial [ListValue V] : Model V where
  rota _ := Rota.empty
  value _ := ListValue.ZERO
  disjoint _ _ _ h := by simp [Rota.empty] at h

def Linked (m : Model V) (x : ItemId) : Prop :=
  ∃ l, x ∈ (m.rota l).items

def home (m : Model V) (x : ItemId) : Option ListId :=
  ((List.range UInt8.size).map UInt8.ofNat).find? fun l => x ∈ (m.rota l).items

theorem home_eq_some {m : Model V} {x : ItemId} {l : ListId} :
    m.home x = some l ↔ x ∈ (m.rota l).items := by
  constructor
  · intro h
    simpa using List.find?_some h
  · intro h
    have every : l ∈ (List.range UInt8.size).map UInt8.ofNat :=
      List.mem_map.mpr ⟨l.toNat, List.mem_range.mpr l.toNat_lt, by simp⟩
    cases found : m.home x with
    | none =>
      have := List.find?_eq_none.mp found l every
      simp [h] at this
    | some l' =>
      have : x ∈ (m.rota l').items := by simpa using List.find?_some found
      rw [m.disjoint l' l x this h]

theorem home_eq_none {m : Model V} {x : ItemId} : m.home x = none ↔ ¬ m.Linked x := by
  rw [Option.eq_none_iff_forall_ne_some]
  simp only [ne_eq, home_eq_some, Linked, not_exists]

instance (m : Model V) (x : ItemId) : Decidable (m.Linked x) :=
  decidable_of_iff ((m.home x).isSome = true) (by
    rw [← not_iff_not, ← home_eq_none, Bool.not_eq_true, Option.isSome_eq_false_iff,
      Option.isNone_iff_eq_none])

def setValue (m : Model V) (x : ItemId) (v : V) : Model V :=
  { m with value := Function.update m.value x v }

theorem mem_update_place {m : Model V} {l k : ListId} {p : ItemId → Bool} {x y : ItemId} :
    y ∈ (Function.update m.rota l ((m.rota l).place p x) k).items ↔
      (k = l ∧ y = x) ∨ y ∈ (m.rota k).items := by
  rcases eq_or_ne k l with rfl | hk
  · simp [Rota.mem_place]
  · simp [hk]

/-- The item joins list `l` in front of the first item that satisfies `p`. -/
def place (m : Model V) (l : ListId) (p : ItemId → Bool) (x : ItemId) : Model V :=
  if hx : m.Linked x then m else
    { rota := Function.update m.rota l ((m.rota l).place p x)
      value := m.value
      disjoint := by
        intro k k' y hy hy'
        rcases mem_update_place.mp hy with ⟨hk, rfl⟩ | old <;>
          rcases mem_update_place.mp hy' with ⟨hk', hyx⟩ | old'
        · rw [hk, hk']
        · exact absurd ⟨k', old'⟩ hx
        · exact absurd ⟨k, hyx ▸ old⟩ hx
        · exact m.disjoint k k' y old old' }

/-- The item leaves whichever list holds it. -/
def erase (m : Model V) (x : ItemId) : Model V where
  rota l := (m.rota l).erase x
  value := m.value
  disjoint l l' y hy hy' :=
    m.disjoint l l' y (Rota.mem_erase.mp hy).2 (Rota.mem_erase.mp hy').2

def advance (m : Model V) (l : ListId) : Model V where
  rota := Function.update m.rota l (m.rota l).advance
  value := m.value
  disjoint k k' y hy hy' := by
    have items : ∀ j, (Function.update m.rota l (m.rota l).advance j).items = (m.rota j).items := by
      intro j
      rcases eq_or_ne j l with rfl | hj
      · simp
      · simp [hj]
    rw [items] at hy hy'
    exact m.disjoint k k' y hy hy'

/-- In front of the cursor, and last when the cursor is the end marker. -/
def atCursor (m : Model V) (l : ListId) (y : ItemId) : Bool := some y = (m.rota l).cursor

/-- `move_to_end` of a member is `remove`, then `insert_end`. -/
def moveToEnd (m : Model V) (l : ListId) (x : ItemId) : Model V :=
  (m.erase x).place l ((m.erase x).atCursor l) x

section

variable {m m' : Model V} {l k : ListId} {p : ItemId → Bool} {x y : ItemId}

theorem home_congr (h : ∀ k, y ∈ (m'.rota k).items ↔ x ∈ (m.rota k).items) :
    m'.home y = m.home x := by
  simp only [home, h]

theorem setValue_value (v : V) : (m.setValue x v).value y = if y = x then v else m.value y := by
  simp [setValue, Function.update_apply]

theorem linked_of_mem (h : x ∈ (m.rota l).items) : m.Linked x := ⟨l, h⟩

theorem notMem_of_free (free : ¬ m.Linked x) : x ∉ (m.rota l).items := fun h => free ⟨l, h⟩

theorem place_rota (free : ¬ m.Linked x) :
    (m.place l p x).rota k = if k = l then (m.rota l).place p x else m.rota k := by
  simp [place, free, Function.update_apply]

theorem place_rota_ne (h : k ≠ l) : (m.place l p x).rota k = m.rota k := by
  unfold place
  split
  · rfl
  · simp [Function.update_of_ne h]

@[simp] theorem place_value : (m.place l p x).value = m.value := by
  unfold place
  split <;> rfl

theorem mem_place (free : ¬ m.Linked x) :
    y ∈ ((m.place l p x).rota k).items ↔ (k = l ∧ y = x) ∨ y ∈ (m.rota k).items := by
  rw [place, dif_neg free]
  exact mem_update_place

theorem mem_place_ne (h : y ≠ x) :
    y ∈ ((m.place l p x).rota k).items ↔ y ∈ (m.rota k).items := by
  by_cases linked : m.Linked x
  · rw [place, dif_pos linked]
  · simp [mem_place linked, h]

theorem linked_place (free : ¬ m.Linked x) : (m.place l p x).Linked y ↔ y = x ∨ m.Linked y := by
  simp only [Linked, mem_place free]
  constructor
  · rintro ⟨k, ⟨-, e⟩ | old⟩
    · exact Or.inl e
    · exact Or.inr ⟨k, old⟩
  · rintro (e | ⟨k, old⟩)
    · exact ⟨l, Or.inl ⟨rfl, e⟩⟩
    · exact ⟨k, Or.inr old⟩

theorem home_place (free : ¬ m.Linked x) :
    (m.place l p x).home y = if y = x then some l else m.home y := by
  split
  · rename_i h
    rw [home_eq_some, mem_place free]
    exact Or.inl ⟨rfl, h⟩
  · rename_i h
    exact home_congr fun k => by simp [mem_place free, h]

@[simp] theorem erase_value : (m.erase x).value = m.value := rfl

theorem mem_erase : y ∈ ((m.erase x).rota k).items ↔ y ≠ x ∧ y ∈ (m.rota k).items :=
  Rota.mem_erase

theorem erase_rota (hx : x ∈ (m.rota l).items) :
    (m.erase x).rota k = if k = l then (m.rota l).erase x else m.rota k := by
  split
  · rename_i h
    rw [h]
    rfl
  · rename_i h
    exact Rota.erase_of_notMem fun hk => h (m.disjoint k l x hk hx)

theorem erase_rota_of_notMem (hx : x ∉ (m.rota k).items) : (m.erase x).rota k = m.rota k :=
  Rota.erase_of_notMem hx

theorem not_linked_erase : ¬ (m.erase x).Linked x := by
  rintro ⟨l, h⟩
  exact (mem_erase.mp h).1 rfl

theorem home_erase : (m.erase x).home y = if y = x then none else m.home y := by
  split
  · rename_i h
    rw [h, home_eq_none]
    exact not_linked_erase
  · rename_i h
    exact home_congr fun k => by simp [mem_erase, h]

theorem advance_rota : (m.advance l).rota k = if k = l then (m.rota l).advance else m.rota k := by
  simp [advance, Function.update_apply]

theorem advance_rota_ne (h : k ≠ l) : (m.advance l).rota k = m.rota k := by
  rw [advance_rota, if_neg h]

@[simp] theorem advance_items : ((m.advance l).rota k).items = (m.rota k).items := by
  rw [advance_rota]
  split
  · rename_i h
    rw [h, Rota.advance_items]
  · rfl

@[simp] theorem home_advance : (m.advance l).home y = m.home y :=
  home_congr fun k => by rw [advance_items]

theorem advance_of_empty (h : (m.rota l).items = []) : m.advance l = m := by
  have same : (m.rota l).advance = m.rota l := by
    have hc : (m.rota l).cursor = none := Option.eq_none_iff_forall_not_mem.mpr fun x hx => by
      simpa [h] using (m.rota l).cursor_mem x hx
    ext1
    · rfl
    · rw [Rota.advance_cursor, Rota.nextUp_eq_none.mpr h, hc]
  ext1
  · funext k
    rw [advance_rota]
    split
    · rename_i hk
      rw [hk, same]
    · rfl
  · rfl

end

variable [ListValue V]

/-- In front of the first item sorted after `v`. -/
def above (m : Model V) (v : V) (y : ItemId) : Bool := v < m.value y

/-- Where `insert_sorted` places: at the very end when the last value allows it. -/
def aboveTail (m : Model V) (l : ListId) (v : V) (y : ItemId) : Bool :=
  if (m.rota l).items.getLast?.any (m.value · ≤ v) then false else m.above v y

/-- The checks the four inserts share. -/
def insertion (g : Sizes) (m : Model V) (l : ListId) (x : ItemId) (placed : Model V) :
    Except Error Answer × Model V :=
  if ¬ (l.toNat < g.L ∧ x.toNat < g.CAPACITY) then (.error .invalidArgument, m)
  else if m.Linked x then (.error .busy, m)
  else (.ok .unit, placed)

/-- The checks `remove` and `unlink` share; `l` is the list that held the item. -/
def removal (g : Sizes) (m : Model V) (x : ItemId) (answer : ListId → Answer) :
    Except Error Answer × Model V :=
  if ¬ x.toNat < g.CAPACITY then (.error .invalidArgument, m)
  else match m.home x with
    | none => (.error .notActive, m)
    | some l => (.ok (answer l), m.erase x)

def step (g : Sizes) (m : Model V) : Op V → Except Error Answer × Model V
  | .insert l x v => m.insertion g l x ((m.setValue x v).place l (m.above v) x)
  | .insertKeepingValue l x => m.insertion g l x (m.place l (m.above (m.value x)) x)
  | .insertEnd l x => m.insertion g l x (m.place l (m.atCursor l) x)
  | .insertSorted l x v => m.insertion g l x ((m.setValue x v).place l (m.aboveTail l v) x)
  | .moveToEnd l x =>
    if ¬ (l.toNat < g.L ∧ x.toNat < g.CAPACITY) then (.error .invalidArgument, m)
    else if x ∈ (m.rota l).items then (.ok (.moved true), m.moveToEnd l x)
    else (.ok (.moved false), m)
  | .remove x => m.removal g x fun l => .count ((m.erase x).rota l).items.length
  | .unlink x => m.removal g x fun _ => .unit
  | .setValue x v =>
    if ¬ x.toNat < g.CAPACITY then (.error .invalidArgument, m)
    else (.ok .unit, m.setValue x v)
  | .nextRoundRobin l =>
    if ¬ l.toNat < g.L then (.error .invalidArgument, m)
    else (.ok (.chosen (m.rota l).nextUp), m.advance l)

def ofMember (g : Sizes) (m : Model V) (x : ItemId) (reply : ListId → Reply V) :
    Except Error (Reply V) :=
  if ¬ x.toNat < g.CAPACITY then .error .invalidArgument
  else match m.home x with
    | none => .error .notActive
    | some l => .ok (reply l)

def ofList (g : Sizes) (l : ListId) (reply : Reply V) : Except Error (Reply V) :=
  if ¬ l.toNat < g.L then .error .invalidArgument else .ok reply

def ofItem (g : Sizes) (x : ItemId) (reply : Reply V) : Except Error (Reply V) :=
  if ¬ x.toNat < g.CAPACITY then .error .invalidArgument else .ok reply

def values (m : Model V) (l : ListId) : List V := (m.rota l).items.map m.value

def ask (g : Sizes) (m : Model V) : Query → Except Error (Reply V)
  | .value x => ofItem g x (.value (m.value x))
  | .container x => ofItem g x (.container (m.home x))
  | .isEmpty l => ofList g l (.flag ((m.rota l).items = []))
  | .isEmptyOf l => .ok (.flag ((m.rota l).items = []))
  | .len l => ofList g l (.count (m.rota l).items.length)
  | .head l => ofList g l (.item (m.rota l).items.head?)
  | .headValue l => ofList g l (.value ((m.values l).headD ListValue.MAX))
  | .tailValue l => ofList g l (.value ((m.values l).getLastD ListValue.MAX))
  | .isSorted l => ofList g l (.flag ((m.values l).Pairwise (· ≤ ·)))
  | .cursorOf l => ofList g l (.link ((m.rota l).cursor.getD (g.endOf l)))
  | .next x => m.ofMember g x fun l => .item (succ x (m.rota l).items)
  | .nextAndValue x => m.ofMember g x fun l => .itemValue (succ x (m.rota l).items) (m.value x)
  | .iter l => .ok (.items (m.rota l).items)

def run (g : Sizes) : List (Op V) → Model V → List (Except Error Answer) × Model V
  | [], m => ([], m)
  | op :: ops, m =>
    let first := m.step g op
    let rest := run g ops first.2
    (first.1 :: rest.1, rest.2)

def after (g : Sizes) (ops : List (Op V)) (m : Model V) : Model V := (run g ops m).2

end Model

end RtosCore
