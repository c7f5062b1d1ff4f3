import RtosCore.ListContract
import RtosCore.RotaTurns

/-! What one call does to the model, going by its answer. A refusal does nothing; every other call
does one of the things listed here. What holds over whole runs is derived from the list and not
from the calls. -/

namespace RtosCore

variable {V : Type} [ListValue V] {g : Sizes}

def Op.given : Op V → Option V
  | .insert _ _ v | .insertSorted _ _ v => some v
  | _ => none

namespace Model

/-- What the newcomer of an insert is put in front of. -/
def behind (m : Model V) : Op V → ItemId → Bool
  | .insert _ _ v => m.above v
  | .insertKeepingValue _ x => m.above (m.value x)
  | .insertEnd l _ => m.atCursor l
  | .insertSorted l _ v => m.aboveTail l v
  | _ => fun _ => false

inductive Effect (m : Model V) : Op V → Except Error Answer → Model V → Prop
  | refused {op : Op V} (e : Error) : Effect m op (.error e) m
  | joined {op : Op V} {l : ListId} {x : ItemId} (names : op.inserts = some (l, x))
      (free : ¬ m.Linked x) :
      Effect m op (.ok .unit) ((m.keeping x op.given).place l (m.behind op) x)
  | left {op : Op V} {x : ItemId} (names : op.removes = some x) (linked : m.Linked x) (a : Answer) :
      Effect m op (.ok a) (m.erase x)
  | moved {l : ListId} {x : ItemId} (member : x ∈ (m.rota l).items) :
      Effect m (.moveToEnd l x) (.ok (.moved true)) (m.moveToEnd l x)
  | stayed {l : ListId} {x : ItemId} (other : x ∉ (m.rota l).items) :
      Effect m (.moveToEnd l x) (.ok (.moved false)) m
  | valued (x : ItemId) (v : V) : Effect m (.setValue x v) (.ok .unit) (m.setValue x v)
  | advanced (l : ListId) :
      Effect m (.nextRoundRobin l) (.ok (.chosen (m.rota l).nextUp)) (m.advance l)

variable {m : Model V} {op : Op V} {l : ListId} {x y : ItemId} {answer : ListId → Answer}

omit [ListValue V] in
theorem keeping_value_ne (h : y ≠ x) (v : Option V) : (m.keeping x v).value y = m.value y := by
  cases v with
  | none => rfl
  | some v => exact (setValue_value v).trans (if_neg h)

theorem step_inserts (names : op.inserts = some (l, x)) (m : Model V) : m.step g op =
    m.insertion g l x ((m.keeping x op.given).place l (m.behind op) x) := by
  cases op with
  | insert | insertKeepingValue | insertEnd | insertSorted =>
    cases names
    rfl
  | _ => cases names

theorem effect_inserts (names : op.inserts = some (l, x)) :
    Effect m op (m.step g op).1 (m.step g op).2 := by
  rw [step_inserts names, insertion]
  split
  · exact .refused _
  · split
    · exact .refused _
    · rename_i free
      exact .joined names free

theorem effect_removes (names : op.removes = some x) :
    Effect m op (m.removal g x answer).1 (m.removal g x answer).2 := by
  unfold removal
  split
  · exact .refused _
  · split
    · exact .refused _
    · rename_i l home
      exact .left names (linked_of_mem (home_eq_some.mp home)) _

theorem step_effect (g : Sizes) (m : Model V) (op : Op V) :
    Effect m op (m.step g op).1 (m.step g op).2 := by
  cases op with
  | insert l x v => exact effect_inserts rfl
  | insertKeepingValue l x => exact effect_inserts rfl
  | insertEnd l x => exact effect_inserts rfl
  | insertSorted l x v => exact effect_inserts rfl
  | moveToEnd l x =>
    rw [step]
    split
    · exact .refused _
    · split
      · rename_i member
        exact .moved member
      · rename_i other
        exact .stayed other
  | remove x => exact effect_removes rfl
  | unlink x => exact effect_removes rfl
  | setValue x v =>
    rw [step]
    split
    · exact .refused _
    · exact .valued x v
  | nextRoundRobin l =>
    rw [step]
    split
    · exact .refused _
    · exact .advanced l

theorem step_joins (names : op.inserts = some (l, x)) (range : ListsOf.InRange g l x)
    (free : ¬ m.Linked x) :
    m.step g op = (.ok .unit, (m.keeping x op.given).place l (m.behind op) x) := by
  have inside : ¬ ¬ (l.toNat < g.L ∧ x.toNat < g.CAPACITY) := not_not.mpr range
  rw [step_inserts names, insertion, if_neg inside, if_neg free]

theorem step_leaves (names : op.removes = some x) (range : x.toNat < g.CAPACITY)
    (linked : m.Linked x) : ∃ a, m.step g op = (.ok a, m.erase x) := by
  obtain ⟨answer, step⟩ := step_removal names m
  obtain ⟨l, member⟩ := linked
  refine ⟨answer l, ?_⟩
  rw [step, removal, if_neg (not_not.mpr range), home_eq_some.mpr member]

theorem step_moves (range : ListsOf.InRange g l x) (member : x ∈ (m.rota l).items) :
    m.step g (.moveToEnd l x) = (.ok (.moved true), m.moveToEnd l x) := by
  have inside : ¬ ¬ (l.toNat < g.L ∧ x.toNat < g.CAPACITY) := not_not.mpr range
  rw [step, if_neg inside, if_pos member]

theorem rota_setValue (x : ItemId) (v : V) : (m.step g (.setValue x v)).2.rota = m.rota := by
  rw [step]
  split <;> rfl

/-- `insert_end` puts a free item in front of the cursor. -/
theorem rota_insertEnd (free : ¬ m.Linked x) :
    ((m.keeping x (Op.insertEnd l x : Op V).given).place l (m.behind (.insertEnd l x)) x).rota l =
      (m.rota l).place (m.rota l).atCursor x := by
  change (m.place l (m.atCursor l) x).rota l = _
  rw [place_rota free, if_pos rfl]
  rfl

omit [ListValue V] in
theorem rota_moveToEnd :
    (m.moveToEnd l x).rota l = ((m.rota l).erase x).place ((m.rota l).erase x).atCursor x := by
  rw [moveToEnd, place_rota not_linked_erase, if_pos rfl]
  rfl

omit [ListValue V] in
theorem rota_moveToEnd_ne {k : ListId} (member : x ∈ (m.rota l).items) (other : k ≠ l) :
    (m.moveToEnd l x).rota k = m.rota k := by
  rw [moveToEnd, place_rota_ne other, erase_rota_of_notMem fun h => other (m.disjoint k l x h member)]

end Model

end RtosCore
