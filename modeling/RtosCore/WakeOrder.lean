import RtosCore.ListEffects
import RtosCore.RotaOrder
import Mathlib.Order.Bounds.Defs

/-! A delayed list wakes its items in order. As long as items only join it by the ordered
inserts and keep their values while they wait, the list stands in order of value and, within
one value, of arrival; taking the head off while it is due takes exactly the due items. -/

namespace RtosCore

variable {V : Type} [ListValue V] {g : Sizes}

namespace Op

def enters {ε : Type} (l : ListId) (op : Op V) (answer : Except ε Answer) : Option ItemId :=
  match op.inserts, answer with
  | some (k, x), .ok .unit => if k = l then some x else none
  | _, _ => none

/-- The calls that respect the order of list `l`, which now holds `members`. -/
def Timed (l : ListId) (members : List ItemId) : Op V → Prop
  | .insertEnd k _ | .moveToEnd k _ => k ≠ l
  | .setValue x _ => x ∉ members
  | _ => True

end Op

namespace ListsOf

def insertedAt (b : Build) (l : ListId) :
    ℕ → List (Op V) → ListsOf V g → (ItemId → ℕ) → ItemId → ℕ
  | _, [], _, time => time
  | now, op :: ops, s, time =>
    insertedAt b l (now + 1) ops (call b op s).2
      fun x => if op.enters l (call b op s).1 = some x then now else time x

def TimedRun (b : Build) (l : ListId) : List (Op V) → ListsOf V g → Prop
  | [], _ => True
  | op :: ops, s =>
    (op.Timed l (s.visited l) ∨ Refusal (call b op s).1) ∧ TimedRun b l ops (call b op s).2

/-- Take the head off while its value is at most `t`; the items taken, in turn. A head value
at most `t` on a list without a head would be a fault. -/
def drain (b : Build) (l : ListId) (t : V) : ℕ → Call V g (List ItemId)
  | 0 => Call.diverges
  | fuel + 1 => do
    let v ← headValue b l
    if v ≤ t then do
      match ← head b l with
      | none => Call.panic
      | some x =>
        let _ ← call b (.remove x)
        let woken ← drain b l t fuel
        return x :: woken
    else
      return []

def Drains (b : Build) (l : ListId) (t : V) (fuel : ℕ) (s : ListsOf V g) : Prop :=
  ∃ s', drain b l t fuel s = (.ok ((s.visited l).filter (s.valueOf · ≤ t)), s') ∧
    s'.visited l = (s.visited l).filter (t < s.valueOf ·) ∧
    (∀ k : ListId, k ≠ l → s'.visited k = s.visited k) ∧
    ∀ x : ItemId, x.toNat < g.CAPACITY → s'.valueOf x = s.valueOf x

structure WakesInOrder (b : Build) (l : ListId) (time : ItemId → ℕ) (s : ListsOf V g) : Prop where
  members : ∀ x : ItemId, x ∈ s.visited l ↔ x.toNat < g.CAPACITY ∧ s.containerOf x = l
  order : (s.visited l).Pairwise (Before s.valueOf time)
  isSorted : (query b (.isSorted l) s).1 = .ok (.flag true)
  empty : s.visited l = [] → (query b (.headValue l) s).1 = .ok (.value ListValue.MAX)
  least : s.visited l ≠ [] → ∃ v, (query b (.headValue l) s).1 = .ok (.value v) ∧
    IsLeast {w | ∃ x ∈ s.visited l, s.valueOf x = w} v
  drains : ∀ t < ListValue.MAX, ∀ fuel, (s.visited l).length < fuel → Drains b l t fuel s

end ListsOf

omit [ListValue V] in
theorem Op.enters_refused {ε : Type} {l : ListId} {op : Op V} {a : Except ε Answer}
    (refusal : Refusal a) : op.enters l a = none := by
  unfold enters
  split
  · exact refusal.elim
  · rfl

namespace Model

variable {m : Model V} {l k : ListId} {x : ItemId} {time : ItemId → ℕ} {now : ℕ}

theorem order_placed {p : ItemId → Bool} (h : InOrder m.value time now (m.rota l).items)
    (free : ¬ m.Linked x) (v : Option V)
    (key : k = l → ∀ y ∈ (m.rota l).items, p y = decide ((m.keeping x v).value x < m.value y)) :
    InOrder ((m.keeping x v).place k p x).value (fun y => if k = l ∧ y = x then now else time y)
      (now + 1) (((m.keeping x v).place k p x).rota l).items := by
  have hx : x ∉ (m.rota l).items := notMem_of_free free
  have ne : ∀ y ∈ (m.rota l).items, y ≠ x := fun y hy e => hx (e ▸ hy)
  have value : ∀ y ∈ (m.rota l).items, (m.keeping x v).value y = m.value y := fun y hy =>
    keeping_value_ne (ne y hy) v
  have free' : ¬ (m.keeping x v).Linked x := by simpa [Linked] using free
  rw [place_value]
  rcases eq_or_ne l k with rfl | hlk
  · have old : InOrder (m.keeping x v).value (fun y => if l = l ∧ y = x then now else time y) now
        (m.rota l).items :=
      h.stay (List.Sublist.refl _) value (fun y hy => if_neg fun e => ne y hy e.2) le_rfl
    rw [place_rota free', if_pos rfl, Refines.keeping_rota, Rota.place_items hx,
      insertBefore_congr fun y hy => by rw [key rfl y hy, ← value y hy]]
    exact old.insert (if_pos ⟨rfl, rfl⟩)
  · rw [place_rota_ne hlk, Refines.keeping_rota]
    exact h.stay (List.Sublist.refl _) value (fun y _ => if_neg fun e => hlk e.1.symm)
      (Nat.le_succ now)

theorem order_stay {m' : Model V} {op : Op V} {a : Except Error Answer}
    (h : InOrder m.value time now (m.rota l).items) (none : op.enters l a = none)
    (sub : (m'.rota l).items.Sublist (m.rota l).items)
    (same : ∀ y ∈ (m'.rota l).items, m'.value y = m.value y) :
    InOrder m'.value (fun y => if op.enters l a = some y then now else time y) (now + 1)
      (m'.rota l).items :=
  h.stay sub same (fun y _ => if_neg (by simp [none])) (Nat.le_succ now)

theorem aboveTail_eq (h : InOrder m.value time now (m.rota l).items) (v : V) :
    ∀ y ∈ (m.rota l).items, m.aboveTail l v y = m.above v y := by
  intro y hy
  rw [aboveTail]
  cases last : (m.rota l).items.getLast? with
  | none => rfl
  | some z =>
    by_cases hz : m.value z ≤ v
    · have le := h.le_of_last last hz y hy
      simp [hz, above, le.not_gt]
    · simp [hz, above]

theorem behind_eq {op : Op V} (h : InOrder m.value time now (m.rota l).items)
    (timed : op.Timed l (m.rota l).items) (names : op.inserts = some (l, x)) :
    ∀ y ∈ (m.rota l).items,
      m.behind op y = decide ((m.keeping x op.given).value x < m.value y) := by
  intro y hy
  cases op with
  | insert k z v =>
    cases names
    rw [Op.given, keeping, setValue_value, if_pos rfl]
    rfl
  | insertKeepingValue k z =>
    cases names
    rfl
  | insertEnd k z =>
    cases names
    exact absurd rfl timed
  | insertSorted k z v =>
    cases names
    rw [Op.given, keeping, setValue_value, if_pos rfl, behind, aboveTail_eq h v y hy, above]
  | _ => cases names

omit [ListValue V] in
theorem enters_joined {op : Op V} (names : op.inserts = some (k, x)) (y : ItemId) :
    op.enters l (.ok .unit : Except Error Answer) = some y ↔ k = l ∧ y = x := by
  simp only [Op.enters, names]
  split
  · rename_i hk
    simp [hk, eq_comm]
  · rename_i hk
    simp [hk]

theorem Effect.inOrder {m' : Model V} {op : Op V} {a : Except Error Answer}
    (effect : Effect m op a m') (h : InOrder m.value time now (m.rota l).items)
    (timed : op.Timed l (m.rota l).items) :
    InOrder m'.value (fun y => if op.enters l a = some y then now else time y) (now + 1)
      (m'.rota l).items := by
  cases effect with
  | refused e => exact order_stay h (Op.enters_refused trivial) (List.Sublist.refl _) fun _ _ => rfl
  | stayed => exact order_stay h rfl (List.Sublist.refl _) fun _ _ => rfl
  | @joined _ k x names free =>
    have placed := order_placed (k := k) (p := m.behind op) h free op.given fun hk =>
      behind_eq h timed (hk ▸ names)
    simpa only [enters_joined names] using placed
  | left names =>
    refine order_stay h ?_ List.erase_sublist fun _ _ => rfl
    cases op with
    | remove | unlink => rfl
    | _ => cases names
  | @moved k x member =>
    have same : (m.moveToEnd k x).rota l = m.rota l := rota_moveToEnd_ne member (Ne.symm timed)
    refine order_stay h rfl (same ▸ List.Sublist.refl _) fun _ _ => ?_
    rw [moveToEnd, place_value, erase_value]
  | valued x v =>
    refine order_stay h rfl (List.Sublist.refl _) fun y hy => ?_
    exact (setValue_value v).trans (if_neg fun e : y = x => timed (e ▸ hy))
  | advanced k =>
    refine order_stay h rfl ?_ fun _ _ => rfl
    rw [advance_items]

end Model

namespace Refines

open ListsOf

variable {s : ListsOf V g} {m : Model V} {l : ListId} {x : ItemId} {b : Build}
  {time : ItemId → ℕ} {now : ℕ} {ops : List (Op V)}

theorem enters_eq (h : Refines s m) (op : Op V) :
    op.enters l (ListsOf.call b op s).1 = op.enters l (m.step g op).1 := by
  rw [h.call_answer]
  unfold Op.enters
  cases op.inserts with
  | none => rfl
  | some place =>
    rcases (m.step g op).1 with e | a
    · rfl
    · cases a <;> rfl

theorem order_run (h : Refines s m) (order : InOrder m.value time now (m.rota l).items)
    (timed : TimedRun b l ops s) :
    ∃ m', Refines (ListsOf.after b ops s) m' ∧
      InOrder m'.value (insertedAt b l now ops s time) (now + ops.length) (m'.rota l).items := by
  induction ops generalizing s m time now with
  | nil => exact ⟨m, h, order⟩
  | cons op ops ih =>
    have next : ∀ m', Refines (ListsOf.call b op s).2 m' →
        InOrder m'.value
          (fun x => if op.enters l (ListsOf.call b op s).1 = some x then now else time x)
          (now + 1) (m'.rota l).items →
        ∃ m', Refines (ListsOf.after b (op :: ops) s) m' ∧
          InOrder m'.value (insertedAt b l now (op :: ops) s time) (now + (op :: ops).length)
            (m'.rota l).items := by
      intro m' refines order'
      have run := ih refines order' timed.2
      rwa [Nat.add_assoc, Nat.add_comm 1] at run
    rcases timed.1 with timed | refusal
    · rw [h.visited_eq] at timed
      refine next _ (h.call b op).refines ?_
      rw [h.enters_eq]
      exact (m.step_effect g op).inOrder order timed
    · have unchanged := (h.call b op).refused ((h.refusal_iff op).mp refusal)
      refine next m (unchanged.symm ▸ h) ?_
      exact order.stay (List.Sublist.refl _) (fun _ _ => rfl)
        (fun y _ => if_neg (by simp [Op.enters_refused refusal])) (Nat.le_succ now)

theorem remove_member (h : Refines s m) (hx : x ∈ (m.rota l).items) (b : Build) :
    ∃ a s', ListsOf.call b (.remove x) s = (.ok a, s') ∧ Refines s' (m.erase x) := by
  obtain ⟨a, step⟩ : ∃ a, m.step g (.remove x) = (.ok a, m.erase x) :=
    Model.step_leaves rfl (h.item_lt hx) (Model.linked_of_mem hx)
  have follows := h.call b (.remove x)
  rw [step] at follows
  exact ⟨_, _, follows.answer b, follows.refines⟩

theorem drain_eq (h : Refines s m) (hl : l.toNat < g.L) {t : V} (ht : t < ListValue.MAX)
    (sorted : (m.values l).Pairwise (· ≤ ·)) {fuel : ℕ}
    (enough : (m.rota l).items.length < fuel) :
    ∃ s' m', drain b l t fuel s = (.ok ((m.rota l).items.filter (m.value · ≤ t)), s') ∧
      Refines s' m' ∧ (m'.rota l).items = (m.rota l).items.filter (t < m.value ·) ∧
      (∀ k, k ≠ l → m'.rota k = m.rota k) ∧ m'.value = m.value := by
  induction fuel generalizing s m with
  | zero => exact absurd enough (Nat.not_lt_zero _)
  | succ fuel ih =>
    have headValue := h.headValue_eq (b := b) hl
    unfold Model.values at sorted headValue
    cases items : (m.rota l).items with
    | nil =>
      rw [items, List.map_nil, List.headD_nil] at headValue
      refine ⟨s, m, ?_, h, items, fun _ _ => rfl, rfl⟩
      rw [drain, Call.bind_ok headValue, if_neg ht.not_ge]
      rfl
    | cons x xs =>
      rw [items, List.map_cons, List.headD_cons] at headValue
      rw [items, List.map_cons, List.pairwise_cons] at sorted
      obtain ⟨least, sorted⟩ := sorted
      by_cases due : m.value x ≤ t
      · have hx : x ∈ (m.rota l).items := items ▸ List.mem_cons_self
        have head := h.head_eq (b := b) hl
        rw [items, List.head?_cons] at head
        obtain ⟨a, s₁, removed, refines⟩ := h.remove_member hx b
        have left : ((m.erase x).rota l).items = xs := by
          rw [Model.erase_rota hx, if_pos rfl, Rota.erase_items, items, List.erase_cons_head]
        rw [items, List.length_cons] at enough
        obtain ⟨s', m', woken, refines', rest, others, values⟩ :=
          ih refines (by rwa [Model.values, left]) (by rw [left]; omega)
        rw [left] at woken rest
        refine ⟨s', m', ?_, refines', ?_, fun k hk => ?_, values⟩
        · rw [drain, Call.bind_ok headValue, if_pos due, Call.bind_ok head]
          change (ListsOf.call b (.remove x) >>= fun _ => _) s = _
          rw [Call.bind_ok removed, Call.bind_ok woken, List.filter_cons_of_pos (by simpa using due)]
          rfl
        · rw [rest, List.filter_cons_of_neg (by simpa using due)]
          rfl
        · rw [others k hk, Model.erase_rota hx, if_neg hk]
      · -- Nothing behind the head is due either.
        have later : ∀ y ∈ x :: xs, t < m.value y := by
          intro y hy
          rcases List.mem_cons.mp hy with rfl | hy
          · exact not_le.mp due
          · exact (not_le.mp due).trans_le (least _ (List.mem_map_of_mem hy))
        refine ⟨s, m, ?_, h, ?_, fun _ _ => rfl, rfl⟩
        · rw [drain, Call.bind_ok headValue, if_neg due,
            List.filter_eq_nil_iff.mpr fun y hy => by simpa using later y hy]
          rfl
        · rw [items, List.filter_eq_self.mpr fun y hy => by simpa using later y hy]

theorem drains (h : Refines s m) (hl : l.toNat < g.L) {t : V} (ht : t < ListValue.MAX)
    (sorted : (m.values l).Pairwise (· ≤ ·)) {fuel : ℕ} (enough : (s.visited l).length < fuel) :
    Drains b l t fuel s := by
  have value : ∀ x ∈ (m.rota l).items, s.valueOf x = m.value x := fun x hx =>
    h.value x (h.item_lt hx)
  rw [h.visited_eq] at enough
  obtain ⟨s', m', woken, refines, rest, others, values⟩ := h.drain_eq (b := b) hl ht sorted enough
  refine ⟨s', ?_, ?_, fun k hk => ?_, fun x hx => ?_⟩
  · rw [woken, h.visited_eq]
    refine congrArg (fun woken => (Except.ok woken, s')) (List.filter_congr fun x hx => ?_)
    rw [value x hx]
  · rw [refines.visited_eq, h.visited_eq, rest]
    refine List.filter_congr fun x hx => ?_
    rw [value x hx]
  · rw [refines.visited_eq, h.visited_eq, others k hk]
  · rw [refines.value x hx, h.value x hx, values]

theorem wakesInOrder (h : Refines s m) (hl : l.toNat < g.L)
    (order : InOrder m.value time now (m.rota l).items) : WakesInOrder b l time s := by
  have value : ∀ x ∈ (m.rota l).items, s.valueOf x = m.value x := fun x hx =>
    h.value x (h.item_lt hx)
  have ask : ∀ reply : Reply V, Model.ofList g l reply = .ok reply := fun reply =>
    if_neg (not_not.mpr hl)
  have headValue : (ListsOf.query b (.headValue l) s).1 =
      .ok (.value ((m.values l).headD ListValue.MAX)) := by
    rw [h.query_eq, Model.ask, ask]
    rfl
  constructor
  case members => exact h.ringInvariant.mem_visited l hl
  case order =>
    rw [h.visited_eq]
    refine order.sorted.imp_of_mem fun {x y} hx hy before => ?_
    rwa [Before, value x hx, value y hy]
  case isSorted =>
    rw [h.query_eq, Model.ask, ask, Model.values, decide_eq_true order.values_sorted]
    rfl
  case empty =>
    intro none
    rw [h.visited_eq] at none
    rw [headValue, Model.values, none]
    rfl
  case least =>
    intro some
    refine ⟨_, headValue, ?_⟩
    rw [h.visited_eq] at some ⊢
    have sorted := order.values_sorted
    rw [Model.values]
    cases items : (m.rota l).items with
    | nil => exact absurd items some
    | cons x xs =>
      rw [items] at value sorted
      constructor
      · exact ⟨x, List.mem_cons_self, value x List.mem_cons_self⟩
      · rintro w ⟨y, hy, rfl⟩
        rw [List.map_cons, List.headD_cons, value y hy]
        rcases List.mem_cons.mp hy with rfl | hy
        · exact le_rfl
        · exact (List.pairwise_cons.mp sorted).1 _ (List.mem_map_of_mem hy)
  case drains => exact fun t ht fuel enough => h.drains hl ht order.values_sorted enough

end Refines

/-- After any run in which list `l` was only ever joined in order, it wakes in order. -/
theorem delayed_list_wakes_in_order (b : Build) (l : ListId) (hl : l.toNat < g.L)
    (ops : List (Op V)) (timed : ListsOf.TimedRun b l ops (ListsOf.new : ListsOf V g)) :
    let s : ListsOf V g := ListsOf.new
    (ListsOf.after b ops s).WakesInOrder b l (ListsOf.insertedAt b l 0 ops s fun _ => 0) := by
  intro s
  have start : InOrder (Model.initial : Model V).value (fun _ => 0) 0
      ((Model.initial : Model V).rota l).items := InOrder.nil
  obtain ⟨m, refines, order⟩ := new_refines.order_run start timed
  exact refines.wakesInOrder hl order

theorem delayed_list_wakes_in_order_small :
    let s : ListsOf UInt32 Sizes.small := ListsOf.new
    let ops : List (Op UInt32) :=
      [.insert 0 0 5, .insertSorted 0 1 5, .nextRoundRobin 0, .remove 0, .setValue 0 3,
        .insertKeepingValue 0 0, .insertEnd 1 0]
    (ListsOf.after ⟨true, true⟩ ops s).WakesInOrder ⟨true, true⟩ 0
      (ListsOf.insertedAt ⟨true, true⟩ 0 0 ops s fun _ => 0) :=
  delayed_list_wakes_in_order ⟨true, true⟩ 0 (by decide) _
    ⟨Or.inl trivial, Or.inl trivial, Or.inl trivial, Or.inl trivial,
      Or.inl (show (0 : ItemId) ∉ _ by decide), Or.inl trivial,
      Or.inl (show (1 : ListId) ≠ 0 by decide), trivial⟩

end RtosCore
