import RtosCore.ListInvariant

/-! What a caller of the lists may rely on. Every script of calls answers as `list.c` reads
when its lists are plain sequences, and a call that answers no has changed nothing. -/

namespace RtosCore

variable {V : Type} [ListValue V] {g : Sizes}

/-- Two items and two lists, the smallest sizes with more than one of each. -/
def Sizes.small : Sizes := ⟨4, 2, ⟨2, rfl⟩, by decide, by decide, by decide, by decide⟩

theorem small_cases {x : UInt16} (hx : x.toNat < Sizes.small.CAPACITY) : x = 0 ∨ x = 1 := by
  have two : x.toNat < 2 := hx
  simp only [← UInt16.toNat_inj]
  change x.toNat = 0 ∨ x.toNat = 1
  omega

def Sizes.medium : Sizes := ⟨8, 3, ⟨3, rfl⟩, by decide, by decide, by decide, by decide⟩

def Op.inserts : Op V → Option (ListId × ItemId)
  | .insert l x _ | .insertKeepingValue l x | .insertEnd l x | .insertSorted l x _ => some (l, x)
  | _ => none

def Op.removes : Op V → Option ItemId
  | .remove x | .unlink x => some x
  | _ => none

namespace ListsOf

def InRange (g : Sizes) (l : ListId) (x : ItemId) : Prop := l.toNat < g.L ∧ x.toNat < g.CAPACITY

instance (l : ListId) (x : ItemId) : Decidable (InRange g l x) :=
  inferInstanceAs (Decidable (_ ∧ _))

def InSomeList (s : ListsOf V g) (x : ItemId) : Prop :=
  ∃ l : ListId, l.toNat < g.L ∧ x ∈ s.visited l

structure ExactErrors (b : Build) (s : ListsOf V g) : Prop where
  insert_invalid : ∀ op l x, op.inserts = some (l, x) →
    ((call b op s).1 = .error (.err .invalidArgument) ↔ ¬ InRange g l x)
  insert_busy : ∀ op l x, op.inserts = some (l, x) →
    ((call b op s).1 = .error (.err .busy) ↔ InRange g l x ∧ s.InSomeList x)
  insert_ok : ∀ op l x, op.inserts = some (l, x) →
    ((call b op s).1 = .ok .unit ↔ InRange g l x ∧ ¬ s.InSomeList x)
  remove_invalid : ∀ op x, op.removes = some x →
    ((call b op s).1 = .error (.err .invalidArgument) ↔ ¬ x.toNat < g.CAPACITY)
  remove_notActive : ∀ op x, op.removes = some x →
    ((call b op s).1 = .error (.err .notActive) ↔ x.toNat < g.CAPACITY ∧ ¬ s.InSomeList x)
  remove_ok : ∀ op x, op.removes = some x →
    ((∃ a, (call b op s).1 = .ok a) ↔ x.toNat < g.CAPACITY ∧ s.InSomeList x)
  move_invalid : ∀ l x,
    (call b (.moveToEnd l x) s).1 = .error (.err .invalidArgument) ↔ ¬ InRange g l x
  move_false : ∀ l x,
    (call b (.moveToEnd l x) s).1 = .ok (.moved false) ↔ InRange g l x ∧ x ∉ s.visited l
  move_true : ∀ l x,
    (call b (.moveToEnd l x) s).1 = .ok (.moved true) ↔ InRange g l x ∧ x ∈ s.visited l
  next_invalid : ∀ l,
    (call b (.nextRoundRobin l) s).1 = .error (.err .invalidArgument) ↔ ¬ l.toNat < g.L
  next_none : ∀ l,
    (call b (.nextRoundRobin l) s).1 = .ok (.chosen none) ↔ l.toNat < g.L ∧ s.visited l = []
  next_some : ∀ l, (∃ x, (call b (.nextRoundRobin l) s).1 = .ok (.chosen (some x))) ↔
    l.toNat < g.L ∧ s.visited l ≠ []
  unchanged : ∀ op, Refusal (call b op s).1 → (call b op s).2 = s

end ListsOf

namespace Model

variable {m : Model V} {l : ListId} {x : ItemId}

theorem step_insertion {op : Op V} (hop : op.inserts = some (l, x)) (m : Model V) :
    ∃ placed, m.step g op = m.insertion g l x placed := by
  cases op <;> simp only [Op.inserts, Option.some.injEq, Prod.mk.injEq, reduceCtorEq] at hop <;>
    (obtain ⟨rfl, rfl⟩ := hop; exact ⟨_, rfl⟩)

theorem step_removal {op : Op V} (hop : op.removes = some x) (m : Model V) :
    ∃ answer, m.step g op = m.removal g x answer := by
  cases op <;> simp only [Op.removes, Option.some.injEq, reduceCtorEq] at hop <;>
    (subst hop; exact ⟨_, rfl⟩)

omit [ListValue V] in
theorem insertion_answer (placed : Model V) : (m.insertion g l x placed).1 =
    if ¬ ListsOf.InRange g l x then .error .invalidArgument
    else if m.Linked x then .error .busy else .ok .unit := by
  rw [insertion, apply_ite Prod.fst, apply_ite Prod.fst]
  rfl

omit [ListValue V] in
theorem removal_answer (answer : ListId → Answer) :
    ∃ a, (m.removal g x answer).1 =
      if ¬ x.toNat < g.CAPACITY then .error .invalidArgument
      else if m.Linked x then .ok a else .error .notActive := by
  rw [removal, apply_ite Prod.fst]
  cases home : m.home x with
  | none => exact ⟨.unit, by rw [if_neg (home_eq_none.mp home)]⟩
  | some l => exact ⟨answer l, by rw [if_pos (linked_of_mem (home_eq_some.mp home))]⟩

theorem moveToEnd_answer : (m.step g (.moveToEnd l x)).1 =
    if ¬ ListsOf.InRange g l x then .error .invalidArgument
    else if x ∈ (m.rota l).items then .ok (.moved true) else .ok (.moved false) := by
  rw [step, apply_ite Prod.fst, apply_ite Prod.fst]
  rfl

theorem nextRoundRobin_answer : (m.step g (.nextRoundRobin l)).1 =
    if ¬ l.toNat < g.L then .error .invalidArgument else .ok (.chosen (m.rota l).nextUp) := by
  rw [step, apply_ite Prod.fst]

end Model

theorem three_way {α : Type} {p q : Prop} [Decidable p] [Decidable q] {r a b c : α}
    (h : r = if ¬ p then a else if q then b else c) (ab : a ≠ b) (ac : a ≠ c) (bc : b ≠ c) :
    (r = a ↔ ¬ p) ∧ (r = b ↔ p ∧ q) ∧ (r = c ↔ p ∧ ¬ q) := by
  by_cases hp : p
  · by_cases hq : q
    · simp only [h, hp, hq, not_true_eq_false, if_true, if_false]
      tauto
    · simp only [h, hp, hq, not_true_eq_false, if_false]
      tauto
  · simp only [h, hp, not_false_eq_true, if_true]
    tauto

namespace Refines

open ListsOf

variable {s : ListsOf V g} {m : Model V} {l : ListId} {x : ItemId} {b : Build}

theorem inSomeList_iff (h : Refines s m) : s.InSomeList x ↔ m.Linked x := by
  constructor
  · rintro ⟨l, -, hx⟩
    exact ⟨l, h.visited_eq l ▸ hx⟩
  · rintro ⟨l, hx⟩
    exact ⟨l, (h.bounds l x hx).1, (h.visited_eq l).symm ▸ hx⟩

theorem insertion_outcome (h : Refines s m) {op : Op V} (hop : op.inserts = some (l, x)) :
    (ListsOf.call b op s).1 =
      if ¬ InRange g l x then .error (.err .invalidArgument)
      else if m.Linked x then .error (.err .busy) else .ok .unit := by
  obtain ⟨placed, step⟩ := Model.step_insertion hop m
  rw [h.call_answer, step, Model.insertion_answer, apply_ite (Except.mapError Exit.err),
    apply_ite (Except.mapError Exit.err)]
  rfl

theorem removal_outcome (h : Refines s m) {op : Op V} (hop : op.removes = some x) :
    ∃ a, (ListsOf.call b op s).1 =
      if ¬ x.toNat < g.CAPACITY then .error (.err .invalidArgument)
      else if m.Linked x then .ok a else .error (.err .notActive) := by
  obtain ⟨answer, step⟩ := Model.step_removal hop m
  obtain ⟨a, answered⟩ := m.removal_answer (g := g) (x := x) answer
  refine ⟨a, ?_⟩
  rw [h.call_answer, step, answered, apply_ite (Except.mapError Exit.err),
    apply_ite (Except.mapError Exit.err)]
  rfl

theorem moveToEnd_outcome (h : Refines s m) : (ListsOf.call b (.moveToEnd l x) s).1 =
    if ¬ InRange g l x then .error (.err .invalidArgument)
    else if x ∈ s.visited l then .ok (.moved true) else .ok (.moved false) := by
  rw [h.call_answer, Model.moveToEnd_answer, apply_ite (Except.mapError Exit.err),
    apply_ite (Except.mapError Exit.err), h.visited_eq]
  rfl

theorem nextRoundRobin_outcome (h : Refines s m) (l : ListId) :
    ∃ x, (ListsOf.call b (.nextRoundRobin l) s).1 =
      if ¬ l.toNat < g.L then .error (.err .invalidArgument)
      else if s.visited l = [] then .ok (.chosen none) else .ok (.chosen (some x)) := by
  rw [h.call_answer, Model.nextRoundRobin_answer, apply_ite (Except.mapError Exit.err),
    h.visited_eq]
  cases up : (m.rota l).nextUp with
  | none =>
    refine ⟨0, ?_⟩
    rw [if_pos (Rota.nextUp_eq_none.mp up)]
    rfl
  | some x =>
    have nonempty : (m.rota l).items ≠ [] := List.ne_nil_of_mem (Rota.nextUp_mem up)
    refine ⟨x, ?_⟩
    rw [if_neg nonempty]
    rfl

theorem refusal_iff (h : Refines s m) (op : Op V) :
    Refusal (ListsOf.call b op s).1 ↔ Refusal (m.step g op).1 := by
  rw [h.call_answer]
  rcases (m.step g op).1 with e | a
  · exact Iff.rfl
  · cases a <;> exact Iff.rfl

theorem nextRoundRobin_member (h : Refines s m) (hx : x ∈ (m.rota l).items) :
    (ListsOf.call b (.nextRoundRobin l) s).1 = .ok (.chosen (m.rota l).nextUp) := by
  rw [h.call_answer, Model.nextRoundRobin_answer, if_neg (not_not.mpr (h.bounds l x hx).1)]
  rfl

theorem nextRoundRobin_refines (h : Refines s m) (hx : x ∈ (m.rota l).items) :
    Refines (ListsOf.call b (.nextRoundRobin l) s).2 (m.advance l) := by
  have refines := (h.call b (.nextRoundRobin l)).refines
  rwa [Model.step, if_neg (not_not.mpr (h.bounds l x hx).1)] at refines

theorem exactErrors (h : Refines s m) (b : Build) : ExactErrors b s where
  insert_invalid op l x hop := (three_way (h.insertion_outcome hop) nofun nofun nofun).1
  insert_busy op l x hop := by
    rw [h.inSomeList_iff]
    exact (three_way (h.insertion_outcome hop) nofun nofun nofun).2.1
  insert_ok op l x hop := by
    rw [h.inSomeList_iff]
    exact (three_way (h.insertion_outcome hop) nofun nofun nofun).2.2
  remove_invalid op x hop := by
    obtain ⟨a, outcome⟩ := h.removal_outcome (b := b) hop
    exact (three_way outcome nofun nofun nofun).1
  remove_notActive op x hop := by
    obtain ⟨a, outcome⟩ := h.removal_outcome (b := b) hop
    rw [h.inSomeList_iff]
    exact (three_way outcome nofun nofun nofun).2.2
  remove_ok op x hop := by
    obtain ⟨a, outcome⟩ := h.removal_outcome (b := b) hop
    rw [h.inSomeList_iff, ← (three_way outcome nofun nofun nofun).2.1]
    constructor
    · rintro ⟨a', answered⟩
      rw [answered] at outcome ⊢
      split_ifs at outcome
      exact outcome
    · exact fun answered => ⟨a, answered⟩
  move_invalid l x := (three_way h.moveToEnd_outcome nofun nofun nofun).1
  move_false l x := (three_way h.moveToEnd_outcome nofun nofun nofun).2.2
  move_true l x := (three_way h.moveToEnd_outcome nofun nofun nofun).2.1
  next_invalid l := (three_way (h.nextRoundRobin_outcome l).choose_spec nofun nofun nofun).1
  next_none l := (three_way (h.nextRoundRobin_outcome l).choose_spec nofun nofun nofun).2.1
  next_some l := by
    obtain ⟨x, outcome⟩ := h.nextRoundRobin_outcome (b := b) l
    rw [ne_eq, ← (three_way outcome nofun nofun nofun).2.2]
    constructor
    · rintro ⟨y, answered⟩
      rw [answered] at outcome ⊢
      split_ifs at outcome
      · cases outcome
      · exact outcome
    · exact fun answered => ⟨x, answered⟩
  unchanged op refusal := (h.call b op).refused ((h.refusal_iff op).mp refusal)

end Refines

/-- Every script, and every question after it, is answered as the rotas answer it. -/
theorem lists_refine_list_c (b : Build) (ops : List (Op V)) :
    let s := ListsOf.after b ops (ListsOf.new : ListsOf V g)
    let m := (Model.initial : Model V).after g ops
    (ListsOf.run b ops (ListsOf.new : ListsOf V g)).1 =
        (Model.initial.run g ops).1.map (Except.mapError Exit.err) ∧
      Refines s m ∧
      ∀ q, ListsOf.query b q s = ((m.ask g q).mapError Exit.err, s) := by
  intro s m
  obtain ⟨answers, refines⟩ := (new_refines : Refines (ListsOf.new : ListsOf V g) _).run_follows b ops
  exact ⟨answers, refines, fun q => refines.query_eq q b⟩

/-- In every reachable state the answer says exactly what was wrong, and a refused call has
left every node, count and cursor alone. -/
theorem errors_are_exact (b : Build) (ops : List (Op V)) :
    (ListsOf.after b ops (ListsOf.new : ListsOf V g)).ExactErrors b :=
  (after_refines b ops).exactErrors b

end RtosCore
