import RtosCore.Shortcuts

/-! When the shortcut shows. `insert_sorted` leaves another state than `insert` exactly when it is
accepted, the tail lets it append, and yet a larger value stands further in front. Until that
happens a run may use either, call by call, and in a list that is only entered by value it never
happens. -/

namespace RtosCore

variable {V : Type} [ListValue V] {g : Sizes}

section Lists

variable {α : Type*} {p : α → Bool} {x : α} {l : List α}

theorem getLast?_insertBefore (front : ∃ y ∈ l, p y) (x : α) :
    (insertBefore p x l).getLast? = l.getLast? := by
  have behind : l.dropWhile (fun y => !p y) ≠ [] := by
    obtain ⟨y, hy, py⟩ := front
    intro none
    have := List.dropWhile_eq_nil_iff.mp none y hy
    simp [py] at this
  conv_rhs => rw [← List.takeWhile_append_dropWhile (p := fun y => !p y) (l := l)]
  rw [insertBefore, List.getLast?_append_of_ne_nil _ (List.cons_ne_nil _ _),
    List.getLast?_append_of_ne_nil _ behind]
  obtain ⟨y, ys, rest⟩ := List.exists_cons_of_ne_nil behind
  rw [rest, List.getLast?_cons_cons]

end Lists

inductive Op.Swaps (lists : ListId → Prop) : Op V → Op V → Prop
  | same (op : Op V) : Swaps lists op op
  | quick {l : ListId} (x : ItemId) (v : V) (here : lists l) :
      Swaps lists (.insert l x v) (.insertSorted l x v)
  | slow {l : ListId} (x : ItemId) (v : V) (here : lists l) :
      Swaps lists (.insertSorted l x v) (.insert l x v)

def Op.sorts : Op V → Option (ListId × ItemId × V)
  | .insert l x v | .insertSorted l x v => some (l, x, v)
  | _ => none

namespace ListsOf

/-- The tail would let `v` pass, although a larger value stands further in front. -/
def Misleads (s : ListsOf V g) (l : ListId) (v : V) : Prop :=
  (∃ z ∈ (s.visited l).getLast?, s.valueOf z ≤ v) ∧ ∃ y ∈ s.visited l, v < s.valueOf y

/-- Where the scripts use different calls, the call is refused or the tail does not mislead. -/
def Agrees (b : Build) : List (Op V) → List (Op V) → ListsOf V g → Prop
  | op :: ops, op' :: ops', s =>
    (op = op' ∨ ∀ l x v, op.sorts = some (l, x, v) →
      (call b op s).1 = .ok .unit → ¬ s.Misleads l v) ∧
    Agrees b ops ops' (call b op s).2
  | _, _, _ => True

end ListsOf

namespace Model

variable {m : Model V} {l : ListId} {x : ItemId} {v : V}

def Misleads (m : Model V) (l : ListId) (v : V) : Prop :=
  (∃ z ∈ (m.rota l).items.getLast?, m.value z ≤ v) ∧ ∃ y ∈ (m.rota l).items, v < m.value y

theorem aboveTail_of_not_misleads (right : ¬ m.Misleads l v) :
    ∀ y ∈ (m.rota l).items, m.aboveTail l v y = m.above v y := by
  intro y hy
  rw [aboveTail]
  cases last : (m.rota l).items.getLast? with
  | none => rfl
  | some z =>
    by_cases passes : m.value z ≤ v
    · have small : ¬ v < m.value y := fun large => right ⟨⟨z, last, passes⟩, y, hy, large⟩
      simp [passes, above, small]
    · simp [passes]

theorem not_misleads_of_sorted (sorted : (m.values l).Pairwise (· ≤ ·)) : ¬ m.Misleads l v := by
  rintro ⟨⟨z, last, passes⟩, y, hy, large⟩
  have order := InOrder.of_sorted sorted (m.rota l).nodup
  exact absurd large (order.le_of_last last passes y hy).not_gt

theorem step_insertSorted
    (right : ListsOf.InRange g l x → ¬ m.Linked x → ¬ m.Misleads l v) :
    m.step g (.insertSorted l x v) = m.step g (.insert l x v) := by
  rw [step, step, insertion, insertion]
  by_cases range : l.toNat < g.L ∧ x.toNat < g.CAPACITY
  · by_cases free : m.Linked x
    · rw [if_pos free, if_pos free]
    · have agree := aboveTail_of_not_misleads (right range free)
      have free' : ¬ (m.setValue x v).Linked x := free
      have same : (m.setValue x v).place l (m.aboveTail l v) x =
          (m.setValue x v).place l (m.above v) x := by
        ext1
        · funext k
          rw [place_rota free', place_rota free']
          exact if_congr Iff.rfl (Rota.place_congr agree) rfl
        · rw [place_value, place_value]
      rw [same]
  · rw [if_pos range, if_pos range]

theorem items_misled (range : ListsOf.InRange g l x) (free : ¬ m.Linked x)
    (wrong : m.Misleads l v) : ((m.step g (.insertSorted l x v)).2.rota l).items ≠
      ((m.step g (.insert l x v)).2.rota l).items := by
  have hx : x ∉ (m.rota l).items := notMem_of_free free
  have free' : ¬ (m.setValue x v).Linked x := free
  have rota : ∀ p : ItemId → Bool, (((m.setValue x v).place l p x).rota l).items =
      insertBefore p x (m.rota l).items := by
    intro p
    rw [place_rota free', if_pos rfl]
    exact Rota.place_items hx
  have shortcut : (m.step g (.insertSorted l x v)).2 =
      (m.setValue x v).place l (m.aboveTail l v) x := by
    rw [step_joins rfl range free]
    rfl
  have walk : (m.step g (.insert l x v)).2 = (m.setValue x v).place l (m.above v) x := by
    rw [step_joins rfl range free]
    rfl
  obtain ⟨⟨z, last, passes⟩, y, hy, large⟩ := wrong
  have appends : ∀ w ∈ (m.rota l).items, m.aboveTail l v w = false := by
    intro w _
    rw [aboveTail, Option.mem_def.mp last]
    simp [passes]
  rw [shortcut, walk, rota, rota, insertBefore_none appends]
  intro same
  have ends := congrArg List.getLast? same
  rw [List.getLast?_concat, getLast?_insertBefore ⟨y, hy, decide_eq_true large⟩] at ends
  exact hx (List.mem_of_getLast? ends.symm)

end Model

namespace Refines

open ListsOf

variable {s : ListsOf V g} {m : Model V} {l : ListId} {x : ItemId} {v : V} {b : Build}
  {lists : ListId → Prop} {op op' : Op V} {ops ops' : List (Op V)}

theorem misleads_iff (h : Refines s m) : s.Misleads l v ↔ m.Misleads l v := by
  have value : ∀ y ∈ (m.rota l).items, s.valueOf y = m.value y := fun y hy =>
    h.value y (h.item_lt hy)
  rw [ListsOf.Misleads, Model.Misleads, h.visited_eq]
  refine and_congr (exists_congr fun z => and_congr_right fun last => ?_)
    (exists_congr fun y => and_congr_right fun hy => ?_)
  · rw [value z (List.mem_of_getLast? last)]
  · rw [value y hy]

theorem accepted_congr (h : Refines s m) {op op' : Op V} (names : op.inserts = some (l, x))
    (names' : op'.inserts = some (l, x)) :
    (ListsOf.call b op s).1 = .ok .unit ↔ (ListsOf.call b op' s).1 = .ok .unit := by
  rw [(h.exactErrors b).insert_ok op l x names, (h.exactErrors b).insert_ok op' l x names']

theorem insertSorted_eq (h : Refines s m)
    (right : (ListsOf.call b (.insert l x v) s).1 = .ok .unit → ¬ s.Misleads l v) :
    ListsOf.call b (.insertSorted l x v) s = ListsOf.call b (.insert l x v) s := by
  rw [(h.exactErrors b).insert_ok _ l x rfl, h.inSomeList_iff, h.misleads_iff] at right
  exact h.call_congr (Model.step_insertSorted fun range free => right ⟨range, free⟩)

theorem insertSorted_ne (h : Refines s m)
    (accepted : (ListsOf.call b (.insert l x v) s).1 = .ok .unit) (wrong : s.Misleads l v) :
    (ListsOf.call b (.insertSorted l x v) s).2 ≠ (ListsOf.call b (.insert l x v) s).2 := by
  intro same
  rw [(h.exactErrors b).insert_ok _ l x rfl, h.inSomeList_iff] at accepted
  have refines := (h.call b (.insertSorted l x v)).refines
  rw [same] at refines
  have walked := (h.call b (.insert l x v)).refines
  exact Model.items_misled accepted.1 accepted.2 (h.misleads_iff.mp wrong)
    ((refines.visited_eq l).symm.trans (walked.visited_eq l))

theorem call_swapped (h : Refines s m) (swaps : op.Swaps lists op')
    (agrees : op = op' ∨ ∀ l x v, op.sorts = some (l, x, v) →
      (ListsOf.call b op s).1 = .ok .unit → ¬ s.Misleads l v) :
    ListsOf.call b op' s = ListsOf.call b op s := by
  cases swaps with
  | same => rfl
  | @quick l x v _ =>
    have right := agrees.resolve_left (by simp) l x v rfl
    exact h.insertSorted_eq right
  | @slow l x v _ =>
    have right := agrees.resolve_left (by simp) l x v rfl
    exact (h.insertSorted_eq fun accepted => right ((h.accepted_congr rfl rfl).mp accepted)).symm

theorem agrees_of_call (h : Refines s m) (swaps : op.Swaps lists op')
    (same : (ListsOf.call b op' s).2 = (ListsOf.call b op s).2) :
    op = op' ∨ ∀ l x v, op.sorts = some (l, x, v) →
      (ListsOf.call b op s).1 = .ok .unit → ¬ s.Misleads l v := by
  cases swaps with
  | same => exact Or.inl rfl
  | quick =>
    refine Or.inr fun l x v sorts accepted wrong => ?_
    cases sorts
    exact h.insertSorted_ne accepted wrong same
  | slow =>
    refine Or.inr fun l x v sorts accepted wrong => ?_
    cases sorts
    exact h.insertSorted_ne ((h.accepted_congr rfl rfl).mp accepted) wrong same.symm

theorem run_swapped (h : Refines s m) (swaps : List.Forall₂ (Op.Swaps lists) ops ops')
    (agrees : Agrees b ops ops' s) : ListsOf.run b ops' s = ListsOf.run b ops s := by
  induction swaps generalizing s m with
  | nil => rfl
  | @cons op op' ops ops' swap _ ih =>
    have first := h.call_swapped swap agrees.1
    have rest := ih (h.call b op).refines agrees.2
    rw [ListsOf.run, ListsOf.run, first, rest]

theorem agrees_of_runs (h : Refines s m) (swaps : List.Forall₂ (Op.Swaps lists) ops ops')
    (same : ∀ n, ListsOf.after b (ops'.take n) s = ListsOf.after b (ops.take n) s) :
    Agrees b ops ops' s := by
  induction swaps generalizing s m with
  | nil => trivial
  | @cons op op' ops ops' swap _ ih =>
    have one : (ListsOf.call b op' s).2 = (ListsOf.call b op s).2 := same 1
    refine ⟨h.agrees_of_call swap one, ih (h.call b op).refines fun n => ?_⟩
    have later : ListsOf.after b (ops'.take n) (ListsOf.call b op' s).2 =
        ListsOf.after b (ops.take n) (ListsOf.call b op s).2 := same (n + 1)
    rwa [one] at later

theorem agrees_take (agrees : Agrees b ops ops' s) (n : ℕ) :
    Agrees b (ops.take n) (ops'.take n) s := by
  induction n generalizing ops ops' s with
  | zero => trivial
  | succ n ih =>
    cases ops with
    | nil => trivial
    | cons op ops =>
      cases ops' with
      | nil => trivial
      | cons op' ops' => exact ⟨agrees.1, ih agrees.2⟩

theorem agrees_of_timed (h : Refines s m) (swaps : List.Forall₂ (Op.Swaps lists) ops ops')
    (sorted : ∀ l, lists l → (m.values l).Pairwise (· ≤ ·))
    (timed : ∀ l, lists l → TimedRun b l ops s) : Agrees b ops ops' s := by
  induction swaps generalizing s m with
  | nil => trivial
  | @cons op op' ops ops' swap _ ih =>
    constructor
    · have right : ∀ l v, lists l → ¬ s.Misleads l v := fun l v hl =>
        mt h.misleads_iff.mp (Model.not_misleads_of_sorted (sorted l hl))
      cases swap with
      | same => exact Or.inl rfl
      | quick x v here | slow x v here =>
        refine Or.inr fun l x v sorts _ => ?_
        cases sorts
        exact right _ _ here
    · by_cases refusal : Refusal (ListsOf.call b op s).1
      · have unchanged := (h.call b op).refused ((h.refusal_iff op).mp refusal)
        rw [unchanged]
        exact ih h sorted fun l hl => unchanged ▸ (timed l hl).2
      · refine ih (h.call b op).refines (fun l hl => ?_) fun l hl => (timed l hl).2
        have calm := (timed l hl).1.resolve_right refusal
        rw [h.visited_eq] at calm
        have order := InOrder.of_sorted (sorted l hl) (m.rota l).nodup
        exact ((m.step_effect g op).inOrder order calm).values_sorted

end Refines

/-- Two scripts that differ only in which of the two inserts they use here and there, from any
reachable state: every state on the way is the same if and only if, wherever they differ, the
call is refused or the tail does not mislead; and then every answer is the same. -/
theorem fast_path_shows (b : Build) (before : List (Op V)) {ops ops' : List (Op V)}
    (swaps : List.Forall₂ (Op.Swaps fun _ => True) ops ops') :
    let s := ListsOf.after b before (ListsOf.new : ListsOf V g)
    ((∀ n, ListsOf.after b (ops'.take n) s = ListsOf.after b (ops.take n) s) ↔
      ListsOf.Agrees b ops ops' s) ∧
    (ListsOf.Agrees b ops ops' s → ListsOf.run b ops' s = ListsOf.run b ops s) := by
  intro s
  have h : Refines s _ := after_refines b before
  refine ⟨⟨h.agrees_of_runs swaps, fun agrees n => ?_⟩, h.run_swapped swaps⟩
  exact congrArg Prod.snd
    (h.run_swapped (List.forall₂_take n swaps) (Refines.agrees_take agrees n))

theorem fast_path_shows_medium :
    let s := ListsOf.after ⟨true, true⟩
      [.setValue 0 9, .setValue 1 3, .insertEnd 0 0, .insertEnd 0 1]
      (ListsOf.new : ListsOf UInt32 Sizes.medium)
    ListsOf.run ⟨true, true⟩ [.insertSorted 0 2 2] s = ListsOf.run ⟨true, true⟩ [.insert 0 2 2] s ∧
      ¬ ∀ n, ListsOf.after ⟨true, true⟩ (([.insertSorted 0 2 5] : List (Op UInt32)).take n) s =
        ListsOf.after ⟨true, true⟩ (([.insert 0 2 5] : List (Op UInt32)).take n) s := by
  intro s
  constructor
  · have right : ¬ s.Misleads 0 2 := by
      unfold ListsOf.Misleads
      decide
    refine (fast_path_shows ⟨true, true⟩ _ (.cons (.quick 2 2 trivial) .nil)).2
      ⟨Or.inr fun l x v sorts _ => ?_, trivial⟩
    cases sorts
    exact right
  · intro same
    have wrong : s.Misleads 0 5 := by
      unfold ListsOf.Misleads
      decide
    have accepted : (ListsOf.call ⟨true, true⟩ (.insert 0 2 5) s).1 = .ok .unit := by decide
    have agrees := ((fast_path_shows ⟨true, true⟩ _ (.cons (.quick 2 5 trivial) .nil)).1.mp same).1
    exact agrees.resolve_left (by simp) 0 2 5 rfl accepted wrong

/-- Over any run in which some lists are only ever entered by value, it does not matter which of
the inserts is used for them: every answer and the last state are the same. -/
theorem entered_by_value_takes_fast_path (b : Build) (lists : ListId → Prop)
    {ops ops' : List (Op V)} (swaps : List.Forall₂ (Op.Swaps lists) ops ops')
    (timed : ∀ l, lists l → ListsOf.TimedRun b l ops (ListsOf.new : ListsOf V g)) :
    ListsOf.run b ops' (ListsOf.new : ListsOf V g) =
      ListsOf.run b ops (ListsOf.new : ListsOf V g) := by
  have start : Refines (ListsOf.new : ListsOf V g) Model.initial := new_refines
  refine start.run_swapped swaps (start.agrees_of_timed swaps (fun l _ => ?_) timed)
  exact List.Pairwise.nil

theorem entered_by_value_takes_fast_path_small :
    let s : ListsOf UInt32 Sizes.small := ListsOf.new
    ListsOf.run ⟨true, true⟩ [.insertSorted 0 0 5, .nextRoundRobin 0, .insert 0 1 5] s =
      ListsOf.run ⟨true, true⟩ [.insert 0 0 5, .nextRoundRobin 0, .insertSorted 0 1 5] s := by
  refine entered_by_value_takes_fast_path ⟨true, true⟩ (· = 0)
    (.cons (.quick 0 5 rfl) (.cons (.same _) (.cons (.slow 1 5 rfl) .nil))) ?_
  rintro l rfl
  exact ⟨Or.inl trivial, Or.inl trivial, Or.inl trivial, trivial⟩

end RtosCore
