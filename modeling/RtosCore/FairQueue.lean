import RtosCore.Independence
import RtosCore.RotaOrder
import RtosCore.RotaTurns

/-! A list that nobody rotates is a queue. `insert_end` and `move_to_end` put an item in front of
the cursor; as long as the cursor is the end marker that is the end of the list, and only
`next_round_robin` ever takes a cursor off the marker. Taking the head and moving it to the end
then serves everyone in turn. -/

namespace RtosCore

variable {V : Type} [ListValue V] {g : Sizes}

namespace Op

/-- The calls that leave list `l` a queue: nothing rotates it, and nothing joins it but at its
end. -/
def Queues (l : ListId) : Op V → Prop
  | .insert k _ _ | .insertKeepingValue k _ | .insertSorted k _ _ | .nextRoundRobin k => k ≠ l
  | _ => True

def joins {ε : Type} (l : ListId) (op : Op V) (answer : Except ε Answer) : Option ItemId :=
  match op, answer with
  | .insertEnd k x, .ok .unit | .moveToEnd k x, .ok (.moved true) => if k = l then some x else none
  | _, _ => none

end Op

def stamp {α : Type*} [DecidableEq α] (joined : Option α) (now : ℕ) (time : α → ℕ) (x : α) : ℕ :=
  if joined = some x then now else time x

namespace ListsOf

/-- The number of the call that last put each item at the end of list `l`; the calls are counted
from `now`. -/
def joinedAt (b : Build) (l : ListId) :
    ℕ → List (Op V) → ListsOf V g → (ItemId → ℕ) → ItemId → ℕ
  | _, [], _, time => time
  | now, op :: ops, s, time =>
    joinedAt b l (now + 1) ops (call b op s).2
      (stamp (op.joins l (call b op s).1) (now + 1) time)

def QueueRun (b : Build) (l : ListId) : List (Op V) → ListsOf V g → Prop
  | [], _ => True
  | op :: ops, s =>
    (op.Queues l ∨ Refusal (call b op s).1) ∧ QueueRun b l ops (call b op s).2

def Elsewhere (b : Build) (l : ListId) (op : Op V) (s : ListsOf V g) : Prop :=
  ¬ s.Touches op l ∨ (∃ x v, op = .setValue x v) ∨ Refusal (call b op s).1

def ElsewhereRun (b : Build) (l : ListId) : List (Op V) → ListsOf V g → Prop
  | [], _ => True
  | op :: ops, s => Elsewhere b l op s ∧ ElsewhereRun b l ops (call b op s).2

def script (b : Build) (ops : List (Op V)) : Call V g Unit := fun s => (.ok (), after b ops s)

/-- One round for each script: take the head of list `l`, move it to the end, and let the script
run. The items taken, in turn. -/
def rounds (b : Build) (l : ListId) : List (List (Op V)) → Call V g (List ItemId)
  | [] => return []
  | others :: scripts => do
    match ← head b l with
    | none => Call.panic
    | some x =>
      let _ ← call b (.moveToEnd l x)
      let _ ← script b others
      let taken ← rounds b l scripts
      return x :: taken

def RoundsElsewhere (b : Build) (l : ListId) : List (List (Op V)) → ListsOf V g → Prop
  | [], _ => True
  | others :: scripts, s => ∀ x, (head b l s).1 = .ok (some x) →
    ElsewhereRun b l others (call b (.moveToEnd l x) s).2 ∧
      RoundsElsewhere b l scripts (after b others (call b (.moveToEnd l x) s).2)

end ListsOf

section Stamps

variable {α : Type*} [DecidableEq α] {time : α → ℕ} {now : ℕ} {x y : α}

@[simp] theorem stamp_none : stamp none now time = time := rfl

theorem stamp_self : stamp (some x) now time x = now := if_pos rfl

theorem stamp_ne (h : y ≠ x) : stamp (some x) now time y = time y :=
  if_neg fun e => h (Option.some.inj e).symm

theorem stamp_le {joined : Option α} (past : ∀ y, time y ≤ now) (y : α) :
    stamp joined (now + 1) time y ≤ now + 1 := by
  unfold stamp
  split
  · exact le_rfl
  · exact (past y).trans (Nat.le_succ now)

end Stamps

namespace Rota

variable {α : Type*} [DecidableEq α] {r : Rota α} {start : List α} {time : α → ℕ} {now : ℕ} {x : α}

structure Queued (start : List α) (time : α → ℕ) (r : Rota α) : Prop where
  marker : r.cursor = none
  queue : InQueue start time r.items

theorem Queued.erase (h : r.Queued start time) (x : α) : (r.erase x).Queued start time :=
  ⟨erase_marker h.marker, h.queue.leave x⟩

theorem Queued.join (h : r.Queued start time) (hx : x ∉ r.items) (past : ∀ y, time y ≤ now) :
    (r.place r.atCursor x).Queued start (stamp (some x) (now + 1) time) := by
  have other : ∀ y ∈ r.items, stamp (some x) (now + 1) time y = time y := fun y hy =>
    stamp_ne fun e => hx (e ▸ hy)
  refine ⟨place_cursor.trans h.marker, ?_⟩
  rw [placeAtCursor_marker hx h.marker]
  refine (h.queue.congr other).join ?_ fun y hy => ?_
  · rw [stamp_self]
    exact Nat.succ_pos now
  · rw [other y hy, stamp_self]
    exact Nat.lt_succ_of_le (past y)

end Rota

namespace Model

variable {m m' : Model V} {l k : ListId} {x : ItemId} {start : List ItemId} {time : ItemId → ℕ}
  {now : ℕ} {op : Op V} {a : Except Error Answer}

omit [ListValue V] in
theorem queued_stay (h : (m.rota l).Queued start time) (same : m'.rota l = m.rota l)
    (none : op.joins l a = none) : (m'.rota l).Queued start (stamp (op.joins l a) now time) := by
  rw [same, none]
  exact h

omit [ListValue V] in
theorem queues_inserts (names : op.inserts = some (k, x)) (queues : op.Queues k) :
    op = .insertEnd k x := by
  cases op with
  | insert | insertKeepingValue | insertSorted =>
    cases names
    exact absurd rfl queues
  | insertEnd =>
    cases names
    rfl
  | _ => cases names

omit [ListValue V] in
theorem joins_elsewhere (names : op.inserts = some (k, x)) (hk : k ≠ l) : op.joins l a = none := by
  unfold Op.joins
  split
  · cases names
    exact if_neg hk
  · cases names
  · rfl

theorem Effect.queued (effect : Effect m op a m') (h : (m.rota l).Queued start time)
    (past : ∀ y, time y ≤ now) (queues : op.Queues l) :
    (m'.rota l).Queued start (stamp (op.joins l a) (now + 1) time) := by
  cases effect with
  | refused e => exact queued_stay h rfl (by cases op <;> rfl)
  | stayed | valued => exact queued_stay h rfl rfl
  | @joined _ k x names free =>
    rcases eq_or_ne k l with rfl | hk
    · obtain rfl := queues_inserts names queues
      rw [rota_insertEnd free, Op.joins, if_pos rfl]
      exact h.join (notMem_of_free free) past
    · refine queued_stay h ?_ (joins_elsewhere names hk)
      rw [place_rota_ne hk.symm, Refines.keeping_rota]
  | @left _ x names _ answer =>
    have never : op.joins l (.ok answer : Except Error Answer) = none := by
      cases op with
      | remove | unlink => rfl
      | _ => cases names
    rw [never]
    exact h.erase x
  | @moved k x member =>
    rcases eq_or_ne k l with rfl | hk
    · rw [rota_moveToEnd, Op.joins, if_pos rfl]
      exact (h.erase x).join (fun mem => (Rota.mem_erase.mp mem).1 rfl) past
    · exact queued_stay h (rota_moveToEnd_ne member hk.symm) (if_neg hk)
  | advanced k => exact queued_stay h (advance_rota_ne (Ne.symm queues)) rfl

end Model

namespace Refines

open ListsOf

variable {s : ListsOf V g} {m : Model V} {l : ListId} {x : ItemId} {b : Build} {op : Op V}
  {ops : List (Op V)} {start ys zs : List ItemId} {time : ItemId → ℕ} {now : ℕ}

theorem joins_eq (h : Refines s m) (op : Op V) :
    op.joins l (ListsOf.call b op s).1 = op.joins l (m.step g op).1 := by
  rw [h.call_answer]
  rcases (m.step g op).1 with e | a
  · cases op <;> rfl
  · cases a with
    | moved done => cases done <;> cases op <;> rfl
    | _ => cases op <;> rfl

omit [ListValue V] in
theorem joins_refused {ε : Type} {a : Except ε Answer} (refusal : Refusal a) :
    op.joins l a = none := by
  unfold Op.joins
  split
  · exact refusal.elim
  · exact absurd (show true = false from refusal) (by decide)
  · rfl

theorem queue_run (h : Refines s m) (queued : (m.rota l).Queued start time)
    (past : ∀ y, time y ≤ now) (run : QueueRun b l ops s) :
    ∃ m', Refines (ListsOf.after b ops s) m' ∧
      (m'.rota l).Queued start (joinedAt b l now ops s time) := by
  induction ops generalizing s m time now with
  | nil => exact ⟨m, h, queued⟩
  | cons op ops ih =>
    rcases run.1 with queues | refusal
    · have next := (m.step_effect g op).queued queued past queues
      rw [← h.joins_eq (b := b)] at next
      exact ih (h.call b op).refines next (stamp_le past) run.2
    · have unchanged := (h.call b op).refused ((h.refusal_iff op).mp refusal)
      refine ih (m := m) (by rwa [unchanged]) ?_ (stamp_le past) run.2
      rwa [joins_refused refusal, stamp_none]

theorem elsewhere_step (h : Refines s m) (away : Elsewhere b l op s) :
    ∃ m', Refines (ListsOf.call b op s).2 m' ∧ m'.rota l = m.rota l := by
  rcases away with untouched | ⟨x, v, rfl⟩ | refusal
  · exact ⟨_, (h.call b op).refines,
      Model.step_rota fun touched => untouched ((h.touches_iff op).mpr touched)⟩
  · refine ⟨_, (h.call b _).refines, ?_⟩
    rw [Model.rota_setValue]
  · rw [(h.call b op).refused ((h.refusal_iff op).mp refusal)]
    exact ⟨m, h, rfl⟩

theorem elsewhere_run (h : Refines s m) (away : ElsewhereRun b l ops s) :
    ∃ m', Refines (ListsOf.after b ops s) m' ∧ m'.rota l = m.rota l := by
  induction ops generalizing s m with
  | nil => exact ⟨m, h, rfl⟩
  | cons op ops ih =>
    obtain ⟨m₁, refines, same⟩ := h.elsewhere_step away.1
    obtain ⟨m₂, refines, same'⟩ := ih refines away.2
    exact ⟨m₂, refines, same'.trans same⟩

theorem moveToEnd_head (h : Refines s m) (marker : (m.rota l).cursor = none)
    (items : (m.rota l).items = x :: ys) :
    ∃ s' m', ListsOf.call b (.moveToEnd l x) s = (.ok (.moved true), s') ∧ Refines s' m' ∧
      (m'.rota l).items = ys ++ [x] ∧ (m'.rota l).cursor = none := by
  have hx : x ∈ (m.rota l).items := items ▸ List.mem_cons_self
  have step : m.step g (.moveToEnd l x) = (.ok (.moved true), m.moveToEnd l x) :=
    Model.step_moves (h.bounds l x hx) hx
  have follows := h.call b (.moveToEnd l x)
  rw [step] at follows
  have erased : ((m.rota l).erase x).cursor = none := Rota.erase_marker marker
  have free : x ∉ ((m.rota l).erase x).items := fun mem => (Rota.mem_erase.mp mem).1 rfl
  refine ⟨_, _, follows.answer b, follows.refines, ?_, ?_⟩
  · rw [Model.rota_moveToEnd, Rota.placeAtCursor_marker free erased, Rota.erase_items, items,
      List.erase_cons_head]
  · rw [Model.rota_moveToEnd, Rota.place_cursor, erased]

theorem rounds_eq (h : Refines s m) (hl : l.toNat < g.L) (marker : (m.rota l).cursor = none)
    (items : (m.rota l).items = ys ++ zs) {scripts : List (List (Op V))}
    (many : scripts.length = ys.length) (away : RoundsElsewhere b l scripts s) :
    ∃ s' m', rounds b l scripts s = (.ok ys, s') ∧ Refines s' m' ∧
      (m'.rota l).items = zs ++ ys ∧ (m'.rota l).cursor = none := by
  induction scripts generalizing s m ys zs with
  | nil =>
    have none := List.length_eq_zero_iff.mp many.symm
    subst none
    exact ⟨s, m, rfl, h, by rw [items, List.nil_append, List.append_nil], marker⟩
  | cons others scripts ih =>
    cases ys with
    | nil => exact absurd many (Nat.succ_ne_zero _)
    | cons x ys =>
      rw [List.cons_append] at items
      have head := h.head_eq (b := b) hl
      rw [items, List.head?_cons] at head
      obtain ⟨apart, later⟩ := away x (by rw [head])
      obtain ⟨s₁, m₁, moved, refines, items₁, marker₁⟩ :=
        h.moveToEnd_head (b := b) marker items
      rw [moved] at apart later
      obtain ⟨m₂, refines, same⟩ := refines.elsewhere_run apart
      rw [← same] at items₁ marker₁
      rw [List.append_assoc] at items₁
      -- one round on, `x` is behind the items that are not to be taken
      obtain ⟨s', m', taken, refines, items', marker'⟩ :=
        ih refines marker₁ items₁ (Nat.succ.inj many) later
      refine ⟨s', m', ?_, refines, ?_, marker'⟩
      · have run : script b others s₁ = (.ok (), ListsOf.after b others s₁) := rfl
        rw [rounds, Call.bind_ok head]
        change (ListsOf.call b (.moveToEnd l x) >>= fun _ => _) s = _
        rw [Call.bind_ok moved, Call.bind_ok run, Call.bind_ok taken]
        rfl
      · rw [items', List.append_assoc, List.singleton_append]

end Refines

/-- From any reachable state with the cursor of list `l` on its marker: in every run that leaves
it a queue it is one at every point, and as many rounds of its head as it has items give each
item one turn and restore the order, whatever happens to other lists between them. -/
theorem fair_queue (b : Build) (before : List (Op V)) (l : ListId) (hl : l.toNat < g.L)
    (marker : ((ListsOf.after b before (ListsOf.new : ListsOf V g)).metaOf l).cursor = g.endOf l) :
    let s := ListsOf.after b before (ListsOf.new : ListsOf V g)
    (∀ ops, ListsOf.QueueRun b l ops s →
      ((ListsOf.after b ops s).metaOf l).cursor = g.endOf l ∧
        InQueue (s.visited l) (ListsOf.joinedAt b l 0 ops s fun _ => 0)
          ((ListsOf.after b ops s).visited l)) ∧
    ∀ scripts, scripts.length = (s.visited l).length → ListsOf.RoundsElsewhere b l scripts s →
      ∃ s', ListsOf.rounds b l scripts s = (.ok (s.visited l), s') ∧
        s'.visited l = s.visited l ∧ (s'.metaOf l).cursor = g.endOf l := by
  intro s
  have h : Refines s _ := after_refines b before
  have marker := (h.cursor_eq_endOf hl).mp marker
  rw [h.visited_eq]
  constructor
  · intro ops run
    obtain ⟨m', refines, queued⟩ := h.queue_run ⟨marker, InQueue.self _⟩ (fun _ => le_rfl) run
    rw [refines.visited_eq]
    exact ⟨(refines.cursor_eq_endOf hl).mpr queued.marker, queued.queue⟩
  · intro scripts many away
    obtain ⟨s', m', taken, refines, items, marker'⟩ :=
      h.rounds_eq hl marker (List.append_nil _).symm many away
    refine ⟨s', taken, ?_, (refines.cursor_eq_endOf hl).mpr marker'⟩
    rw [refines.visited_eq, items, List.nil_append]

theorem fair_queue_small :
    let s := ListsOf.after ⟨true, true⟩ [.insertEnd 0 0, .insertEnd 0 1]
      (ListsOf.new : ListsOf UInt32 Sizes.small)
    let ops : List (Op UInt32) := [.remove 0, .setValue 1 7, .insertEnd 0 0]
    (((ListsOf.after ⟨true, true⟩ ops s).metaOf 0).cursor = Sizes.small.endOf 0 ∧
      InQueue (s.visited 0) (ListsOf.joinedAt ⟨true, true⟩ 0 0 ops s fun _ => 0)
        ((ListsOf.after ⟨true, true⟩ ops s).visited 0)) ∧
    ∃ s', ListsOf.rounds ⟨true, true⟩ 0 [[.setValue 0 7], []] s = (.ok (s.visited 0), s') ∧
      s'.visited 0 = s.visited 0 ∧ (s'.metaOf 0).cursor = Sizes.small.endOf 0 := by
  have fair := fair_queue (V := UInt32) (g := Sizes.small) ⟨true, true⟩
    [.insertEnd 0 0, .insertEnd 0 1] 0 (by decide) (by decide)
  constructor
  · exact fair.1 _ ⟨Or.inl trivial, Or.inl trivial, Or.inl trivial, trivial⟩
  · exact fair.2 _ (by decide) fun _ _ =>
      ⟨⟨Or.inr (Or.inl ⟨_, _, rfl⟩), trivial⟩, fun _ _ => ⟨trivial, trivial⟩⟩

end RtosCore
