import RtosCore.Residents
import RtosCore.RotaTour

/-! Going through a list with `head` and then `next`, while the lists change on the way. As long
as nobody takes away or moves the item where the tour stands, it gets to the end without an
error, and comes to everybody who waits for it; and to nobody twice who has not been put in again
since. -/

namespace RtosCore

variable {V : Type} [ListValue V] {g : Sizes}

def Op.puts : Op V → Option ItemId
  | .moveToEnd _ x => some x
  | op => op.inserts.map Prod.snd

inductive Move (V : Type)
  | step
  | call (op : Op V)

namespace Move

def op : Move V → Option (Op V)
  | step => none
  | call op => some op

def isStep (move : Move V) : Bool := move.op.isNone

end Move

namespace ListsOf

/-- The items a tour comes to, from where it stands, and where it stands in the end. Once there is
no next item it is over. -/
def tour (b : Build) : List (Move V) → Option ItemId → ListsOf V g →
    Except Exit (List ItemId × Option ItemId)
  | [], stand, _ => .ok ([], stand)
  | .step :: moves, none, s => tour b moves none s
  | .step :: moves, some x, s =>
    (next b x s).1.bind fun y => (tour b moves y s).map fun r => (x :: r.1, r.2)
  | .call op :: moves, stand, s => tour b moves stand (call b op s).2

/-- The calls spare where the tour stands, and of those who wait whomever it has not come to; or
they are refused. -/
def Unhindered (b : Build) : (ItemId → Bool) → List (Move V) → Option ItemId → ListsOf V g → Prop
  | _, [], _, _ => True
  | waits, .step :: moves, none, s => Unhindered b waits moves none s
  | waits, .step :: moves, some x, s =>
    ∀ y, (next b x s).1 = .ok y → Unhindered b (fun z => waits z && z != x) moves y s
  | waits, .call op :: moves, stand, s =>
    (op.Spares (fun z => waits z || stand = some z) ∨ Refusal (call b op s).1) ∧
      Unhindered b waits moves stand (call b op s).2

structure Toured (l : ListId) (waits : ItemId → Bool) (moves : List (Move V)) (s : ListsOf V g)
    (seen : List ItemId) (stand : Option ItemId) : Prop where
  finds : stand = none → ((s.visited l).filter waits).Sublist seen
  once : ∀ x, seen.count x ≤
    (s.visited l).count x + (moves.filterMap Move.op).countP fun op => op.puts = some x
  ends : (s.visited l).length + (moves.filterMap Move.op).length ≤ moves.countP Move.isStep →
    stand = none

end ListsOf

namespace Model

variable {m m' : Model V} {l : ListId} {op : Op V} {waits : ItemId → Bool}

theorem Effect.sameBut {a : Except Error Answer} (effect : Effect m op a m')
    (spares : op.Spares waits) : (m'.rota l).items = (m.rota l).items ∨
      ∃ z, (z ∈ (m.rota l).items → waits z = false) ∧
        SameBut z (m.rota l).items (m'.rota l).items ∧
        (op.puts = some z ∨ z ∉ (m'.rota l).items) := by
  cases effect with
  | refused | stayed | valued => exact Or.inl rfl
  | @joined _ k x names free =>
    have free' : ¬ (m.keeping x op.given).Linked x := by simpa [Linked] using free
    have puts : op.puts = some x := by
      cases op with
      | insert | insertKeepingValue | insertEnd | insertSorted =>
        cases names
        rfl
      | _ => cases names
    rw [place_rota free', Refines.keeping_rota]
    split
    · rename_i hk
      subst hk
      exact Or.inr ⟨x, fun member => absurd member (notMem_of_free free), Rota.sameBut_place,
        Or.inl puts⟩
    · exact Or.inl rfl
  | @left _ x names linked =>
    refine Or.inr ⟨x, fun _ => ?_, Rota.sameBut_erase, Or.inr fun member => ?_⟩
    · cases op with
      | remove | unlink =>
        cases names
        exact spares
      | _ => cases names
    · exact (mem_erase.mp member).1 rfl
  | @moved k x inside =>
    rcases eq_or_ne l k with rfl | hlk
    · refine Or.inr ⟨x, fun _ => spares, ?_, Or.inl rfl⟩
      rw [rota_moveToEnd]
      exact Rota.sameBut_place.trans Rota.sameBut_erase
    · exact Or.inl (by rw [rota_moveToEnd_ne inside hlk])
  | advanced k =>
    refine Or.inl ?_
    rcases eq_or_ne l k with rfl | hlk
    · rw [advance_rota, if_pos rfl, Rota.advance_items]
    · rw [advance_rota_ne hlk]

end Model

namespace Refines

open ListsOf

variable {s : ListsOf V g} {m : Model V} {l : ListId} {x : ItemId} {b : Build}
  {waits : ItemId → Bool} {stand : Option ItemId}

theorem next_eq (h : Refines s m) (b : Build) (hx : x ∈ (m.rota l).items) :
    ListsOf.next b x s = (.ok (succ x (m.rota l).items), s) := by
  have inside := h.item_lt hx
  have linked : (s.node x).container ≠ NO_LIST := fun free =>
    (h.containerOf_free inside).mp free ⟨l, hx⟩
  rw [ListsOf.next, Call.bind_ok (item_eq inside), if_neg linked, h.isEnd_next hx]
  rfl

theorem head_ok (h : Refines s m) (starts : (head b l s).1 = .ok stand) :
    stand = (m.rota l).items.head? := by
  by_cases hl : l.toNat < g.L
  · rw [h.head_eq hl] at starts
    exact (Except.ok.inj starts).symm
  · rw [head, Call.bind_error (listMeta_invalid hl)] at starts
    cases starts

theorem tour_over (b : Build) (moves : List (Move V)) (s : ListsOf V g) :
    tour b moves none s = .ok ([], none) := by
  induction moves generalizing s with
  | nil => rfl
  | cons move moves ih =>
    cases move with
    | step => exact ih s
    | call op => exact ih _

theorem call_ahead (h : Refines s m) (b : Build) {op : Op V}
    (stands : ∀ x ∈ stand, x ∈ (m.rota l).items)
    (spares : op.Spares (fun z => waits z || stand = some z) ∨ Refusal (ListsOf.call b op s).1) :
    ∃ m', Refines (ListsOf.call b op s).2 m' ∧ (∀ x ∈ stand, x ∈ (m'.rota l).items) ∧
      (∀ r : List ItemId, r.Sublist (ahead stand (m.rota l).items) → (∀ y ∈ r, waits y) →
        r.Sublist (ahead stand (m'.rota l).items)) ∧
      (∀ x, (ahead stand (m'.rota l).items).count x ≤
        (ahead stand (m.rota l).items).count x + if op.puts = some x then 1 else 0) ∧
      (ahead stand (m'.rota l).items).length ≤ (ahead stand (m.rota l).items).length + 1 := by
  rcases spares with spares | refusal
  · have refines := (h.call b op).refines
    have nodup : (ahead stand ((m.step g op).2.rota l).items).Nodup :=
      ((m.step g op).2.rota l).nodup.sublist ahead_sublist
    refine ⟨_, refines, ?_⟩
    rcases (m.step_effect g op).sameBut (l := l) spares with unchanged | ⟨z, spared, same, touched⟩
    · rw [unchanged]
      exact ⟨stands, fun r sub _ => sub, fun x => Nat.le_add_right _ _, Nat.le_succ _⟩
    · have elsewhere : stand ≠ some z := by
        rintro rfl
        simpa using spared (stands z rfl)
      have further := same.further elsewhere
      refine ⟨fun x hx => ?_, fun r sub wait => ?_, fun x => ?_, further.length_le nodup⟩
      · have other : x ≠ z := by
          rintro rfl
          exact elsewhere hx
        exact (same.mem_iff other).mpr (stands x hx)
      · refine further.sublist (fun hz => ?_) sub
        have free := spared (ahead_sublist.subset (sub.subset hz))
        rw [wait z hz] at free
        cases free
      · rcases eq_or_ne x z with rfl | other
        · rcases touched with puts | gone
          · rw [if_pos puts]
            exact (List.nodup_iff_count_le_one.mp nodup x).trans (Nat.le_add_left 1 _)
          · rw [List.count_eq_zero_of_not_mem fun hx => gone (ahead_sublist.subset hx)]
            exact Nat.zero_le _
        · rw [further.count_eq other]
          exact Nat.le_add_right _ _
  · rw [(h.call b op).refused ((h.refusal_iff op).mp refusal)]
    exact ⟨m, h, stands, fun r sub _ => sub, fun x => Nat.le_add_right _ _, Nat.le_succ _⟩

theorem tour_run (h : Refines s m) (moves : List (Move V))
    (stands : ∀ x ∈ stand, x ∈ (m.rota l).items) {r : List ItemId}
    (sub : r.Sublist (ahead stand (m.rota l).items)) (wait : ∀ y ∈ r, waits y)
    (unhindered : Unhindered b waits moves stand s) :
    ∃ seen stand', tour b moves stand s = .ok (seen, stand') ∧ (stand' = none → r.Sublist seen) ∧
      (∀ x, seen.count x ≤ (ahead stand (m.rota l).items).count x +
        (moves.filterMap Move.op).countP fun op => op.puts = some x) ∧
      ((ahead stand (m.rota l).items).length + (moves.filterMap Move.op).length ≤
        moves.countP Move.isStep → stand' = none) := by
  induction moves generalizing s m stand waits r with
  | nil =>
    refine ⟨[], stand, rfl, ?_, fun x => Nat.zero_le _, fun few => ?_⟩
    · rintro rfl
      exact sub
    · cases stand with
      | none => rfl
      | some x =>
        rw [ahead_step (m.rota l).nodup (stands x rfl)] at few
        exact absurd few (by simp)
  | cons move moves ih =>
    cases stand with
    | none =>
      refine ⟨[], none, tour_over b _ s, fun _ => sub, fun x => Nat.zero_le _, fun _ => rfl⟩
    | some x =>
      cases move with
      | step =>
        have hx := stands x rfl
        have answer := h.next_eq b hx
        have split := ahead_step (m.rota l).nodup hx
        have nodup : (ahead (some x) (m.rota l).items).Nodup :=
          (m.rota l).nodup.sublist ahead_sublist
        rw [split] at sub nodup
        obtain ⟨r', sub', wait', sees⟩ := exists_waiting nodup sub wait
        obtain ⟨seen, stand', went, finds, once, ends⟩ :=
          ih h (fun y hy => succ_mem hy) sub' wait' (unhindered _ (by rw [answer]))
        refine ⟨x :: seen, stand', ?_, fun ended => sees seen (finds ended), fun y => ?_, fun few => ?_⟩
        · rw [tour, answer, Except.bind, went]
          rfl
        · have count := once y
          rw [split, List.count_cons, List.count_cons]
          simp only [List.filterMap_cons, Move.op]
          omega
        · refine ends ?_
          rw [split] at few
          simp only [List.filterMap_cons, Move.op, List.countP_cons, List.length_cons,
            Move.isStep, Option.isNone_none, if_true] at few
          omega
      | call op =>
        obtain ⟨m', refines, stands', keeps, counts, length⟩ := h.call_ahead b stands unhindered.1
        obtain ⟨seen, stand', went, finds, once, ends⟩ :=
          ih refines stands' (keeps r sub wait) wait unhindered.2
        refine ⟨seen, stand', went, finds, fun y => ?_, fun few => ends ?_⟩
        · refine (once y).trans ?_
          have count := counts y
          simp only [List.filterMap_cons, Move.op, List.countP_cons, decide_eq_true_eq]
          omega
        · simp only [List.filterMap_cons, Move.op, List.countP_cons, List.length_cons,
            Move.isStep, Option.isNone_some] at few
          simp at few
          omega

end Refines

/-- From any reachable state, whatever is called on the way: as long as no call takes away or moves
the item where the tour stands or one it has yet to come to of those who wait, the tour has no
error. It has come to all who wait, in their order, when it is over; that it is once it has made
as many steps as there were items and calls; and it comes to an item once, and once more at most
for each time the item is put somewhere on the way. -/
theorem tour_misses_nobody (b : Build) (before : List (Op V)) (l : ListId)
    (waits : ItemId → Bool) (moves : List (Move V)) (start : Option ItemId)
    (starts : (ListsOf.head b l
      (ListsOf.after b before (ListsOf.new : ListsOf V g))).1 = .ok start)
    (unhindered : ListsOf.Unhindered b waits moves start
      (ListsOf.after b before (ListsOf.new : ListsOf V g))) :
    ∃ seen stand,
      ListsOf.tour b moves start (ListsOf.after b before (ListsOf.new : ListsOf V g)) =
        .ok (seen, stand) ∧
      ListsOf.Toured l waits moves (ListsOf.after b before (ListsOf.new : ListsOf V g))
        seen stand := by
  have h := after_refines (g := g) b before
  have items := h.visited_eq l
  obtain rfl := h.head_ok starts
  rw [← items] at unhindered ⊢
  obtain ⟨seen, stand, went, finds, once, ends⟩ :=
    h.tour_run moves (fun x hx => List.mem_of_head? (items ▸ hx)) (r := _)
      (by rw [← items, ahead_start]; exact List.filter_sublist)
      (fun y hy => (List.mem_filter.mp hy).2) unhindered
  rw [← items, ahead_start] at once ends
  exact ⟨seen, stand, went, finds, once, ends⟩

theorem tour_misses_nobody_small :
    let s := ListsOf.after ⟨true, true⟩ [.insertEnd 0 0, .insertEnd 0 1]
      (ListsOf.new : ListsOf UInt32 Sizes.small)
    let moves : List (Move UInt32) := [.step, .call (.remove 0), .step]
    ∃ seen stand, ListsOf.tour ⟨true, true⟩ moves (some 0) s = .ok (seen, stand) ∧
      ListsOf.Toured 0 (fun _ => true) moves s seen stand := by
  refine tour_misses_nobody ⟨true, true⟩ [.insertEnd 0 0, .insertEnd 0 1] 0 (fun _ => true)
    [.step, .call (.remove 0), .step] (some 0) (by rfl) ?_
  intro y answer
  obtain rfl : y = some 1 := (Except.ok.inj answer).symm
  exact ⟨Or.inl rfl, fun _ _ => trivial⟩

end RtosCore
