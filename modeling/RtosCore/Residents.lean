import RtosCore.RotaRounds
import RtosCore.VisitOrder

/-! Those who stay in a list take turns among themselves. Others may be put in anywhere, moved
about and taken out, and have turns of their own: the residents are served in one fixed order,
over and over, and none of them ever is more than one turn ahead of another. -/

namespace RtosCore

variable {V : Type} [ListValue V] {g : Sizes}

namespace Op

/-- The call does not take a resident out of its list or to another place in it. -/
def Spares (stays : ItemId → Bool) : Op V → Prop
  | .remove x | .unlink x | .moveToEnd _ x => stays x = false
  | _ => True

def served {ε : Type} (l : ListId) (a : Except ε Answer) : Op V → Option ItemId
  | .nextRoundRobin k => if k = l then Answer.choice a else none
  | _ => none

omit [ListValue V] in
theorem served_refused {ε : Type} {l : ListId} {a : Except ε Answer} (op : Op V)
    (refusal : Refusal a) : op.served l a = none := by
  have choice : Answer.choice a = none := by
    rcases a with e | _ | n | done | item
    · rfl
    · rfl
    · rfl
    · rfl
    · exact refusal
  cases op with
  | nextRoundRobin k => rw [served, choice, ite_self]
  | _ => rfl

end Op

namespace ListsOf

def Residing (b : Build) (stays : ItemId → Bool) : List (Op V) → ListsOf V g → Prop
  | [], _ => True
  | op :: ops, s =>
    (op.Spares stays ∨ Refusal (call b op s).1) ∧ Residing b stays ops (call b op s).2

def servings (b : Build) (l : ListId) : List (Op V) → ListsOf V g → List ItemId
  | [], _ => []
  | op :: ops, s =>
    (op.served l (call b op s).1).toList ++ servings b l ops (call b op s).2

structure TakesTurns (b : Build) (l : ListId) (stays : ItemId → Bool) (ops : List (Op V))
    (s : ListsOf V g) : Prop where
  inOrder : ∀ i < ((servings b l ops s).filter stays).length,
    ((servings b l ops s).filter stays)[i]? =
      ((visitOrder b l s).filter stays)[i % ((visitOrder b l s).filter stays).length]?
  fair : ∀ x y, stays x → stays y →
    (servings b l ops s).count x ≤ (servings b l ops s).count y + 1
  goesOn : (visitOrder b l (after b ops s)).filter stays =
    ((visitOrder b l s).filter stays).rotate ((servings b l ops s).filter stays).length

end ListsOf

namespace Model

variable {m m' : Model V} {l : ListId} {stays : ItemId → Bool}

theorem Effect.turn {op : Op V} {a : Except Error Answer} (effect : Effect m op a m')
    (spares : op.Spares stays) (member : ∀ x, stays x → x ∈ (m.rota l).items) :
    Turn ((m.rota l).order.filter stays) ((op.served l a).filter stays)
      ((m'.rota l).order.filter stays) := by
  have passed : ∀ r : Rota ItemId,
      r.order.filter stays = (m.rota l).order.filter stays →
        Turn ((m.rota l).order.filter stays) none (r.order.filter stays) := by
    intro r same
    rw [same]
    exact Turn.passed _
  cases effect with
  | refused e =>
    have refusal : Refusal (.error e : Except Error Answer) := trivial
    rw [op.served_refused refusal]
    exact passed _ rfl
  | stayed | valued => exact passed _ rfl
  | @joined _ k x names free =>
    have stranger : stays x = false := by
      rw [Bool.eq_false_iff]
      exact fun hx => free ⟨l, member x hx⟩
    have other : op.served l (.ok .unit : Except Error Answer) = none := by
      cases op with
      | nextRoundRobin => cases names
      | _ => rfl
    have free' : ¬ (m.keeping x op.given).Linked x := by simpa [Linked] using free
    rw [other]
    refine passed _ ?_
    rw [place_rota free', Refines.keeping_rota]
    split
    · rename_i hk
      rw [← hk, Rota.filter_place_order stranger]
    · rfl
  | @left _ x names linked =>
    have leaves : stays x = false := by
      cases op with
      | remove | unlink =>
        cases names
        exact spares
      | _ => cases names
    have other : op.served l (.ok ‹Answer› : Except Error Answer) = none := by
      cases op with
      | nextRoundRobin => cases names
      | _ => rfl
    rw [other]
    exact passed _ (Rota.filter_erase_order leaves)
  | @moved k x inside =>
    refine passed _ ?_
    rcases eq_or_ne l k with rfl | hlk
    · rw [rota_moveToEnd, Rota.filter_place_order spares, Rota.filter_erase_order spares]
    · rw [rota_moveToEnd_ne inside hlk]
  | advanced k =>
    rcases eq_or_ne k l with rfl | hkl
    · rw [Op.served, if_pos rfl, advance_rota, if_pos rfl]
      exact Rota.turn_advance _ stays
    · rw [Op.served, if_neg hkl, advance_rota_ne hkl.symm]
      exact passed _ rfl

end Model

namespace Refines

open ListsOf

variable {s : ListsOf V g} {m : Model V} {l : ListId} {b : Build} {stays : ItemId → Bool}
  {op : Op V} {ops : List (Op V)}

theorem served_eq (h : Refines s m) (op : Op V) :
    op.served l (ListsOf.call b op s).1 = op.served l (m.step g op).1 := by
  rw [h.call_answer]
  cases op with
  | nextRoundRobin k =>
    unfold Op.served
    rcases (m.step g (.nextRoundRobin k)).1 with e | a
    · rfl
    · cases a <;> rfl
  | _ => rfl

theorem turn_step (h : Refines s m) (member : ∀ x, stays x → x ∈ (m.rota l).items)
    (spares : op.Spares stays ∨ Refusal (ListsOf.call b op s).1) :
    ∃ m', Refines (ListsOf.call b op s).2 m' ∧
      Turn ((m.rota l).order.filter stays)
        ((op.served l (ListsOf.call b op s).1).filter stays) ((m'.rota l).order.filter stays) := by
  rcases spares with spares | refusal
  · refine ⟨_, (h.call b op).refines, ?_⟩
    rw [h.served_eq]
    exact (m.step_effect g op).turn spares member
  · rw [op.served_refused refusal, (h.call b op).refused ((h.refusal_iff op).mp refusal)]
    exact ⟨m, h, Turn.passed _⟩

theorem turns_run (h : Refines s m) (member : ∀ x, stays x → x ∈ (m.rota l).items)
    (residing : Residing b stays ops s) :
    ∃ m', Refines (ListsOf.after b ops s) m' ∧
      GoesRound ((m.rota l).order.filter stays) ((servings b l ops s).filter stays) ∧
      (m'.rota l).order.filter stays =
        ((m.rota l).order.filter stays).rotate ((servings b l ops s).filter stays).length := by
  induction ops generalizing s m with
  | nil => exact ⟨m, h, GoesRound.nil _, (List.rotate_zero _).symm⟩
  | cons op ops ih =>
    obtain ⟨m₁, refines, turn⟩ := h.turn_step member residing.1
    have member₁ : ∀ x, stays x → x ∈ (m₁.rota l).items := by
      intro x hx
      have mem : x ∈ (m.rota l).order.filter stays :=
        List.mem_filter.mpr ⟨(m.rota l).order_perm.mem_iff.mpr (member x hx), hx⟩
      rw [← List.mem_rotate, ← turn.rotate] at mem
      exact (m₁.rota l).order_perm.mem_iff.mp (List.mem_filter.mp mem).1
    obtain ⟨m', refines', later, rotated⟩ := ih refines member₁ residing.2
    refine ⟨m', refines', ?_, ?_⟩
    · rw [servings, List.filter_append, ← Option.toList_filter]
      exact turn.goesRound later
    · rw [rotated, turn.rotate, List.rotate_rotate, servings, List.filter_append,
        ← Option.toList_filter, List.length_append]

end Refines

/-- From any reachable state, whatever else is called: as long as no call takes a resident of
list `l` away or moves it, the residents take turns. -/
theorem residents_take_turns (b : Build) (before ops : List (Op V)) (l : ListId)
    (stays : ItemId → Bool)
    (member : ∀ x, stays x →
      x ∈ (ListsOf.after b before (ListsOf.new : ListsOf V g)).visited l)
    (residing : ListsOf.Residing b stays ops
      (ListsOf.after b before (ListsOf.new : ListsOf V g))) :
    ListsOf.TakesTurns b l stays ops (ListsOf.after b before (ListsOf.new : ListsOf V g)) := by
  have h := after_refines (g := g) b before
  simp only [h.visited_eq] at member
  obtain ⟨m', refines, turns, rotated⟩ := h.turns_run member residing
  rw [← h.visitOrder_eq b] at turns rotated
  rw [← refines.visitOrder_eq b] at rotated
  refine ⟨fun i hi => turns.getElem? hi, fun x y hx hy => ?_, rotated⟩
  have nodup := ((h.visitLaw b).nodup l).filter stays
  have mem : ∀ z, stays z → z ∈ (ListsOf.visitOrder b l
      (ListsOf.after b before (ListsOf.new : ListsOf V g))).filter stays := by
    intro z hz
    rw [h.visitOrder_eq]
    exact List.mem_filter.mpr ⟨(Rota.order_perm _).mem_iff.mpr (member z hz), hz⟩
  have fair := turns.count_le nodup (mem x hx) (mem y hy)
  rwa [List.count_filter hx, List.count_filter hy] at fair

theorem residents_take_turns_medium :
    ListsOf.TakesTurns ⟨true, true⟩ 0 (· < 2)
      [.nextRoundRobin 0, .insert 0 2 6, .nextRoundRobin 0, .nextRoundRobin 0, .remove 2,
        .nextRoundRobin 0, .insertEnd 0 2, .moveToEnd 0 2, .nextRoundRobin 0, .setValue 1 9,
        .nextRoundRobin 0, .nextRoundRobin 0]
      (ListsOf.after ⟨true, true⟩ [.insert 0 1 5, .insert 0 0 8]
        (ListsOf.new : ListsOf UInt32 Sizes.medium)) := by
  refine residents_take_turns ⟨true, true⟩ _ _ 0 _ (fun x hx => ?_)
    (by simp [ListsOf.Residing, Op.Spares])
  have below : x.toNat < Sizes.small.CAPACITY := of_decide_eq_true hx
  rcases small_cases below with rfl | rfl
  · decide
  · decide

end RtosCore
