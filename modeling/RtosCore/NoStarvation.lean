import RtosCore.ListEffects
import RtosCore.RotaTurns

/-! A ready list keeps its promise. Whoever else is queued, requeued and taken off the list
between two turns, an item that stays gets its own turn before long: at the latest after
everyone still waiting has been served and the list has started over once. -/

namespace RtosCore

variable {V : Type} [ListValue V] {g : Sizes}

/-- The calls during which `x` waits in list `l`: the list is only advanced, and only others
join it at its end, are moved there or leave. -/
def Op.Churn (l : ListId) (x : ItemId) : Op V → Prop
  | .insert k _ _ | .insertKeepingValue k _ | .insertSorted k _ _ => k ≠ l
  | .insertEnd k y | .moveToEnd k y => k ≠ l ∨ y ≠ x
  | .remove y | .unlink y => y ≠ x
  | .setValue _ _ | .nextRoundRobin _ => True

namespace ListsOf

def Churning (b : Build) (l : ListId) (x : ItemId) : List (Op V) → ListsOf V g → Prop
  | [], _ => True
  | op :: ops, s => (op.Churn l x ∨ Refusal (call b op s).1) ∧ Churning b l x ops (call b op s).2

def Serves (b : Build) (l : ListId) (x : ItemId) (ops : List (Op V)) (s : ListsOf V g) : Prop :=
  ∃ i : ℕ, ops[i]? = some (Op.nextRoundRobin l) ∧
    (run b ops s).1[i]? = some (Except.ok (Answer.chosen (some x)))

end ListsOf

namespace Rota

variable {α : Type*} [DecidableEq α] {r r' r'' : Rota α} {x y : α} {c : ℕ}

/-- `x` is still in the rota, and its turn is no further off. -/
def KeepsTurn (c : ℕ) (x : α) (r r' : Rota α) : Prop :=
  x ∈ r'.items ∧ r'.wait c x ≤ r.wait c x

theorem KeepsTurn.refl (hx : x ∈ r.items) : KeepsTurn c x r r := ⟨hx, le_rfl⟩

theorem KeepsTurn.trans (h : KeepsTurn c x r r') (h' : KeepsTurn c x r' r'') :
    KeepsTurn c x r r'' :=
  ⟨h'.1, h'.2.trans h.2⟩

theorem keepsTurn_erase (hx : x ∈ r.items) (h : x ≠ y) : KeepsTurn c x r (r.erase y) :=
  ⟨mem_erase.mpr ⟨h, hx⟩, wait_erase h⟩

theorem keepsTurn_placeAtCursor (hx : x ∈ r.items) (hy : y ∉ r.items) :
    KeepsTurn c x r (r.place r.atCursor y) :=
  ⟨mem_place.mpr (Or.inr hx), (wait_placeAtCursor hx hy).le⟩

theorem keepsTurn_advance (hx : x ∈ r.items) (hc : r.items.length ≤ c) (other : r.nextUp ≠ some x) :
    KeepsTurn c x r r.advance :=
  ⟨hx, (wait_advance hx hc other).le⟩

end Rota

namespace Model

open Rota

variable {m : Model V} {l k : ListId} {x y : ItemId} {c : ℕ}

omit [ListValue V] in
theorem keepsTurn_of_eq {m' : Model V} (hx : x ∈ (m.rota l).items)
    (same : m'.rota l = m.rota l) : KeepsTurn c x (m.rota l) (m'.rota l) := by
  rw [same]
  exact KeepsTurn.refl hx

omit [ListValue V] in
theorem churn_inserts {op : Op V} (names : op.inserts = some (l, y)) (churn : op.Churn l x) :
    op = .insertEnd l y := by
  cases op with
  | insert | insertKeepingValue | insertSorted =>
    cases names
    exact absurd rfl churn
  | insertEnd =>
    cases names
    rfl
  | _ => cases names

theorem Effect.keepsTurn {m' : Model V} {op : Op V} {a : Except Error Answer}
    (effect : Effect m op a m') (hx : x ∈ (m.rota l).items)
    (full : (m.rota l).items.length ≤ c) (churn : op.Churn l x)
    (other : op = .nextRoundRobin l → (m.rota l).nextUp ≠ some x) :
    KeepsTurn c x (m.rota l) (m'.rota l) := by
  cases effect with
  | refused | stayed | valued => exact KeepsTurn.refl hx
  | @joined _ k y names free =>
    rcases eq_or_ne l k with rfl | hlk
    · obtain rfl := churn_inserts names churn
      rw [rota_insertEnd free]
      exact keepsTurn_placeAtCursor hx (notMem_of_free free)
    · refine keepsTurn_of_eq hx ?_
      rw [place_rota_ne hlk, Refines.keeping_rota]
  | @left _ y names =>
    have hy : y ≠ x := by
      cases op with
      | remove | unlink =>
        cases names
        exact churn
      | _ => cases names
    exact keepsTurn_erase hx hy.symm
  | @moved k y member =>
    -- `y` is another item than `x`: a member of another list, if `k` is another list.
    have hy : y ≠ x := by
      rcases churn with hkl | hyx
      · rintro rfl
        exact hkl (m.disjoint k l y member hx)
      · exact hyx
    rcases eq_or_ne l k with rfl | hlk
    · have erased : KeepsTurn c x (m.rota l) ((m.rota l).erase y) := keepsTurn_erase hx hy.symm
      rw [rota_moveToEnd]
      exact erased.trans (keepsTurn_placeAtCursor erased.1 fun h => (Rota.mem_erase.mp h).1 rfl)
    · exact keepsTurn_of_eq hx (rota_moveToEnd_ne member hlk)
  | advanced k =>
    rcases eq_or_ne l k with rfl | hlk
    · rw [advance_rota, if_pos rfl]
      exact keepsTurn_advance hx full (other rfl)
    · exact keepsTurn_of_eq hx (advance_rota_ne hlk)

end Model

namespace Refines

open ListsOf

variable {s : ListsOf V g} {m : Model V} {l : ListId} {x : ItemId} {b : Build} {op : Op V}
  {ops window : List (Op V)}

theorem churn_step (h : Refines s m) (hx : x ∈ (m.rota l).items)
    (churn : op.Churn l x ∨ Refusal (ListsOf.call b op s).1)
    (other : op = .nextRoundRobin l → (m.rota l).nextUp ≠ some x) :
    ∃ m', Refines (ListsOf.call b op s).2 m' ∧
      Rota.KeepsTurn g.CAPACITY x (m.rota l) (m'.rota l) := by
  rcases churn with churn | refusal
  · exact ⟨_, (h.call b op).refines, (m.step_effect g op).keepsTurn hx (h.length_le l) churn other⟩
  · rw [(h.call b op).refused ((h.refusal_iff op).mp refusal)]
    exact ⟨m, h, Rota.KeepsTurn.refl hx⟩

theorem still_member (h : Refines s m) (hx : x ∈ (m.rota l).items)
    (churning : Churning b l x ops s) :
    ∃ m', Refines (ListsOf.after b ops s) m' ∧ x ∈ (m'.rota l).items := by
  induction ops generalizing s m with
  | nil => exact ⟨m, h, hx⟩
  | cons op ops ih =>
    by_cases turn : op = .nextRoundRobin l
    · subst turn
      exact ih (h.nextRoundRobin_refines hx) (by rwa [Model.advance_items]) churning.2
    · obtain ⟨m', refines, keeps⟩ := h.churn_step hx churning.1 fun e => absurd e turn
      exact ih refines keeps.1 churning.2

theorem served (h : Refines s m) (hx : x ∈ (m.rota l).items) (churning : Churning b l x window s)
    (many : (m.rota l).wait g.CAPACITY x < window.countP (· = .nextRoundRobin l)) :
    Serves b l x window s := by
  induction window generalizing s m with
  | nil => simp at many
  | cons op window ih =>
    have later : ∀ m', Refines (ListsOf.call b op s).2 m' → x ∈ (m'.rota l).items →
        (m'.rota l).wait g.CAPACITY x < window.countP (· = .nextRoundRobin l) →
        Serves b l x (op :: window) s := by
      intro m' refines hx' many'
      obtain ⟨i, turn, chosen⟩ := ih refines hx' churning.2 many'
      exact ⟨i + 1, turn, chosen⟩
    by_cases turn : op = .nextRoundRobin l
    · subst turn
      by_cases own : (m.rota l).nextUp = some x
      · refine ⟨0, rfl, ?_⟩
        change some (ListsOf.call b (.nextRoundRobin l) s).1 = _
        rw [h.nextRoundRobin_member hx, own]
      · refine later _ (h.nextRoundRobin_refines hx) (by rwa [Model.advance_items]) ?_
        have nearer := Rota.wait_advance hx (h.length_le l) own
        rw [List.countP_cons_of_pos (by simp)] at many
        rw [Model.advance_rota, if_pos rfl]
        omega
    · obtain ⟨m', refines, hx', nearer⟩ := h.churn_step hx churning.1 fun e => absurd e turn
      rw [List.countP_cons_of_neg (by simpa using turn)] at many
      exact later m' refines hx' (nearer.trans_lt many)

end Refines

theorem ListsOf.churning_append {b : Build} {l : ListId} {x : ItemId} {ops window : List (Op V)}
    {s : ListsOf V g} (h : ListsOf.Churning b l x (ops ++ window) s) :
    ListsOf.Churning b l x ops s ∧ ListsOf.Churning b l x window (ListsOf.after b ops s) := by
  induction ops generalizing s with
  | nil => exact ⟨trivial, h⟩
  | cons op ops ih =>
    obtain ⟨first, last⟩ := ih h.2
    exact ⟨⟨h.1, first⟩, last⟩

/-- From any reachable state with `x` in list `l`, and any way into the churn: of any
`2 * CAPACITY - 1` turns the list then gives, at least one is `x`'s. -/
theorem no_starvation (b : Build) (before ops window : List (Op V)) (l : ListId) (x : ItemId)
    (linked : x ∈ (ListsOf.after b before (ListsOf.new : ListsOf V g)).visited l)
    (churning : ListsOf.Churning b l x (ops ++ window)
      (ListsOf.after b before (ListsOf.new : ListsOf V g)))
    (many : 2 * g.CAPACITY - 1 ≤ window.countP (· = .nextRoundRobin l)) :
    ListsOf.Serves b l x window
      (ListsOf.after b ops (ListsOf.after b before (ListsOf.new : ListsOf V g))) := by
  have h := after_refines (g := g) b before
  rw [h.visited_eq] at linked
  obtain ⟨first, last⟩ := ListsOf.churning_append churning
  obtain ⟨m, refines, hx⟩ := h.still_member linked first
  have wait := Rota.wait_le hx (refines.length_le l)
  have room := List.length_pos_of_mem hx
  have full := refines.length_le l
  exact refines.served hx last (by omega)

theorem no_starvation_small :
    ListsOf.Serves ⟨true, true⟩ 0 1
      [.nextRoundRobin 0, .remove 0, .insertEnd 0 0, .nextRoundRobin 0, .moveToEnd 0 0,
        .insertEnd 1 0, .setValue 1 7, .nextRoundRobin 0]
      (ListsOf.after ⟨true, true⟩ [.nextRoundRobin 0] (ListsOf.after ⟨true, true⟩
        [.insertEnd 0 0, .insertEnd 0 1] (ListsOf.new : ListsOf UInt32 Sizes.small))) :=
  no_starvation ⟨true, true⟩ _ _ _ 0 1 (by decide) (by simp [ListsOf.Churning, Op.Churn])
    (by decide)

end RtosCore
