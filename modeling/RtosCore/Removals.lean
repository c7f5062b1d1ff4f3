import RtosCore.ListObservation
import RtosCore.RotaTurns

/-! Many items taken out one after another are taken out at once. A cursor may stand on an item that
goes, step back to one that goes next, and so on; it ends up at the last item up to its place that
stays, in whatever order the others go. -/

namespace RtosCore

variable {V : Type} [ListValue V] {g : Sizes}

namespace ListsOf

def upto (s : ListsOf V g) (l : ListId) : List ItemId :=
  if (s.metaOf l).cursor ∈ s.visited l then
    (s.visited l).takeWhile (· ≠ (s.metaOf l).cursor) ++ [(s.metaOf l).cursor]
  else []

def gone (batch : List (Op V)) : List ItemId := batch.filterMap Op.removes

end ListsOf

namespace Refines

open ListsOf

variable {s : ListsOf V g} {m : Model V} {l : ListId} {x : ItemId} {b : Build} {op : Op V}
  {batch : List (Op V)}

theorem upto_eq (h : Refines s m) (hl : l.toNat < g.L) : s.upto l = (m.rota l).upto := by
  rw [ListsOf.upto, h.visited_eq, h.cursor l hl, Rota.upto]
  cases cursor : (m.rota l).cursor with
  | none =>
    rw [Option.getD_none, if_neg]
    exact fun member => absurd (h.item_lt member) (by rw [g.toNat_endOf hl]; omega)
  | some c =>
    rw [Option.getD_some, if_pos ((m.rota l).cursor_mem c cursor)]

theorem removes_rota (h : Refines s m) (names : op.removes = some x) :
    (∀ l, (m.step g op).2.rota l = (m.rota l).erase x) ∧ (m.step g op).2.value = m.value := by
  obtain ⟨answer, step⟩ := Model.step_removal names m
  rw [step, Model.removal]
  by_cases inside : x.toNat < g.CAPACITY
  · rw [if_neg (not_not.mpr inside)]
    cases home : m.home x with
    | none =>
      have free := Model.home_eq_none.mp home
      exact ⟨fun l => (Rota.erase_of_notMem fun member => free ⟨l, member⟩).symm, rfl⟩
    | some k => exact ⟨fun l => rfl, rfl⟩
  · rw [if_pos inside]
    exact ⟨fun l => (Rota.erase_of_notMem fun member => inside (h.item_lt member)).symm, rfl⟩

theorem removals_run (h : Refines s m) (b : Build) (leave : ∀ op ∈ batch, (op.removes).isSome) :
    ∃ m', Refines (after b batch s) m' ∧ (∀ l, m'.rota l = (m.rota l).eraseAll (gone batch)) ∧
      m'.value = m.value := by
  induction batch generalizing s m with
  | nil => exact ⟨m, h, fun l => rfl, rfl⟩
  | cons op batch ih =>
    obtain ⟨x, names⟩ := Option.isSome_iff_exists.mp (leave op List.mem_cons_self)
    obtain ⟨rota, value⟩ := h.removes_rota names
    obtain ⟨m', refines, rota', value'⟩ := ih (h.call b op).refines
      fun op mem => leave op (List.mem_cons_of_mem _ mem)
    refine ⟨m', refines, fun l => ?_, value'.trans value⟩
    rw [rota', rota]
    change _ = (m.rota l).eraseAll (List.filterMap Op.removes (op :: batch))
    rw [List.filterMap_cons_some names]
    rfl

end Refines

/-- From any reachable state, a batch of removals, some of them refused perhaps: each list is left
with those that nobody has named, in their order, and its cursor with the last of them up to its
place, or the end marker if there is none; and no call or question tells in what order they went. -/
theorem removals_in_any_order (b : Build) (ops batch : List (Op V))
    (leave : ∀ op ∈ batch, (op.removes).isSome) :
    let s := ListsOf.after b ops (ListsOf.new : ListsOf V g)
    let t := ListsOf.after b batch s
    (∀ l, t.visited l = (s.visited l).filter (· ∉ ListsOf.gone batch)) ∧
    (∀ l : ListId, l.toNat < g.L → (t.metaOf l).cursor =
      ((s.upto l).filter (· ∉ ListsOf.gone batch)).getLastD (g.endOf l)) ∧
    ∀ batch', batch.Perm batch' →
      Indistinguishable (ListsOf.respond b) (ListsOf.after b batch' s) t := by
  intro s t
  have h : Refines s _ := after_refines b ops
  obtain ⟨m', refines, rota, value⟩ := h.removals_run b leave
  refine ⟨fun l => ?_, fun l hl => ?_, fun batch' perm => ?_⟩
  · rw [refines.visited_eq, h.visited_eq, rota, Rota.eraseAll_items]
  · rw [refines.cursor l hl, h.upto_eq hl, Rota.cursor_eq, rota, (Rota.eraseAll_cut _ _).1,
      List.getLastD_eq_getLast?]
  · obtain ⟨m'', refines', rota', value''⟩ := h.removals_run b fun op mem =>
      leave op (perm.mem_iff.mpr mem)
    have named : (ListsOf.gone batch).Perm (ListsOf.gone batch') := perm.filterMap Op.removes
    refine (oneModel_bisimulation b).indistinguishable ⟨m'', refines', refines.congr ?_ ?_⟩
    · funext l
      rw [rota, rota', Rota.eraseAll_perm _ named]
    · intro x _
      rw [value'', value]

theorem removals_in_any_order_small :
    let s := ListsOf.after ⟨true, true⟩ [.insertEnd 0 0, .insertEnd 0 1, .nextRoundRobin 0,
      .nextRoundRobin 0] (ListsOf.new : ListsOf UInt32 Sizes.small)
    let batch : List (Op UInt32) := [.remove 1, .unlink 0]
    let t := ListsOf.after ⟨true, true⟩ batch s
    (∀ l, t.visited l = (s.visited l).filter (· ∉ ListsOf.gone batch)) ∧
    (∀ l : ListId, l.toNat < Sizes.small.L → (t.metaOf l).cursor =
      ((s.upto l).filter (· ∉ ListsOf.gone batch)).getLastD (Sizes.small.endOf l)) ∧
    ∀ batch', batch.Perm batch' →
      Indistinguishable (ListsOf.respond ⟨true, true⟩) (ListsOf.after ⟨true, true⟩ batch' s) t :=
  removals_in_any_order ⟨true, true⟩ _ [.remove 1, .unlink 0] (by
    intro op mem
    simp only [List.mem_cons, List.not_mem_nil, or_false] at mem
    rcases mem with rfl | rfl <;> rfl)

end RtosCore
