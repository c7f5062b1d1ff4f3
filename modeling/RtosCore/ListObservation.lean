import RtosCore.ListOutcomes
import RtosCore.Observation
import Mathlib.Data.List.TFAE
import Mathlib.Tactic.TFAE

/-! Three questions tell all there is to tell about the lists: which items each holds in which order,
where its cursor stands, and the value of each item. What they leave open, the links of free items,
no sequence of calls and questions brings out. -/

namespace RtosCore

variable {V : Type} [ListValue V] {g : Sizes}

namespace ListsOf

def respond (b : Build) (s : ListsOf V g) :
    Op V ⊕ Query → (Except Exit Answer ⊕ Except Exit (Reply V)) × ListsOf V g
  | .inl op => (.inl (call b op s).1, (call b op s).2)
  | .inr q => (.inr (query b q s).1, (query b q s).2)

structure LooksLike (b : Build) (s t : ListsOf V g) : Prop where
  iter : ∀ l, (iter b l s).1 = (iter b l t).1
  cursorOf : ∀ l, (cursorOf l s).1 = (cursorOf l t).1
  value : ∀ x, (value b x s).1 = (value b x t).1

end ListsOf

omit [ListValue V] in
theorem Call.answer_of_map {α β : Type} {m : Call V g α} {k : α → β} (wraps : Function.Injective k)
    {s t : ListsOf V g} (same : ((do let a ← m; return k a : Call V g β) s).1 =
      ((do let a ← m; return k a : Call V g β) t).1) : (m s).1 = (m t).1 := by
  rw [Call.map_apply, Call.map_apply] at same
  rcases hs : (m s).1 with e | a <;> rcases ht : (m t).1 with e' | a' <;>
    simp only [hs, ht, Except.map, Except.error.injEq, Except.ok.injEq, reduceCtorEq] at same ⊢
  · exact same
  · exact wraps same

namespace Refines

open ListsOf

variable {s t : ListsOf V g} {m m' : Model V} {l : ListId} {b : Build}

/-- The model matters only as far as there are items. -/
theorem congr (h : Refines s m) (rota : m'.rota = m.rota)
    (value : ∀ x : ItemId, x.toNat < g.CAPACITY → m'.value x = m.value x) : Refines s m' := by
  have home : ∀ x, m'.home x = m.home x := fun x => by simp only [Model.home, rota]
  constructor
  case ring => exact rota ▸ h.ring
  case cursor => exact rota ▸ h.cursor
  case len => exact rota ▸ h.len
  case bounds => exact rota ▸ h.bounds
  case container => exact fun x hx => (h.container x hx).trans (by rw [home])
  case value => exact fun x hx => (h.value x hx).trans (value x hx).symm
  case markerValue => exact h.markerValue
  case markerContainer => exact h.markerContainer

theorem cursor_invalid (h : Refines s m) (hl : ¬ l.toNat < g.L) : (m.rota l).cursor = none := by
  refine Option.eq_none_iff_forall_not_mem.mpr fun x mem => ?_
  have member := (m.rota l).cursor_mem x mem
  rw [h.notMem_invalid hl] at member
  cases member

theorem cursor_of_link (h : Refines s m) (h' : Refines t m') (hl : l.toNat < g.L)
    (same : (m.rota l).cursor.getD (g.endOf l) = (m'.rota l).cursor.getD (g.endOf l)) :
    (m.rota l).cursor = (m'.rota l).cursor := by
  have item : ∀ (m : Model V) (s : ListsOf V g), Refines s m → ∀ c, (m.rota l).cursor = some c →
      c ≠ g.endOf l := fun m s h c cursor =>
    Sizes.ne_endOf hl (h.item_lt ((m.rota l).cursor_mem c cursor))
  cases here : (m.rota l).cursor with
  | none =>
    cases there : (m'.rota l).cursor with
    | none => rfl
    | some c =>
      rw [here, there] at same
      exact absurd same.symm (item _ _ h' c there)
  | some c =>
    cases there : (m'.rota l).cursor with
    | none =>
      rw [here, there] at same
      exact absurd same (item _ _ h c here)
    | some c' =>
      rw [here, there] at same
      exact congrArg some same

theorem rota_of_looksLike (h : Refines s m) (h' : Refines t m') (looks : LooksLike b s t) :
    m'.rota = m.rota := by
  funext l
  have items : (m.rota l).items = (m'.rota l).items := by
    have same := looks.iter l
    rw [h.iter_eq, h'.iter_eq] at same
    exact Except.ok.inj same
  ext1
  · exact items.symm
  · by_cases hl : l.toNat < g.L
    · have same := looks.cursorOf l
      rw [h.cursorOf_eq hl, h'.cursorOf_eq hl] at same
      exact (h.cursor_of_link h' hl (Except.ok.inj same)).symm
    · rw [h.cursor_invalid hl, h'.cursor_invalid hl]

theorem sameRings_of_looksLike (h : Refines s m) (h' : Refines t m') (looks : LooksLike b s t) :
    SameRings s t := by
  refine h.sameRings (h'.congr (h.rota_of_looksLike h' looks).symm fun x hx => ?_)
  have same := looks.value x
  rw [h.value_eq b hx, h'.value_eq b hx] at same
  exact Except.ok.inj same

theorem respond_eq (h : Refines s m) (b : Build) (i : Op V ⊕ Query) :
    (respond b s i).1 = i.map (fun op => (m.step g op).1.mapError Exit.err)
      (fun q => (m.ask g q).mapError Exit.err) := by
  cases i with
  | inl op => exact congrArg Sum.inl (h.call_answer b op)
  | inr q => exact congrArg Sum.inr (congrArg Prod.fst (h.query_eq q b))

theorem respond_refines (m : Model V) (b : Build) (i : Op V ⊕ Query) :
    ∃ m' : Model V, ∀ t : ListsOf V g, Refines t m → Refines (respond b t i).2 m' := by
  cases i with
  | inl op => exact ⟨_, fun t h' => (h'.call b op).refines⟩
  | inr q =>
    refine ⟨m, fun t h' => ?_⟩
    change Refines (query b q t).2 m
    rw [h'.query_eq q b]
    exact h'

end Refines

theorem oneModel_bisimulation (b : Build) :
    Bisimulation (ListsOf.respond b) fun s t : ListsOf V g => ∃ m, Refines s m ∧ Refines t m where
  answer i related := by
    obtain ⟨m, h, h'⟩ := related
    rw [h.respond_eq b i, h'.respond_eq b i]
  next i related := by
    obtain ⟨m, h, h'⟩ := related
    obtain ⟨m', next⟩ := Refines.respond_refines m b i
    exact ⟨m', next _ h, next _ h'⟩

/-- In any two reachable states: the three questions decide whether any sequence of calls and
questions tells them apart, and nothing but links of free items is left undecided. -/
theorem three_questions_tell_all (b : Build) (ops ops' : List (Op V)) :
    let s := ListsOf.after b ops (ListsOf.new : ListsOf V g)
    let t := ListsOf.after b ops' (ListsOf.new : ListsOf V g)
    [ListsOf.LooksLike b s t, Indistinguishable (ListsOf.respond b) s t,
      ListsOf.SameRings s t].TFAE := by
  intro s t
  have h := after_refines b ops (g := g)
  have h' := after_refines b ops' (g := g)
  tfae_have 1 → 3 := h.sameRings_of_looksLike h'
  tfae_have 3 → 2 := fun same =>
    (oneModel_bisimulation b).indistinguishable ⟨_, h, h.of_sameRings same⟩
  tfae_have 2 → 1 := fun same =>
    { iter := fun l =>
        Call.answer_of_map (fun _ _ => Reply.items.inj) (Sum.inr.inj (same.answer (.inr (.iter l))))
      cursorOf := fun l =>
        Call.answer_of_map (fun _ _ => Reply.link.inj)
          (Sum.inr.inj (same.answer (.inr (.cursorOf l))))
      value := fun x =>
        Call.answer_of_map (fun _ _ => Reply.value.inj)
          (Sum.inr.inj (same.answer (.inr (.value x)))) }
  tfae_finish

end RtosCore
