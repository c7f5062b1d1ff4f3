import Mathlib.Data.List.Basic

/-! Programs that check themselves as they go. A failed check ends the run; the rules here show
that a run gets through, from what its parts keep. -/

namespace RtosCore

variable {ε α β σ : Type}

/-- The run gets through, to a result that satisfies `P`. -/
def Ends (r : Except ε α) (P : α → Prop) : Prop := ∃ a, r = .ok a ∧ P a

def ensure (p : Prop) [Decidable p] (e : ε) : Except ε Unit := if p then .ok () else .error e

/-- `while`, for at most so many turns. -/
def whileTurns (going : σ → Bool) (turn : σ → Except ε σ) : ℕ → σ → Except ε σ
  | 0, s => .ok s
  | n + 1, s => if going s then turn s >>= whileTurns going turn n else .ok s

theorem ok_bind (a : α) (f : α → Except ε β) : (Except.ok a >>= f) = f a := rfl

namespace Ends

variable {r : Except ε α} {f : α → Except ε β} {P : α → Prop} {Q : β → Prop} {e : ε}

theorem ok {a : α} (h : P a) : Ends (.ok a : Except ε α) P := ⟨a, rfl, h⟩

theorem bind (h : Ends r P) (rest : ∀ a, P a → Ends (f a) Q) : Ends (r >>= f) Q := by
  obtain ⟨a, rfl, now⟩ := h
  exact rest a now

theorem ensure {p : Prop} [Decidable p] (h : p) :
    Ends (RtosCore.ensure p e) fun _ => True := by
  rw [RtosCore.ensure, if_pos h]
  exact ok trivial

theorem ensure_bind {p : Prop} [Decidable p] {rest : Unit → Except ε β} (h : p)
    (after : Ends (rest ()) Q) : Ends (RtosCore.ensure p e >>= rest) Q :=
  (ensure h).bind fun _ _ => after

theorem forM {xs : List α} {body : α → Except ε PUnit}
    (h : ∀ x ∈ xs, Ends (body x) fun _ => True) : Ends (xs.forM body) fun _ => True := by
  induction xs with
  | nil => exact ok trivial
  | cons x xs ih =>
    refine (h x List.mem_cons_self).bind fun _ _ => ?_
    exact ih fun y mem => h y (List.mem_cons_of_mem _ mem)

theorem foldlM {τ : Type} {R : σ → τ → Prop} {step : σ → α → Except ε σ} {step' : τ → α → τ}
    (follows : ∀ s t x, R s t → Ends (step s x) fun s' => R s' (step' t x)) {s : σ} {t : τ}
    (start : R s t) (xs : List α) :
    Ends (xs.foldlM step s) fun s' => R s' (xs.foldl step' t) := by
  induction xs generalizing s t with
  | nil => exact ok start
  | cons x xs ih =>
    rw [List.foldlM_cons]
    exact (follows s t x start).bind fun s' kept => ih kept

theorem mapM {xs : List α} {f : α → Except ε β} {h : α → β} (each : ∀ x ∈ xs, f x = .ok (h x)) :
    xs.mapM f = .ok (xs.map h) := by
  induction xs with
  | nil => rfl
  | cons x xs ih =>
    rw [List.mapM_cons, each x List.mem_cons_self, ok_bind,
      ih fun y mem => each y (List.mem_cons_of_mem _ mem)]
    rfl

theorem whileTurns {going : σ → Bool} {turn : σ → Except ε σ} {Inv : σ → Prop}
    (keeps : ∀ s, Inv s → Ends (turn s) Inv) {s : σ} (start : Inv s) (n : ℕ) :
    Ends (RtosCore.whileTurns going turn n s) Inv := by
  induction n generalizing s with
  | zero => exact ok start
  | succ n ih =>
    rw [RtosCore.whileTurns]
    split
    · exact (keeps s start).bind fun s' kept => ih kept
    · exact ok start

end Ends

end RtosCore
