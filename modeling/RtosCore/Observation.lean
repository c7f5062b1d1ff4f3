import Mathlib.Data.List.Basic

/-! What can be told about a machine from outside. It answers every input and moves on; two states
no sequence of inputs tells apart are the same to its users, whatever they store. -/

namespace RtosCore

variable {σ ι ο : Type*}

def answers (step : σ → ι → ο × σ) : List ι → σ → List ο
  | [], _ => []
  | i :: is, s => (step s i).1 :: answers step is (step s i).2

def Indistinguishable (step : σ → ι → ο × σ) (s t : σ) : Prop :=
  ∀ is, answers step is s = answers step is t

/-- States it relates answer alike and stay related. -/
structure Bisimulation (step : σ → ι → ο × σ) (R : σ → σ → Prop) : Prop where
  answer : ∀ {s t : σ} (i : ι), R s t → (step s i).1 = (step t i).1
  next : ∀ {s t : σ} (i : ι), R s t → R (step s i).2 (step t i).2

variable {step : σ → ι → ο × σ} {R : σ → σ → Prop} {s t : σ}

theorem Bisimulation.indistinguishable (bisimulation : Bisimulation step R) (related : R s t) :
    Indistinguishable step s t := by
  intro is
  induction is generalizing s t with
  | nil => rfl
  | cons i is ih =>
    rw [answers, answers, bisimulation.answer i related, ih (bisimulation.next i related)]

theorem Indistinguishable.answer (same : Indistinguishable step s t) (i : ι) :
    (step s i).1 = (step t i).1 := by
  simpa [answers] using same [i]

end RtosCore
