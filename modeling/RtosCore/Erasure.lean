import Mathlib.Data.List.Basic

/-! Steps that may be left out of a run. A machine is a function of a state and an input; some
inputs are quiet, and the question is when a run may be compared with what is left of it
without them. -/

namespace RtosCore

variable {S A : Type*}

def loud (quiet : A → Bool) (as : List A) : List A := as.filter fun a => !quiet a

/-- A relation between a run with quiet inputs and one without: quiet steps on the left keep it,
and so does any other step made on both sides. -/
structure Hides (step : S → A → S) (quiet : A → Bool) (R : S → S → Prop) : Prop where
  skip : ∀ {s s' : S} {a : A}, R s s' → quiet a = true → R (step s a) s'
  both : ∀ {s s' : S} {a : A}, R s s' → quiet a = false → R (step s a) (step s' a)

variable {step : S → A → S} {quiet : A → Bool} {R : S → S → Prop} {s s' : S} {a : A}
  {as bs : List A}

theorem loud_cons_quiet (silent : quiet a = true) : loud quiet (a :: as) = loud quiet as :=
  List.filter_cons_of_neg (by simp [silent])

theorem loud_cons (speaks : quiet a = false) : loud quiet (a :: as) = a :: loud quiet as :=
  List.filter_cons_of_pos (by simp [speaks])

theorem loud_concat_quiet (silent : quiet a = true) (as : List A) :
    loud quiet (as ++ [a]) = loud quiet as := by
  simp [loud, silent]

theorem Hides.run (hides : Hides step quiet R) (start : R s s') (as : List A) :
    R (as.foldl step s) ((loud quiet as).foldl step s') := by
  induction as generalizing s s' with
  | nil => exact start
  | cons a as ih =>
    cases silent : quiet a with
    | true =>
      rw [loud_cons_quiet silent]
      exact ih (hides.skip start silent)
    | false =>
      rw [loud_cons silent]
      exact ih (hides.both start silent)

theorem Hides.unseen (hides : Hides step quiet R) (equivalence : Equivalence R)
    (same : loud quiet as = loud quiet bs) (s : S) : R (as.foldl step s) (bs.foldl step s) := by
  refine equivalence.trans (hides.run (equivalence.refl s) as) ?_
  rw [same]
  exact equivalence.symm (hides.run (equivalence.refl s) bs)

def Idle (step : S → A → S) (quiet : A → Bool) : S → List A → Prop
  | _, [] => True
  | s, a :: as => (quiet a = true → step s a = s) ∧ Idle step quiet (step s a) as

theorem Idle.run (idle : Idle step quiet s as) :
    as.foldl step s = (loud quiet as).foldl step s := by
  induction as generalizing s with
  | nil => rfl
  | cons a as ih =>
    rw [List.foldl_cons, ih idle.2]
    cases silent : quiet a with
    | true => rw [loud_cons_quiet silent, idle.1 silent]
    | false => rw [loud_cons silent, List.foldl_cons]

def Inert (step : S → A → S) (quiet : A → Bool) (s : S) : Prop :=
  ∀ as : List A, (∀ a ∈ as, quiet a = false) → ∀ a, quiet a = true →
    step (as.foldl step s) a = as.foldl step s

theorem Inert.next (inert : Inert step quiet s) (speaks : quiet a = false) :
    Inert step quiet (step s a) := fun as others =>
  inert (a :: as) (List.forall_mem_cons.mpr ⟨speaks, others⟩)

theorem Inert.idle (inert : Inert step quiet s) (as : List A) : Idle step quiet s as := by
  induction as generalizing s with
  | nil => trivial
  | cons a as ih =>
    have still : quiet a = true → step s a = s := inert [] (fun _ mem => absurd mem List.not_mem_nil) a
    refine ⟨still, ?_⟩
    cases silent : quiet a with
    | true =>
      rw [still silent]
      exact ih inert
    | false => exact ih (inert.next silent)

/-- Quiet inputs may be left out of every run, or put into it, exactly when the machine is inert. -/
theorem inert_iff : Inert step quiet s ↔
    ∀ as bs, loud quiet as = loud quiet bs → as.foldl step s = bs.foldl step s := by
  constructor
  · intro inert as bs same
    rw [(inert.idle as).run, (inert.idle bs).run, same]
  · intro erasable as _ a silent
    have joined := erasable (as ++ [a]) as (loud_concat_quiet silent as)
    rwa [List.foldl_concat] at joined

end RtosCore
