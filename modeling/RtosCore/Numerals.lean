import Mathlib.Data.List.TakeWhile

/-! Text with numbers in it. A decimal numeral can be read off again when what follows does not go
on with a digit, and a row of entries when each begins with a mark that ends the row otherwise. -/

namespace RtosCore

def numeral (n : ℕ) : List Char := Nat.toDigits 10 n

def Stops (text : List Char) : Prop := ∀ c ∈ text.head?, c.isDigit = false

variable {n m : ℕ} {xs ys : List Char} {c : Char}

theorem stops_cons (mark : c.isDigit = false) : Stops (c :: xs) := by
  rintro d here
  rwa [← Option.some.inj here]

theorem isDigit_of_mem_numeral (mem : c ∈ numeral n) : c.isDigit = true :=
  Nat.isDigit_of_mem_toDigits (by decide) (by decide) mem

theorem numeral_injective (same : numeral n = numeral m) : n = m := by
  have read := congrArg (fun ds => Nat.ofDigitChars 10 ds 0) same
  simpa [numeral] using read

theorem takeWhile_numeral (stops : Stops xs) :
    (numeral n ++ xs).takeWhile Char.isDigit = numeral n := by
  have none : xs.takeWhile Char.isDigit = [] := by
    cases xs with
    | nil => rfl
    | cons c xs => exact List.takeWhile_cons_of_neg (by simp [stops c rfl])
  rw [List.takeWhile_append_of_pos fun _ => isDigit_of_mem_numeral, none, List.append_nil]

/-- The number and what follows it are both determined. -/
theorem numeral_cancel (hx : Stops xs) (hy : Stops ys)
    (same : numeral n ++ xs = numeral m ++ ys) : n = m ∧ xs = ys := by
  have number : n = m := numeral_injective (by
    rw [← takeWhile_numeral (n := n) hx, same, takeWhile_numeral hy])
  subst number
  exact ⟨rfl, List.append_cancel_left same⟩

section Rows

variable {α : Type}

def row (c : Char) (entry : α → List Char) (as : List α) : List Char :=
  as.flatMap fun a => c :: entry a

def Readable (entry : α → List Char) : Prop :=
  ∀ (a b : α) (xs ys : List Char), Stops xs → Stops ys → entry a ++ xs = entry b ++ ys →
    a = b ∧ xs = ys

theorem row_stops (mark : c.isDigit = false) (entry : α → List Char) (as : List α)
    (stops : Stops xs) : Stops (row c entry as ++ xs) := by
  cases as with
  | nil => exact stops
  | cons a as => exact stops_cons mark

/-- The row ends where something follows the mark with which no entry begins. -/
theorem row_cancel {entry : α → List Char} (readable : Readable entry) (mark : c.isDigit = false)
    {stop : Char} (begins : ∀ a, ∃ d ds, entry a = d :: ds ∧ d ≠ stop) {as bs : List α}
    (same : row c entry as ++ c :: stop :: xs = row c entry bs ++ c :: stop :: ys) :
    as = bs ∧ xs = ys := by
  have split : ∀ (a : α) (as : List α) (us : List Char),
      row c entry (a :: as) ++ us = c :: (entry a ++ (row c entry as ++ us)) := by
    intro a as us
    rw [row, List.flatMap_cons, List.cons_append, List.cons_append, List.append_assoc]
    rfl
  have other : ∀ (a : α) (us vs : List Char), c :: stop :: us ≠ c :: (entry a ++ vs) := by
    intro a us vs same
    obtain ⟨d, ds, text, differs⟩ := begins a
    rw [text] at same
    injection same with _ same
    injection same with same _
    exact differs same.symm
  have stopped : ∀ us, Stops (c :: us) := fun _ => stops_cons mark
  induction as generalizing bs with
  | nil =>
    cases bs with
    | nil =>
      injection same with _ same
      injection same with _ same
      exact ⟨rfl, same⟩
    | cons b bs =>
      rw [split] at same
      exact absurd same (other b _ _)
  | cons a as ih =>
    rw [split] at same
    cases bs with
    | nil => exact absurd same.symm (other a _ _)
    | cons b bs =>
      rw [split] at same
      injection same with _ same
      obtain ⟨rfl, left⟩ := readable a b _ _ (row_stops mark entry as (stopped _))
        (row_stops mark entry bs (stopped _)) same
      obtain ⟨rfl, rest⟩ := ih left
      exact ⟨rfl, rest⟩

end Rows

end RtosCore
