import Mathlib.Data.List.Basic
import Mathlib.Data.List.Nodup
import Mathlib.Data.List.Perm.Subperm
import Mathlib.Data.List.TakeWhile

/-! What one list is for: distinct items in order, and a cursor that takes turns over them.
The cursor is the end marker (`none`) or one of the items, and no operation can leave it
anywhere else. Items of any type; the order they are placed in is the caller's. -/

namespace RtosCore

variable {α : Type*}

section Lists

/-- `x` immediately before the first element that satisfies `p`, or last if none does. -/
def insertBefore (p : α → Bool) (x : α) (l : List α) : List α :=
  l.takeWhile (fun y => !p y) ++ x :: l.dropWhile (fun y => !p y)

theorem insertBefore_perm (p : α → Bool) (x : α) (l : List α) :
    (insertBefore p x l).Perm (x :: l) := by
  refine List.perm_middle.trans (List.Perm.cons x ?_)
  rw [List.takeWhile_append_dropWhile]

@[simp] theorem mem_insertBefore {p : α → Bool} {x y : α} {l : List α} :
    y ∈ insertBefore p x l ↔ y = x ∨ y ∈ l := by
  rw [(insertBefore_perm p x l).mem_iff, List.mem_cons]

theorem nodup_insertBefore {p : α → Bool} {x : α} {l : List α} (hl : l.Nodup) (hx : x ∉ l) :
    (insertBefore p x l).Nodup :=
  (insertBefore_perm p x l).nodup_iff.mpr (List.nodup_cons.mpr ⟨hx, hl⟩)

theorem insertBefore_congr {p q : α → Bool} {l : List α} (h : ∀ y ∈ l, p y = q y) (x : α) :
    insertBefore p x l = insertBefore q x l := by
  induction l with
  | nil => rfl
  | cons y l ih =>
    have hy := h y (by simp)
    have ih := ih fun z hz => h z (List.mem_cons_of_mem _ hz)
    simp only [insertBefore, List.takeWhile_cons, List.dropWhile_cons, hy] at ih ⊢
    cases q y
    · simpa using ih
    · rfl

theorem insertBefore_none {p : α → Bool} {l : List α} (h : ∀ y ∈ l, p y = false) (x : α) :
    insertBefore p x l = l ++ [x] := by
  induction l with
  | nil => rfl
  | cons y l ih =>
    have ih := ih fun z hz => h z (List.mem_cons_of_mem _ hz)
    simp only [insertBefore, List.takeWhile_cons, List.dropWhile_cons, h y (by simp)] at ih ⊢
    simpa using ih

theorem insertBefore_split {p : α → Bool} {ys zs : List α} (hys : ∀ y ∈ ys, p y = false)
    (hzs : ∀ z ∈ zs.head?, p z = true) (x : α) :
    insertBefore p x (ys ++ zs) = ys ++ x :: zs := by
  induction ys with
  | nil =>
    cases zs with
    | nil => rfl
    | cons z zs => simp [insertBefore, hzs z (by simp)]
  | cons y ys ih =>
    have ih := ih fun z hz => hys z (List.mem_cons_of_mem _ hz)
    simp only [insertBefore, List.cons_append, List.takeWhile_cons, List.dropWhile_cons,
      hys y (by simp)] at ih ⊢
    simpa using ih

theorem notMem_before {x : α} {ys zs : List α} (nodup : (ys ++ x :: zs).Nodup) : x ∉ ys :=
  fun h => (List.nodup_append.mp nodup).2.2 x h x List.mem_cons_self rfl

variable [DecidableEq α]

def pred (x : α) (l : List α) : Option α :=
  (l.takeWhile (· ≠ x)).getLast?

def succ (x : α) (l : List α) : Option α :=
  (l.dropWhile (· ≠ x)).tail.head?

theorem takeWhile_ne {x : α} {ys zs : List α} (h : x ∉ ys) :
    (ys ++ x :: zs).takeWhile (· ≠ x) = ys := by
  induction ys with
  | nil => simp
  | cons y ys ih =>
    have hy : y ≠ x := fun e => h (by simp [e])
    simp only [List.cons_append, List.takeWhile_cons, ne_eq, hy, not_false_eq_true, decide_true,
      ↓reduceIte]
    rw [ih fun hx => h (List.mem_cons_of_mem _ hx)]

theorem dropWhile_ne {x : α} {ys zs : List α} (h : x ∉ ys) :
    (ys ++ x :: zs).dropWhile (· ≠ x) = x :: zs := by
  induction ys with
  | nil => simp
  | cons y ys ih =>
    have hy : y ≠ x := fun e => h (by simp [e])
    simp only [List.cons_append, List.dropWhile_cons, ne_eq, hy, not_false_eq_true, decide_true,
      ↓reduceIte]
    exact ih fun hx => h (List.mem_cons_of_mem _ hx)

theorem pred_eq {x : α} {ys zs : List α} (h : x ∉ ys) :
    pred x (ys ++ x :: zs) = ys.getLast? := by
  rw [pred, takeWhile_ne h]

theorem succ_eq {x : α} {ys zs : List α} (h : x ∉ ys) :
    succ x (ys ++ x :: zs) = zs.head? := by
  rw [succ, dropWhile_ne h, List.tail_cons]

theorem erase_middle {x : α} {ys zs : List α} (h : x ∉ ys) :
    (ys ++ x :: zs).erase x = ys ++ zs := by
  rw [List.erase_append_right _ h, List.erase_cons_head]

theorem pred_mem_erase {x y : α} {l : List α} (hl : l.Nodup) (hx : x ∈ l) (h : pred x l = some y) :
    y ∈ l.erase x := by
  obtain ⟨ys, zs, rfl⟩ := List.append_of_mem hx
  have hys := notMem_before hl
  rw [pred_eq hys] at h
  rw [erase_middle hys]
  exact List.mem_append_left _ (List.mem_of_getLast? h)

theorem succ_mem {x y : α} {l : List α} (h : succ x l = some y) : y ∈ l :=
  (List.dropWhile_sublist _).subset (List.mem_of_mem_tail (List.mem_of_head? h))

end Lists

@[ext] structure Rota (α : Type*) where
  items : List α
  cursor : Option α
  nodup : items.Nodup
  cursor_mem : ∀ x ∈ cursor, x ∈ items

namespace Rota

def empty : Rota α := ⟨[], none, by simp, by simp⟩

variable [DecidableEq α]

/-- `x` joins in front of the first item that satisfies `p`; a member stays where it is. -/
def place (r : Rota α) (p : α → Bool) (x : α) : Rota α :=
  if hx : x ∈ r.items then r else
    { items := insertBefore p x r.items
      cursor := r.cursor
      nodup := nodup_insertBefore r.nodup hx
      cursor_mem := fun y hy => mem_insertBefore.mpr (Or.inr (r.cursor_mem y hy)) }

/-- `x` leaves; a cursor on it steps back to its predecessor. -/
def erase (r : Rota α) (x : α) : Rota α where
  items := r.items.erase x
  cursor := if r.cursor = some x then pred x r.items else r.cursor
  nodup := r.nodup.erase x
  cursor_mem y hy := by
    split at hy
    · rename_i hc
      exact pred_mem_erase r.nodup (r.cursor_mem x hc) hy
    · rename_i hc
      have hne : y ≠ x := by
        rintro rfl
        exact hc hy
      exact (List.mem_erase_of_ne hne).mpr (r.cursor_mem y hy)

/-- Whose turn is next: the item after the cursor, or the first one past the last. -/
def nextUp (r : Rota α) : Option α :=
  match r.cursor with
  | none => r.items.head?
  | some c => (succ c r.items).or r.items.head?

theorem nextUp_mem {r : Rota α} {x : α} (h : r.nextUp = some x) : x ∈ r.items := by
  unfold nextUp at h
  split at h
  · exact List.mem_of_head? h
  · rcases Option.or_eq_some_iff.mp h with h | ⟨-, h⟩
    · exact succ_mem h
    · exact List.mem_of_head? h

def advance (r : Rota α) : Rota α :=
  { r with cursor := r.nextUp, cursor_mem := fun _ hx => nextUp_mem hx }

variable {r : Rota α} {p : α → Bool} {x y : α}

theorem place_items (hx : x ∉ r.items) : (r.place p x).items = insertBefore p x r.items := by
  simp [place, hx]

@[simp] theorem place_cursor : (r.place p x).cursor = r.cursor := by
  unfold place
  split <;> rfl

theorem mem_place : y ∈ (r.place p x).items ↔ y = x ∨ y ∈ r.items := by
  unfold place
  split
  · rename_i hx
    constructor
    · exact Or.inr
    · rintro (rfl | hy)
      · exact hx
      · exact hy
  · exact mem_insertBefore

theorem place_congr {q : α → Bool} (h : ∀ y ∈ r.items, p y = q y) : r.place p x = r.place q x := by
  unfold place
  split
  · rfl
  · ext1
    · exact insertBefore_congr h x
    · rfl

@[simp] theorem erase_items : (r.erase x).items = r.items.erase x := rfl

theorem erase_cursor :
    (r.erase x).cursor = if r.cursor = some x then pred x r.items else r.cursor := rfl

theorem mem_erase : y ∈ (r.erase x).items ↔ y ≠ x ∧ y ∈ r.items :=
  r.nodup.mem_erase_iff

theorem erase_of_notMem (hx : x ∉ r.items) : r.erase x = r := by
  have hc : r.cursor ≠ some x := fun e => hx (r.cursor_mem x e)
  ext1
  · exact List.erase_of_not_mem hx
  · simp [erase, hc]

@[simp] theorem advance_items : r.advance.items = r.items := rfl

@[simp] theorem advance_cursor : r.advance.cursor = r.nextUp := rfl

theorem nextUp_eq_none : r.nextUp = none ↔ r.items = [] := by
  unfold nextUp
  split
  · exact List.head?_eq_none_iff
  · rename_i c hc
    have hne : r.items ≠ [] := List.ne_nil_of_mem (r.cursor_mem c hc)
    simp [Option.or_eq_none_iff, hne]

end Rota

end RtosCore
