import RtosCore.Rota
import Mathlib.Data.List.Nodup
import Mathlib.Data.List.Rotate

/-! When an item's turn comes. The cursor cuts a rota into the items that have had their turn
since it last started over and the rest, which are still to come. Newcomers join in front of
the cursor and leavers leave either part, so the rest only shrinks until the rota starts over,
and from then on only the items in front of `x` can be served before it. -/

namespace RtosCore

variable {α : Type*} [DecidableEq α]

theorem idxOf_erase_le {x y : α} (h : x ≠ y) (l : List α) :
    (l.erase y).idxOf x ≤ l.idxOf x := by
  induction l with
  | nil => simp
  | cons z l ih =>
    by_cases hz : z = y
    · subst hz
      rw [List.erase_cons_head, List.idxOf_cons_ne _ h.symm]
      exact Nat.le_succ _
    · rw [List.erase_cons_tail (by simpa using hz)]
      by_cases hx : z = x
      · rw [List.idxOf_cons_eq _ hx]
        exact Nat.zero_le _
      · rw [List.idxOf_cons_ne _ hx, List.idxOf_cons_ne _ hx]
        exact Nat.succ_le_succ ih

namespace Rota

variable {r : Rota α} {x y : α} {ys zs : List α} {c : ℕ}

def upto (r : Rota α) : List α :=
  match r.cursor with
  | none => []
  | some c => r.items.takeWhile (· ≠ c) ++ [c]

def rest (r : Rota α) : List α :=
  match r.cursor with
  | none => r.items
  | some c => (r.items.dropWhile (· ≠ c)).tail

theorem cut_eq (items : r.items = ys ++ zs) (cursor : r.cursor = ys.getLast?) :
    r.upto = ys ∧ r.rest = zs := by
  unfold upto rest
  cases hc : r.cursor with
  | none =>
    rw [hc] at cursor
    have : ys = [] := List.getLast?_eq_none_iff.mp cursor.symm
    subst this
    exact ⟨rfl, items⟩
  | some c =>
    rw [hc] at cursor
    obtain ⟨us, rfl⟩ := List.getLast?_eq_some_iff.mp cursor.symm
    rw [List.append_assoc, List.singleton_append] at items
    have nodup := r.nodup
    rw [items] at nodup ⊢
    simp only
    rw [takeWhile_ne (notMem_before nodup), dropWhile_ne (notMem_before nodup)]
    exact ⟨rfl, rfl⟩

omit [DecidableEq α] in
theorem exists_cut (r : Rota α) : ∃ ys zs, r.items = ys ++ zs ∧ r.cursor = ys.getLast? := by
  cases hc : r.cursor with
  | none => exact ⟨[], r.items, rfl, rfl⟩
  | some c =>
    obtain ⟨us, zs, items⟩ := List.append_of_mem (r.cursor_mem c hc)
    exact ⟨us ++ [c], zs, by simp [items], by simp⟩

theorem upto_append_rest (r : Rota α) : r.upto ++ r.rest = r.items := by
  obtain ⟨ys, zs, items, cursor⟩ := r.exists_cut
  obtain ⟨rfl, rfl⟩ := cut_eq items cursor
  exact items.symm

theorem cursor_eq (r : Rota α) : r.cursor = r.upto.getLast? := by
  obtain ⟨ys, zs, items, cursor⟩ := r.exists_cut
  obtain ⟨rfl, rfl⟩ := cut_eq items cursor
  exact cursor

theorem nodup_cut (r : Rota α) : (r.upto ++ r.rest).Nodup := r.upto_append_rest ▸ r.nodup

theorem nextUp_eq (r : Rota α) : r.nextUp = (r.rest ++ r.upto).head? := by
  have items := r.upto_append_rest
  unfold nextUp
  cases hc : r.cursor with
  | none =>
    have upto : r.upto = [] := by rw [Rota.upto, hc]
    rw [upto, List.nil_append] at items
    rw [upto, List.append_nil, items]
  | some c =>
    obtain ⟨us, last⟩ := List.getLast?_eq_some_iff.mp (r.cursor_eq.symm.trans hc)
    have nodup := r.nodup_cut
    rw [last, List.append_assoc, List.singleton_append] at items nodup
    simp only
    rw [← items, succ_eq (notMem_before nodup), last, List.head?_append, List.head?_append]
    cases us <;> rfl

/-- A turn taken from the rest moves the cursor one further. -/
theorem advance_cut (h : r.rest = y :: zs) :
    r.advance.upto = r.upto ++ [y] ∧ r.advance.rest = zs := by
  refine cut_eq ?_ ?_
  · rw [advance_items, ← r.upto_append_rest, h, List.append_assoc, List.singleton_append]
  · rw [advance_cursor, nextUp_eq, h]
    simp

/-- With nothing left the rota starts over from its first item. -/
theorem advance_cut_over (h : r.rest = []) (hu : r.upto = y :: zs) :
    r.advance.upto = [y] ∧ r.advance.rest = zs := by
  refine cut_eq ?_ ?_
  · rw [advance_items, ← r.upto_append_rest, h, hu]
    simp
  · rw [advance_cursor, nextUp_eq, h, hu]
    rfl

theorem erase_cut (r : Rota α) (y : α) :
    (r.erase y).upto = r.upto.erase y ∧ (r.erase y).rest = r.rest.erase y := by
  have items := r.upto_append_rest
  have nodup := r.nodup_cut
  by_cases hu : y ∈ r.upto
  · have hr : y ∉ r.rest := fun h => (List.nodup_append.mp nodup).2.2 y hu y h rfl
    rw [List.erase_of_not_mem hr]
    refine cut_eq ?_ ?_
    · rw [erase_items, ← items, List.erase_append_left _ hu]
    · rw [erase_cursor]
      obtain ⟨us, vs, cut⟩ := List.append_of_mem hu
      rw [cut] at nodup
      have hus := notMem_before (List.nodup_append.mp nodup).1
      rw [r.cursor_eq, cut, erase_middle hus]
      cases vs with
      | nil =>
        rw [← items, cut, List.append_assoc, List.singleton_append, pred_eq hus]
        simp
      | cons v vs =>
        have hv : (us ++ y :: v :: vs).getLast? ≠ some y := by
          have hy := (List.nodup_cons.mp (List.nodup_append.mp
            (List.nodup_append.mp nodup).1).2.1).1
          rw [List.getLast?_append_cons, List.getLast?_cons_cons]
          intro last
          exact hy (List.mem_of_getLast? last)
        rw [if_neg hv]
        simp
  · rw [List.erase_of_not_mem hu]
    have hc : r.cursor ≠ some y := fun h =>
      hu (List.mem_of_getLast? (r.cursor_eq.symm.trans h))
    refine cut_eq ?_ ?_
    · rw [erase_items, ← items, List.erase_append_right _ hu]
    · rw [erase_cursor, if_neg hc, r.cursor_eq]

theorem ext_cut {r' : Rota α} (upto : r'.upto = r.upto) (rest : r'.rest = r.rest) : r' = r := by
  ext1
  · rw [← r.upto_append_rest, ← r'.upto_append_rest, upto, rest]
  · rw [r.cursor_eq, r'.cursor_eq, upto]

def eraseAll (r : Rota α) (xs : List α) : Rota α := xs.foldl erase r

theorem eraseAll_cut (r : Rota α) (xs : List α) :
    (r.eraseAll xs).upto = r.upto.filter (· ∉ xs) ∧ (r.eraseAll xs).rest = r.rest.filter (· ∉ xs) := by
  have nodup := List.nodup_append.mp r.nodup_cut
  rw [← nodup.1.sdiff_eq_filter, ← nodup.2.1.sdiff_eq_filter]
  clear nodup
  induction xs generalizing r with
  | nil => exact ⟨(List.diff_nil _).symm, (List.diff_nil _).symm⟩
  | cons x xs ih =>
    obtain ⟨upto, rest⟩ := r.erase_cut x
    rw [List.diff_cons, List.diff_cons, ← upto, ← rest]
    exact ih (r.erase x)

theorem eraseAll_items (r : Rota α) (xs : List α) :
    (r.eraseAll xs).items = r.items.filter (· ∉ xs) := by
  obtain ⟨upto, rest⟩ := r.eraseAll_cut xs
  rw [← upto_append_rest, upto, rest, ← List.filter_append, r.upto_append_rest]

theorem eraseAll_perm (r : Rota α) {xs ys : List α} (perm : xs.Perm ys) :
    r.eraseAll xs = r.eraseAll ys := by
  obtain ⟨upto, rest⟩ := r.eraseAll_cut xs
  obtain ⟨upto', rest'⟩ := r.eraseAll_cut ys
  have alike : ∀ l : List α, l.filter (· ∉ xs) = l.filter (· ∉ ys) := fun l =>
    List.filter_congr fun x _ => by simp only [perm.mem_iff]
  exact ext_cut (by rw [upto, upto', alike]) (by rw [rest, rest', alike])

def atCursor (r : Rota α) (y : α) : Bool := some y = r.cursor

/-- While the cursor is the marker the rota is a queue. -/
theorem placeAtCursor_marker (hx : x ∉ r.items) (hc : r.cursor = none) :
    (r.place r.atCursor x).items = r.items ++ [x] := by
  rw [place_items hx]
  exact insertBefore_none (by simp [atCursor, hc]) x

theorem erase_marker (hc : r.cursor = none) : (r.erase x).cursor = none := by
  simp [erase_cursor, hc]

/-- A newcomer is the last of those to come when the cursor is the marker, and otherwise the
last but one of those that have had their turn. -/
theorem placeAtCursor_cut (hx : x ∉ r.items) :
    (r.upto = [] → (r.place r.atCursor x).upto = [] ∧
      (r.place r.atCursor x).rest = r.rest ++ [x]) ∧
    (∀ us c, r.upto = us ++ [c] → (r.place r.atCursor x).upto = us ++ [x, c] ∧
      (r.place r.atCursor x).rest = r.rest) := by
  have items := r.upto_append_rest
  constructor
  · intro hu
    have hc : r.cursor = none := by rw [r.cursor_eq, hu]; rfl
    have cut : (r.place r.atCursor x).items = [] ++ (r.rest ++ [x]) := by
      rw [placeAtCursor_marker hx hc, ← items, hu, List.nil_append, List.nil_append]
    exact cut_eq cut (by rw [place_cursor, hc]; rfl)
  · intro us c cut
    have hc : r.cursor = some c := by rw [r.cursor_eq, cut]; simp
    have nodup := r.nodup_cut
    rw [cut, List.append_assoc, List.singleton_append] at items nodup
    have before : ∀ y ∈ us, r.atCursor y = false := by
      intro y hy
      have : y ≠ c := (List.nodup_append.mp nodup).2.2 y hy c (by simp)
      simpa [atCursor, hc] using this
    have cut : (r.place r.atCursor x).items = (us ++ [x, c]) ++ r.rest := by
      rw [place_items hx, ← items, insertBefore_split before (by simp [atCursor, hc])]
      simp
    refine cut_eq cut ?_
    rw [place_cursor, hc]
    simp

theorem upto_eq_nil : r.upto = [] ↔ r.cursor = none := by
  rw [r.cursor_eq, List.getLast?_eq_none_iff]

theorem upto_eq_concat {c : α} (hc : r.cursor = some c) : ∃ us, r.upto = us ++ [c] :=
  List.getLast?_eq_some_iff.mp (r.cursor_eq.symm.trans hc)

theorem placeAtCursor_rest (hx : x ∉ r.items) :
    (r.place r.atCursor x).rest = if r.upto = [] then r.rest ++ [x] else r.rest := by
  obtain ⟨start, within⟩ := placeAtCursor_cut hx
  split
  · rename_i hu
    exact (start hu).2
  · rename_i hu
    obtain ⟨c, hc⟩ := Option.ne_none_iff_exists'.mp (mt upto_eq_nil.mpr hu)
    obtain ⟨us, cut⟩ := upto_eq_concat hc
    exact (within us c cut).2

/-- How many turns others may have before `x`, of a rota of at most `c` items: those in front
of `x` in the rest, or the whole rest and then those the rota starts over with. -/
def wait (c : ℕ) (r : Rota α) (x : α) : ℕ :=
  if x ∈ r.rest then r.rest.idxOf x else r.rest.length + (c - 1)

theorem wait_of_mem (h : x ∈ r.rest) : r.wait c x = r.rest.idxOf x := if_pos h

theorem wait_of_notMem (h : x ∉ r.rest) : r.wait c x = r.rest.length + (c - 1) := if_neg h

theorem mem_upto (hx : x ∈ r.items) (hr : x ∉ r.rest) : x ∈ r.upto := by
  rw [← r.upto_append_rest, List.mem_append] at hx
  exact hx.resolve_right hr

theorem length_cut (r : Rota α) : r.upto.length + r.rest.length = r.items.length := by
  rw [← r.upto_append_rest, List.length_append]

theorem wait_le (hx : x ∈ r.items) (hc : r.items.length ≤ c) : r.wait c x ≤ 2 * c - 2 := by
  have cut := r.length_cut
  by_cases hr : x ∈ r.rest
  · have := List.idxOf_lt_length_of_mem hr
    rw [wait_of_mem hr]
    omega
  · have := List.length_pos_of_mem (mem_upto hx hr)
    rw [wait_of_notMem hr]
    omega

/-- Every turn that is not `x`'s brings its turn nearer. -/
theorem wait_advance (hx : x ∈ r.items) (hc : r.items.length ≤ c) (other : r.nextUp ≠ some x) :
    r.advance.wait c x < r.wait c x := by
  have cut := r.length_cut
  rw [nextUp_eq] at other
  cases rest : r.rest with
  | nil =>
    -- The rota starts over: `x` has only those before it in front of it.
    rw [rest] at other cut
    have hr : x ∉ r.rest := by simp [rest]
    have hu := mem_upto hx hr
    cases upto : r.upto with
    | nil => simp [upto] at hu
    | cons y zs =>
      rw [upto] at other cut hu
      have hy : y ≠ x := by simpa using other
      have advanced := (advance_cut_over rest upto).2
      have hz : x ∈ r.advance.rest := advanced ▸ (List.mem_cons.mp hu).resolve_left hy.symm
      have := List.idxOf_lt_length_of_mem hz
      rw [wait_of_mem hz, wait_of_notMem hr, rest]
      rw [advanced] at this ⊢
      simp only [List.length_cons, List.length_nil] at cut ⊢
      omega
  | cons y zs =>
    rw [rest] at other
    have hy : y ≠ x := by simpa using other
    have advanced := (advance_cut rest).2
    by_cases hz : x ∈ zs
    · rw [wait_of_mem (advanced ▸ hz), wait_of_mem (rest ▸ List.mem_cons_of_mem y hz), advanced,
        rest, List.idxOf_cons_ne _ hy]
      exact Nat.lt_succ_self _
    · have hr : x ∉ r.rest := by
        rw [rest]
        exact fun h => (List.mem_cons.mp h).elim (fun e => hy e.symm) hz
      rw [wait_of_notMem (advanced ▸ hz), wait_of_notMem hr, advanced, rest, List.length_cons]
      omega

theorem wait_erase (h : x ≠ y) : (r.erase y).wait c x ≤ r.wait c x := by
  have rest := (r.erase_cut y).2
  have mem : x ∈ (r.erase y).rest ↔ x ∈ r.rest := by rw [rest, List.mem_erase_of_ne h]
  by_cases hr : x ∈ r.rest
  · rw [wait_of_mem hr, wait_of_mem (mem.mpr hr), rest]
    exact idxOf_erase_le h _
  · rw [wait_of_notMem hr, wait_of_notMem (mt mem.mp hr), rest]
    exact Nat.add_le_add_right List.length_erase_le _

theorem wait_placeAtCursor (hx : x ∈ r.items) (hy : y ∉ r.items) :
    (r.place r.atCursor y).wait c x = r.wait c x := by
  have rest := placeAtCursor_rest hy
  by_cases hu : r.upto = []
  · have hr : x ∈ r.rest := by
      rw [← r.upto_append_rest, hu] at hx
      exact hx
    rw [if_pos hu] at rest
    rw [wait_of_mem hr, wait_of_mem (rest ▸ List.mem_append_left _ hr), rest,
      List.idxOf_append_of_mem hr]
  · rw [if_neg hu] at rest
    rw [wait, wait, rest]

/-- Everyone in the order of their next turns: round the ring, from behind the cursor. -/
def order (r : Rota α) : List α := r.rest ++ r.upto

theorem order_perm (r : Rota α) : r.order.Perm r.items := by
  rw [← r.upto_append_rest]
  exact List.perm_append_comm

theorem nodup_order (r : Rota α) : r.order.Nodup := r.order_perm.nodup_iff.mpr r.nodup

theorem length_order (r : Rota α) : r.order.length = r.items.length := r.order_perm.length_eq

theorem advance_order (r : Rota α) : r.advance.order = r.order.rotate 1 := by
  unfold order
  cases rest : r.rest with
  | nil =>
    cases upto : r.upto with
    | nil =>
      have none : r.items = [] := by rw [← r.upto_append_rest, upto, rest]; rfl
      have advanced := r.advance.upto_append_rest
      rw [advance_items, none, List.append_eq_nil_iff] at advanced
      rw [advanced.1, advanced.2]
      rfl
    | cons y zs =>
      obtain ⟨upto', rest'⟩ := advance_cut_over rest upto
      rw [upto', rest', List.nil_append, List.rotate_cons_succ, List.rotate_zero]
  | cons y zs =>
    obtain ⟨upto', rest'⟩ := advance_cut rest
    rw [upto', rest', List.cons_append, List.rotate_cons_succ, List.rotate_zero, List.append_assoc]

theorem erase_order (r : Rota α) (y : α) : (r.erase y).order = r.order.erase y := by
  obtain ⟨upto, rest⟩ := r.erase_cut y
  have nodup : (r.rest ++ r.upto).Nodup := r.nodup_order
  unfold order
  rw [upto, rest]
  by_cases hr : y ∈ r.rest
  · have hu : y ∉ r.upto := fun h => (List.nodup_append.mp nodup).2.2 y hr y h rfl
    rw [List.erase_of_not_mem hu, List.erase_append_left _ hr]
  · rw [List.erase_of_not_mem hr, List.erase_append_right _ hr]

theorem placeAtCursor_order_marker (hx : x ∉ r.items) (hc : r.cursor = none) :
    (r.place r.atCursor x).order = r.order ++ [x] := by
  obtain ⟨upto, rest⟩ := (placeAtCursor_cut hx).1 (upto_eq_nil.mpr hc)
  rw [order, order, upto, rest, upto_eq_nil.mpr hc, List.append_nil, List.append_nil]

theorem placeAtCursor_order_item {c : α} (hx : x ∉ r.items) (hc : r.cursor = some c) :
    ∃ us, r.order = us ++ [c] ∧ (r.place r.atCursor x).order = us ++ [x, c] := by
  obtain ⟨us, cut⟩ := upto_eq_concat hc
  obtain ⟨upto, rest⟩ := (placeAtCursor_cut hx).2 us c cut
  refine ⟨r.rest ++ us, ?_, ?_⟩
  · rw [order, cut, List.append_assoc]
  · rw [order, upto, rest, List.append_assoc]

def turns : ℕ → Rota α → List (Option α)
  | 0, _ => []
  | n + 1, r => r.nextUp :: turns n r.advance

@[simp] theorem length_turns (n : ℕ) (r : Rota α) : (turns n r).length = n := by
  induction n generalizing r with
  | zero => rfl
  | succ n ih => rw [turns, List.length_cons, ih]

theorem getElem?_turns {n k : ℕ} (hk : k < n) (r : Rota α) :
    (turns n r)[k]? = some (r.order.rotate k).head? := by
  induction n generalizing r k with
  | zero => exact absurd hk (Nat.not_lt_zero k)
  | succ n ih =>
    cases k with
    | zero => rw [turns, List.getElem?_cons_zero, nextUp_eq, List.rotate_zero, order]
    | succ k =>
      rw [turns, List.getElem?_cons_succ, ih (Nat.lt_of_succ_lt_succ hk), advance_order,
        List.rotate_rotate, Nat.add_comm]

theorem turns_length (r : Rota α) : turns r.items.length r = r.order.map some := by
  refine List.ext_getElem? fun k => ?_
  by_cases hk : k < r.items.length
  · rw [getElem?_turns hk, List.head?_rotate (by rwa [length_order]), List.getElem?_map]
    rw [← length_order] at hk
    rw [List.getElem?_eq_getElem hk]
    rfl
  · rw [not_lt] at hk
    rw [List.getElem?_eq_none (by rwa [length_turns]),
      List.getElem?_eq_none (by rwa [List.length_map, length_order])]

theorem turns_period {n k : ℕ} (hk : k + r.items.length < n) :
    (turns n r)[k + r.items.length]? = (turns n r)[k]? := by
  rw [getElem?_turns hk, getElem?_turns (by omega), Nat.add_comm, ← r.length_order,
    ← List.rotate_rotate, List.rotate_length]

end Rota

end RtosCore
