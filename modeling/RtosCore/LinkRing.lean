import Mathlib.Data.List.Basic
import Mathlib.Data.List.Iterate
import Mathlib.Data.List.Nodup
import Mathlib.Logic.Function.Iterate

/-! Circular doubly linked lists over an arbitrary type of nodes.
A list is read off its link functions: a path follows one link function from a
node through the listed ones, and a ring is a path from its marker back to the
marker in both directions. Nothing here owns storage, so two rings in one node
array are two statements about the same pair of functions. -/

namespace RtosCore

variable {ι : Type*}

/-- Following `f` from `a` visits `xs` in order and then arrives at `b`. -/
def Path (f : ι → ι) : ι → List ι → ι → Prop
  | a, [], b => f a = b
  | a, x :: xs, b => f a = x ∧ Path f x xs b

namespace Path

variable {f g : ι → ι} {a b c x : ι} {xs ys : List ι}

theorem first (h : Path f a xs b) : f a = xs.headD b := by
  cases xs with
  | nil => exact h
  | cons x xs => exact h.1

theorem append_iff :
    Path f a (xs ++ ys) b ↔ Path f a xs (ys.headD b) ∧ Path f (xs.getLastD a) ys b := by
  induction xs generalizing a with
  | nil =>
    constructor
    · intro h
      exact ⟨h.first, h⟩
    · exact fun h => h.2
  | cons x xs ih =>
    simp only [List.cons_append, Path, List.getLastD_cons, ih, and_assoc]

theorem congr (h : ∀ y ∈ a :: xs, g y = f y) (p : Path f a xs b) : Path g a xs b := by
  induction xs generalizing a with
  | nil => exact (h a (by simp)).trans p
  | cons x xs ih =>
    refine ⟨(h a (by simp)).trans p.1, ih (fun y hy => h y ?_) p.2⟩
    exact List.mem_cons_of_mem _ hy

theorem redirect (nodup : (a :: xs).Nodup) (p : Path f a xs b)
    (last : g (xs.getLastD a) = c)
    (h : ∀ y ∈ a :: xs, y ≠ xs.getLastD a → g y = f y) : Path g a xs c := by
  induction xs generalizing a with
  | nil => exact last
  | cons x xs ih =>
    have hx : (x :: xs).getLastD a ∈ x :: xs := by
      simpa only [List.getLastD_cons] using List.getLastD_mem_cons
    have ha : a ≠ (x :: xs).getLastD a := fun e =>
      (List.nodup_cons.mp nodup).1 (e ▸ hx)
    refine ⟨(h a (by simp) ha).trans p.1, ?_⟩
    apply ih (List.nodup_cons.mp nodup).2 p.2
    · simpa only [List.getLastD_cons] using last
    · intro y hy hne
      exact h y (List.mem_cons_of_mem _ hy) (by simpa only [List.getLastD_cons] using hne)

theorem restart (p : Path f a xs b) (start : g c = f a) (h : ∀ y ∈ xs, g y = f y) :
    Path g c xs b := by
  cases xs with
  | nil => exact start.trans p
  | cons x xs => exact ⟨start.trans p.1, p.2.congr h⟩

theorem ne_last_of_mem_right (nodup : (a :: (xs ++ ys)).Nodup) {y : ι} (hy : y ∈ ys) :
    y ≠ xs.getLastD a := by
  rintro rfl
  rw [← List.cons_append] at nodup
  exact (List.nodup_append.mp nodup).2.2 _ List.getLastD_mem_cons _ hy rfl

theorem insert (nodup : (a :: (xs ++ ys)).Nodup) (p : Path f a (xs ++ ys) b)
    (before : g (xs.getLastD a) = x) (after : g x = ys.headD b)
    (h : ∀ y ∈ a :: (xs ++ ys), y ≠ xs.getLastD a → g y = f y) :
    Path g a (xs ++ x :: ys) b := by
  obtain ⟨left, right⟩ := append_iff.mp p
  have nodupLeft : (a :: xs).Nodup := by
    rw [← List.cons_append] at nodup
    exact (List.nodup_append.mp nodup).1
  refine append_iff.mpr ⟨?_, before, ?_⟩
  · refine left.redirect nodupLeft before fun y hy => h y ?_
    simp only [List.mem_cons, List.mem_append] at hy ⊢
    tauto
  · refine right.restart (after.trans right.first.symm) fun y hy => h y ?_ ?_
    · simp [hy]
    · exact ne_last_of_mem_right nodup hy

theorem remove (nodup : (a :: (xs ++ x :: ys)).Nodup) (p : Path f a (xs ++ x :: ys) b)
    (before : g (xs.getLastD a) = f x)
    (h : ∀ y ∈ a :: (xs ++ ys), y ≠ xs.getLastD a → g y = f y) :
    Path g a (xs ++ ys) b := by
  obtain ⟨left, -, right⟩ := append_iff.mp p
  have nodupLeft : (a :: xs).Nodup := by
    rw [← List.cons_append] at nodup
    exact (List.nodup_append.mp nodup).1
  refine append_iff.mpr ⟨?_, ?_⟩
  · refine left.redirect nodupLeft (before.trans right.first) fun y hy => h y ?_
    simp only [List.mem_cons, List.mem_append] at hy ⊢
    tauto
  · refine right.restart before fun y hy => h y ?_ ?_
    · simp [hy]
    · exact ne_last_of_mem_right nodup (List.mem_cons_of_mem _ hy)

/-- As many links as there are nodes on the way, counted from the first one reached, visit
all of them. -/
theorem iterate_eq (p : Path f a xs b) : List.iterate f (f a) xs.length = xs := by
  induction xs generalizing a with
  | nil => rfl
  | cons x xs ih =>
    have rest := ih p.2
    rw [List.length_cons, List.iterate, p.1, rest]

theorem arrives (p : Path f a xs b) : f^[xs.length] (f a) = b := by
  induction xs generalizing a with
  | nil => exact p
  | cons x xs ih =>
    have rest := ih p.2
    rwa [List.length_cons, Function.iterate_succ_apply, p.1]

end Path

theorem headD_reverse (a : ι) (xs : List ι) : xs.reverse.headD a = xs.getLastD a := by
  rw [List.getLastD_eq_getLast?, List.headD_eq_head?_getD, List.head?_reverse]

theorem getLastD_reverse (a : ι) (xs : List ι) : xs.reverse.getLastD a = xs.headD a := by
  rw [← headD_reverse, List.reverse_reverse]

/-- `next` leads from the marker `m` through `xs` and back to `m`, and `prev` leads the same
way backwards. -/
structure LinkRing (next prev : ι → ι) (m : ι) (xs : List ι) : Prop where
  nodup : (m :: xs).Nodup
  forward : Path next m xs m
  backward : Path prev m xs.reverse m

namespace LinkRing

variable {next prev next' prev' : ι → ι} {m x : ι} {xs ys zs : List ι}

theorem singleton (hn : next m = m) (hp : prev m = m) : LinkRing next prev m [] :=
  ⟨by simp, hn, hp⟩

theorem nodup_reverse (nodup : (m :: xs).Nodup) : (m :: xs.reverse).Nodup := by
  simpa using nodup

theorem congr (h : LinkRing next prev m xs) (hn : ∀ y ∈ m :: xs, next' y = next y)
    (hp : ∀ y ∈ m :: xs, prev' y = prev y) : LinkRing next' prev' m xs where
  nodup := h.nodup
  forward := h.forward.congr hn
  backward := h.backward.congr fun y hy => hp y (by simpa using hy)

theorem next_marker (h : LinkRing next prev m xs) : next m = xs.headD m :=
  h.forward.first

theorem prev_marker (h : LinkRing next prev m xs) : prev m = xs.getLastD m := by
  rw [h.backward.first, headD_reverse]

theorem next_item (h : LinkRing next prev m (ys ++ x :: zs)) : next x = zs.headD m :=
  (Path.append_iff.mp h.forward).2.2.first

theorem prev_item (h : LinkRing next prev m (ys ++ x :: zs)) : prev x = ys.getLastD m := by
  have back := h.backward
  rw [List.reverse_append, List.reverse_cons, List.append_assoc, List.singleton_append] at back
  rw [(Path.append_iff.mp back).2.2.first, headD_reverse]

theorem links_eq (h : LinkRing next prev m xs) (h' : LinkRing next' prev' m xs) {y : ι}
    (hy : y ∈ m :: xs) : next y = next' y ∧ prev y = prev' y := by
  rcases List.mem_cons.mp hy with rfl | hy
  · exact ⟨h.next_marker.trans h'.next_marker.symm, h.prev_marker.trans h'.prev_marker.symm⟩
  · obtain ⟨ys, zs, rfl⟩ := List.append_of_mem hy
    exact ⟨h.next_item.trans h'.next_item.symm, h.prev_item.trans h'.prev_item.symm⟩

theorem next_mem (h : LinkRing next prev m xs) {y : ι} (hy : y ∈ m :: xs) :
    next y ∈ m :: xs := by
  rcases List.mem_cons.mp hy with rfl | hy
  · rw [h.next_marker]
    cases xs <;> simp
  · obtain ⟨ys, zs, rfl⟩ := List.append_of_mem hy
    rw [h.next_item]
    cases zs <;> simp

theorem prev_mem (h : LinkRing next prev m xs) {y : ι} (hy : y ∈ m :: xs) :
    prev y ∈ m :: xs := by
  rcases List.mem_cons.mp hy with rfl | hy
  · rw [h.prev_marker]
    exact List.getLastD_mem_cons
  · obtain ⟨ys, zs, rfl⟩ := List.append_of_mem hy
    rw [h.prev_item]
    have : ys.getLastD m ∈ m :: ys := List.getLastD_mem_cons
    simp only [List.mem_cons, List.mem_append] at this ⊢
    tauto

theorem symm (h : LinkRing next prev m xs) : LinkRing prev next m xs.reverse where
  nodup := nodup_reverse h.nodup
  forward := h.backward
  backward := by simpa using h.forward

theorem prev_next (h : LinkRing next prev m xs) {y : ι} (hy : y ∈ m :: xs) :
    prev (next y) = y := by
  rcases List.mem_cons.mp hy with rfl | hy
  · rw [h.next_marker]
    cases xs with
    | nil => exact h.prev_marker
    | cons x xs =>
      have h' : LinkRing next prev y ([] ++ x :: xs) := h
      exact h'.prev_item
  · obtain ⟨ys, zs, rfl⟩ := List.append_of_mem hy
    rw [h.next_item]
    cases zs with
    | nil => simpa using h.prev_marker
    | cons z zs =>
      have h' : LinkRing next prev m ((ys ++ [y]) ++ z :: zs) := by simpa using h
      simpa using h'.prev_item

theorem next_prev (h : LinkRing next prev m xs) {y : ι} (hy : y ∈ m :: xs) :
    next (prev y) = y :=
  h.symm.prev_next (by simpa using hy)

/-- Link `x` in between the last node of `m :: ys` and the first of `zs ++ [m]`. -/
theorem insert (h : LinkRing next prev m (ys ++ zs)) (hx : x ∉ m :: (ys ++ zs))
    (nextBefore : next' (ys.getLastD m) = x) (nextItem : next' x = zs.headD m)
    (nextRest : ∀ y ∈ m :: (ys ++ zs), y ≠ ys.getLastD m → next' y = next y)
    (prevAfter : prev' (zs.headD m) = x) (prevItem : prev' x = ys.getLastD m)
    (prevRest : ∀ y ∈ m :: (ys ++ zs), y ≠ zs.headD m → prev' y = prev y) :
    LinkRing next' prev' m (ys ++ x :: zs) where
  nodup := by
    have hn := h.nodup
    simp only [List.mem_cons, List.mem_append, not_or, List.nodup_cons, List.nodup_append,
      ne_eq] at hx hn ⊢
    refine ⟨⟨hn.1.1, fun e => hx.1 e.symm, hn.1.2⟩, hn.2.1, ⟨hx.2.2, hn.2.2.1⟩, ?_⟩
    rintro y hy z (rfl | hz) rfl
    · exact hx.2.1 hy
    · exact hn.2.2.2 y hy y hz rfl
  forward := h.forward.insert h.nodup nextBefore nextItem nextRest
  backward := by
    have nodup := nodup_reverse h.nodup
    have back := h.backward
    simp only [List.reverse_append, List.reverse_cons, List.append_assoc,
      List.singleton_append] at nodup back ⊢
    refine back.insert nodup ?_ ?_ fun y hy => ?_
    · simpa only [getLastD_reverse] using prevAfter
    · simpa only [headD_reverse] using prevItem
    · rw [getLastD_reverse]
      refine prevRest y ?_
      simp only [List.mem_cons, List.mem_append, List.mem_reverse] at hy ⊢
      tauto

/-- Unlink `x` by joining its two neighbours. -/
theorem remove (h : LinkRing next prev m (ys ++ x :: zs))
    (nextBefore : next' (ys.getLastD m) = zs.headD m)
    (nextRest : ∀ y ∈ m :: (ys ++ zs), y ≠ ys.getLastD m → next' y = next y)
    (prevAfter : prev' (zs.headD m) = ys.getLastD m)
    (prevRest : ∀ y ∈ m :: (ys ++ zs), y ≠ zs.headD m → prev' y = prev y) :
    LinkRing next' prev' m (ys ++ zs) where
  nodup := by
    have hn := h.nodup
    simp only [List.nodup_cons, List.mem_append, List.mem_cons, not_or, List.nodup_append,
      ne_eq] at hn ⊢
    refine ⟨⟨hn.1.1, hn.1.2.2⟩, hn.2.1, hn.2.2.1.2, fun y hy z hz => ?_⟩
    exact hn.2.2.2 y hy z (Or.inr hz)
  forward := h.forward.remove h.nodup (nextBefore.trans h.next_item.symm) nextRest
  backward := by
    have nodup := nodup_reverse h.nodup
    have back := h.backward
    simp only [List.reverse_append, List.reverse_cons, List.append_assoc,
      List.singleton_append] at nodup back ⊢
    refine back.remove nodup ?_ fun y hy => ?_
    · rw [getLastD_reverse, prevAfter, h.prev_item]
    · rw [getLastD_reverse]
      refine prevRest y ?_
      simp only [List.mem_cons, List.mem_append, List.mem_reverse] at hy ⊢
      tauto

end LinkRing

end RtosCore
