import RtosCore.CheckedRun
import RtosCore.Differential
import RtosCore.ListOutcomes

/-! The differential test prints what the rotas say, from every seed and for any number of steps, and
its text tells everything it compares. -/

namespace RtosCore

namespace Differential

open ListsOf

theorem numeral_ne_nil (n : ℕ) : numeral n ≠ [] := Nat.toDigits_ne_nil

theorem readable_entry : Readable Line.entry := by
  intro a b xs ys hx hy same
  simp only [Line.entry, List.append_assoc, List.cons_append] at same
  have colon : ∀ us, Stops (':' :: us) := fun _ => stops_cons rfl
  obtain ⟨item, same⟩ := numeral_cancel (colon _) (colon _) same
  injection same with _ same
  obtain ⟨value, same⟩ := numeral_cancel hx hy same
  exact ⟨Prod.ext (UInt16.toNat_inj.mp item) (UInt32.toNat_inj.mp value), same⟩

theorem entry_begins (e : ItemId × UInt32) : ∃ d ds, Line.entry e = d :: ds ∧ d ≠ ']' := by
  obtain ⟨d, ds, digits⟩ := List.exists_cons_of_ne_nil (numeral_ne_nil e.1.toNat)
  refine ⟨d, ds ++ ':' :: numeral e.2.toNat, by rw [Line.entry, digits]; rfl, ?_⟩
  rintro rfl
  have digit : (']').isDigit = true := isDigit_of_mem_numeral (digits ▸ List.mem_cons_self)
  cases digit

theorem item_cancel {i j : ItemId} {xs ys : List Char} (hx : Stops xs) (hy : Stops ys)
    (same : numeral i.toNat ++ xs = numeral j.toNat ++ ys) : i = j ∧ xs = ys := by
  obtain ⟨item, same⟩ := numeral_cancel hx hy same
  exact ⟨UInt16.toNat_inj.mp item, same⟩

theorem done_cancel {a b : Done} {xs ys : List Char}
    (same : a.text ++ ' ' :: xs = b.text ++ ' ' :: ys) : a = b ∧ xs = ys := by
  have blank : ∀ us, Stops (' ' :: us) := fun _ => stops_cons rfl
  cases a with
  | insert i v =>
    rw [Done.text_insert] at same
    cases b with
    | insert j w =>
      rw [Done.text_insert] at same
      simp only [List.append_assoc, List.cons_append, List.cons.injEq, true_and] at same
      obtain ⟨rfl, rest⟩ := item_cancel (blank _) (blank _) same
      obtain ⟨value, rest⟩ := numeral_cancel (blank _) (blank _) (List.cons.inj rest).2
      rw [UInt32.toNat_inj.mp value]
      exact ⟨rfl, (List.cons.inj rest).2⟩
    | insertEnd => simp [Done.text_insertEnd] at same
    | remove => simp [Done.text_remove] at same
    | next => simp [Done.text_next] at same
  | insertEnd i =>
    rw [Done.text_insertEnd] at same
    cases b with
    | insertEnd j =>
      rw [Done.text_insertEnd] at same
      simp only [List.cons_append, List.cons.injEq, true_and] at same
      obtain ⟨rfl, rest⟩ := item_cancel (blank _) (blank _) same
      exact ⟨rfl, (List.cons.inj rest).2⟩
    | insert => simp [Done.text_insert] at same
    | remove => simp [Done.text_remove] at same
    | next => simp [Done.text_next] at same
  | remove i =>
    rw [Done.text_remove] at same
    cases b with
    | remove j =>
      rw [Done.text_remove] at same
      simp only [List.cons_append, List.cons.injEq, true_and] at same
      obtain ⟨rfl, rest⟩ := item_cancel (blank _) (blank _) same
      exact ⟨rfl, (List.cons.inj rest).2⟩
    | insert => simp [Done.text_insert] at same
    | insertEnd => simp [Done.text_insertEnd] at same
    | next => simp [Done.text_next] at same
  | next =>
    cases b with
    | next => exact ⟨rfl, (List.cons.inj (List.append_cancel_left same)).2⟩
    | insert => simp [Done.text_next, Done.text_insert] at same
    | insertEnd => simp [Done.text_next, Done.text_insertEnd] at same
    | remove => simp [Done.text_next, Done.text_remove] at same

theorem index_cancel {i j : Option ItemId} {xs ys : List Char}
    (same : Line.index i ++ '\n' :: xs = Line.index j ++ '\n' :: ys) : i = j ∧ xs = ys := by
  have ends : ∀ us, Stops ('\n' :: us) := fun _ => stops_cons rfl
  have differ : ∀ (c : ItemId) (us vs : List Char), 'e' :: us ≠ numeral c.toNat ++ vs := by
    intro c us vs same
    obtain ⟨d, ds, digits⟩ := List.exists_cons_of_ne_nil (numeral_ne_nil c.toNat)
    have digit : d.isDigit = true := isDigit_of_mem_numeral (digits ▸ List.mem_cons_self)
    rw [digits] at same
    injection same with same _
    rw [← same] at digit
    cases digit
  cases i with
  | none =>
    cases j with
    | none => exact ⟨rfl, (List.cons.inj (List.append_cancel_left same)).2⟩
    | some c =>
      rw [Line.index_none, Line.index_some] at same
      exact absurd same (differ c _ _)
  | some c =>
    rw [Line.index_some] at same
    cases j with
    | none =>
      rw [Line.index_none] at same
      exact absurd same.symm (differ c _ _)
    | some c' =>
      rw [Line.index_some] at same
      obtain ⟨rfl, rest⟩ := item_cancel (ends _) (ends _) same
      exact ⟨rfl, (List.cons.inj rest).2⟩

theorem line_cancel {a b : Line} {xs ys : List Char} (same : a.text ++ xs = b.text ++ ys) :
    a = b ∧ xs = ys := by
  have mark : ∀ (c : Char) (us : List Char), c.isDigit = false → Stops (c :: us) :=
    fun _ _ => stops_cons
  obtain ⟨step, done, r, list, len, items, idx⟩ := a
  obtain ⟨step', done', r', list', len', items', idx'⟩ := b
  simp only [Line.text, String.reduceToList, List.append_assoc, List.cons_append,
    List.nil_append] at same
  obtain ⟨step_eq, same⟩ := numeral_cancel (mark ' ' _ rfl) (mark ' ' _ rfl) same
  obtain ⟨done_eq, same⟩ := done_cancel (List.cons.inj same).2
  simp only [List.cons.injEq, true_and] at same
  obtain ⟨r_eq, same⟩ := numeral_cancel (mark ' ' _ rfl) (mark ' ' _ rfl) same
  simp only [List.cons.injEq, true_and] at same
  obtain ⟨list_eq, same⟩ := numeral_cancel (mark ' ' _ rfl) (mark ' ' _ rfl) same
  simp only [List.cons.injEq, true_and] at same
  obtain ⟨len_eq, same⟩ := numeral_cancel (mark ' ' _ rfl) (mark ' ' _ rfl) same
  simp only [List.cons.injEq, true_and] at same
  obtain ⟨items_eq, same⟩ := row_cancel readable_entry rfl entry_begins same
  simp only [List.cons.injEq, true_and] at same
  obtain ⟨idx_eq, same⟩ := index_cancel same
  refine ⟨?_, same⟩
  rw [step_eq, done_eq, r_eq, UInt8.toNat_inj.mp list_eq, len_eq, items_eq, idx_eq]

theorem text_injective : Function.Injective text := by
  intro as bs same
  have nonempty : ∀ (l : Line) (rest : List Char), [] ≠ l.text ++ rest := by
    intro l rest none
    have empty := (List.append_eq_nil_iff.mp none.symm).1
    simp [Line.text] at empty
  induction as generalizing bs with
  | nil =>
    cases bs with
    | nil => rfl
    | cons b bs => exact absurd same (nonempty b _)
  | cons a as ih =>
    cases bs with
    | nil => exact absurd same.symm (nonempty a _)
    | cons b bs =>
      obtain ⟨rfl, rest⟩ := line_cancel same
      rw [ih rest]

theorem draw_list (rng : UInt32) : (draw rng).list.toNat < LISTS := by
  have small : ∀ n, n % LISTS < LISTS := fun n => Nat.mod_lt n (by decide)
  change (UInt8.ofNat (_ % LISTS)).toNat < LISTS
  rw [UInt8.toNat_ofNat_of_lt' ((small _).trans (by decide))]
  exact small _

theorem draw_item (rng : UInt32) : (draw rng).item.toNat < ITEMS := by
  have small : ∀ n, n % ITEMS < ITEMS := fun n => Nat.mod_lt n (by decide)
  change (UInt16.ofNat (_ % ITEMS)).toNat < ITEMS
  rw [UInt16.toNat_ofNat_of_lt' ((small _).trans (by decide))]
  exact small _

/-- No item in a list is as high as the markers are, so what is printed as the end is the end. -/
structure Beside (s : State) (t : Script) : Prop where
  rng : s.rng = t.rng
  out : s.out = t.out
  lists : Refines s.lists t.model
  low : ∀ x, t.model.Linked x → x.toNat < ITEMS

namespace Beside

variable {s : State} {t : Script} {l : ListId} {x : ItemId}

theorem idx (h : Beside s t) (hl : l.toNat < LISTS) :
    (if ITEMS ≤ ((t.model.rota l).cursor.getD (sizes.endOf l)).toNat then none
      else some ((t.model.rota l).cursor.getD (sizes.endOf l))) = (t.model.rota l).cursor := by
  cases cursor : (t.model.rota l).cursor with
  | none =>
    have high : ITEMS ≤ (sizes.endOf l).toNat := by
      rw [Sizes.toNat_endOf hl]
      exact (by decide : ITEMS ≤ sizes.CAPACITY).trans (Nat.le_add_right _ _)
    exact if_pos high
  | some c =>
    have low := h.low c ⟨l, (t.model.rota l).cursor_mem c cursor⟩
    exact if_neg (not_le.mpr low)

theorem print (h : Beside s t) (b : Build) (n : ℕ) (done : Done) (r : ℕ) (hl : l.toNat < LISTS) :
    Ends (s.print b n done r l) fun s' => Beside s' (t.print n done r l) := by
  have values : (t.model.rota l).items.mapM (fun item => do
      let value ← (ListsOf.value b item s.lists).1
      return (item, value)) =
      Except.ok ((t.model.rota l).items.map fun x => (x, t.model.value x)) :=
    Ends.mapM fun x mem => by
      rw [h.lists.value_eq b (h.lists.item_lt mem)]
      rfl
  simp only [State.print, printList, h.lists.len_eq hl, h.lists.iter_eq, h.lists.cursorOf_eq hl,
    ok_bind, values, h.idx hl]
  refine Ends.ok ⟨h.rng, ?_, h.lists, h.low⟩
  simp only [Script.print, h.out, List.length_map]

theorem withRng (h : Beside s t) (rng : UInt32) : Beside { s with rng } { t with rng } :=
  ⟨rfl, h.out, h.lists, h.low⟩

theorem made (h : Beside s t) {lists : ListsOf UInt32 sizes} {model : Model UInt32}
    (after : Refines lists model) (low : ∀ x, model.Linked x → x.toNat < ITEMS) (b : Build)
    (n : ℕ) (done : Done) (r : ℕ) (hl : l.toNat < LISTS) :
    Ends (State.print b n done r l { s with lists }) fun s' =>
      Beside s' (Script.print n done r l { t with model }) := by
  have both : Beside { s with lists } { t with model } := ⟨h.rng, h.out, after, low⟩
  exact both.print b n done r hl

theorem low_place (h : Beside s t) {m : Model UInt32} {p : ItemId → Bool}
    (same : ∀ y, m.Linked y ↔ t.model.Linked y) (free : ¬ m.Linked x) (hx : x.toNat < ITEMS) :
    ∀ y, (m.place l p x).Linked y → y.toNat < ITEMS := by
  intro y linked
  rcases (Model.linked_place free).mp linked with rfl | old
  · exact hx
  · exact h.low y ((same y).mp old)

theorem step (h : Beside s t) (b : Build) (n : ℕ) :
    Ends (s.step b n) fun s' => Beside s' (t.step n) := by
  have hl := draw_list t.rng
  have hi := draw_item t.rng
  have range : InRange sizes (draw t.rng).list (draw t.rng).item :=
    ⟨hl, hi.trans (by decide)⟩
  unfold State.step Script.step
  rw [h.rng]
  generalize draw t.rng = d at hl hi range
  have h := h.withRng d.rng
  simp only [h.lists.container_eq (b := b) range.2, ok_bind]
  by_cases inserts : d.kind < 35
  · simp only [inserts, if_true, Model.home_isSome]
    by_cases linked : t.model.Linked d.item
    · rw [if_pos linked, if_pos linked]
      exact Ends.ok h
    · rw [if_neg linked, if_neg linked]
      have low := h.low_place (m := t.model.setValue d.item d.value) (l := d.list)
        (p := t.model.above d.value) (fun _ => Model.linked_setValue) linked hi
      rcases h.lists.insert_outcome b d.list d.item d.value with
        ⟨refused, -⟩ | ⟨-, lists, made, after⟩
      · exact absurd ⟨range, linked⟩ refused
      · rw [made, ok_bind]
        exact h.made after low b n _ 0 hl
  simp only [inserts, if_false]
  by_cases appends : d.kind < 60
  · simp only [appends, if_true, Model.home_isSome]
    by_cases linked : t.model.Linked d.item
    · rw [if_pos linked, if_pos linked]
      exact Ends.ok h
    · rw [if_neg linked, if_neg linked]
      have low := h.low_place (l := d.list) (p := t.model.atCursor d.list) (fun _ => Iff.rfl)
        linked hi
      rcases h.lists.insertEnd_outcome b d.list d.item with ⟨refused, -⟩ | ⟨-, lists, made, after⟩
      · exact absurd ⟨range, linked⟩ refused
      · rw [made, ok_bind]
        exact h.made after low b n _ 0 hl
  simp only [appends, if_false]
  by_cases removes : d.kind < 85
  · simp only [removes, if_true]
    rcases h.lists.remove_outcome b d.item with ⟨home, -⟩ | ⟨l, lists, home, made, after⟩
    · simp only [home]
      exact Ends.ok h
    · simp only [home, made, ok_bind]
      have low : ∀ x, (t.model.erase d.item).Linked x → x.toNat < ITEMS := by
        rintro x ⟨k, mem⟩
        exact h.low x ⟨k, (Model.mem_erase.mp mem).2⟩
      exact h.made after low b n _ _ (h.lists.bounds l _ (Model.home_eq_some.mp home)).1
  · simp only [removes, if_false, h.lists.isEmpty_eq hl, ok_bind]
    cases up : (t.model.rota d.list).nextUp with
    | none =>
      rw [if_pos (decide_eq_true (Rota.nextUp_eq_none.mp up))]
      exact Ends.ok h
    | some got =>
      have nonempty : (t.model.rota d.list).items ≠ [] := List.ne_nil_of_mem (Rota.nextUp_mem up)
      rw [if_neg (by simpa using nonempty)]
      rcases h.lists.turn_outcome b d.list with ⟨refused, -⟩ | ⟨-, lists, made, after⟩
      · exact absurd hl refused
      · have low : ∀ x, (t.model.advance d.list).Linked x → x.toNat < ITEMS := by
          rintro x ⟨k, mem⟩
          exact h.low x ⟨k, by rwa [Model.advance_items] at mem⟩
        simp only [made, up, ok_bind]
        exact h.made after low b n _ _ hl

end Beside

theorem differential_prints_rotas (b : Build) (seed : UInt32) (steps : ℕ) :
    run b seed steps = .ok (Script.run seed steps) := by
  have start : Beside ⟨seed, ListsOf.new, []⟩ ⟨seed, Model.initial, []⟩ :=
    ⟨rfl, rfl, new_refines, fun x linked => by
      simp [Model.Linked, Model.initial, Rota.empty] at linked⟩
  obtain ⟨s, ran, beside⟩ :=
    Ends.foldlM (fun s t n h => h.step b n) start (List.range' 1 steps)
  rw [run, ran, ok_bind, Script.run, ← beside.out]
  rfl

end Differential

end RtosCore
