import RtosCore.Removals

/-! The invariant of the lists is exactly what can be reached, and from anywhere: any rotas of items
in range, with any cursors and any values, are what some short script leaves behind. The script sets
the values, fills each list from front to back and then takes as many turns as the cursor has to go;
where lists are already in use, every item is taken out first. -/

namespace RtosCore

namespace Rota

variable {α : Type*} [DecidableEq α] {r t : Rota α}

omit [DecidableEq α] in
theorem eq_empty (none : r.items = []) : r = empty := by
  ext1
  · exact none
  · refine Option.eq_none_iff_forall_not_mem.mpr fun x mem => ?_
    simpa [none] using r.cursor_mem x mem

theorem advance_iterate_cut (marker : r.cursor = none) {n : ℕ} (le : n ≤ r.items.length) :
    (advance^[n] r).upto = r.items.take n ∧ (advance^[n] r).rest = r.items.drop n := by
  induction n with
  | zero => exact cut_eq (by simp) (by simpa using marker)
  | succ n ih =>
    obtain ⟨upto, rest⟩ := ih (Nat.le_of_succ_le le)
    have next : (advance^[n] r).rest = r.items[n] :: r.items.drop (n + 1) := by
      rw [rest, List.drop_eq_getElem_cons le]
    rw [Function.iterate_succ_apply', List.take_add_one, List.getElem?_eq_getElem le]
    obtain ⟨upto', rest'⟩ := advance_cut next
    exact ⟨by rw [upto', upto]; rfl, rest'⟩

/-- A rota is its items and the number of turns taken since it last started over. -/
theorem eq_advance_iterate (marker : r.cursor = none) (items : r.items = t.items) :
    advance^[t.upto.length] r = t := by
  have cut := t.upto_append_rest
  have le : t.upto.length ≤ r.items.length := by
    rw [items, ← cut, List.length_append]
    exact Nat.le_add_right _ _
  obtain ⟨upto, rest⟩ := advance_iterate_cut marker le
  have here : (advance^[t.upto.length] r).upto = t.upto := by
    rw [upto, items, ← cut, List.take_left]
  ext1
  · rw [← upto_append_rest, here, rest, items, ← cut, List.drop_left, cut]
  · rw [cursor_eq, here, ← cursor_eq]

end Rota

variable {V : Type} [ListValue V] {g : Sizes}

theorem ListsOf.after_append (b : Build) (ops later : List (Op V)) (s : ListsOf V g) :
    after b (ops ++ later) s = after b later (after b ops s) := by
  induction ops generalizing s with
  | nil => rfl
  | cons op ops ih => exact ih (s.call b op).2

open ListsOf (InRange)

namespace Model

variable {m t : Model V} {l k : ListId} {x : ItemId}

theorem after_append (ops later : List (Op V)) (m : Model V) :
    m.after g (ops ++ later) = (m.after g ops).after g later := by
  induction ops generalizing m with
  | nil => rfl
  | cons op ops ih => exact ih (m.step g op).2

def setValues (t : Model V) (n : ℕ) : List (Op V) :=
  (List.range n).map fun i => .setValue (UInt16.ofNat i) (t.value (UInt16.ofNat i))

def fill (t : Model V) (l : ListId) : List (Op V) :=
  (t.rota l).items.map (.insertEnd l) ++ List.replicate (t.rota l).upto.length (.nextRoundRobin l)

def fills (t : Model V) (n : ℕ) : List (Op V) :=
  (List.range n).flatMap fun l => t.fill (UInt8.ofNat l)

def script (g : Sizes) (t : Model V) : List (Op V) := t.setValues g.CAPACITY ++ t.fills g.L

theorem after_insertEnds {xs : List ItemId} (nodup : xs.Nodup)
    (range : ∀ x ∈ xs, InRange g l x) (free : ∀ x ∈ xs, ¬ m.Linked x)
    (marker : (m.rota l).cursor = none) {m' : Model V}
    (made : m' = m.after g (xs.map (.insertEnd l))) :
    (m'.rota l).items = (m.rota l).items ++ xs ∧ (m'.rota l).cursor = none ∧
      (∀ k, k ≠ l → m'.rota k = m.rota k) ∧ m'.value = m.value := by
  induction xs generalizing m with
  | nil =>
    subst made
    exact ⟨(List.append_nil _).symm, marker, fun _ _ => rfl, rfl⟩
  | cons x xs ih =>
    obtain ⟨fresh, nodup⟩ := List.nodup_cons.mp nodup
    have notLinked := free x List.mem_cons_self
    have step : (m.step g (.insertEnd l x)).2 = m.place l (m.atCursor l) x := by
      rw [step_joins rfl (range x List.mem_cons_self) notLinked]
      rfl
    have rota : (m.place l (m.atCursor l) x).rota l = (m.rota l).place (m.rota l).atCursor x :=
      rota_insertEnd notLinked
    obtain ⟨items, cursor, others, value⟩ := ih (m := m.place l (m.atCursor l) x) nodup
      (fun y hy => range y (List.mem_cons_of_mem _ hy))
      (fun y hy linked => by
        rcases (linked_place notLinked).mp linked with rfl | old
        · exact fresh hy
        · exact free y (List.mem_cons_of_mem _ hy) old)
      (by rw [rota, Rota.place_cursor, marker])
      (by rw [made, List.map_cons, after, run, step]; rfl)
    refine ⟨?_, cursor, fun k hk => ?_, by rw [value, place_value]⟩
    · rw [items, rota, Rota.placeAtCursor_marker (notMem_of_free notLinked) marker,
        List.append_assoc, List.singleton_append]
    · rw [others k hk, place_rota_ne hk]

theorem after_turns (hl : l.toNat < g.L) (n : ℕ) (m : Model V) :
    (∀ k, (m.after g (List.replicate n (.nextRoundRobin l))).rota k =
      if k = l then Rota.advance^[n] (m.rota l) else m.rota k) ∧
    (m.after g (List.replicate n (.nextRoundRobin l))).value = m.value := by
  induction n generalizing m with
  | zero =>
    refine ⟨fun k => ?_, rfl⟩
    split
    · rename_i h
      rw [h]
      rfl
    · rfl
  | succ n ih =>
    have step : (m.step g (.nextRoundRobin l)).2 = m.advance l := by
      rw [Model.step, if_neg (not_not.mpr hl)]
    obtain ⟨rota, value⟩ := ih (m.advance l)
    have first : m.after g (List.replicate (n + 1) (.nextRoundRobin l)) =
        (m.advance l).after g (List.replicate n (.nextRoundRobin l)) := by
      rw [List.replicate_succ, after, run, step]
      rfl
    rw [first]
    refine ⟨fun k => ?_, value⟩
    rw [rota k, advance_rota, if_pos rfl, Function.iterate_succ_apply]
    split
    · rfl
    · rename_i hk
      exact advance_rota_ne hk

theorem after_fill (hl : l.toNat < g.L) (range : ∀ x ∈ (t.rota l).items, InRange g l x)
    (free : ∀ x ∈ (t.rota l).items, ¬ m.Linked x) (empty : m.rota l = Rota.empty) :
    (∀ k, (m.after g (t.fill l)).rota k = if k = l then t.rota l else m.rota k) ∧
      (m.after g (t.fill l)).value = m.value := by
  obtain ⟨items, cursor, others, value⟩ :=
    after_insertEnds (t.rota l).nodup range free (by rw [empty]; rfl) rfl
  obtain ⟨turned, kept⟩ := after_turns hl (t.rota l).upto.length
    (m.after g ((t.rota l).items.map (.insertEnd l)))
  rw [fill, after_append]
  refine ⟨fun k => ?_, by rw [kept, value]⟩
  rw [turned k]
  split
  · refine Rota.eq_advance_iterate cursor ?_
    rw [items, empty]
    rfl
  · rename_i hk
    exact others k hk

theorem toNat_ofNat_list {n : ℕ} (hn : n < g.L) : (UInt8.ofNat n).toNat = n :=
  UInt8.toNat_ofNat_of_lt' (hn.trans_le (g.L_le.trans (by decide)))

theorem toNat_ofNat_item {n : ℕ} (hn : n < g.CAPACITY) : (UInt16.ofNat n).toNat = n :=
  UInt16.toNat_ofNat_of_lt' ((hn.trans g.capacity_lt_N).trans_le (g.N_le.trans (by decide)))

theorem after_fills (range : ∀ l x, x ∈ (t.rota l).items → InRange g l x)
    (empty : ∀ l, m.rota l = Rota.empty) {n : ℕ} (hn : n ≤ g.L) :
    (∀ k : ListId, (m.after g (t.fills n)).rota k =
      if k.toNat < n then t.rota k else Rota.empty) ∧ (m.after g (t.fills n)).value = m.value := by
  induction n with
  | zero => exact ⟨fun k => (empty k).trans (if_neg (Nat.not_lt_zero _)).symm, rfl⟩
  | succ n ih =>
    obtain ⟨rota, value⟩ := ih (Nat.le_of_succ_le hn)
    have here := toNat_ofNat_list hn
    have last : t.fills (n + 1) = t.fills n ++ t.fill (UInt8.ofNat n) := by
      rw [fills, List.range_succ, List.flatMap_append]
      simp [fills]
    have next := rota (UInt8.ofNat n)
    rw [here, if_neg (lt_irrefl n)] at next
    obtain ⟨filled, kept⟩ := after_fill (t := t) (here.trans_lt hn) (fun x => range _ x)
      (fun x mem linked => by
        obtain ⟨k, hk⟩ := linked
        rw [rota k] at hk
        split at hk
        · rename_i lt
          have same := t.disjoint k _ x hk mem
          rw [same, here] at lt
          exact lt_irrefl n lt
        · cases hk)
      next
    rw [last, after_append]
    refine ⟨fun k => ?_, by rw [kept, value]⟩
    rw [filled k, rota k]
    rcases eq_or_ne k (UInt8.ofNat n) with rfl | hk
    · rw [if_pos rfl, if_pos (by omega)]
    · have ne : k.toNat ≠ n := fun e => hk (UInt8.toNat_inj.mp (e.trans here.symm))
      rw [if_neg hk]
      exact if_congr (by omega) rfl rfl

theorem after_setValues {n : ℕ} (hn : n ≤ g.CAPACITY) :
    (m.after g (t.setValues n)).rota = m.rota ∧
      ∀ x : ItemId, x.toNat < n → (m.after g (t.setValues n)).value x = t.value x := by
  induction n with
  | zero => exact ⟨rfl, fun x hx => absurd hx (Nat.not_lt_zero _)⟩
  | succ n ih =>
    obtain ⟨rota, value⟩ := ih (Nat.le_of_succ_le hn)
    have here := toNat_ofNat_item hn
    have last : t.setValues (n + 1) =
        t.setValues n ++ [.setValue (UInt16.ofNat n) (t.value (UInt16.ofNat n))] := by
      rw [setValues, List.range_succ, List.map_append]
      rfl
    have step : ∀ m : Model V, m.after g [.setValue (UInt16.ofNat n) (t.value (UInt16.ofNat n))] =
        m.setValue (UInt16.ofNat n) (t.value (UInt16.ofNat n)) := fun m => by
      rw [after, run, Model.step, if_neg (not_not.mpr (here.trans_lt hn))]
      rfl
    rw [last, after_append, step]
    refine ⟨rota, fun x hx => ?_⟩
    rw [setValue_value]
    split
    · rename_i e
      rw [e]
    · rename_i ne
      refine value x ?_
      have : x.toNat ≠ n := fun e => ne (UInt16.toNat_inj.mp (e.trans here.symm))
      omega

theorem after_script (range : ∀ l x, x ∈ (t.rota l).items → InRange g l x)
    (empty : ∀ l, m.rota l = Rota.empty) :
    (m.after g (t.script g)).rota = t.rota ∧
      ∀ x : ItemId, x.toNat < g.CAPACITY → (m.after g (t.script g)).value x = t.value x := by
  obtain ⟨rota, value⟩ := after_setValues (t := t) (m := m) (le_refl g.CAPACITY)
  obtain ⟨filled, kept⟩ :=
    after_fills range (fun l => (congrFun rota l).trans (empty l)) (le_refl g.L)
  rw [script, after_append]
  refine ⟨funext fun k => ?_, fun x hx => by rw [kept, value x hx]⟩
  rw [filled k]
  split
  · rfl
  · rename_i outside
    exact (Rota.eq_empty (List.eq_nil_iff_forall_not_mem.mpr fun x mem =>
      outside (range k x mem).1)).symm

omit [ListValue V] in
/-- No item is in two lists, so the first `n` lists hold no more items than there are. -/
theorem length_members_le (range : ∀ l x, x ∈ (t.rota l).items → InRange g l x) {n : ℕ}
    (hn : n ≤ g.L) :
    ((List.range n).flatMap fun l => (t.rota (UInt8.ofNat l)).items).length ≤ g.CAPACITY := by
  have nodup : ((List.range n).flatMap fun l => (t.rota (UInt8.ofNat l)).items).Nodup := by
    refine List.nodup_flatMap.mpr ⟨fun l _ => (t.rota _).nodup, ?_⟩
    refine List.nodup_range.imp_of_mem fun {l k} hl hk ne x here there => ne ?_
    rw [List.mem_range] at hl hk
    have same := congrArg UInt8.toNat (t.disjoint _ _ x here there)
    rwa [toNat_ofNat_list (hl.trans_le hn), toNat_ofNat_list (hk.trans_le hn)] at same
  have inside : ((List.range n).flatMap fun l => (t.rota (UInt8.ofNat l)).items).map UInt16.toNat ⊆
      List.range g.CAPACITY := by
    intro i mem
    obtain ⟨x, member, rfl⟩ := List.mem_map.mp mem
    obtain ⟨l, -, here⟩ := List.mem_flatMap.mp member
    exact List.mem_range.mpr (range _ x here).2
  have bound := (nodup.map fun _ _ => UInt16.toNat_inj.mp).length_le_of_subset inside
  rwa [List.length_map, List.length_range] at bound

omit [ListValue V] in
theorem length_fill_le (t : Model V) (l : ListId) :
    (t.fill l).length ≤ 2 * (t.rota l).items.length := by
  have cut := congrArg List.length (t.rota l).upto_append_rest
  rw [List.length_append] at cut
  rw [fill, List.length_append, List.length_map, List.length_replicate]
  omega

omit [ListValue V] in
theorem length_fills_le (t : Model V) (n : ℕ) : (t.fills n).length ≤
    2 * ((List.range n).flatMap fun l => (t.rota (UInt8.ofNat l)).items).length := by
  induction n with
  | zero => exact Nat.zero_le _
  | succ n ih =>
    have last := length_fill_le t (UInt8.ofNat n)
    rw [fills, List.range_succ, List.flatMap_append, List.flatMap_append, List.length_append,
      List.length_append, List.flatMap_singleton, List.flatMap_singleton]
    rw [fills] at ih
    omega

omit [ListValue V] in
theorem length_script_le (range : ∀ l x, x ∈ (t.rota l).items → InRange g l x) :
    (t.script g).length ≤ 3 * g.CAPACITY := by
  have members := length_members_le range (le_refl g.L)
  have filled := length_fills_le t g.L
  rw [script, List.length_append, setValues, List.length_map, List.length_range]
  omega

end Model

namespace Refines

open ListsOf

variable {s : ListsOf V g} {m t : Model V}

def unlinks (g : Sizes) : List (Op V) :=
  (List.range g.CAPACITY).map fun i => .unlink (UInt16.ofNat i)

omit [ListValue V] in
theorem mem_gone_unlinks {x : ItemId} (hx : x.toNat < g.CAPACITY) :
    x ∈ gone (unlinks g : List (Op V)) := by
  refine List.mem_filterMap.mpr ⟨.unlink x, ?_, rfl⟩
  refine List.mem_map.mpr ⟨x.toNat, List.mem_range.mpr hx, ?_⟩
  rw [UInt16.ofNat_toNat]

theorem unlinks_run (h : Refines s m) (b : Build) :
    ∃ m', Refines (after b (unlinks g) s) m' ∧ ∀ l, m'.rota l = Rota.empty := by
  have leave : ∀ op ∈ (unlinks g : List (Op V)), (op.removes).isSome := by
    intro op mem
    obtain ⟨i, -, rfl⟩ := List.mem_map.mp mem
    rfl
  obtain ⟨m', refines, rota, -⟩ := h.removals_run b leave
  refine ⟨m', refines, fun l => Rota.eq_empty ?_⟩
  rw [rota, Rota.eraseAll_items, List.filter_eq_nil_iff]
  intro x mem
  simpa using mem_gone_unlinks (V := V) (h.item_lt mem)

theorem script_run (h : Refines s m) (b : Build) (empty : ∀ l, m.rota l = Rota.empty)
    (range : ∀ l x, x ∈ (t.rota l).items → InRange g l x) :
    Refines (after b (t.script g) s) t := by
  obtain ⟨rota, value⟩ := Model.after_script range empty
  exact (h.run_follows b _).2.congr rota.symm fun x hx => (value x hx).symm

end Refines

/-- Every arrangement of items in range is within reach, from new lists within three calls for each
item, and within four from any state that can be reached at all; nothing else ever is. -/
theorem reachable_arrangements (b : Build) (m : Model V) :
    [∃ ops, Refines (ListsOf.after b ops (ListsOf.new : ListsOf V g)) m,
      ∀ l x, x ∈ (m.rota l).items → InRange g l x,
      ∃ ops, ops.length ≤ 3 * g.CAPACITY ∧
        Refines (ListsOf.after b ops (ListsOf.new : ListsOf V g)) m,
      ∀ before, ∃ ops, ops.length ≤ 4 * g.CAPACITY ∧
        Refines (ListsOf.after b (before ++ ops) (ListsOf.new : ListsOf V g)) m].TFAE := by
  tfae_have 1 → 2 := by
    rintro ⟨ops, refines⟩
    exact refines.bounds
  tfae_have 2 → 3 := fun range =>
    ⟨m.script g, Model.length_script_le range, new_refines.script_run b (fun l => rfl) range⟩
  tfae_have 2 → 4 := by
    intro range before
    obtain ⟨m', refines, empty⟩ := (after_refines b before).unlinks_run b
    refine ⟨Refines.unlinks g ++ m.script g, ?_, ?_⟩
    · have script := Model.length_script_le range
      rw [List.length_append, Refines.unlinks, List.length_map, List.length_range]
      omega
    · rw [ListsOf.after_append, ListsOf.after_append]
      exact refines.script_run b empty range
  tfae_have 3 → 1 := by
    rintro ⟨ops, -, refines⟩
    exact ⟨ops, refines⟩
  tfae_have 4 → 1 := by
    intro reach
    obtain ⟨ops, -, refines⟩ := reach []
    exact ⟨[] ++ ops, refines⟩
  tfae_finish

end RtosCore
