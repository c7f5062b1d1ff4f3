import RtosCore.Rota

/-! Rotas whose items have other names. The operations only ever tell items apart, so they agree
with any renaming that keeps apart the items there are. -/

namespace RtosCore

variable {α β : Type*} {f : α → β} {x : α} {l : List α}

theorem insertBefore_map (p : β → Bool) (x : α) (l : List α) :
    insertBefore p (f x) (l.map f) = (insertBefore (p ∘ f) x l).map f := by
  simp [insertBefore, List.takeWhile_map, List.dropWhile_map, Function.comp_def]

theorem mem_map_iff (apart : ∀ y ∈ l, f y = f x → y = x) : f x ∈ l.map f ↔ x ∈ l := by
  constructor
  · intro h
    obtain ⟨y, hy, same⟩ := List.mem_map.mp h
    rwa [← apart y hy same]
  · exact List.mem_map_of_mem

/-- The rota `r'` is `r` with every item renamed. -/
structure Renamed (f : α → β) (r : Rota α) (r' : Rota β) : Prop where
  items : r'.items = r.items.map f
  cursor : r'.cursor = r.cursor.map f

namespace Renamed

variable {r : Rota α} {r' : Rota β}

theorem empty : Renamed f Rota.empty Rota.empty := ⟨rfl, rfl⟩

theorem mem (h : Renamed f r r') (apart : ∀ y ∈ r.items, f y = f x → y = x) :
    f x ∈ r'.items ↔ x ∈ r.items := by
  rw [h.items, mem_map_iff apart]

theorem cursor_eq_some (h : Renamed f r r') (apart : ∀ y ∈ r.items, f y = f x → y = x) :
    r'.cursor = some (f x) ↔ r.cursor = some x := by
  rw [h.cursor]
  constructor
  · intro same
    obtain ⟨c, hc, same⟩ := Option.map_eq_some_iff.mp same
    rw [hc, apart c (r.cursor_mem c hc) same]
  · intro hc
    rw [hc, Option.map_some]

/-- Where `x` stands, there its new name stands. -/
theorem cut (h : Renamed f r r') (hx : x ∈ r.items) :
    ∃ ys zs, r.items = ys ++ x :: zs ∧ r'.items = ys.map f ++ f x :: zs.map f ∧ x ∉ ys ∧
      f x ∉ ys.map f := by
  obtain ⟨ys, zs, cut⟩ := List.append_of_mem hx
  have cut' : r'.items = ys.map f ++ f x :: zs.map f := by rw [h.items, cut]; simp
  have nodup := r.nodup
  have nodup' := r'.nodup
  rw [cut] at nodup
  rw [cut'] at nodup'
  exact ⟨ys, zs, cut, cut', notMem_before nodup, notMem_before nodup'⟩

variable [DecidableEq α] [DecidableEq β]

theorem succ (h : Renamed f r r') (hx : x ∈ r.items) :
    RtosCore.succ (f x) r'.items = (RtosCore.succ x r.items).map f := by
  obtain ⟨ys, zs, cut, cut', hys, hys'⟩ := h.cut hx
  rw [cut, cut', succ_eq hys, succ_eq hys', List.head?_map]

theorem pred (h : Renamed f r r') (hx : x ∈ r.items) :
    RtosCore.pred (f x) r'.items = (RtosCore.pred x r.items).map f := by
  obtain ⟨ys, zs, cut, cut', hys, hys'⟩ := h.cut hx
  rw [cut, cut', pred_eq hys, pred_eq hys', List.getLast?_map]

theorem nextUp (h : Renamed f r r') : r'.nextUp = r.nextUp.map f := by
  unfold Rota.nextUp
  cases hc : r.cursor with
  | none => rw [h.cursor, hc, Option.map_none, h.items, List.head?_map]
  | some c =>
    rw [h.cursor, hc, Option.map_some]
    change (RtosCore.succ (f c) r'.items).or r'.items.head? =
      ((RtosCore.succ c r.items).or r.items.head?).map f
    rw [h.succ (r.cursor_mem c hc), h.items, List.head?_map, Option.map_or]

theorem advance (h : Renamed f r r') : Renamed f r.advance r'.advance :=
  ⟨h.items, h.nextUp⟩

theorem place (h : Renamed f r r') (apart : ∀ y ∈ r.items, f y = f x → y = x)
    {p : α → Bool} {p' : β → Bool} (agree : ∀ y ∈ r.items, p' (f y) = p y) :
    Renamed f (r.place p x) (r'.place p' (f x)) := by
  have agree : ∀ y ∈ r.items, (p' ∘ f) y = p y := agree
  constructor
  · by_cases hx : x ∈ r.items
    · rw [Rota.place, Rota.place, dif_pos ((h.mem apart).mpr hx), dif_pos hx, h.items]
    · rw [Rota.place_items (mt (h.mem apart).mp hx), Rota.place_items hx, h.items, insertBefore_map,
        insertBefore_congr agree]
  · rw [Rota.place_cursor, Rota.place_cursor, h.cursor]

theorem erase (h : Renamed f r r') (apart : ∀ y ∈ r.items, f y = f x → y = x) :
    Renamed f (r.erase x) (r'.erase (f x)) := by
  by_cases hx : x ∈ r.items
  · constructor
    · obtain ⟨ys, zs, cut, cut', hys, hys'⟩ := h.cut hx
      rw [Rota.erase_items, Rota.erase_items, cut, cut', erase_middle hys, erase_middle hys',
        List.map_append]
    · rw [Rota.erase_cursor, Rota.erase_cursor, if_congr (h.cursor_eq_some apart) rfl rfl, h.pred hx,
        h.cursor, apply_ite (Option.map f)]
  · rw [Rota.erase_of_notMem hx, Rota.erase_of_notMem (mt (h.mem apart).mp hx)]
    exact h

end Renamed

end RtosCore
