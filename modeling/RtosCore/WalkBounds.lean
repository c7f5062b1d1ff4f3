import RtosCore.ListInvariant

/-! The ordered walk ends by itself. Nothing in the shipped loop counts or tests for the end of
the list: it ends because the marker is on the ring and carries a value that is larger than
any it is entered with. So it compares once with each item it passes and once more. -/

namespace RtosCore

variable {V : Type} [ListValue V] {g : Sizes}

namespace ListsOf

structure WalkStops (b : Build) (l : ListId) (value : V) (n : ℕ) (before after : UInt16)
    (s : ListsOf V g) : Prop where
  runs : ∀ fuel < n,
    walk b value fuel 0 (g.endOf l) (s.nextOf (g.endOf l)) s = (.error .diverges, s)
  stops : ∀ fuel, n ≤ fuel →
    walk b value fuel 0 (g.endOf l) (s.nextOf (g.endOf l)) s = (.ok (before, after), s)

structure WalksEnd (s : ListsOf V g) : Prop where
  walk : ∀ (b : Build) (l : ListId), l.toNat < g.L → ∀ value : V, value ≠ ListValue.MAX →
    ∃ n before after, n ≤ (s.metaOf l).len.toNat + 1 ∧ WalkStops b l value n before after s ∧
      (after ∈ s.visited l ∨ after = g.endOf l) ∧ value < s.valueOf after
  unentered : ∀ (b : Build) (l : ListId), l.toNat < g.L →
    sortedPlace b l ListValue.MAX s = (.ok (s.prevOf (g.endOf l), g.endOf l), s)
  counted : ∀ l : ListId, l.toNat < g.L → (s.metaOf l).len.toNat + 1 ≤ g.N
  builds : ∀ (masked : Bool) (op : Op V), call ⟨true, masked⟩ op s = call ⟨false, masked⟩ op s
  isSorted : ∀ (b : Build) (l : ListId), l.toNat < g.L → ListsOf.isSorted b l s =
    (.ok (decide (((s.visited l).map s.valueOf).Pairwise (· ≤ ·))), s)

end ListsOf

namespace Refines

open ListsOf

variable {s : ListsOf V g} {m : Model V} {l : ListId} {b : Build} {w : V}

theorem values_eq (h : Refines s m) (l : ListId) : (s.visited l).map s.valueOf = m.values l := by
  rw [h.visited_eq, Model.values]
  exact List.map_congr_left fun x hx => h.value x (h.item_lt hx)

theorem stop_above (h : Refines s m) (hl : l.toNat < g.L) (hw : w < ListValue.MAX) :
    let after := ((m.rota l).items.dropWhile fun y => !m.above w y).headD (g.endOf l)
    (after ∈ (m.rota l).items ∨ after = g.endOf l) ∧ w < s.valueOf after := by
  intro after
  cases rest : (m.rota l).items.dropWhile fun y => !m.above w y with
  | nil =>
    have marker : after = g.endOf l := by simp only [after, rest, List.headD_nil]
    rw [marker, h.markerValue l hl]
    exact ⟨Or.inr rfl, hw⟩
  | cons z zs =>
    have item : after = z := by simp only [after, rest, List.headD_cons]
    have hz : z ∈ (m.rota l).items :=
      (List.dropWhile_sublist _).subset (rest ▸ List.mem_cons_self)
    have above := List.head?_dropWhile_not (fun y => !m.above w y) (m.rota l).items
    rw [rest, List.head?_cons] at above
    have above : w < m.value z := by simpa [Model.above] using above
    rw [item, h.value z (h.item_lt hz)]
    exact ⟨Or.inl hz, above⟩

theorem walkStops (h : Refines s m) (hl : l.toNat < g.L) (hw : w < ListValue.MAX) (b : Build) :
    WalkStops b l w (((m.rota l).items.takeWhile fun y => !m.above w y).length + 1)
      (((m.rota l).items.takeWhile fun y => !m.above w y).getLastD (g.endOf l))
      (((m.rota l).items.dropWhile fun y => !m.above w y).headD (g.endOf l)) s := by
  have len := h.length_le l
  have room := g.capacity_lt_N
  have turns := fun fuel => h.walk_turns hl hw b [] (m.rota l).items fuel 0 rfl (by omega)
  rw [← (h.ring l hl).next_marker] at turns
  constructor
  · intro fuel few
    exact (turns fuel).trans (if_neg (by omega))
  · intro fuel enough
    exact (turns fuel).trans (if_pos (by omega))

theorem walksEnd (h : Refines s m) : WalksEnd s where
  walk b l hl w hw := by
    have hw := lt_of_le_of_ne (ListValue.le_max w) hw
    obtain ⟨place, above⟩ := h.stop_above hl hw
    refine ⟨_, _, _, ?_, h.walkStops hl hw b, ?_, above⟩
    · rw [h.len l hl]
      exact Nat.succ_le_succ (List.takeWhile_sublist _).length_le
    · rwa [h.visited_eq]
  unentered b l hl := by
    rw [sortedPlace, Call.bind_ok (atLink_eq (Sizes.endOf_lt hl)), if_pos rfl]
    rfl
  counted l hl := by
    have len := h.length_le l
    have room := g.capacity_lt_N
    rw [h.len l hl]
    omega
  builds masked op := h.call_build _ _ op
  isSorted b l hl := by rw [h.isSorted_eq hl, h.values_eq]

end Refines

/-- In every reachable state, whatever values its items carry and in whatever order, the loops
end on their own and a debug build does what the shipped one does. -/
theorem walks_end (b : Build) (ops : List (Op V)) :
    (ListsOf.after b ops (ListsOf.new : ListsOf V g)).WalksEnd :=
  (after_refines b ops).walksEnd

end RtosCore
