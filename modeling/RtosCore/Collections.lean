import Mathlib.Data.Finmap
import Mathlib.Data.List.Perm.Basic

/-! Two collections of the standard library as far as programs here use them: a vector one takes
elements out of in constant time, and a hash map, whose order of entries nothing may depend on. -/

namespace RtosCore

variable {α β : Type}

/-- `Vec::swap_remove`: the last element takes the place of the one taken out. -/
def swapRemove (xs : List α) (i : ℕ) : Option (α × List α) :=
  match xs[i]?, xs.getLast? with
  | some x, some last => some (x, (xs.set i last).dropLast)
  | _, _ => none

theorem getLast?_set_last {xs : List α} {i : ℕ} {last : α} (ends : xs.getLast? = some last) :
    (xs.set i last).getLast? = some last := by
  rw [List.getLast?_eq_getElem?] at ends ⊢
  rw [List.length_set, List.getElem?_set]
  split_ifs with here inside
  · rfl
  · rw [List.getElem?_eq_none (by omega)] at ends
    cases ends
  · exact ends

theorem swapRemove_perm {xs rest : List α} {i : ℕ} {x : α}
    (taken : swapRemove xs i = some (x, rest)) : xs.Perm (x :: rest) := by
  unfold swapRemove at taken
  split at taken
  · rename_i y last here ends
    obtain ⟨rfl, rfl⟩ := Prod.mk.inj (Option.some.inj taken)
    obtain ⟨bound, at_i⟩ := List.getElem?_eq_some_iff.mp here
    have moved := List.set_perm_cons_eraseIdx bound last
    rw [← List.dropLast_append_getLast? last (getLast?_set_last ends)] at moved
    have left : (xs.set i last).dropLast.Perm (xs.eraseIdx i) :=
      List.Perm.cons_inv ((List.perm_append_singleton _ _).symm.trans moved)
    have whole := List.getElem_cons_eraseIdx_perm bound
    rw [at_i] at whole
    exact whole.symm.trans (left.symm.cons y)
  · cases taken

theorem swapRemove_of_lt {xs : List α} {i : ℕ} (bound : i < xs.length) :
    ∃ x rest, swapRemove xs i = some (x, rest) := by
  have ends : xs.getLast? ≠ none := by
    rw [ne_eq, List.getLast?_eq_none_iff]
    rintro rfl
    exact Nat.not_lt_zero i bound
  obtain ⟨last, ends⟩ := Option.ne_none_iff_exists'.mp ends
  rw [swapRemove, List.getElem?_eq_getElem bound, ends]
  exact ⟨_, _, rfl⟩

abbrev HashMap (κ α : Type) := AList fun _ : κ => α

namespace HashMap

variable [DecidableEq α] {m : HashMap α β} {k k' : α} {v : β}

theorem mem_entries (k : α) (v : β) : ⟨k, v⟩ ∈ m.entries ↔ m.lookup k = some v :=
  AList.mem_lookup_iff.symm

theorem lookup_insert (k' : α) :
    AList.lookup k' (m.insert k v) = if k' = k then some v else m.lookup k' := by
  split_ifs with same
  · rw [same, AList.lookup_insert]
  · rw [AList.lookup_insert_ne same]

theorem lookup_erase (k' : α) :
    AList.lookup k' (m.erase k) = if k' = k then none else m.lookup k' := by
  split_ifs with same
  · rw [same, AList.lookup_erase]
  · rw [AList.lookup_erase_ne same]

variable [DecidableEq β]

/-- `values().filter(|&v| v == ..).count()`. -/
def countValue (m : HashMap α β) (v : β) : ℕ := m.entries.countP fun e => e.2 = v

theorem countValue_eq {keys : List α} (nodup : keys.Nodup)
    (same : ∀ k, m.lookup k = some v ↔ k ∈ keys) : m.countValue v = keys.length := by
  have listed : ((m.entries.filter fun e => e.2 = v).map Sigma.fst).Perm keys := by
    refine (List.perm_ext_iff_of_nodup ?_ nodup).mpr fun k => ?_
    · exact (List.filter_sublist.map Sigma.fst).nodup m.nodupKeys
    · rw [← same k, ← mem_entries, List.mem_map]
      constructor
      · rintro ⟨e, found, rfl⟩
        obtain ⟨mem, value⟩ := List.mem_filter.mp found
        rw [← of_decide_eq_true value]
        exact mem
      · exact fun mem => ⟨_, List.mem_filter.mpr ⟨mem, decide_eq_true rfl⟩, rfl⟩
  rw [countValue, List.countP_eq_length_filter, ← List.length_map Sigma.fst, listed.length_eq]

end HashMap

end RtosCore
