import Mathlib.Data.Finmap

/-! A finite map read as a store: it is listed by entries with different keys, and what is
stored is rewritten in place. -/

namespace RtosCore

variable {κ α : Type} [DecidableEq κ]

/-- A finite map whose values do not depend on the key. -/
abbrev KeyedMap (κ α : Type) := Finmap fun _ : κ => α

namespace KeyedMap

def revise (write : κ → α → α) (s : KeyedMap κ α) : KeyedMap κ α :=
  Finmap.keysLookupEquiv.symm ⟨(s.keys, fun k => (s.lookup k).map (write k)), fun k => by
    rw [Option.isSome_map, Finmap.lookup_isSome, Finmap.mem_keys]⟩

/-- The value under one key rewritten, if there is one. -/
def adjust (k : κ) (write : α → α) (s : KeyedMap κ α) : KeyedMap κ α :=
  revise (fun k' v => if k' = k then write v else v) s

def ofEntries (entries : List (κ × α)) : KeyedMap κ α :=
  (entries.map fun e => (⟨e.1, e.2⟩ : Sigma fun _ : κ => α)).toFinmap

variable {s : KeyedMap κ α} {k k' : κ} {v : α}

@[simp] theorem lookup_revise (write : κ → α → α) :
    (revise write s).lookup k = (s.lookup k).map (write k) := by
  rw [revise, Finmap.keysLookupEquiv_symm_apply_lookup]

@[simp] theorem keys_revise (write : κ → α → α) : (revise write s).keys = s.keys := by
  rw [revise, Finmap.keysLookupEquiv_symm_apply_keys]

@[simp] theorem keys_adjust (write : α → α) : (adjust k write s).keys = s.keys :=
  keys_revise _

theorem lookup_adjust (write : α → α) :
    (adjust k write s).lookup k' = if k' = k then (s.lookup k').map write else s.lookup k' := by
  rw [adjust, lookup_revise]
  by_cases same : k' = k
  · simp [same]
  · simp [same]

theorem lookup_insert (k' : κ) :
    Finmap.lookup k' (s.insert k v) = if k' = k then some v else s.lookup k' := by
  by_cases same : k' = k
  · rw [if_pos same, same, Finmap.lookup_insert]
  · rw [if_neg same, Finmap.lookup_insert_of_ne _ same]

theorem lookup_erase (k' : κ) :
    Finmap.lookup k' (s.erase k) = if k' = k then none else s.lookup k' := by
  by_cases same : k' = k
  · rw [if_pos same, same, Finmap.lookup_erase]
  · rw [if_neg same, Finmap.lookup_erase_ne same]

theorem erase_of_lookup_none (missed : s.lookup k = none) : s.erase k = s := by
  refine Finmap.ext_lookup fun k' => ?_
  rw [lookup_erase]
  split_ifs with same
  · rw [same, missed]
  · rfl

theorem adjust_of_lookup_none (missed : s.lookup k = none) (write : α → α) :
    adjust k write s = s := by
  refine Finmap.ext_lookup fun k' => ?_
  rw [lookup_adjust]
  split_ifs with same
  · rw [same, missed]
    rfl
  · rfl

theorem adjust_of_lookup_some (stored : s.lookup k = some v) (write : α → α) :
    adjust k write s = s.insert k (write v) := by
  refine Finmap.ext_lookup fun k' => ?_
  rw [lookup_adjust, lookup_insert]
  split_ifs with same
  · rw [same, stored]
    rfl
  · rfl

theorem keys_insert_card (fresh : k ∉ s) : (s.insert k v).keys.card = s.keys.card + 1 := by
  have keys : (s.insert k v).keys = insert k s.keys := by
    ext k'
    rw [Finmap.mem_keys, Finset.mem_insert, Finmap.mem_keys, Finmap.mem_insert]
  rw [keys, Finset.card_insert_of_notMem (mt Finmap.mem_keys.mp fresh)]

theorem keys_erase_card (mem : k ∈ s) : (s.erase k).keys.card + 1 = s.keys.card := by
  rw [Finmap.keys_erase, Finset.card_erase_add_one (Finmap.mem_keys.mpr mem)]

theorem card_eq_zero : s.keys.card = 0 ↔ s = ∅ := by
  rw [Finset.card_eq_zero]
  constructor
  · intro none
    refine Finmap.ext_lookup fun k => ?_
    rw [Finmap.lookup_empty, Finmap.lookup_eq_none, ← Finmap.mem_keys, none]
    exact Finset.notMem_empty k
  · rintro rfl
    exact Finmap.keys_empty

variable {entries : List (κ × α)}

theorem lookup_ofEntries (nodup : (entries.map Prod.fst).Nodup) :
    (ofEntries entries).lookup k = some v ↔ (k, v) ∈ entries := by
  have different : (entries.map fun e => (⟨e.1, e.2⟩ : Sigma fun _ : κ => α)).NodupKeys := by
    rw [List.NodupKeys, List.keys, List.map_map]
    exact nodup
  rw [ofEntries, Finmap.dlookup_list_toFinmap, ← Option.mem_def, List.mem_dlookup_iff different,
    List.mem_map]
  constructor
  · rintro ⟨e, mem, same⟩
    cases same
    exact mem
  · exact fun mem => ⟨_, mem, rfl⟩

theorem mem_ofEntries : k ∈ ofEntries entries ↔ k ∈ entries.map Prod.fst := by
  simp [ofEntries, Finmap.mem_list_toFinmap]

theorem ofEntries_concat (nodup : ((entries ++ [(k, v)]).map Prod.fst).Nodup) :
    ofEntries (entries ++ [(k, v)]) = (ofEntries entries).insert k v := by
  have before : (entries.map Prod.fst).Nodup :=
    ((List.sublist_append_left entries _).map Prod.fst).nodup nodup
  have fresh : k ∉ entries.map Prod.fst := by
    rw [List.map_append, List.nodup_append] at nodup
    exact fun mem => nodup.2.2 k mem k (by simp) rfl
  refine Finmap.ext_lookup fun k' => Option.ext fun w => ?_
  rw [lookup_ofEntries nodup, lookup_insert, List.mem_append, List.mem_singleton, Prod.mk.injEq]
  split_ifs with same
  · subst same
    have absent : (k', w) ∉ entries := fun mem => fresh (List.mem_map_of_mem mem)
    simp [absent, eq_comm]
  · simp [same, lookup_ofEntries before]

theorem ofEntries_erase {rest : List (κ × α)} (nodup : (entries.map Prod.fst).Nodup)
    (taken : entries.Perm ((k, v) :: rest)) : ofEntries rest = (ofEntries entries).erase k := by
  have listed := (taken.map Prod.fst).nodup_iff.mp nodup
  rw [List.map_cons, List.nodup_cons] at listed
  refine Finmap.ext_lookup fun k' => Option.ext fun w => ?_
  rw [lookup_ofEntries listed.2, lookup_erase]
  split_ifs with same
  · subst same
    have absent : (k', w) ∉ rest := fun mem => listed.1 (List.mem_map.mpr ⟨_, mem, rfl⟩)
    simp [absent]
  · rw [lookup_ofEntries nodup, taken.mem_iff]
    simp [same]

theorem keys_ofEntries_card (nodup : (entries.map Prod.fst).Nodup) :
    (ofEntries entries).keys.card = entries.length := by
  have keys : (ofEntries entries).keys = (entries.map Prod.fst).toFinset := by
    ext k
    rw [Finmap.mem_keys, mem_ofEntries, List.mem_toFinset]
  rw [keys, List.toFinset_card_of_nodup nodup, List.length_map]

end KeyedMap

end RtosCore
