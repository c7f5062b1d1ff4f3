import RtosCore.ArenaRuns
import RtosCore.HandleWord
import RtosCore.KeyedMap

/-! The objects of an arena as a map keyed by handle. A handle that fits a word finds its object
exactly when the map has it: no such handle carries the free bit, so no free slot answers. -/

namespace RtosCore

variable {K : Kind} {T : Type} {p : Shape}

namespace Arena

variable {a : Arena K T p} {h h' : Handle K} {slot old : Slot T} {i : ℕ} {v : T} {g : UInt32}

/-- What `iter` lists, as a map. -/
def objects (a : Arena K T p) : KeyedMap (Handle K) T := KeyedMap.ofEntries a.iter

theorem mem_iter {e : Handle K × T} : e ∈ a.iter ↔
    ∃ (i : ℕ) (slot : Slot T), a.slots[i]? = some slot ∧ live slot.generation = true ∧
      e = (⟨UInt32.ofNat i, slot.generation⟩, slot.value) := by
  simp only [iter, List.mem_map, List.mem_filter, Prod.exists, List.mem_zipIdx_iff_getElem?,
    Vector.getElem?_toList]
  constructor
  · rintro ⟨slot, i, ⟨there, alive⟩, rfl⟩
    exact ⟨i, slot, there, alive, rfl⟩
  · rintro ⟨i, slot, there, alive, rfl⟩
    exact ⟨slot, i, ⟨there, alive⟩, rfl⟩

theorem ascending_iter (a : Arena K T p) :
    (a.iter.map fun e => e.1.index.toNat).Pairwise (· < ·) := by
  have indices : (a.slots.toList.zipIdx.map Prod.snd).Pairwise (· < ·) := by
    rw [List.zipIdx_map_snd]
    exact List.pairwise_lt_range'
  have listed : (a.iter.map fun e => e.1.index.toNat) =
      (a.slots.toList.zipIdx.filter fun s => live s.1.generation).map Prod.snd := by
    rw [iter, List.map_map]
    refine List.map_congr_left fun s here => ?_
    have there := List.mem_zipIdx_iff_getElem?.mp (List.mem_filter.mp here).1
    rw [Vector.getElem?_toList] at there
    exact ofNat_index (lt_of_slot there)
  rw [listed]
  exact indices.sublist (List.filter_sublist.map Prod.snd)

theorem nodup_iter (a : Arena K T p) : (a.iter.map Prod.fst).Nodup := by
  have ordered := a.ascending_iter
  rw [show (a.iter.map fun e => e.1.index.toNat) =
    (a.iter.map Prod.fst).map fun h => h.index.toNat by rw [List.map_map]; rfl] at ordered
  exact List.Nodup.of_map _ (ordered.imp ne_of_lt)

theorem length_iter (a : Arena K T p) :
    a.iter.length = a.slots.toList.countP fun s => live s.generation := by
  rw [iter, List.length_map, ← List.countP_eq_length_filter]
  conv_rhs => rw [← List.zipIdx_map_fst 0 a.slots.toList, List.countP_map]
  rfl

theorem asUsize_fits (fits : h.Fits) : p.asUsize h.index = h.index.toNat := by
  have wide : 2 ^ 16 ≤ 2 ^ p.usizeBits := Nat.pow_le_pow_right (by decide) p.usizeBits_ge
  exact Nat.mod_eq_of_lt (fits.1.trans_le wide)

theorem fits_live (wf : RtosCore.WellFormed g) (alive : live g = true) (hi : i < p.N) :
    (⟨UInt32.ofNat i, g⟩ : Handle K).Fits := by
  have fits : p.N ≤ 65534 := p.capacityFits
  refine ⟨?_, (live_iff wf).mp alive⟩
  rw [ofNat_index hi]
  omega

/-- A handle that fits a word has no free bit, so the slot it agrees with is live. -/
theorem live_of_fits (wf : RtosCore.WellFormed g) (fits : h.Fits) (same : g = h.generation) :
    live g = true := by
  rw [live_iff wf, same]
  exact fits.2

theorem get_eq_some (fits : h.Fits) : a.get h = some v ↔
    ∃ slot, a.slots[h.index.toNat]? = some slot ∧ slot.generation = h.generation ∧
      slot.value = v := by
  rw [get_eq, Option.map_eq_some_iff]
  simp only [found_eq_some, asUsize_fits fits, and_assoc]

theorem mem_iter_iff (wf : a.WellFormed) :
    (h, v) ∈ a.iter ↔ h.Fits ∧ a.get h = some v := by
  rw [mem_iter]
  constructor
  · rintro ⟨i, slot, there, alive, same⟩
    obtain ⟨rfl, rfl⟩ := Prod.mk.inj same
    have bound := lt_of_slot there
    have fits := fits_live (K := K) (wf.slot there) alive bound
    refine ⟨fits, (get_eq_some fits).mpr ⟨slot, ?_, rfl, rfl⟩⟩
    rw [ofNat_index bound]
    exact there
  · rintro ⟨fits, got⟩
    obtain ⟨slot, there, same, rfl⟩ := (get_eq_some fits).mp got
    have alive := live_of_fits (wf.slot there) fits same
    refine ⟨_, slot, there, alive, ?_⟩
    rw [UInt32.ofNat_toNat, same]

theorem lookup_objects (wf : a.WellFormed) :
    a.objects.lookup h = if h.Fits then a.get h else none := by
  ext v
  rw [objects, KeyedMap.lookup_ofEntries a.nodup_iter, mem_iter_iff wf]
  split_ifs with fits
  · exact and_iff_right fits
  · simp [fits]

theorem fits_of_mem (wf : a.WellFormed) (mem : h ∈ a.objects) : h.Fits := by
  obtain ⟨e, listed, rfl⟩ := List.mem_map.mp (KeyedMap.mem_ofEntries.mp mem)
  exact ((mem_iter_iff wf).mp listed).1

theorem mem_objects : h ∈ a.objects ↔ ∃ (i : ℕ) (slot : Slot T), a.slots[i]? = some slot ∧
    live slot.generation = true ∧ h = ⟨UInt32.ofNat i, slot.generation⟩ := by
  rw [objects, KeyedMap.mem_ofEntries, List.mem_map]
  constructor
  · rintro ⟨e, mem, rfl⟩
    obtain ⟨i, slot, there, alive, rfl⟩ := mem_iter.mp mem
    exact ⟨i, slot, there, alive, rfl⟩
  · rintro ⟨i, slot, there, alive, rfl⟩
    exact ⟨_, mem_iter.mpr ⟨i, slot, there, alive, rfl⟩, rfl⟩

theorem handleAt_eq_some {index : UInt16} :
    a.handleAt index = some h ↔ h ∈ a.objects ∧ h.index.toNat = index.toNat := by
  rw [mem_objects]
  unfold handleAt
  constructor
  · intro at_index
    cases there : a.slots[index.toNat]? with
    | none => simp [there] at at_index
    | some slot =>
      simp only [there] at at_index
      by_cases alive : live slot.generation = true
      · rw [if_pos alive] at at_index
        obtain rfl := Option.some.inj at_index
        exact ⟨⟨index.toNat, slot, there, alive, rfl⟩, ofNat_index (lt_of_slot there)⟩
      · rw [if_neg alive] at at_index
        cases at_index
  · rintro ⟨⟨i, slot, there, alive, rfl⟩, same⟩
    have index_eq : i = index.toNat := (ofNat_index (lt_of_slot there)).symm.trans same
    subst index_eq
    rw [there]
    exact if_pos alive

theorem card_objects (a : Arena K T p) :
    a.objects.keys.card = a.slots.toList.countP fun s => live s.generation :=
  (KeyedMap.keys_ofEntries_card a.nodup_iter).trans a.length_iter

theorem card_le (a : Arena K T p) : a.objects.keys.card ≤ p.N := by
  rw [card_objects]
  exact List.countP_le_length.trans_eq Vector.length_toList

theorem card_eq_iff : a.objects.keys.card = p.N ↔
    ∀ (i : ℕ) (slot : Slot T), a.slots[i]? = some slot → live slot.generation = true := by
  have count := List.countP_eq_length (l := a.slots.toList) (p := fun s => live s.generation)
  rw [Vector.length_toList] at count
  rw [card_objects, count]
  constructor
  · intro full i slot there
    rw [← Vector.getElem?_toList] at there
    exact full slot (List.mem_of_getElem? there)
  · intro full slot mem
    obtain ⟨i, there⟩ := List.getElem?_of_mem mem
    rw [Vector.getElem?_toList] at there
    exact full i slot there

theorem WellFormed.put (wf : a.WellFormed) (there : a.slots[i]? = some old) (slot : Slot T)
    (wf' : RtosCore.WellFormed slot.generation) (len : ℕ) : (a.put i slot len).WellFormed := by
  intro j g now
  rw [generationAt_put there] at now
  split_ifs at now with same
  · obtain rfl := Option.some.inj now
    exact wf'
  · exact wf j g now

theorem get_put (fits : h'.Fits) (there : a.slots[i]? = some old) (len : ℕ) :
    (a.put i slot len).get h' =
      if h'.index.toNat = i then
        if slot.generation = h'.generation then some slot.value else none
      else a.get h' := by
  rw [get_eq, get_eq, found, found, asUsize_fits fits, slots_put (lt_of_slot there)]
  by_cases same : h'.index.toNat = i
  · rw [if_pos same, if_pos same]
    by_cases agree : slot.generation = h'.generation <;> simp [Option.filter, agree]
  · rw [if_neg same, if_neg same]

theorem get_slot (fits : h'.Fits) (there : a.slots[i]? = some slot) (same : h'.index.toNat = i) :
    a.get h' = if slot.generation = h'.generation then some slot.value else none := by
  subst same
  rw [get_eq, found, asUsize_fits fits, there]
  by_cases agree : slot.generation = h'.generation <;> simp [Option.filter, agree]

theorem eq_handle_iff (hi : i < p.N) (same : h'.index.toNat = i) :
    h' = ⟨UInt32.ofNat i, g⟩ ↔ g = h'.generation := by
  constructor
  · rintro rfl
    rfl
  · rintro rfl
    subst same
    ext1
    · exact UInt32.ofNat_toNat.symm
    · rfl

/-- A slot that is written decides for all handles of its index, and for no other. -/
theorem lookup_put (wf : a.WellFormed) (there : a.slots[i]? = some old) (slot : Slot T)
    (wf' : RtosCore.WellFormed slot.generation) (len : ℕ) :
    (a.put i slot len).objects.lookup h' =
      if h'.Fits ∧ h'.index.toNat = i then
        if slot.generation = h'.generation then some slot.value else none
      else a.objects.lookup h' := by
  rw [lookup_objects (wf.put there slot wf' len), lookup_objects wf]
  by_cases fits : h'.Fits
  · rw [if_pos fits, if_pos fits, get_put fits there]
    simp only [fits, true_and]
  · rw [if_neg fits, if_neg fits, if_neg fun here => fits here.1]

/-- Storing a live slot stores its value under its handle, if no other handle had found
anything there. -/
theorem objects_put_live (wf : a.WellFormed) (there : a.slots[i]? = some old) (slot : Slot T)
    (wf' : RtosCore.WellFormed slot.generation) (alive : live slot.generation = true)
    (before : live old.generation = false ∨ old.generation = slot.generation) (len : ℕ) :
    (a.put i slot len).objects =
      a.objects.insert ⟨UInt32.ofNat i, slot.generation⟩ slot.value := by
  refine Finmap.ext_lookup fun h' => ?_
  have bound := lt_of_slot there
  have fits := fits_live (K := K) wf' alive bound
  rw [KeyedMap.lookup_insert, lookup_put wf there slot wf']
  by_cases here : h'.Fits ∧ h'.index.toNat = i
  · obtain ⟨fits', same⟩ := here
    rw [if_pos ⟨fits', same⟩, lookup_objects wf, if_pos fits', get_slot fits' there same]
    simp only [eq_handle_iff (g := slot.generation) bound same]
    by_cases agree : slot.generation = h'.generation
    · rw [if_pos agree, if_pos agree]
    · have missed : old.generation ≠ h'.generation := by
        rintro found
        rcases before with free | kept
        · have alive := live_of_fits (wf.slot there) fits' found
          rw [free] at alive
          cases alive
        · exact agree (kept.symm.trans found)
      rw [if_neg agree, if_neg agree, if_neg missed]
  · have other : h' ≠ ⟨UInt32.ofNat i, slot.generation⟩ := by
      rintro rfl
      exact here ⟨fits, ofNat_index bound⟩
    rw [if_neg here, if_neg other]

theorem objects_put_free (wf : a.WellFormed) (fits : h.Fits)
    (there : a.slots[h.index.toNat]? = some old) (named : old.generation = h.generation)
    (freed : slot.generation = old.generation ||| FREE) (len : ℕ) :
    (a.put h.index.toNat slot len).objects = a.objects.erase h := by
  refine Finmap.ext_lookup fun h' => ?_
  have wfOld := wf.slot there
  have wf' : RtosCore.WellFormed slot.generation := freed ▸ wellFormed_or_FREE wfOld
  rw [KeyedMap.lookup_erase, lookup_put wf there slot wf']
  by_cases here : h'.Fits ∧ h'.index.toNat = h.index.toNat
  · obtain ⟨fits', same⟩ := here
    have missed : slot.generation ≠ h'.generation := by
      intro found
      have alive := live_of_fits wf' fits' found
      rw [freed, not_live_or_FREE wfOld] at alive
      cases alive
    rw [if_pos ⟨fits', same⟩, if_neg missed, lookup_objects wf, if_pos fits',
      get_slot fits' there same]
    by_cases agree : h' = h
    · rw [if_pos agree]
    · have missed : old.generation ≠ h'.generation := by
        intro found
        exact agree (Handle.ext (UInt32.toNat_inj.mp same) (found.symm.trans named))
      rw [if_neg agree, if_neg missed]
  · have other : h' ≠ h := by
      rintro rfl
      exact here ⟨fits, rfl⟩
    rw [if_neg here, if_neg other]

theorem WellFormed.iterMut (wf : a.WellFormed) (write : Handle K → T → T) :
    (a.iterMut write).2.WellFormed := by
  intro i g now
  rw [generationAt_iterMut] at now
  exact wf i g now

theorem get_iterMut (wf : a.WellFormed) (fits : h.Fits) (write : Handle K → T → T) :
    (a.iterMut write).2.get h = (a.get h).map (write h) := by
  rw [get_eq, get_eq, found, found, asUsize_fits fits, iterMut, Vector.getElem?_mapIdx]
  cases there : a.slots[h.index.toNat]? with
  | none => rfl
  | some slot =>
    have wf' := wf.slot there
    by_cases agree : slot.generation = h.generation
    · have alive : live h.generation = true := agree ▸ live_of_fits wf' fits agree
      simp [agree, alive, Option.filter, Handle.fromParts]
    · by_cases alive : live slot.generation = true <;> simp [Option.filter, agree, alive]

theorem objects_iterMut (wf : a.WellFormed) (write : Handle K → T → T) :
    (a.iterMut write).2.objects = KeyedMap.revise write a.objects := by
  refine Finmap.ext_lookup fun h' => ?_
  rw [KeyedMap.lookup_revise, lookup_objects wf, lookup_objects (wf.iterMut write)]
  split_ifs with fits
  · exact get_iterMut wf fits write
  · rfl

end Arena

end RtosCore
