import RtosCore.ArenaObjects

/-! The arena as its callers see it: a map from handles to objects with room for `N` of them,
which names each new object itself. -/

namespace RtosCore

variable {K : Kind} {T : Type} {p : Shape}

def ArenaOp.handle : ArenaOp K T → Option (Handle K)
  | .remove h | .discard h | .getMut h _ | .resolveMut h _ => some h
  | .insert _ | .tryInsert _ | .iterMut _ => none

def resolution (N : ℕ) (h : Handle K) (found : Option T) : Except Error T :=
  match found with
  | some v => .ok v
  | none => .error (if h.index.toNat < N then Arena.why h else .invalidHandle)

/-- One call on the map. Which handle a new object gets is left open: any that is not in use. -/
inductive StoreStep (N : ℕ) : KeyedMap (Handle K) T → ArenaOp K T → ArenaAnswer K T →
    KeyedMap (Handle K) T → Prop
  | insertFull {s : KeyedMap (Handle K) T} {v : T} (full : s.keys.card = N) :
      StoreStep N s (.insert v) (.inserted (.error .noMemory)) s
  | insert {s : KeyedMap (Handle K) T} {v : T} {h : Handle K} (room : s.keys.card < N)
      (fresh : h ∉ s) : StoreStep N s (.insert v) (.inserted (.ok h)) (s.insert h v)
  | tryInsertFull {s : KeyedMap (Handle K) T} {v : T} (full : s.keys.card = N) :
      StoreStep N s (.tryInsert v) (.placed (.error v)) s
  | tryInsert {s : KeyedMap (Handle K) T} {v : T} {h : Handle K} (room : s.keys.card < N)
      (fresh : h ∉ s) : StoreStep N s (.tryInsert v) (.placed (.ok h)) (s.insert h v)
  | remove {s : KeyedMap (Handle K) T} {h : Handle K} :
      StoreStep N s (.remove h) (.taken (s.lookup h)) (s.erase h)
  | discard {s : KeyedMap (Handle K) T} {h : Handle K} :
      StoreStep N s (.discard h) (.discarded (s.lookup h).isSome) (s.erase h)
  | getMut {s : KeyedMap (Handle K) T} {h : Handle K} {write : T → T} :
      StoreStep N s (.getMut h write) (.seen (s.lookup h)) (KeyedMap.adjust h write s)
  | resolveMut {s : KeyedMap (Handle K) T} {h : Handle K} {write : T → T} :
      StoreStep N s (.resolveMut h write) (.resolved (resolution N h (s.lookup h)))
        (KeyedMap.adjust h write s)
  | iterMut {s : KeyedMap (Handle K) T} {write : Handle K → T → T} {items : List (Handle K × T)}
      (lists : ∀ h v, (h, v) ∈ items ↔ s.lookup h = some v) (nodup : (items.map Prod.fst).Nodup) :
      StoreStep N s (.iterMut write) (.each items) (KeyedMap.revise write s)

inductive StoreRun (N : ℕ) : List (ArenaOp K T) → List (ArenaAnswer K T) →
    KeyedMap (Handle K) T → Prop
  | new : StoreRun N [] [] ∅
  | step {ops : List (ArenaOp K T)} {answers : List (ArenaAnswer K T)}
      {s s' : KeyedMap (Handle K) T} {op : ArenaOp K T} {answer : ArenaAnswer K T}
      (before : StoreRun N ops answers s) (step : StoreStep N s op answer s') :
      StoreRun N (ops ++ [op]) (answers ++ [answer]) s'

namespace Arena

variable {a : Arena K T p} {h h' : Handle K} {slot old : Slot T} {i : ℕ} {v : T}

/-- The invariant: no malformed generation, and `len` counts the objects. -/
structure Sound (a : Arena K T p) : Prop where
  wellFormed : a.WellFormed
  len : a.len = a.objects.keys.card

theorem lookup_fits (sound : a.Sound) (fits : h.Fits) : a.objects.lookup h = a.get h := by
  rw [lookup_objects sound.wellFormed, if_pos fits]

theorem lookup_found (sound : a.Sound) (fits : h.Fits) :
    a.objects.lookup h = (a.found h).map Slot.value :=
  (lookup_fits sound fits).trans get_eq

theorem found_none_iff (sound : a.Sound) (fits : h.Fits) : a.found h = none ↔ h ∉ a.objects := by
  rw [← Finmap.lookup_eq_none, lookup_found sound fits, Option.map_eq_none_iff]

theorem capacity_lt (p : Shape) : p.N < 2 ^ p.usizeBits := by
  have fits : p.N ≤ 65534 := p.capacityFits
  have wide : 2 ^ 16 ≤ 2 ^ p.usizeBits := Nat.pow_le_pow_right (by decide) p.usizeBits_ge
  omega

theorem wrappingSucc_eq {n : ℕ} (room : n < p.N) : p.wrappingSucc n = n + 1 := by
  have small := capacity_lt p
  exact Nat.mod_eq_of_lt (by omega)

theorem wrappingPred_eq {n : ℕ} (some : 0 < n) (bound : n ≤ p.N) :
    p.wrappingPred n + 1 = n := by
  have small := capacity_lt p
  have whole : n + (2 ^ p.usizeBits - 1) = (n - 1) + 2 ^ p.usizeBits := by omega
  rw [Shape.wrappingPred, whole, Nat.add_mod_right, Nat.mod_eq_of_lt (by omega)]
  omega

theorem tryInsert_store (sound : a.Sound) (v : T) :
    (a.objects.keys.card = p.N ∧ a.tryInsert v = (.error v, a)) ∨
    ∃ h, a.objects.keys.card < p.N ∧ h ∉ a.objects ∧ (a.tryInsert v).1 = .ok h ∧
      (a.tryInsert v).2.objects = a.objects.insert h v ∧ (a.tryInsert v).2.Sound := by
  rcases tryInsert_cases a v with ⟨all, full⟩ | ⟨i, slot, there, free, placed⟩
  · exact Or.inl ⟨card_eq_iff.mpr all, full⟩
  · have notFull : a.objects.keys.card ≠ p.N := fun full => by
      rw [card_eq_iff.mp full i slot there] at free
      cases free
    have room : a.objects.keys.card < p.N := lt_of_le_of_ne a.card_le notFull
    have wf' := wellFormed_occupied (g := slot.generation)
    have bound := lt_of_slot there
    have fresh : (⟨UInt32.ofNat i, occupied slot.generation⟩ : Handle K) ∉ a.objects := by
      have fits := fits_live (K := K) wf' live_occupied bound
      have index : (UInt32.ofNat i).toNat = i := ofNat_index bound
      rw [← Finmap.lookup_eq_none, lookup_fits sound fits, get_slot fits there index]
      refine if_neg fun same => ?_
      have alive := live_occupied (g := slot.generation)
      rw [← show slot.generation = occupied slot.generation from same, free] at alive
      cases alive
    have stored := objects_put_live sound.wellFormed there ⟨occupied slot.generation, v⟩
      wf' live_occupied (Or.inl free) (p.wrappingSucc a.len)
    rw [placed]
    refine Or.inr ⟨_, room, fresh, rfl, stored, sound.wellFormed.put there _ wf' _, ?_⟩
    rw [stored, KeyedMap.keys_insert_card fresh, ← sound.len]
    exact wrappingSucc_eq (sound.len ▸ room)

theorem freed_store (sound : a.Sound) (fits : h.Fits) (hit : a.found h = some old)
    (slot : Slot T) (freed : slot.generation = old.generation ||| FREE) :
    (a.put (p.asUsize h.index) slot (p.wrappingPred a.len)).objects = a.objects.erase h ∧
      (a.put (p.asUsize h.index) slot (p.wrappingPred a.len)).Sound := by
  have stored : a.objects.lookup h = some old.value := by
    rw [lookup_found sound fits, hit]
    rfl
  obtain ⟨there, named⟩ := found_eq_some.mp hit
  rw [asUsize_fits fits] at there ⊢
  have wf' : RtosCore.WellFormed slot.generation := by
    rw [freed]
    exact wellFormed_or_FREE (sound.wellFormed.slot there)
  have erased := objects_put_free sound.wellFormed fits there named freed (p.wrappingPred a.len)
  refine ⟨erased, sound.wellFormed.put there slot wf' _, ?_⟩
  have one_less := KeyedMap.keys_erase_card (Finmap.mem_of_lookup_eq_some stored)
  have counted := wrappingPred_eq (p := p) (n := a.len)
    (by rw [sound.len]; omega) (sound.len ▸ a.card_le)
  rw [erased]
  change p.wrappingPred a.len = _
  have := sound.len
  omega

theorem getMut_store (sound : a.Sound) (fits : h.Fits) (write : T → T) :
    (a.getMut h write).1 = a.objects.lookup h ∧
      (a.getMut h write).2.objects = KeyedMap.adjust h write a.objects ∧
      (a.getMut h write).2.Sound := by
  have found := lookup_found sound fits
  cases hit : a.found h with
  | none =>
    rw [hit] at found
    rw [getMut_missed hit, KeyedMap.adjust_of_lookup_none found]
    exact ⟨found.symm, rfl, sound⟩
  | some slot =>
    rw [hit] at found
    obtain ⟨there, named⟩ := found_eq_some.mp hit
    rw [asUsize_fits fits] at there
    have wf' := sound.wellFormed.slot there
    have handle : h = ⟨UInt32.ofNat h.index.toNat, slot.generation⟩ :=
      (eq_handle_iff (lt_of_slot there) rfl).mpr named
    have stored := objects_put_live sound.wellFormed there
      { slot with value := write slot.value } wf' (live_of_fits wf' fits named) (Or.inr rfl) a.len
    rw [← handle] at stored
    rw [getMut_hit hit, asUsize_fits fits, KeyedMap.adjust_of_lookup_some found]
    have kept := sound.wellFormed.put there { slot with value := write slot.value } wf' a.len
    refine ⟨found.symm, stored, kept, ?_⟩
    change a.len = _
    rw [stored, ← KeyedMap.adjust_of_lookup_some found, KeyedMap.keys_adjust]
    exact sound.len

theorem resolve_eq (a : Arena K T p) (fits : h.Fits) :
    a.resolve h = resolution p.N h (a.get h) := by
  unfold resolve get
  rw [asUsize_fits fits]
  cases there : a.slots[h.index.toNat]? with
  | none =>
    have out : ¬ h.index.toNat < p.N := fun inside => by
      obtain ⟨slot, here⟩ := a.slot_exists inside
      rw [there] at here
      cases here
    simp [resolution, out]
  | some slot =>
    have inside := lt_of_slot there
    by_cases same : slot.generation = h.generation <;> simp [resolution, same, inside]

theorem resolve_null (wf : a.WellFormed) : a.resolve Handle.NULL = .error .invalidHandle := by
  have fits : (Handle.NULL : Handle K).Fits := Handle.fromRaw_zero ▸ Handle.fits_fromRaw 0
  rw [resolve_eq a fits]
  cases got : a.get Handle.NULL with
  | none => simp [resolution, why, Handle.isNull, Handle.NULL]
  | some v =>
    obtain ⟨slot, there, same, -⟩ := (get_eq_some fits).mp got
    have positive := (wf.slot there).2
    rw [same] at positive
    exact absurd positive (Nat.lt_irrefl 0)

variable [Inhabited T]

theorem iter_new : (new : Arena K T p).iter = [] := by
  rw [List.eq_nil_iff_forall_not_mem]
  rintro e mem
  obtain ⟨i, slot, there, alive, -⟩ := mem_iter.mp mem
  have now := generationAt_new (K := K) (T := T) (lt_of_slot there)
  rw [generationAt_slot there] at now
  rw [show slot.generation = FREE ||| 1 from Option.some.inj now, not_live_new] at alive
  cases alive

theorem objects_new : (new : Arena K T p).objects = ∅ := by
  rw [objects, iter_new]
  rfl

theorem new_sound : (new : Arena K T p).Sound := by
  refine ⟨new_wellFormed, ?_⟩
  rw [objects_new]
  rfl

theorem remove_store (sound : a.Sound) (fits : h.Fits) :
    (a.remove h).1 = a.objects.lookup h ∧ (a.remove h).2.objects = a.objects.erase h ∧
      (a.remove h).2.Sound := by
  have found := lookup_found sound fits
  cases hit : a.found h with
  | none =>
    rw [hit] at found
    rw [remove_missed hit, KeyedMap.erase_of_lookup_none found]
    exact ⟨found.symm, rfl, sound⟩
  | some slot =>
    rw [hit] at found
    rw [remove_hit hit]
    exact ⟨found.symm, freed_store sound fits hit _ rfl⟩

/-- `discard` is `remove` as far as the map goes, whatever value stays behind. -/
theorem discard_store (sound : a.Sound) (fits : h.Fits) :
    (a.discard h).1 = (a.objects.lookup h).isSome ∧
      (a.discard h).2.objects = a.objects.erase h ∧ (a.discard h).2.Sound := by
  have found := lookup_found sound fits
  cases hit : a.found h with
  | none =>
    rw [hit] at found
    rw [discard_missed hit, KeyedMap.erase_of_lookup_none found, found]
    exact ⟨rfl, rfl, sound⟩
  | some slot =>
    rw [hit] at found
    rw [discard_hit hit, found]
    exact ⟨rfl, freed_store sound fits hit _ rfl⟩

theorem call_store (sound : a.Sound) (op : ArenaOp K T) (fits : ∀ h ∈ op.handle, h.Fits) :
    StoreStep p.N a.objects op (a.call op).1 (a.call op).2.objects ∧ (a.call op).2.Sound := by
  cases op with
  | insert v =>
    simp only [call, Arena.insert]
    rcases tryInsert_store sound v with ⟨full, refused⟩ | ⟨h, room, fresh, answer, stored, after⟩
    · rw [refused]
      exact ⟨.insertFull full, sound⟩
    · rw [answer, stored]
      exact ⟨.insert room fresh, after⟩
  | tryInsert v =>
    simp only [call]
    rcases tryInsert_store sound v with ⟨full, refused⟩ | ⟨h, room, fresh, answer, stored, after⟩
    · rw [refused]
      exact ⟨.tryInsertFull full, sound⟩
    · rw [answer, stored]
      exact ⟨.tryInsert room fresh, after⟩
  | remove h =>
    obtain ⟨answer, erased, after⟩ := remove_store sound (fits h rfl)
    simp only [call, answer, erased]
    exact ⟨.remove, after⟩
  | discard h =>
    obtain ⟨answer, erased, after⟩ := discard_store sound (fits h rfl)
    simp only [call, answer, erased]
    exact ⟨.discard, after⟩
  | getMut h write =>
    obtain ⟨answer, stored, after⟩ := getMut_store sound (fits h rfl) write
    simp only [call, answer, stored]
    exact ⟨.getMut, after⟩
  | resolveMut h write =>
    obtain ⟨-, stored, after⟩ := getMut_store sound (fits h rfl) write
    simp only [call, resolveMut_eq, resolve_eq a (fits h rfl), ← lookup_fits sound (fits h rfl),
      stored]
    exact ⟨.resolveMut, after⟩
  | iterMut write =>
    have stored := objects_iterMut sound.wellFormed write
    refine ⟨?_, sound.wellFormed.iterMut write, ?_⟩
    · simp only [call, stored]
      exact .iterMut (fun h v => (KeyedMap.lookup_ofEntries a.nodup_iter).symm) a.nodup_iter
    · change a.len = (a.iterMut write).2.objects.keys.card
      rw [stored, KeyedMap.keys_revise]
      exact sound.len

end Arena

end RtosCore
