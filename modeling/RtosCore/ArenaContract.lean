import RtosCore.ArenaLifetime
import RtosCore.ArenaStore

/-! What a caller of the arena may rely on, over runs whose calls present handles the arena has
issued or words a C caller made up. -/

namespace RtosCore

variable {K : Kind} {T : Type} {p : Shape}

theorem StoreStep.others {N : ℕ} {s s' : KeyedMap (Handle K) T} {op : ArenaOp K T}
    {answer : ArenaAnswer K T} (step : StoreStep N s op answer s') {h : Handle K} {v : T}
    (stored : s.lookup h = some v) (other : op.handle ≠ some h)
    (single : ∀ write, op ≠ .iterMut write) : s'.lookup h = some v := by
  have mem := Finmap.mem_of_lookup_eq_some stored
  cases step with
  | insertFull | tryInsertFull => exact stored
  | insert _ fresh | tryInsert _ fresh =>
    rw [KeyedMap.lookup_insert, if_neg (ne_of_mem_of_not_mem mem fresh), stored]
  | remove | discard =>
    rw [KeyedMap.lookup_erase, if_neg (fun same => other (congrArg some same.symm)), stored]
  | getMut | resolveMut =>
    rw [KeyedMap.lookup_adjust, if_neg (fun same => other (congrArg some same.symm)), stored]
  | iterMut => exact absurd rfl (single _)

namespace Arena

variable {a : Arena K T p} {s : KeyedMap (Handle K) T} {h : Handle K} {v : T}

theorem issuedBy_append (answers later : List (ArenaAnswer K T)) :
    issuedBy (answers ++ later) = issuedBy answers ++ issuedBy later := List.filterMap_append

def liveWords (a : Arena K T p) : List UInt32 := a.iter.map fun e => e.1.toRaw

section Words

variable (wf : a.WellFormed)

include wf

theorem mem_liveWords (w : UInt32) :
    w ∈ a.liveWords ↔ ∃ v, a.get (Handle.fromRaw w) = some v := by
  rw [liveWords, List.mem_map]
  constructor
  · rintro ⟨⟨h, v⟩, mem, rfl⟩
    obtain ⟨fits, got⟩ := (mem_iter_iff wf).mp mem
    exact ⟨v, (Handle.fromRaw_toRaw fits).symm ▸ got⟩
  · rintro ⟨v, got⟩
    exact ⟨(Handle.fromRaw w, v), (mem_iter_iff wf).mpr ⟨Handle.fits_fromRaw w, got⟩,
      Handle.toRaw_fromRaw w⟩

theorem nodup_liveWords : a.liveWords.Nodup := by
  have words : a.liveWords = (a.iter.map Prod.fst).map Handle.toRaw := by
    rw [liveWords, List.map_map]
    rfl
  rw [words]
  refine List.Nodup.map_on ?_ a.nodup_iter
  have fits : ∀ h ∈ a.iter.map Prod.fst, h.Fits := fun h mem =>
    fits_of_mem wf (KeyedMap.mem_ofEntries.mpr mem)
  intro h mem h' mem' same
  calc h = Handle.fromRaw h.toRaw := (Handle.fromRaw_toRaw (fits h mem)).symm
    _ = Handle.fromRaw h'.toRaw := congrArg _ same
    _ = h' := Handle.fromRaw_toRaw (fits h' mem')

end Words

variable [Inhabited T]

/-- Every handle presented in the run has been issued before in the run, or comes from a word. -/
def Presents (p : Shape) (ops : List (ArenaOp K T)) : Prop :=
  ∀ (i : ℕ) (op : ArenaOp K T), ops[i]? = some op → ∀ h ∈ op.handle,
    h ∈ issuedBy (run (ops.take i) (new : Arena K T p)).1 ∨ ∃ w, h = Handle.fromRaw w

theorem issued_fits (ops : List (ArenaOp K T)) (issued : h ∈ issuedBy (run ops a).1) :
    h.Fits ∧ 0 < h.generation.toNat := by
  induction ops generalizing a with
  | nil => cases issued
  | cons op ops ih =>
    rw [run, ← List.singleton_append, issuedBy_append, List.mem_append] at issued
    rcases issued with now | later
    · obtain ⟨answer, mem, issued⟩ := List.mem_filterMap.mp now
      rw [List.mem_singleton.mp mem] at issued
      obtain ⟨i, g, before, -, rfl, -⟩ := call_issued issued
      have positive := (wellFormed_occupied (g := g)).2
      rw [← toNat_eq_counter occupied_lt] at positive
      exact ⟨fits_live wellFormed_occupied live_occupied (generationAt_lt before), positive⟩
    · exact ih later

theorem Presents.fits {ops : List (ArenaOp K T)} (presents : Presents p ops) :
    ∀ op ∈ ops, ∀ h ∈ op.handle, h.Fits := by
  intro op mem h named
  obtain ⟨i, here⟩ := List.getElem?_of_mem mem
  rcases presents i op here h named with issued | ⟨w, rfl⟩
  · exact (issued_fits _ issued).1
  · exact Handle.fits_fromRaw w

theorem run_store (ops : List (ArenaOp K T)) (presents : Presents p ops) :
    StoreRun p.N ops (run ops (new : Arena K T p)).1 (after ops (new : Arena K T p)).objects ∧
      (after ops (new : Arena K T p)).Sound := by
  induction ops using List.reverseRecOn with
  | nil =>
    refine ⟨?_, new_sound⟩
    change StoreRun p.N [] [] (new : Arena K T p).objects
    rw [objects_new]
    exact .new
  | append_singleton ops op ih =>
    have earlier : Presents p ops := by
      intro i op' here h named
      have bound := (List.getElem?_eq_some_iff.mp here).1
      have := presents i op' (by rw [List.getElem?_append_left bound, here]) h named
      rwa [List.take_append_of_le_length bound.le] at this
    obtain ⟨before, sound⟩ := ih earlier
    have fits : ∀ h ∈ op.handle, h.Fits := presents.fits op (by simp)
    obtain ⟨step, sound'⟩ := call_store sound op fits
    rw [run_append, after_append]
    exact ⟨before.step step, sound'⟩

structure Contract (a : Arena K T p) (s : KeyedMap (Handle K) T) : Prop where
  get : ∀ h : Handle K, h.Fits → a.get h = s.lookup h
  contains : ∀ h : Handle K, h.Fits → (a.contains h = true ↔ h ∈ s)
  resolve : ∀ (h : Handle K) (v : T), h.Fits → (a.resolve h = .ok v ↔ s.lookup h = some v)
  refusal : ∀ h : Handle K, h.Fits → a.resolve h = resolution p.N h (s.lookup h)
  null : a.resolve Handle.NULL = .error .invalidHandle
  iter : ∀ (h : Handle K) (v : T), (h, v) ∈ a.iter ↔ s.lookup h = some v
  handleAt : ∀ (index : UInt16) (h : Handle K),
    a.handleAt index = some h ↔ h ∈ s ∧ h.index.toNat = index.toNat
  isEmpty : a.isEmpty = true ↔ s = ∅
  fits : ∀ h ∈ s, h.Fits
  len : a.len = s.keys.card
  bounded : s.keys.card ≤ a.capacity
  insert_fails : ∀ v, (∃ e, (a.insert v).1 = .error e) ↔ s.keys.card = p.N
  refused : s.keys.card = p.N → ∀ v, a.tryInsert v = (.error v, a) ∧
    a.insert v = (.error .noMemory, a)
  fresh : ∀ v h, (a.insert v).1 = .ok h ∨ (a.tryInsert v).1 = .ok h → h ∉ s
  remove : ∀ h : Handle K, h.Fits → (a.remove h).1 = s.lookup h
  discard : ∀ h : Handle K, h.Fits → ((a.discard h).1 = true ↔ h ∈ s)
  missed : ∀ h : Handle K, h.Fits → h ∉ s → (a.remove h).2 = a ∧ (a.discard h).2 = a
  others : ∀ (op : ArenaOp K T) (h : Handle K) (v : T), (∀ k ∈ op.handle, k.Fits) →
    s.lookup h = some v → op.handle ≠ some h → (∀ write, op ≠ .iterMut write) →
    (a.call op).2.get h = some v

theorem Sound.contract (sound : a.Sound) : Contract a a.objects where
  get h fits := (lookup_fits sound fits).symm
  contains h fits := by
    rw [Arena.contains, ← lookup_fits sound fits, Finmap.lookup_isSome]
  resolve h v fits := by rw [resolve_eq_ok, lookup_fits sound fits]
  refusal h fits := by rw [resolve_eq a fits, lookup_fits sound fits]
  null := resolve_null sound.wellFormed
  iter h v := (KeyedMap.lookup_ofEntries a.nodup_iter).symm
  handleAt _ _ := handleAt_eq_some
  isEmpty := by rw [Arena.isEmpty, decide_eq_true_eq, sound.len, KeyedMap.card_eq_zero]
  fits h mem := fits_of_mem sound.wellFormed mem
  len := sound.len
  bounded := a.card_le
  insert_fails v := by
    rcases tryInsert_store sound v with ⟨full, refused⟩ | ⟨h, room, -, answer, -, -⟩
    · simp [Arena.insert, refused, full, Except.mapError]
    · simp [Arena.insert, answer, room.ne, Except.mapError]
  refused full v := by
    rcases tryInsert_store sound v with ⟨-, refused⟩ | ⟨h, room, -, -, -, -⟩
    · rw [Arena.insert, refused]
      exact ⟨rfl, rfl⟩
    · exact absurd full room.ne
  fresh v h placed := by
    rcases tryInsert_store sound v with ⟨-, refused⟩ | ⟨h', -, fresh, answer, -, -⟩
    · simp [Arena.insert, refused, Except.mapError] at placed
    · simp only [Arena.insert, answer, Except.mapError, or_self, Except.ok.injEq] at placed
      exact placed ▸ fresh
  remove h fits := (remove_store sound fits).1
  discard h fits := by rw [(discard_store sound fits).1, Finmap.lookup_isSome]
  missed h fits gone := by
    have missed := (found_none_iff sound fits).mpr gone
    rw [remove_missed missed, discard_missed missed]
    exact ⟨rfl, rfl⟩
  others op h v fits stored other single := by
    obtain ⟨step, sound'⟩ := call_store sound op fits
    have kept := step.others stored other single
    rwa [lookup_fits sound' (fits_of_mem sound.wellFormed (Finmap.mem_of_lookup_eq_some stored))] at kept

structure Unforgeable (a : Arena K T p) : Prop where
  distinct : a.liveWords.Nodup
  resolve : ∀ w, (∃ v, a.resolve (Handle.fromRaw w) = .ok v) ↔ w ∈ a.liveWords
  resolveMut : ∀ w write, (∃ v, (a.resolveMut (Handle.fromRaw w) write).1 = .ok v) ↔
    w ∈ a.liveWords
  get : ∀ w, (∃ v, a.get (Handle.fromRaw w) = some v) ↔ w ∈ a.liveWords
  remove : ∀ w, (∃ v, (a.remove (Handle.fromRaw w)).1 = some v) ↔ w ∈ a.liveWords
  discard : ∀ w, (a.discard (Handle.fromRaw w)).1 = true ↔ w ∈ a.liveWords
  free : ∀ w slot, a.slots[(Handle.fromRaw w : Handle K).index.toNat]? = some slot →
    live slot.generation = false → Refuses a (Handle.fromRaw w)
  refused : ∀ w, w ∉ a.liveWords →
    (a.remove (Handle.fromRaw w)).2 = a ∧ (a.discard (Handle.fromRaw w)).2 = a

theorem unforgeable (wf : a.WellFormed) : Unforgeable a where
  distinct := nodup_liveWords wf
  resolve w := by
    rw [mem_liveWords wf]
    exact exists_congr fun v => resolve_eq_ok
  resolveMut w write := by
    rw [mem_liveWords wf, resolveMut_eq]
    exact exists_congr fun v => resolve_eq_ok
  get w := (mem_liveWords wf w).symm
  remove w := by
    rw [mem_liveWords wf, get_eq]
    cases hit : a.found (Handle.fromRaw w) with
    | none => rw [remove_missed hit]; rfl
    | some slot => rw [remove_hit hit]; rfl
  discard w := by
    rw [mem_liveWords wf, get_eq]
    cases hit : a.found (Handle.fromRaw w) with
    | none => simp [discard_missed hit]
    | some slot => simp [discard_hit hit]
  free w slot there dead := by
    have fits := Handle.fits_fromRaw (K := K) w
    refine refuses (found_eq_none.mpr fun slot' there' same => ?_)
    rw [asUsize_fits fits, there] at there'
    obtain rfl := Option.some.inj there'
    have alive := live_of_fits (wf.slot there) fits same
    rw [dead] at alive
    cases alive
  refused w dead := by
    have missed : a.found (Handle.fromRaw w) = none := by
      rw [mem_liveWords wf, get_eq] at dead
      cases hit : a.found (Handle.fromRaw w) with
      | none => rfl
      | some slot => exact absurd ⟨slot.value, by rw [hit]; rfl⟩ dead
    rw [remove_missed missed, discard_missed missed]
    exact ⟨rfl, rfl⟩

end Arena

/-- The arena is a map from handles to objects: call by call in its answers, and in everything
that can be observed of the state after them. -/
theorem arena_refines_map [Inhabited T] (ops : List (ArenaOp K T))
    (presents : Arena.Presents p ops) :
    ∃ s, StoreRun p.N ops (Arena.run ops (Arena.new : Arena K T p)).1 s ∧
      Arena.Contract (Arena.after ops (Arena.new : Arena K T p)) s ∧
      ∀ h ∈ issuedBy (Arena.run ops (Arena.new : Arena K T p)).1, h.Fits := by
  obtain ⟨run, sound⟩ := Arena.run_store ops presents
  exact ⟨_, run, sound.contract, fun h issued => (Arena.issued_fits ops issued).1⟩

def replaced : List (ArenaOp .task ℕ) :=
  [.insert 3, .remove ⟨0, 2⟩, .remove ⟨0, 2⟩, .insert 4]

theorem presents_replaced : Arena.Presents Shape.one replaced := by
  rintro (_ | _ | _ | _ | i) op here h named
  · cases here
    cases named
  · cases here
    cases named
    exact Or.inl (by decide)
  · cases here
    cases named
    exact Or.inl (by decide)
  · cases here
    cases named
  · cases here

theorem arena_refines_map_one :
    ∃ s, StoreRun 1 replaced
        (Arena.run replaced (Arena.new : Arena .task ℕ Shape.one)).1 s ∧
      Arena.Contract (Arena.after replaced (Arena.new : Arena .task ℕ Shape.one)) s ∧
      ∀ h ∈ issuedBy (Arena.run replaced (Arena.new : Arena .task ℕ Shape.one)).1, h.Fits :=
  arena_refines_map replaced presents_replaced

/-- Whatever was called before, with whatever handles, a word opens an object exactly when it is
the word of a live handle; and when no call made a handle up except from a word, the live
handles are those issued and not given up since. -/
theorem words_are_unforgeable [Inhabited T] (ops : List (ArenaOp K T)) :
    (∀ h ∈ issuedBy (Arena.run ops (Arena.new : Arena K T p)).1,
      Handle.fromRaw h.toRaw = h ∧ h.toRaw ≠ 0) ∧
    Arena.Unforgeable (Arena.after ops (Arena.new : Arena K T p)) ∧
    (Arena.Presents p ops →
      ∃ s, StoreRun p.N ops (Arena.run ops (Arena.new : Arena K T p)).1 s ∧
        ∀ w, w ∈ (Arena.after ops (Arena.new : Arena K T p)).liveWords ↔
          ∃ h ∈ s, h.toRaw = w) := by
  refine ⟨fun h issued => ?_, Arena.unforgeable (Arena.new_wellFormed.after ops), fun presents => ?_⟩
  · obtain ⟨fits, positive⟩ := Arena.issued_fits ops issued
    exact ⟨Handle.fromRaw_toRaw fits, Handle.toRaw_ne_zero fits positive⟩
  · obtain ⟨run, sound⟩ := Arena.run_store ops presents
    refine ⟨_, run, fun w => ?_⟩
    rw [Arena.liveWords, List.mem_map]
    constructor
    · rintro ⟨⟨h, v⟩, mem, same⟩
      exact ⟨h, Finmap.mem_of_lookup_eq_some ((sound.contract.iter h v).mp mem), same⟩
    · rintro ⟨h, mem, same⟩
      obtain ⟨v, stored⟩ := Finmap.mem_iff.mp mem
      exact ⟨(h, v), (sound.contract.iter h v).mpr stored, same⟩

theorem words_are_unforgeable_one :
    ∃ s, StoreRun 1 replaced
        (Arena.run replaced (Arena.new : Arena .task ℕ Shape.one)).1 s ∧
      ∀ w, w ∈ (Arena.after replaced (Arena.new : Arena .task ℕ Shape.one)).liveWords ↔
        ∃ h ∈ s, h.toRaw = w :=
  (words_are_unforgeable replaced).2.2 presents_replaced

end RtosCore
