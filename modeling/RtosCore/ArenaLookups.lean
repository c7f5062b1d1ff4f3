import RtosCore.ArenaContract

/-! The lookups compare whole generations, the iterators and `handle_at` look at the free bit
only. On the slots an arena can get into, and for handles that fit a word, that is the same. -/

namespace RtosCore

variable {K : Kind} {T : Type} {p : Shape}

namespace Arena

variable {a : Arena K T p} {h : Handle K}

/-- Why `h` names nothing: null and out of range are told before stale. -/
def refusal (N : ℕ) (h : Handle K) : Error :=
  if h.generation = 0 ∨ N ≤ h.index.toNat then .invalidHandle else .gone

theorem resolution_none (N : ℕ) (h : Handle K) :
    resolution N h (none : Option T) = .error (refusal N h) := by
  by_cases inside : h.index.toNat < N
  · by_cases null : h.generation = 0 <;> simp [resolution, refusal, why, Handle.isNull, *]
  · simp [resolution, refusal, inside, not_lt.mp inside]

theorem getMut_answer (a : Arena K T p) (h : Handle K) (write : T → T) :
    (a.getMut h write).1 = a.get h := by
  rw [get_eq]
  cases hit : a.found h with
  | none =>
    rw [getMut_missed hit]
    rfl
  | some slot =>
    rw [getMut_hit hit]
    rfl

structure LookupsAgree (a : Arena K T p) (h : Handle K) : Prop where
  contains : a.contains h = true ↔ ∃ v, a.get h = some v
  getMut : ∀ write, (a.getMut h write).1 = a.get h
  resolve : ∀ v, a.resolve h = .ok v ↔ a.get h = some v
  resolveMut : ∀ write v, (a.resolveMut h write).1 = .ok v ↔ a.get h = some v
  handleAt : a.handleAt h.index.toUInt16 = some h ↔ ∃ v, a.get h = some v
  iter : ∀ v, (h, v) ∈ a.iter ↔ a.get h = some v
  iterMut : ∀ write v, (h, v) ∈ (a.iterMut write).1 ↔ a.get h = some v
  refused : a.get h = none → a.resolve h = .error (refusal p.N h)
  refusedMut : ∀ write, a.get h = none → (a.resolveMut h write).1 = .error (refusal p.N h)

structure ListsInOrder (a : Arena K T p) : Prop where
  ascending : (a.iter.map fun e => e.1.index.toNat).Pairwise (· < ·)
  once : (a.iter.map Prod.fst).Nodup
  length : a.iter.length = a.len
  iterMut : ∀ write, (a.iterMut write).1 = a.iter

theorem mem_objects_iff (wf : a.WellFormed) (fits : h.Fits) :
    h ∈ a.objects ↔ ∃ v, a.get h = some v := by
  rw [Finmap.mem_iff, lookup_objects wf, if_pos fits]

theorem toNat_toUInt16 (fits : h.Fits) : h.index.toUInt16.toNat = h.index.toNat := by
  rw [UInt32.toNat_toUInt16]
  exact Nat.mod_eq_of_lt fits.1

theorem WellFormed.lookupsAgree (wf : a.WellFormed) (fits : h.Fits) : LookupsAgree a h where
  contains := by rw [Arena.contains, Option.isSome_iff_exists]
  getMut := a.getMut_answer h
  resolve v := resolve_eq_ok
  resolveMut write v := by
    rw [resolveMut_eq]
    exact resolve_eq_ok
  handleAt := by
    rw [handleAt_eq_some, mem_objects_iff wf fits]
    exact and_iff_left (toNat_toUInt16 fits).symm
  iter v := (mem_iter_iff wf).trans (and_iff_right fits)
  iterMut write v := (mem_iter_iff wf).trans (and_iff_right fits)
  refused none := by rw [resolve_eq a fits, none, resolution_none]
  refusedMut write none := by
    rw [resolveMut_eq]
    change a.resolve h = _
    rw [resolve_eq a fits, none, resolution_none]

theorem Sound.listsInOrder (sound : a.Sound) : ListsInOrder a where
  ascending := a.ascending_iter
  once := a.nodup_iter
  length := by rw [length_iter, sound.len, card_objects]
  iterMut _ := rfl

end Arena

/-- After any run, every handle that was issued or comes from a word is answered the same way by
everything that can be asked about it, and what is refused is refused for the right reason. -/
theorem lookups_agree [Inhabited T] (ops : List (ArenaOp K T)) (presents : Arena.Presents p ops) :
    let a : Arena K T p := Arena.after ops Arena.new
    (∀ h, (h ∈ issuedBy (Arena.run ops (Arena.new : Arena K T p)).1 ∨ ∃ w, h = Handle.fromRaw w) →
      Arena.LookupsAgree a h) ∧ a.ListsInOrder := by
  intro a
  have sound : a.Sound := (Arena.run_store ops presents).2
  refine ⟨fun h named => ?_, sound.listsInOrder⟩
  rcases named with issued | ⟨w, rfl⟩
  · exact sound.wellFormed.lookupsAgree (Arena.issued_fits ops issued).1
  · exact sound.wellFormed.lookupsAgree (Handle.fits_fromRaw w)

theorem lookups_agree_one :
    let a : Arena .task ℕ Shape.one := Arena.after replaced Arena.new
    (∀ h, (h ∈ issuedBy (Arena.run replaced (Arena.new : Arena .task ℕ Shape.one)).1 ∨
      ∃ w, h = Handle.fromRaw w) → Arena.LookupsAgree a h) ∧ a.ListsInOrder :=
  lookups_agree replaced presents_replaced

end RtosCore
