import RtosCore.ArenaSlots

/-! What one call does to the generation of one slot, and from it what every run keeps. A
generation stays, or gains the free bit, or is moved on by the insert that lands there. -/

namespace RtosCore

variable {K : Kind} {T : Type} {p : Shape}

def ArenaAnswer.issued : ArenaAnswer K T → Option (Handle K)
  | .inserted (.ok h) | .placed (.ok h) => some h
  | _ => none

def issuedBy (answers : List (ArenaAnswer K T)) : List (Handle K) :=
  answers.filterMap ArenaAnswer.issued

/-- The generation of slot `i` before and after a call that issues `issued`. -/
inductive Moves (i : ℕ) (issued : Option (Handle K)) : UInt32 → UInt32 → Prop
  | kept {generation : UInt32} (elsewhere : ∀ h ∈ issued, h.index ≠ UInt32.ofNat i) :
      Moves i issued generation generation
  | freed {generation : UInt32} (elsewhere : ∀ h ∈ issued, h.index ≠ UInt32.ofNat i) :
      Moves i issued generation (generation ||| FREE)
  | landed {generation : UInt32} (free : live generation = false)
      (here : issued = some ⟨UInt32.ofNat i, occupied generation⟩) :
      Moves i issued generation (occupied generation)

theorem Moves.wellFormed {i : ℕ} {issued : Option (Handle K)} {g g' : UInt32}
    (moves : Moves i issued g g') (h : WellFormed g) : WellFormed g' := by
  cases moves with
  | kept => exact h
  | freed => exact wellFormed_or_FREE h
  | landed => exact wellFormed_occupied

namespace Arena

variable {a : Arena K T p} {h : Handle K} {i : ℕ} {g : UInt32}

def generationAt (a : Arena K T p) (i : ℕ) : Option UInt32 :=
  (a.slots[i]?).map Slot.generation

def WellFormed (a : Arena K T p) : Prop :=
  ∀ i g, a.generationAt i = some g → RtosCore.WellFormed g

theorem generationAt_eq_some :
    a.generationAt i = some g ↔ ∃ slot, a.slots[i]? = some slot ∧ slot.generation = g := by
  rw [generationAt, Option.map_eq_some_iff]

theorem generationAt_slot {slot : Slot T} (there : a.slots[i]? = some slot) :
    a.generationAt i = some slot.generation :=
  generationAt_eq_some.mpr ⟨slot, there, rfl⟩

theorem WellFormed.slot {slot : Slot T} (wf : a.WellFormed) (there : a.slots[i]? = some slot) :
    RtosCore.WellFormed slot.generation :=
  wf i _ (generationAt_slot there)

theorem generationAt_lt (hi : a.generationAt i = some g) : i < p.N := by
  obtain ⟨slot, there, -⟩ := generationAt_eq_some.mp hi
  exact lt_of_slot there

theorem generationAt_exists (a : Arena K T p) (hi : i < p.N) : ∃ g, a.generationAt i = some g := by
  obtain ⟨slot, there⟩ := a.slot_exists hi
  exact ⟨_, generationAt_slot there⟩

theorem generationAt_put {j : ℕ} {slot slot' : Slot T} (hj : a.slots[j]? = some slot) (len : ℕ) :
    (a.put j slot' len).generationAt i =
      if i = j then some slot'.generation else a.generationAt i := by
  rw [generationAt, slots_put (lt_of_slot hj)]
  by_cases same : i = j
  · rw [if_pos same, if_pos same]
    rfl
  · rw [if_neg same, if_neg same]
    rfl

theorem generationAt_iterMut (write : Handle K → T → T) :
    (a.iterMut write).2.generationAt i = a.generationAt i := by
  unfold generationAt iterMut
  rw [Vector.getElem?_mapIdx, Option.map_map]
  congr 1
  funext slot
  by_cases alive : live slot.generation = true <;> simp [alive]

theorem ofNat_index (hi : i < p.N) : (UInt32.ofNat i).toNat = i := by
  have fits : p.N ≤ 65534 := p.capacityFits
  rw [UInt32.toNat_ofNat']
  exact Nat.mod_eq_of_lt (by omega)

theorem asUsize_index (hi : i < p.N) : p.asUsize (UInt32.ofNat i) = i := by
  have fits : p.N ≤ 65534 := p.capacityFits
  have wide : 2 ^ 16 ≤ 2 ^ p.usizeBits := Nat.pow_le_pow_right (by decide) p.usizeBits_ge
  rw [Shape.asUsize, ofNat_index hi]
  exact Nat.mod_eq_of_lt (by omega)

/-- A call through a handle writes to the slot the handle names, if it finds it, and moves no
generation but that slot's. -/
theorem moves_named {b : Arena K T p} (missed : a.found h = none → b = a)
    (hit : ∀ slot, a.found h = some slot → ∃ slot' len, b = a.put (p.asUsize h.index) slot' len ∧
      (slot'.generation = slot.generation ∨ slot'.generation = slot.generation ||| FREE))
    (hi : a.generationAt i = some g) :
    ∃ g', b.generationAt i = some g' ∧ Moves (K := K) i none g g' := by
  cases named : a.found h with
  | none =>
    rw [missed named]
    exact ⟨g, hi, .kept nofun⟩
  | some slot =>
    obtain ⟨slot', len, rfl, writes⟩ := hit slot named
    obtain ⟨there, -⟩ := found_eq_some.mp named
    rw [generationAt_put there]
    by_cases same : i = p.asUsize h.index
    · have old : slot.generation = g := by
        rw [same, generationAt_slot there] at hi
        exact Option.some.inj hi
      rw [if_pos same, ← old]
      refine ⟨_, rfl, ?_⟩
      rcases writes with kept | freed
      · rw [kept]
        exact .kept nofun
      · rw [freed]
        exact .freed nofun
    · rw [if_neg same]
      exact ⟨g, hi, .kept nofun⟩

theorem moves_tryInsert (v : T) (hi : a.generationAt i = some g) :
    ∃ g', (a.tryInsert v).2.generationAt i = some g' ∧
      Moves i (ArenaAnswer.placed (a.tryInsert v).1).issued g g' := by
  rcases tryInsert_cases a v with ⟨-, full⟩ | ⟨j, slot, there, free, placed⟩
  · rw [full]
    exact ⟨g, hi, .kept nofun⟩
  · rw [placed, generationAt_put there]
    by_cases same : i = j
    · subst same
      have old : slot.generation = g := by
        rw [generationAt_slot there] at hi
        exact Option.some.inj hi
      rw [if_pos rfl]
      subst old
      exact ⟨_, rfl, .landed free rfl⟩
    · rw [if_neg same]
      refine ⟨g, hi, .kept ?_⟩
      rintro h here
      obtain rfl := Option.some.inj here
      intro clash
      have := congrArg UInt32.toNat clash
      rw [ofNat_index (lt_of_slot there), ofNat_index (generationAt_lt hi)] at this
      exact same this.symm

theorem issued_insert (v : T) : (ArenaAnswer.inserted (T := T) (a.insert v).1).issued =
    (ArenaAnswer.placed (a.tryInsert v).1).issued := by
  unfold insert
  cases (a.tryInsert v).1 <;> rfl

variable [Inhabited T]

theorem call_moves (op : ArenaOp K T) (hi : a.generationAt i = some g) :
    ∃ g', (a.call op).2.generationAt i = some g' ∧ Moves i (a.call op).1.issued g g' := by
  cases op with
  | insert v =>
    simp only [call, issued_insert]
    exact moves_tryInsert v hi
  | tryInsert v => exact moves_tryInsert v hi
  | remove h =>
    refine moves_named (h := h) (fun missed => ?_) (fun slot hit => ?_) hi
    · rw [call, remove_missed missed]
    · rw [call, remove_hit hit]
      exact ⟨_, _, rfl, Or.inr rfl⟩
  | discard h =>
    refine moves_named (h := h) (fun missed => ?_) (fun slot hit => ?_) hi
    · rw [call, discard_missed missed]
    · rw [call, discard_hit hit]
      exact ⟨_, _, rfl, Or.inr rfl⟩
  | getMut h write =>
    refine moves_named (h := h) (fun missed => ?_) (fun slot hit => ?_) hi
    · rw [call, getMut_missed missed]
    · rw [call, getMut_hit hit]
      exact ⟨_, _, rfl, Or.inl rfl⟩
  | resolveMut h write =>
    refine moves_named (h := h) (fun missed => ?_) (fun slot hit => ?_) hi
    · rw [call, resolveMut_eq, getMut_missed missed]
    · rw [call, resolveMut_eq, getMut_hit hit]
      exact ⟨_, _, rfl, Or.inl rfl⟩
  | iterMut write =>
    refine ⟨g, ?_, .kept nofun⟩
    rw [← hi]
    exact generationAt_iterMut write

/-- A call that issues a handle has occupied the slot the handle names. -/
theorem call_issued {op : ArenaOp K T} (issued : (a.call op).1.issued = some h) :
    ∃ i g, a.generationAt i = some g ∧ live g = false ∧ h = ⟨UInt32.ofNat i, occupied g⟩ ∧
      (a.call op).2.generationAt i = some (occupied g) := by
  have lands : ∀ v, (ArenaAnswer.placed (a.tryInsert v).1).issued = some h →
      ∃ i g, a.generationAt i = some g ∧ live g = false ∧ h = ⟨UInt32.ofNat i, occupied g⟩ ∧
        (a.tryInsert v).2.generationAt i = some (occupied g) := by
    intro v issued
    rcases tryInsert_cases a v with ⟨-, full⟩ | ⟨i, slot, there, free, placed⟩
    · rw [full] at issued
      cases issued
    · rw [placed] at issued ⊢
      obtain rfl := Option.some.inj issued
      exact ⟨i, _, generationAt_slot there, free, rfl,
        (generationAt_put there _).trans (if_pos rfl)⟩
  cases op with
  | insert v => exact lands v ((issued_insert v).symm.trans issued)
  | tryInsert v => exact lands v issued
  | remove | discard | getMut | resolveMut | iterMut => cases issued

theorem run_append (ops later : List (ArenaOp K T)) (a : Arena K T p) :
    run (ops ++ later) a =
      ((run ops a).1 ++ (run later (after ops a)).1, after later (after ops a)) := by
  induction ops generalizing a with
  | nil => rfl
  | cons op ops ih =>
    simp only [List.cons_append, run, ih]
    rfl

theorem after_append (ops later : List (ArenaOp K T)) (a : Arena K T p) :
    after (ops ++ later) a = after later (after ops a) := by
  rw [after, run_append]

theorem WellFormed.call (wf : a.WellFormed) (op : ArenaOp K T) : (a.call op).2.WellFormed := by
  intro i g' hi
  obtain ⟨g, before⟩ := a.generationAt_exists (generationAt_lt hi)
  obtain ⟨g'', now, moves⟩ := call_moves op before
  obtain rfl := Option.some.inj (now.symm.trans hi)
  exact moves.wellFormed (wf i g before)

theorem WellFormed.after (wf : a.WellFormed) (ops : List (ArenaOp K T)) :
    (a.after ops).WellFormed := by
  induction ops generalizing a with
  | nil => exact wf
  | cons op ops ih => exact ih (wf.call op)

theorem generationAt_new (hi : i < p.N) :
    (new : Arena K T p).generationAt i = some (FREE ||| 1) := by
  simp [generationAt, new, hi]

theorem new_wellFormed : (new : Arena K T p).WellFormed := by
  intro i g hi
  rw [generationAt_new (generationAt_lt hi)] at hi
  obtain rfl := Option.some.inj hi
  exact wellFormed_new

end Arena

end RtosCore
