import RtosCore.ArenaLifetime
import RtosCore.ArenaStore

/-! What a handle with any two numbers in it can reach. The lookups compare generations and do
not look at the free bit, so they keep free slots out of reach of a handle only as long as it
does not carry that bit itself. `from_raw` never sets it; `from_parts` takes any generation. -/

namespace RtosCore

variable {K : Kind} {T : Type} {p : Shape}

def ArenaAnswer.filled (p : Shape) (answer : ArenaAnswer K T) : Option ℕ :=
  answer.issued.map fun h => p.asUsize h.index

def ArenaOp.emptied (p : Shape) (op : ArenaOp K T) (answer : ArenaAnswer K T) : Option ℕ :=
  if answer.removed then op.handle.map fun h => p.asUsize h.index else none

def ArenaOp.holds (p : Shape) (op : ArenaOp K T) (answer : ArenaAnswer K T) (held : ℕ → Bool)
    (i : ℕ) : Bool :=
  if answer.filled p = some i then true
  else if op.emptied p answer = some i then false
  else held i

namespace Arena

variable {a : Arena K T p} {h : Handle K} {slot : Slot T} {held held' : ℕ → Bool} {i : ℕ}
  {op : ArenaOp K T} {ops : List (ArenaOp K T)}

/-- The handle has the free bit, and so has the slot it names: the generations agree. -/
def NamesFree (a : Arena K T p) (h : Handle K) : Prop :=
  live h.generation = false ∧ a.generationAt (p.asUsize h.index) = some h.generation

instance (a : Arena K T p) (h : Handle K) : Decidable (a.NamesFree h) :=
  inferInstanceAs (Decidable (_ ∧ _))

section Runs

variable [Inhabited T]

def holding : List (ArenaOp K T) → Arena K T p → (ℕ → Bool) → ℕ → Bool
  | [], _, held => held
  | op :: ops, a, held => holding ops (a.call op).2 (op.holds p (a.call op).1 held)

/-- No call of the run is given a handle with the generation of a slot that is then free. -/
def HarmlessRun : List (ArenaOp K T) → Arena K T p → Prop
  | [], _ => True
  | op :: ops, a => (∀ h ∈ op.handle, ¬ a.NamesFree h) ∧ HarmlessRun ops (a.call op).2

/-- Through `h` nothing is found but an object that some slot holds, and the calls that take
objects out change nothing when nothing is found. -/
structure OutOfReach (held : ℕ → Bool) (a : Arena K T p) (h : Handle K) : Prop where
  get : (a.get h).isSome → held (p.asUsize h.index) = true
  getMut : ∀ write, (a.getMut h write).1.isSome → held (p.asUsize h.index) = true
  resolve : (∃ v, a.resolve h = .ok v) → held (p.asUsize h.index) = true
  resolveMut : ∀ write, (∃ v, (a.resolveMut h write).1 = .ok v) →
    held (p.asUsize h.index) = true
  contains : a.contains h = true → held (p.asUsize h.index) = true
  remove : (held (p.asUsize h.index) = true ∧ a.contains h = true) ∨ a.remove h = (none, a)
  discard : (held (p.asUsize h.index) = true ∧ a.contains h = true) ∨ a.discard h = (false, a)

end Runs

def Records (held : ℕ → Bool) (a : Arena K T p) : Prop :=
  ∀ i g, a.generationAt i = some g → live g = held i

theorem Records.congr (records : Records held a) (same : ∀ i, held' i = held i) :
    Records held' a := fun i g now => (records i g now).trans (same i).symm

theorem Records.put (records : Records held a) (there : a.slots[i]? = some slot)
    {slot' : Slot T} (here : held' i = live slot'.generation)
    (elsewhere : ∀ j, j ≠ i → held' j = held j) (len : ℕ) : Records held' (a.put i slot' len) := by
  intro j g now
  rw [generationAt_put there] at now
  split_ifs at now with same
  · rw [same, here, Option.some.inj now]
  · rw [elsewhere j same]
    exact records j g now

theorem holds_unchanged {answer : ArenaAnswer K T} (issued : answer.issued = none)
    (kept : answer.removed = false) (i : ℕ) : op.holds p answer held i = held i := by
  simp [ArenaOp.holds, ArenaAnswer.filled, ArenaOp.emptied, issued, kept]

theorem Records.tryInsert (records : Records held a) (v : T) (op : ArenaOp K T)
    (answer : ArenaAnswer K T) (issued : answer.issued = (ArenaAnswer.placed (a.tryInsert v).1).issued)
    (kept : answer.removed = false) : Records (op.holds p answer held) (a.tryInsert v).2 := by
  have emptied : op.emptied p answer = none := by simp [ArenaOp.emptied, kept]
  rcases tryInsert_cases a v with ⟨-, full⟩ | ⟨i, slot, there, -, placed⟩
  · rw [full] at issued ⊢
    exact records.congr (holds_unchanged issued kept)
  · rw [placed] at issued ⊢
    have filled : answer.filled p = some i := by
      rw [ArenaAnswer.filled, issued]
      exact congrArg some (asUsize_index (lt_of_slot there))
    refine records.put there ?_ (fun j hj => ?_) _
    · rw [ArenaOp.holds, if_pos filled]
      exact live_occupied.symm
    · rw [ArenaOp.holds, filled, emptied, if_neg (by simpa using hj.symm), if_neg nofun]

theorem Records.freed (records : Records held a) (wf : a.WellFormed) (hit : a.found h = some slot)
    {answer : ArenaAnswer K T} (given : op.handle = some h) (issued : answer.issued = none)
    (taken : answer.removed = true) (value : T) (len : ℕ) :
    Records (op.holds p answer held)
      (a.put (p.asUsize h.index) ⟨slot.generation ||| FREE, value⟩ len) := by
  obtain ⟨there, -⟩ := found_eq_some.mp hit
  have filled : answer.filled p = none := by rw [ArenaAnswer.filled, issued]; rfl
  have emptied : op.emptied p answer = some (p.asUsize h.index) := by
    rw [ArenaOp.emptied, if_pos taken, given]
    rfl
  refine records.put there ?_ (fun j hj => ?_) _
  · rw [ArenaOp.holds, filled, if_neg nofun, if_pos emptied]
    exact (not_live_or_FREE (wf.slot there)).symm
  · rw [ArenaOp.holds, filled, if_neg nofun, emptied, if_neg (by simpa using hj.symm)]

theorem Records.getMut (records : Records held a) (write : T → T) :
    Records held (a.getMut h write).2 := by
  cases hit : a.found h with
  | none => rwa [getMut_missed hit]
  | some slot =>
    obtain ⟨there, -⟩ := found_eq_some.mp hit
    rw [getMut_hit hit]
    refine records.put there ?_ (fun _ _ => rfl) _
    exact (records _ _ (generationAt_slot there)).symm

theorem live_of_harmless (hit : a.found h = some slot) (harmless : ¬ a.NamesFree h) :
    live slot.generation = true := by
  obtain ⟨there, same⟩ := found_eq_some.mp hit
  by_contra dead
  refine harmless ⟨?_, ?_⟩
  · rw [← same]
    simpa using dead
  · rw [generationAt_slot there, same]

theorem not_namesFree (wf : a.WellFormed) (low : h.generation.toNat < 2 ^ 16) :
    ¬ a.NamesFree h := by
  rintro ⟨free, named⟩
  rw [(live_iff (wf _ _ named)).mpr low] at free
  cases free

theorem found_fits (wf : a.WellFormed) (hit : a.found h = some slot) (harmless : ¬ a.NamesFree h) :
    ∃ k : Handle K, k.Fits ∧ a.found k = some slot ∧ p.asUsize k.index = p.asUsize h.index := by
  obtain ⟨there, -⟩ := found_eq_some.mp hit
  have bound := lt_of_slot there
  have alive := live_of_harmless hit harmless
  have index := asUsize_index bound
  refine ⟨⟨UInt32.ofNat (p.asUsize h.index), slot.generation⟩,
    fits_live (wf.slot there) alive bound, found_eq_some.mpr ⟨?_, rfl⟩, index⟩
  rw [index, there]

theorem Sound.getMut (sound : a.Sound) (harmless : ¬ a.NamesFree h) (write : T → T) :
    (a.getMut h write).2.Sound := by
  cases hit : a.found h with
  | none => rwa [getMut_missed hit]
  | some slot =>
    obtain ⟨k, fits, hit', same⟩ := found_fits sound.wellFormed hit harmless
    have after := (getMut_store sound fits write).2.2
    rw [getMut_hit hit'] at after
    rwa [getMut_hit hit, ← same]

theorem Sound.freed (sound : a.Sound) (hit : a.found h = some slot) (harmless : ¬ a.NamesFree h)
    (value : T) :
    (a.put (p.asUsize h.index) ⟨slot.generation ||| FREE, value⟩ (p.wrappingPred a.len)).Sound := by
  obtain ⟨k, fits, hit', same⟩ := found_fits sound.wellFormed hit harmless
  rw [← same]
  exact (freed_store sound fits hit' _ rfl).2

variable [Inhabited T]

theorem Records.call (records : Records held a) (wf : a.WellFormed) (op : ArenaOp K T) :
    Records (op.holds p (a.call op).1 held) (a.call op).2 := by
  cases op with
  | insert v => exact records.tryInsert v _ _ (issued_insert v) rfl
  | tryInsert v => exact records.tryInsert v _ _ rfl rfl
  | remove h =>
    cases hit : a.found h with
    | none =>
      rw [Arena.call, remove_missed hit]
      exact records.congr (holds_unchanged rfl rfl)
    | some slot =>
      rw [Arena.call, remove_hit hit]
      exact records.freed wf hit rfl rfl rfl _ _
  | discard h =>
    cases hit : a.found h with
    | none =>
      rw [Arena.call, discard_missed hit]
      exact records.congr (holds_unchanged rfl rfl)
    | some slot =>
      rw [Arena.call, discard_hit hit]
      exact records.freed wf hit rfl rfl rfl _ _
  | getMut h write => exact (records.getMut write).congr (holds_unchanged rfl rfl)
  | resolveMut h write =>
    rw [Arena.call, resolveMut_eq]
    exact (records.getMut write).congr (holds_unchanged rfl rfl)
  | iterMut write =>
    intro i g now
    rw [holds_unchanged rfl rfl]
    exact records i g ((generationAt_iterMut write).symm.trans now)

theorem Records.run (records : Records held a) (wf : a.WellFormed) (ops : List (ArenaOp K T)) :
    Records (holding ops a held) (after ops a) := by
  induction ops generalizing a held with
  | nil => exact records
  | cons op ops ih => exact ih (records.call wf op) (wf.call op)

theorem new_records : Records (fun _ => false) (new : Arena K T p) := by
  intro i g now
  rw [generationAt_new (generationAt_lt now)] at now
  obtain rfl := Option.some.inj now
  exact not_live_new

theorem outOfReach_iff (records : Records held a) : OutOfReach held a h ↔ ¬ a.NamesFree h := by
  constructor
  · rintro reach ⟨free, named⟩
    obtain ⟨slot, there, same⟩ := generationAt_eq_some.mp named
    have hit : a.found h = some slot := found_eq_some.mpr ⟨there, same⟩
    have holds := reach.get (by rw [get_eq, hit]; rfl)
    rw [← records _ _ named, free] at holds
    cases holds
  · intro harmless
    cases hit : a.found h with
    | none =>
      have got : a.get h = none := by rw [get_eq, hit]; rfl
      have refused : ¬ ∃ v, a.resolve h = .ok v := by simp [resolve_eq_ok, got]
      constructor
      case get => simp [got]
      case getMut => simp [getMut_missed hit]
      case resolve => exact fun resolved => absurd resolved refused
      case resolveMut =>
        intro write resolved
        rw [resolveMut_eq] at resolved
        exact absurd resolved refused
      case contains => simp [Arena.contains, got]
      case remove => exact Or.inr (remove_missed hit)
      case discard => exact Or.inr (discard_missed hit)
    | some slot =>
      have there := generationAt_slot (found_eq_some.mp hit).1
      have holds : held (p.asUsize h.index) = true :=
        (records _ _ there).symm.trans (live_of_harmless hit harmless)
      have contains : a.contains h = true := by rw [Arena.contains, get_eq, hit]; rfl
      exact ⟨fun _ => holds, fun _ _ => holds, fun _ => holds, fun _ _ => holds, fun _ => holds,
        Or.inl ⟨holds, contains⟩, Or.inl ⟨holds, contains⟩⟩

theorem Sound.unnamed (sound : a.Sound) (unnamed : op.handle = none) : (a.call op).2.Sound := by
  refine (call_store sound op fun h named => ?_).2
  rw [unnamed] at named
  cases named

theorem Sound.call (sound : a.Sound) (op : ArenaOp K T)
    (harmless : ∀ h ∈ op.handle, ¬ a.NamesFree h) : (a.call op).2.Sound := by
  cases op with
  | insert v => exact sound.unnamed rfl
  | tryInsert v => exact sound.unnamed rfl
  | remove h =>
    cases hit : a.found h with
    | none => rwa [Arena.call, remove_missed hit]
    | some slot =>
      rw [Arena.call, remove_hit hit]
      exact sound.freed hit (harmless h rfl) _
  | discard h =>
    cases hit : a.found h with
    | none => rwa [Arena.call, discard_missed hit]
    | some slot =>
      rw [Arena.call, discard_hit hit]
      exact sound.freed hit (harmless h rfl) _
  | getMut h write => exact sound.getMut (harmless h rfl) write
  | resolveMut h write =>
    rw [Arena.call, resolveMut_eq]
    exact sound.getMut (harmless h rfl) write
  | iterMut write => exact sound.unnamed rfl

theorem Sound.run (sound : a.Sound) (ops : List (ArenaOp K T)) (harmless : HarmlessRun ops a) :
    (after ops a).Sound := by
  induction ops generalizing a with
  | nil => exact sound
  | cons op ops ih => exact ih (sound.call op harmless.1) harmless.2

end Arena

/-- In every run none of whose calls is given a handle with the generation of a slot that is then
free, and of which handle so ever one asks in the end: free slots are out of its reach exactly
when it does not have the generation of one. Handles with sixteen bits of generation never do,
and no more objects are counted than there are slots. -/
theorem free_slots_out_of_reach [Inhabited T] (ops : List (ArenaOp K T))
    (harmless : Arena.HarmlessRun ops (Arena.new : Arena K T p)) :
    let a := Arena.after ops (Arena.new : Arena K T p)
    (∀ h, Arena.OutOfReach (Arena.holding ops (Arena.new : Arena K T p) fun _ => false) a h ↔
      ¬ a.NamesFree h) ∧
    (∀ h : Handle K, h.generation.toNat < 2 ^ 16 → ¬ a.NamesFree h) ∧ a.len ≤ p.N := by
  intro a
  have sound := Arena.Sound.run Arena.new_sound ops harmless
  refine ⟨fun h => ?_, fun h low => Arena.not_namesFree sound.wellFormed low, ?_⟩
  · exact Arena.outOfReach_iff (Arena.new_records.run Arena.new_wellFormed ops)
  · rw [sound.len]
    exact a.card_le

theorem free_slots_out_of_reach_one :
    let ops : List (ArenaOp .task ℕ) :=
      [.remove (Handle.fromParts 0 0x10002), .insert 3, .remove ⟨0, 2⟩, .discard ⟨0, 2⟩]
    let a := Arena.after ops (Arena.new : Arena .task ℕ Shape.one)
    (∀ h, Arena.OutOfReach
      (Arena.holding ops (Arena.new : Arena .task ℕ Shape.one) fun _ => false) a h ↔
        ¬ a.NamesFree h) ∧
    (∀ h : Handle .task, h.generation.toNat < 2 ^ 16 → ¬ a.NamesFree h) ∧ a.len ≤ 1 := by
  refine free_slots_out_of_reach (p := Shape.one) _ ⟨?_, nofun, ?_, ?_, trivial⟩
  all_goals
    rintro h named
    obtain rfl := Option.some.inj named
    decide

/-- On a new arena of one slot a handle with the generation the free slot was given there finds
the default value, and takes it out of an arena that holds nothing. -/
theorem forged_handle_reaches_free_slot :
    let a : Arena .task ℕ Shape.one := Arena.new
    let h : Handle .task := Handle.fromParts 0 0x10001
    ¬ Arena.OutOfReach (Arena.holding [] a fun _ => false) a h ∧ a.get h = some 0 ∧
      (a.remove h).1 = some 0 ∧ Shape.one.N < (a.remove h).2.len := by
  intro a h
  have got : a.get h = some 0 := by decide
  refine ⟨fun reach => ?_, got, by decide, by decide⟩
  exact absurd (reach.get (by rw [got]; rfl)) (by decide)

end RtosCore
