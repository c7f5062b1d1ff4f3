import RtosCore.ArenaRuns

/-! How long a handle stays dead. Every insert that lands in a slot moves its counter on by one
along a cycle of 65,535, whatever else happens in between, so an old handle meets its own
generation again exactly when the landings have gone round. -/

namespace RtosCore

variable {K : Kind} {T : Type} {p : Shape}

def landings (index : UInt32) (answers : List (ArenaAnswer K T)) : ℕ :=
  (issuedBy answers).countP fun h => h.index = index

def ArenaAnswer.removed : ArenaAnswer K T → Bool
  | .taken (some _) | .discarded true => true
  | _ => false

theorem landings_cons (index : UInt32) (answer : ArenaAnswer K T)
    (answers : List (ArenaAnswer K T)) : landings index (answer :: answers) =
      landings index [answer] + landings index answers := by
  unfold landings issuedBy
  rw [← List.singleton_append, List.filterMap_append, List.countP_append]

theorem landings_elsewhere {index : UInt32} {answer : ArenaAnswer K T}
    (elsewhere : ∀ h ∈ answer.issued, h.index ≠ index) : landings index [answer] = 0 := by
  unfold landings issuedBy
  cases issued : answer.issued with
  | none => simp [issued]
  | some h => simp [issued, elsewhere h issued]

theorem landings_here {answer : ArenaAnswer K T} {h : Handle K} (issued : answer.issued = some h) :
    landings h.index [answer] = 1 := by
  simp [landings, issuedBy, issued]

/-- Where a counter in 1..=65,535 stands after `k` more occupants. -/
def turned (c k : ℕ) : ℕ := (c + k - 1) % 65535 + 1

theorem turned_zero {c : ℕ} (positive : 0 < c) (small : c < 65536) : turned c 0 = c := by
  rw [turned, Nat.mod_eq_of_lt (by omega)]
  omega

theorem turned_turned {c : ℕ} (positive : 0 < c) (k later : ℕ) :
    turned (turned c k) later = turned c (k + later) := by
  unfold turned
  have shift : (c + k - 1) % 65535 + 1 + later - 1 = (c + k - 1) % 65535 + later := by omega
  have whole : c + (k + later) - 1 = c + k - 1 + later := by omega
  rw [shift, whole, Nat.mod_add_mod]

/-- The counter is back after whole rounds and at no other time. -/
theorem turned_eq_self {c : ℕ} (positive : 0 < c) (small : c < 65536) (k : ℕ) :
    turned c k = c ↔ 65535 ∣ k := by
  unfold turned
  omega

namespace Arena

variable {a b c : Arena K T p} {h : Handle K} {i : ℕ} {g g' g'' : UInt32} {k later : ℕ}

/-- What is left in slot `i`, found with generation `g`, after `k` inserts have landed there:
the counter turned once for every one, and a free slot still free if there was none. -/
structure Turned (b : Arena K T p) (i : ℕ) (g : UInt32) (k : ℕ) (g' : UInt32) : Prop where
  now : b.generationAt i = some g'
  counter : counter g' = turned (counter g) k
  free : k = 0 → live g = false → live g' = false

theorem Turned.trans (wf : RtosCore.WellFormed g) (first : Turned b i g k g')
    (second : Turned c i g' later g'') : Turned c i g (k + later) g'' where
  now := second.now
  counter := by rw [second.counter, first.counter, turned_turned wf.2]
  free none free :=
    second.free (Nat.add_eq_zero_iff.mp none).2 (first.free (Nat.add_eq_zero_iff.mp none).1 free)

theorem counter_lt : counter g < 65536 := Nat.mod_lt _ (by decide)

theorem Turned.refl (wf : RtosCore.WellFormed g) (now : a.generationAt i = some g) :
    Turned a i g 0 g where
  now := now
  counter := (turned_zero wf.2 counter_lt).symm
  free _ free := free

theorem found_of_generationAt (hi : p.asUsize h.index = i) (now : b.generationAt i = some g)
    (differs : g ≠ h.generation) : b.found h = none := by
  subst hi
  refine found_eq_none.mpr fun slot there same => differs ?_
  rw [generationAt_slot there] at now
  exact (Option.some.inj now).symm.trans same

theorem resolves_iff (hi : p.asUsize h.index = i) (now : b.generationAt i = some g) :
    (∃ v, b.resolve h = .ok v) ↔ g = h.generation := by
  constructor
  · rintro ⟨v, resolved⟩
    by_contra differs
    rw [resolve_eq_ok, get_eq, found_of_generationAt hi now differs] at resolved
    cases resolved
  · rintro rfl
    subst hi
    obtain ⟨slot, there, same⟩ := generationAt_eq_some.mp now
    refine ⟨slot.value, resolve_eq_ok.mpr ?_⟩
    rw [get_eq, found_eq_some.mpr ⟨there, same⟩]
    rfl

theorem handleAt_isSome {index : UInt16} (now : b.generationAt index.toNat = some g) :
    (b.handleAt index).isSome = live g := by
  obtain ⟨slot, there, rfl⟩ := generationAt_eq_some.mp now
  unfold handleAt
  rw [there]
  by_cases alive : RtosCore.live slot.generation = true <;> simp [alive]

theorem generation_eq_iff (wf : RtosCore.WellFormed g) (wf' : RtosCore.WellFormed g')
    (alive : RtosCore.live g = true) :
    g' = g ↔ RtosCore.live g' = true ∧ counter g' = counter g := by
  constructor
  · rintro rfl
    exact ⟨alive, rfl⟩
  · rintro ⟨alive', same⟩
    rw [live_iff wf] at alive
    rw [live_iff wf'] at alive'
    rw [← UInt32.toNat_inj, toNat_eq_counter alive, toNat_eq_counter alive', same]

/-- The state right after the call that issued `h`. -/
structure Issued (a : Arena K T p) (h : Handle K) : Prop where
  wellFormed : a.WellFormed
  bound : h.index.toNat < p.N
  now : a.generationAt h.index.toNat = some h.generation
  live : live h.generation = true

namespace Issued

variable (issued : Issued a h)

include issued

theorem asUsize : p.asUsize h.index = h.index.toNat := by
  have := asUsize_index issued.bound
  rwa [UInt32.ofNat_toNat] at this

theorem index16 : h.index.toUInt16.toNat = h.index.toNat := by
  have fits : p.N ≤ 65534 := p.capacityFits
  have bound := issued.bound
  rw [UInt32.toNat_toUInt16]
  exact Nat.mod_eq_of_lt (by omega)

theorem generation : RtosCore.WellFormed h.generation := issued.wellFormed _ _ issued.now

theorem isNull : h.isNull = false := by
  have positive := issued.generation.2
  rw [Handle.isNull, decide_eq_false_iff_not]
  intro zero
  rw [zero] at positive
  exact absurd positive (by decide)

end Issued

variable [Inhabited T]

theorem call_turned (op : ArenaOp K T) (wf : RtosCore.WellFormed g)
    (hi : a.generationAt i = some g) : ∃ g', Turned (a.call op).2 i g
      (landings (UInt32.ofNat i) [(a.call op).1]) g' := by
  obtain ⟨g', now, moves⟩ := call_moves op hi
  cases moves with
  | kept elsewhere =>
    rw [landings_elsewhere elsewhere]
    exact ⟨g, Turned.refl wf now⟩
  | freed elsewhere =>
    rw [landings_elsewhere elsewhere]
    refine ⟨_, now, ?_, fun _ _ => not_live_or_FREE wf⟩
    rw [counter_or_FREE wf, turned_zero wf.2 counter_lt]
  | landed free here =>
    rw [landings_here here]
    refine ⟨_, now, ?_, nofun⟩
    rw [counter_occupied]
    rfl

theorem run_turned (ops : List (ArenaOp K T)) (wf : a.WellFormed) (hi : a.generationAt i = some g) :
    ∃ g', Turned (a.after ops) i g (landings (UInt32.ofNat i) (run ops a).1) g' := by
  induction ops generalizing a g with
  | nil => exact ⟨g, Turned.refl (wf i g hi) hi⟩
  | cons op ops ih =>
    obtain ⟨g', first⟩ := call_turned op (wf i g hi) hi
    obtain ⟨g'', rest⟩ := ih (wf.call op) first.now
    refine ⟨g'', ?_⟩
    rw [run, landings_cons]
    exact first.trans (wf i g hi) rest

theorem issued_state {op : ArenaOp K T} (wf : a.WellFormed)
    (issued : (a.call op).1.issued = some h) : Issued (a.call op).2 h := by
  obtain ⟨i, g, before, -, rfl, now⟩ := call_issued issued
  have bound := generationAt_lt before
  have index : (UInt32.ofNat i).toNat = i := ofNat_index bound
  constructor
  case wellFormed => exact wf.call op
  case bound => exact index.symm ▸ bound
  case now => exact index.symm ▸ now
  case live => exact live_occupied

theorem removed_frees {removal : ArenaOp K T} (names : removal = .remove h ∨ removal = .discard h)
    (done : (b.call removal).1.removed = true) :
    (b.call removal).2.generationAt (p.asUsize h.index) = some (h.generation ||| FREE) := by
  cases hit : b.found h with
  | none =>
    rcases names with rfl | rfl
    · simp [call, remove_missed hit, ArenaAnswer.removed] at done
    · simp [call, discard_missed hit, ArenaAnswer.removed] at done
  | some slot =>
    obtain ⟨there, same⟩ := found_eq_some.mp hit
    rw [← same]
    rcases names with rfl | rfl
    · rw [call, remove_hit hit]
      exact (generationAt_put there _).trans (if_pos rfl)
    · rw [call, discard_hit hit]
      exact (generationAt_put there _).trans (if_pos rfl)

structure Refuses (a : Arena K T p) (h : Handle K) : Prop where
  resolve : ∃ e, a.resolve h = .error e
  get : a.get h = none
  remove : a.remove h = (none, a)
  discard : a.discard h = (false, a)

theorem refuses (missed : a.found h = none) : Refuses a h where
  resolve := by
    cases outcome : a.resolve h with
    | error e => exact ⟨e, rfl⟩
    | ok v =>
      rw [resolve_eq_ok, get_eq, missed] at outcome
      cases outcome
  get := by rw [get_eq, missed]; rfl
  remove := remove_missed missed
  discard := discard_missed missed

structure Lifetime (a : Arena K T p) (h : Handle K) : Prop where
  notNull : h.isNull = false
  resolves : ∀ later : List (ArenaOp K T), (∃ v, (a.after later).resolve h = .ok v) ↔
    ((a.after later).handleAt h.index.toUInt16).isSome = true ∧
      65535 ∣ landings h.index (run later a).1
  removed : ∀ (before later : List (ArenaOp K T)) (removal : ArenaOp K T),
    removal = .remove h ∨ removal = .discard h →
    ((a.after before).call removal).1.removed = true →
    landings h.index (run later ((a.after before).call removal).2).1 ≤ 65534 →
    Refuses (after later ((a.after before).call removal).2) h
  successive : ∀ (later : List (ArenaOp K T)) (op : ArenaOp K T) (h' : Handle K),
    landings h.index (run later a).1 = 0 → ((a.after later).call op).1.issued = some h' →
    h'.index = h.index → h'.generation ≠ h.generation

namespace Issued

variable (issued : Issued a h)

include issued

theorem turned (later : List (ArenaOp K T)) : ∃ g', Turned (a.after later) h.index.toNat
    h.generation (landings h.index (run later a).1) g' := by
  have := run_turned later issued.wellFormed issued.now
  rwa [UInt32.ofNat_toNat] at this

theorem resolves (later : List (ArenaOp K T)) : (∃ v, (a.after later).resolve h = .ok v) ↔
    ((a.after later).handleAt h.index.toUInt16).isSome = true ∧
      65535 ∣ landings h.index (run later a).1 := by
  obtain ⟨g', turned⟩ := issued.turned later
  have wf := issued.generation
  have wf' : RtosCore.WellFormed g' := issued.wellFormed.after later _ _ turned.now
  rw [resolves_iff issued.asUsize turned.now, generation_eq_iff wf wf' issued.live,
    handleAt_isSome (issued.index16.symm ▸ turned.now), turned.counter,
    turned_eq_self wf.2 counter_lt]

theorem removed (before later : List (ArenaOp K T)) (removal : ArenaOp K T)
    (names : removal = .remove h ∨ removal = .discard h)
    (done : ((a.after before).call removal).1.removed = true)
    (few : landings h.index (run later ((a.after before).call removal).2).1 ≤ 65534) :
    Refuses (after later ((a.after before).call removal).2) h := by
  have wf := issued.generation
  have freed : ((a.after before).call removal).2.generationAt h.index.toNat =
      some (h.generation ||| FREE) := by
    rw [← issued.asUsize]
    exact removed_frees names done
  have wf' := (issued.wellFormed.after before).call removal
  obtain ⟨g', turned⟩ := run_turned later wf' freed
  rw [UInt32.ofNat_toNat] at turned
  refine refuses (found_of_generationAt issued.asUsize turned.now ?_)
  rintro rfl
  have round := turned.counter
  rw [counter_or_FREE wf, eq_comm, turned_eq_self wf.2 counter_lt] at round
  have none := Nat.eq_zero_of_dvd_of_lt round (by omega)
  have free := turned.free none (not_live_or_FREE wf)
  rw [issued.live] at free
  cases free

theorem successive (later : List (ArenaOp K T)) (op : ArenaOp K T) (h' : Handle K)
    (none : landings h.index (run later a).1 = 0)
    (next : ((a.after later).call op).1.issued = some h') (same : h'.index = h.index) :
    h'.generation ≠ h.generation := by
  obtain ⟨g', turned⟩ := issued.turned later
  obtain ⟨i, g, before, -, rfl, -⟩ := call_issued next
  have wf := issued.generation
  have index : h.index.toNat = i := by
    rw [← same]
    exact ofNat_index (generationAt_lt before)
  obtain rfl : g' = g := Option.some.inj (turned.now.symm.trans (index.symm ▸ before))
  have stays := turned.counter
  rw [none, turned_zero wf.2 counter_lt] at stays
  intro equal
  have moved := congrArg counter equal
  have small := counter_lt (g := h.generation)
  rw [counter_occupied, stays] at moved
  omega

theorem lifetime : Lifetime a h where
  notNull := issued.isNull
  resolves := issued.resolves
  removed := issued.removed
  successive := issued.successive

end Issued

end Arena

/-- The lifetime of every handle any run issues, through any run after it. -/
theorem stale_handle_lifetime [Inhabited T] (ops : List (ArenaOp K T)) (op : ArenaOp K T)
    (h : Handle K) (issued : (((Arena.new : Arena K T p).after ops).call op).1.issued = some h) :
    Arena.Lifetime (((Arena.new : Arena K T p).after ops).call op).2 h :=
  (Arena.issued_state (Arena.new_wellFormed.after ops) issued).lifetime

def Shape.one : Shape := ⟨1, by decide, 32, by decide, false⟩

theorem stale_handle_lifetime_one :
    (((Arena.new : Arena .task ℕ Shape.one).after [.insert 3, .remove ⟨0, 2⟩]).call
        (.insert 5)).1.issued = some ⟨0, 3⟩ ∧
      Arena.Lifetime (((Arena.new : Arena .task ℕ Shape.one).after
        [.insert 3, .remove ⟨0, 2⟩]).call (.insert 5)).2 ⟨0, 3⟩ :=
  ⟨by decide, stale_handle_lifetime [.insert 3, .remove ⟨0, 2⟩] (.insert 5) ⟨0, 3⟩ (by decide)⟩

end RtosCore
