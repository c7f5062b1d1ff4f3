import RtosCore.ArenaContract
import RtosCore.FirstFit

/-! Which slots an arena uses. An insert takes the lowest free one, so a run touches the first
slots only, as many as there were objects at its peak; and as long as no insert is refused the
capacity makes no difference to anybody. -/

namespace RtosCore

variable {K : Kind} {T : Type} {p : Shape}

namespace Arena

variable {a b : Arena K T p} {h : Handle K} {slot : Slot T} {i j : ℕ} {v : T}

def heldSlots (a : Arena K T p) : Finset ℕ := (a.iter.map fun e => e.1.index.toNat).toFinset

theorem mem_heldSlots : i ∈ a.heldSlots ↔
    ∃ slot : Slot T, a.slots[i]? = some slot ∧ live slot.generation = true := by
  rw [heldSlots, List.mem_toFinset, List.mem_map]
  constructor
  · rintro ⟨e, mem, rfl⟩
    obtain ⟨j, slot, there, alive, rfl⟩ := mem_iter.mp mem
    refine ⟨slot, ?_, alive⟩
    rw [ofNat_index (lt_of_slot there)]
    exact there
  · rintro ⟨slot, there, alive⟩
    exact ⟨_, mem_iter.mpr ⟨i, slot, there, alive, rfl⟩, ofNat_index (lt_of_slot there)⟩

theorem mem_heldSlots_iff : i ∈ a.heldSlots ↔ ∃ g, a.generationAt i = some g ∧ live g = true := by
  rw [mem_heldSlots]
  constructor
  · rintro ⟨slot, there, alive⟩
    exact ⟨_, generationAt_slot there, alive⟩
  · rintro ⟨g, now, alive⟩
    obtain ⟨slot, there, rfl⟩ := generationAt_eq_some.mp now
    exact ⟨slot, there, alive⟩

theorem card_heldSlots (a : Arena K T p) : a.heldSlots.card = a.iter.length := by
  have distinct : (a.iter.map fun e => e.1.index.toNat).Nodup := a.ascending_iter.imp ne_of_lt
  rw [heldSlots, List.toFinset_card_of_nodup distinct, List.length_map]

theorem tryInsert_search (placed : (a.tryInsert v).1 = .ok h) :
    (a.slots.toList.findIdx? fun s => !live s.generation) = some h.index.toNat := by
  unfold tryInsert at placed
  split at placed
  · cases placed
  · rename_i i found
    have bound := (List.findIdx?_eq_some_iff_getElem.mp found).1
    rw [Vector.length_toList] at bound
    rw [Vector.getElem?_eq_getElem bound] at placed
    obtain rfl := Except.ok.inj placed
    rw [found]
    exact congrArg some (ofNat_index bound).symm

theorem tryInsert_lowest (placed : (a.tryInsert v).1 = .ok h) :
    h.index.toNat ∉ a.heldSlots ∧ ∀ j < h.index.toNat, j ∈ a.heldSlots := by
  obtain ⟨bound, free, earlier⟩ := List.findIdx?_eq_some_iff_getElem.mp (tryInsert_search placed)
  have slot : ∀ j (hj : j < a.slots.toList.length), a.slots[j]? = some a.slots.toList[j] :=
    fun j hj => by rw [← Vector.getElem?_toList, List.getElem?_eq_getElem hj]
  constructor
  · intro held
    obtain ⟨slot', there, alive⟩ := mem_heldSlots.mp held
    obtain rfl := Option.some.inj ((slot _ bound).symm.trans there)
    rw [alive] at free
    cases free
  · intro j below
    refine mem_heldSlots.mpr ⟨_, slot j (below.trans bound), ?_⟩
    simpa using earlier j below

theorem heldSlots_tryInsert (placed : (a.tryInsert v).1 = .ok h) :
    (a.tryInsert v).2.heldSlots = Insert.insert h.index.toNat a.heldSlots := by
  rcases tryInsert_cases a v with ⟨-, full⟩ | ⟨i, slot, there, -, taken⟩
  · rw [full] at placed
    cases placed
  · rw [taken] at placed ⊢
    obtain rfl := Except.ok.inj placed
    ext j
    rw [mem_heldSlots_iff, generationAt_put there, Finset.mem_insert,
      show (UInt32.ofNat i).toNat = i from ofNat_index (lt_of_slot there)]
    split_ifs with here
    · exact iff_of_true ⟨_, rfl, live_occupied⟩ (Or.inl here)
    · rw [← mem_heldSlots_iff]
      exact (or_iff_right here).symm

variable [Inhabited T]

theorem heldSlots_call (wf : a.WellFormed) {op : ArenaOp K T}
    (none : (a.call op).1.issued = none) : (a.call op).2.heldSlots ⊆ a.heldSlots := by
  intro i held
  obtain ⟨g', now, alive⟩ := mem_heldSlots_iff.mp held
  obtain ⟨g, before⟩ := a.generationAt_exists (generationAt_lt now)
  obtain ⟨g'', now', moves⟩ := call_moves op before
  obtain rfl := Option.some.inj (now.symm.trans now')
  refine mem_heldSlots_iff.mpr ⟨g, before, ?_⟩
  cases moves with
  | kept => exact alive
  | freed =>
    rw [not_live_or_FREE (wf i g before)] at alive
    cases alive
  | landed _ here =>
    rw [none] at here
    cases here

/-- A call that issues a handle is an insert, and takes the slot first fit takes. -/
theorem issued_firstFit {op : ArenaOp K T} (issued : (a.call op).1.issued = some h) :
    h.index.toNat ∉ a.heldSlots ∧ (∀ j < h.index.toNat, j ∈ a.heldSlots) ∧
      (a.call op).2.heldSlots = Insert.insert h.index.toNat a.heldSlots := by
  have lands : ∀ v, (ArenaAnswer.placed (a.tryInsert v).1).issued = some h →
      h.index.toNat ∉ a.heldSlots ∧ (∀ j < h.index.toNat, j ∈ a.heldSlots) ∧
        (a.tryInsert v).2.heldSlots = Insert.insert h.index.toNat a.heldSlots := by
    intro v issued
    cases placed : (a.tryInsert v).1 with
    | error e =>
      rw [placed] at issued
      cases issued
    | ok k =>
      rw [placed] at issued
      obtain rfl := Option.some.inj issued
      obtain ⟨free, lower⟩ := tryInsert_lowest placed
      exact ⟨free, lower, heldSlots_tryInsert placed⟩
  cases op with
  | insert v => exact lands v ((issued_insert v).symm.trans issued)
  | tryInsert v => exact lands v issued
  | remove | discard | getMut | resolveMut | iterMut => cases issued

def Reached (p : Shape) (ops : List (ArenaOp K T)) (i : ℕ) : Prop :=
  ∃ k ≤ ops.length, i < (after (ops.take k) (new : Arena K T p)).iter.length

theorem reached_concat (ops : List (ArenaOp K T)) (op : ArenaOp K T) :
    Reached p (ops ++ [op]) i ↔
      Reached p ops i ∨ i < (after (ops ++ [op]) (new : Arena K T p)).iter.length := by
  unfold Reached
  rw [List.length_append, List.length_singleton]
  constructor
  · rintro ⟨k, bound, more⟩
    rcases Nat.lt_or_eq_of_le bound with before | rfl
    · have earlier := Nat.le_of_lt_succ before
      rw [List.take_append_of_le_length earlier] at more
      exact Or.inl ⟨k, earlier, more⟩
    · rw [List.take_of_length_le (by simp)] at more
      exact Or.inr more
  · rintro (⟨k, bound, more⟩ | more)
    · exact ⟨k, Nat.le_succ_of_le bound, by rwa [List.take_append_of_le_length bound]⟩
    · exact ⟨ops.length + 1, le_rfl, by rwa [List.take_of_length_le (by simp)]⟩

theorem run_firstFit (ops : List (ArenaOp K T)) :
    ∃ used peak, FirstFit used peak (after ops (new : Arena K T p)).heldSlots ∧
      (∀ i, i ∈ used ↔ ∃ h ∈ issuedBy (run ops (new : Arena K T p)).1, h.index.toNat = i) ∧
      ∀ i, i < peak ↔ Reached p ops i := by
  induction ops using List.reverseRecOn with
  | nil =>
    have start : (new : Arena K T p).heldSlots = ∅ := by
      rw [heldSlots, iter_new]
      rfl
    have empty : (new : Arena K T p).iter.length = 0 := by rw [iter_new, List.length_nil]
    refine ⟨∅, 0, ?_, fun i => ?_, fun i => ?_⟩
    · change FirstFit ∅ 0 (new : Arena K T p).heldSlots
      rw [start]
      exact .start
    · simp [run, issuedBy]
    · refine iff_of_false (Nat.not_lt_zero i) ?_
      rintro ⟨k, -, more⟩
      rw [List.take_nil] at more
      exact Nat.not_lt_zero i (more.trans_eq empty)
  | append_singleton ops op ih =>
    obtain ⟨used, peak, history, taken, reached⟩ := ih
    have held := (after (ops ++ [op]) (new : Arena K T p)).card_heldSlots
    have last : after (ops ++ [op]) (new : Arena K T p) =
        ((after ops (new : Arena K T p)).call op).2 := by
      rw [after_append]
      rfl
    have answers : issuedBy (run (ops ++ [op]) (new : Arena K T p)).1 =
        issuedBy (run ops (new : Arena K T p)).1 ++
          (((after ops (new : Arena K T p)).call op).1.issued).toList := by
      rw [run_append, issuedBy_append]
      rfl
    cases issued : ((after ops (new : Arena K T p)).call op).1.issued with
    | none =>
      have fewer := heldSlots_call (new_wellFormed.after ops) issued
      rw [← last] at fewer
      have bound := Finset.card_le_card fewer
      rw [held, card_heldSlots] at bound
      refine ⟨used, peak, history.give fewer, fun i => ?_, fun i => ?_⟩
      · rw [answers, issued, Option.toList_none, List.append_nil, taken i]
      · rw [reached i, reached_concat]
        refine (or_iff_left_of_imp fun more => ?_).symm
        refine ⟨ops.length, le_rfl, ?_⟩
        rw [List.take_length]
        exact more.trans_le bound
    | some h =>
      obtain ⟨free, lower, now⟩ := issued_firstFit issued
      rw [← last] at now
      rw [now, Finset.card_insert_of_notMem free] at held
      refine ⟨_, _, now ▸ history.take free lower, fun i => ?_, fun i => ?_⟩
      · rw [answers, issued, Option.toList_some, Finset.mem_insert, taken i]
        simp only [List.mem_append, List.mem_singleton, or_and_right, exists_or, exists_eq_left]
        exact or_comm.trans (or_congr_right eq_comm)
      · rw [lt_max_iff, reached i, held, reached_concat]

end Arena

/-- An arena uses a slot exactly when at some point it holds more objects than there are slots in
front of it, whatever handles it is presented with. -/
theorem used_slots_are_peak [Inhabited T] (ops : List (ArenaOp K T)) (i : ℕ) :
    (∃ h ∈ issuedBy (Arena.run ops (Arena.new : Arena K T p)).1, h.index.toNat = i) ↔
      ∃ k ≤ ops.length, i < (Arena.after (ops.take k) (Arena.new : Arena K T p)).iter.length := by
  obtain ⟨used, peak, history, taken, reached⟩ := Arena.run_firstFit (p := p) ops
  rw [← taken i, history.used_eq.1, Finset.mem_range, reached i]
  rfl

-- Two objects at most, so the third slot is never used.
example : (issuedBy (Arena.run [.insert 3, .insert 4, .remove ⟨0, 2⟩, .insert 5, .remove ⟨1, 2⟩]
    (Arena.new : Arena .task ℕ { Shape.one with N := 3, capacityFits := by decide })).1).map
      Handle.index = [0, 1, 0] := by decide

def ArenaAnswer.full : ArenaAnswer K T → Bool
  | .inserted (.error _) | .placed (.error _) => true
  | _ => false

def Shape.roomier (p : Shape) (N : ℕ) (fits : N ≤ Handle.MAX_INDEX.toNat) : Shape :=
  { p with N := N, capacityFits := fits }

namespace Arena

variable {N : ℕ} {large : N ≤ Handle.MAX_INDEX.toNat} {a : Arena K T p}
  {b : Arena K T (p.roomier N large)} {h : Handle K} {i : ℕ} {v : T}

/-- The slots of `a`, and free slots behind them. -/
structure Extends (b : Arena K T (p.roomier N large)) (a : Arena K T p) : Prop where
  slots : ∃ more, b.slots.toList = a.slots.toList ++ more ∧ ∀ s ∈ more, live s.generation = false
  len : b.len = a.len

namespace Extends

theorem at_slot (ext : Extends b a) (inside : i < p.N) : b.slots[i]? = a.slots[i]? := by
  obtain ⟨more, slots, -⟩ := ext.slots
  rw [← Vector.getElem?_toList, ← Vector.getElem?_toList, slots,
    List.getElem?_append_left (by rwa [Vector.length_toList])]

theorem put (ext : Extends b a) (inside : i < p.N) (slot : Slot T) (len : ℕ) :
    Extends (b.put i slot len) (a.put i slot len) where
  slots := by
    obtain ⟨more, slots, free⟩ := ext.slots
    refine ⟨more, ?_, free⟩
    simp only [Arena.put, Vector.toList_setIfInBounds, slots]
    exact List.set_append_left _ _ (by rwa [Vector.length_toList])
  len := rfl

theorem iter (ext : Extends b a) : b.iter = a.iter := by
  obtain ⟨more, slots, free⟩ := ext.slots
  have none : ∀ n, (more.zipIdx n).filter (fun s => live s.1.generation) = [] := fun n =>
    List.filter_eq_nil_iff.mpr fun s mem => by
      rw [free s.1 (List.fst_mem_of_mem_zipIdx mem)]
      exact Bool.false_ne_true
  rw [Arena.iter, Arena.iter, slots, List.zipIdx_append, List.filter_append, none, List.append_nil]

theorem inside (named : h.index.toNat < p.N) : p.asUsize h.index < p.N :=
  (Nat.mod_le _ _).trans_lt named

theorem found (ext : Extends b a) (named : h.index.toNat < p.N) : b.found h = a.found h :=
  congrArg (Option.filter _) (ext.at_slot (inside named))

theorem resolve (ext : Extends b a) (named : h.index.toNat < p.N) :
    b.resolve h = a.resolve h := by
  have same : b.slots[(p.roomier N large).asUsize h.index]? = a.slots[p.asUsize h.index]? :=
    ext.at_slot (inside named)
  rw [Arena.resolve, Arena.resolve, same]

theorem tryInsert (ext : Extends b a) (placed : (a.tryInsert v).1 = .ok h) :
    (b.tryInsert v).1 = .ok h ∧ Extends (b.tryInsert v).2 (a.tryInsert v).2 := by
  have search := tryInsert_search placed
  obtain ⟨more, slots, -⟩ := ext.slots
  have search' : (b.slots.toList.findIdx? fun s => !live s.generation) = some h.index.toNat := by
    rw [slots, List.findIdx?_append, search]
    rfl
  have bound := (List.findIdx?_eq_some_iff_getElem.mp search).1
  rw [Vector.length_toList] at bound
  obtain ⟨slot, there⟩ := a.slot_exists bound
  have there' := (ext.at_slot bound).trans there
  unfold Arena.tryInsert at placed ⊢
  simp only [search, search', there, there', ext.len] at placed ⊢
  exact ⟨placed, ext.put bound _ _⟩

theorem getMut (ext : Extends b a) (named : h.index.toNat < p.N) (write : T → T) :
    (b.getMut h write).1 = (a.getMut h write).1 ∧
      Extends (b.getMut h write).2 (a.getMut h write).2 := by
  have found := ext.found named
  cases hit : a.found h with
  | none =>
    rw [getMut_missed hit, getMut_missed (found.trans hit)]
    exact ⟨rfl, ext⟩
  | some slot =>
    rw [getMut_hit hit, getMut_hit (found.trans hit), ext.len]
    exact ⟨rfl, ext.put (inside named) _ _⟩

theorem iterMut (ext : Extends b a) (write : Handle K → T → T) :
    Extends (b.iterMut write).2 (a.iterMut write).2 where
  slots := by
    obtain ⟨more, slots, free⟩ := ext.slots
    simp only [Arena.iterMut, Vector.toList_mapIdx, slots, List.mapIdx_append]
    refine ⟨_, rfl, fun s mem => ?_⟩
    obtain ⟨i, hi, rfl⟩ := List.mem_mapIdx.mp mem
    have dead := free more[i] (List.getElem_mem hi)
    simp [dead]
  len := ext.len

variable [Inhabited T]

theorem remove_discard (ext : Extends b a) (named : h.index.toNat < p.N) :
    ((b.remove h).1 = (a.remove h).1 ∧ Extends (b.remove h).2 (a.remove h).2) ∧
      (b.discard h).1 = (a.discard h).1 ∧ Extends (b.discard h).2 (a.discard h).2 := by
  have found := ext.found named
  cases hit : a.found h with
  | none =>
    rw [remove_missed hit, discard_missed hit, remove_missed (found.trans hit),
      discard_missed (found.trans hit)]
    exact ⟨⟨rfl, ext⟩, rfl, ext⟩
  | some slot =>
    rw [remove_hit hit, discard_hit hit, remove_hit (found.trans hit),
      discard_hit (found.trans hit), ext.len]
    exact ⟨⟨rfl, ext.put (inside named) _ _⟩, rfl, ext.put (inside named) _ _⟩

theorem call (ext : Extends b a) {op : ArenaOp K T}
    (named : ∀ h ∈ op.handle, h.index.toNat < p.N) (room : (a.call op).1.full = false) :
    (b.call op).1 = (a.call op).1 ∧ Extends (b.call op).2 (a.call op).2 := by
  cases op with
  | insert v =>
    cases placed : (a.tryInsert v).1 with
    | error e =>
      simp only [Arena.call, Arena.insert, placed] at room
      cases room
    | ok h =>
      obtain ⟨same, after⟩ := ext.tryInsert placed
      simp only [Arena.call, Arena.insert, same, placed]
      exact ⟨trivial, after⟩
  | tryInsert v =>
    cases placed : (a.tryInsert v).1 with
    | error e =>
      simp only [Arena.call, placed] at room
      cases room
    | ok h =>
      obtain ⟨same, after⟩ := ext.tryInsert placed
      simp only [Arena.call, same, placed]
      exact ⟨trivial, after⟩
  | remove h =>
    obtain ⟨⟨answer, after⟩, -⟩ := ext.remove_discard (named h rfl)
    exact ⟨congrArg ArenaAnswer.taken answer, after⟩
  | discard h =>
    obtain ⟨-, answer, after⟩ := ext.remove_discard (named h rfl)
    exact ⟨congrArg ArenaAnswer.discarded answer, after⟩
  | getMut h write =>
    obtain ⟨answer, after⟩ := ext.getMut (named h rfl) write
    exact ⟨congrArg ArenaAnswer.seen answer, after⟩
  | resolveMut h write =>
    rw [Arena.call, Arena.call, resolveMut_eq, resolveMut_eq, ext.resolve (named h rfl)]
    exact ⟨rfl, (ext.getMut (named h rfl) write).2⟩
  | iterMut write => exact ⟨congrArg ArenaAnswer.each ext.iter, ext.iterMut write⟩

theorem run (ext : Extends b a) (ops : List (ArenaOp K T))
    (named : ∀ op ∈ ops, ∀ h ∈ op.handle, h.index.toNat < p.N)
    (room : ∀ answer ∈ (Arena.run ops a).1, answer.full = false) :
    (Arena.run ops b).1 = (Arena.run ops a).1 ∧ Extends (after ops b) (after ops a) := by
  induction ops generalizing a b with
  | nil => exact ⟨rfl, ext⟩
  | cons op ops ih =>
    obtain ⟨answer, after⟩ := ext.call (named op List.mem_cons_self) (room _ List.mem_cons_self)
    obtain ⟨answers, final⟩ := ih after (fun op mem => named op (List.mem_cons_of_mem _ mem))
      fun answer mem => room answer (List.mem_cons_of_mem _ mem)
    rw [Arena.run, Arena.run, answer, answers]
    exact ⟨rfl, final⟩

theorem new (more : p.N ≤ N) :
    Extends (Arena.new : Arena K T (p.roomier N large)) (Arena.new : Arena K T p) where
  slots := by
    refine ⟨List.replicate (N - p.N) ⟨FREE ||| 1, default⟩, ?_, fun s mem => ?_⟩
    · simp only [Arena.new, Vector.toList_replicate, List.replicate_append_replicate]
      congr 1
      exact (Nat.add_sub_of_le more).symm
    · rw [List.eq_of_mem_replicate mem]
      exact not_live_new
  len := rfl

end Extends

end Arena

/-- As long as no insert is refused, an arena of any larger capacity answers the same, and holds
the same objects under the same handles in the same order. -/
theorem capacity_unseen_until_full [Inhabited T] (N : ℕ) (large : N ≤ Handle.MAX_INDEX.toNat)
    (more : p.N ≤ N) (ops : List (ArenaOp K T))
    (named : ∀ op ∈ ops, ∀ h ∈ op.handle, h.index.toNat < p.N)
    (room : ∀ answer ∈ (Arena.run ops (Arena.new : Arena K T p)).1, answer.full = false) :
    let a := Arena.run ops (Arena.new : Arena K T p)
    let b := Arena.run ops (Arena.new : Arena K T (p.roomier N large))
    b.1 = a.1 ∧ b.2.iter = a.2.iter ∧ b.2.len = a.2.len := by
  have start : Arena.Extends (Arena.new : Arena K T (p.roomier N large)) (Arena.new : Arena K T p) :=
    Arena.Extends.new more
  obtain ⟨answers, ext⟩ := start.run ops named room
  exact ⟨answers, ext.iter, ext.len⟩

theorem capacity_unseen_until_full_one :
    let ops : List (ArenaOp .task ℕ) := [.insert 3, .remove ⟨0, 2⟩, .insert 4]
    let a := Arena.run ops (Arena.new : Arena .task ℕ Shape.one)
    let b := Arena.run ops (Arena.new : Arena .task ℕ (Shape.one.roomier 5 (by decide)))
    b.1 = a.1 ∧ b.2.iter = a.2.iter ∧ b.2.len = a.2.len :=
  capacity_unseen_until_full 5 (by decide) (by decide) [.insert 3, .remove ⟨0, 2⟩, .insert 4]
    (by
      intro op mem h named
      rcases mem with _ | ⟨_, _ | ⟨_, _ | ⟨_, ⟨⟩⟩⟩⟩
      · cases named
      · cases named
        decide
      · cases named)
    (by
      intro answer mem
      rcases mem with _ | ⟨_, _ | ⟨_, _ | ⟨_, ⟨⟩⟩⟩⟩
      all_goals rfl)

end RtosCore
