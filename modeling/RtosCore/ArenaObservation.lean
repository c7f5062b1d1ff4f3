import RtosCore.ArenaDiscard
import RtosCore.ArenaFill
import RtosCore.Observation
import Mathlib.Data.List.TFAE
import Mathlib.Tactic.TFAE

/-! What can be told about an arena from outside. The generation of a free slot is shown by nothing
that can be asked; it comes out with the next handle of the slot. So an arena is listed and then
filled up, and that is a complete test. -/

namespace RtosCore

variable {K : Kind} {T : Type} {p : Shape}

inductive ArenaQuery (K : Kind)
  | get (h : Handle K) | contains (h : Handle K) | resolve (h : Handle K)
  | iter | handleAt (index : UInt16) | len | isEmpty | capacity

inductive ArenaReply (K : Kind) (T : Type)
  | object (value : Option T) | resolved (r : Except Error T) | flag (b : Bool)
  | items (items : List (Handle K × T)) | handle (h : Option (Handle K)) | count (n : ℕ)

inductive ArenaInput (K : Kind) (T : Type)
  | call (op : ArenaOp K T) | ask (q : ArenaQuery K)

inductive ArenaOutput (K : Kind) (T : Type)
  | answer (answer : ArenaAnswer K T) | reply (reply : ArenaReply K T)

def ArenaQuery.handle : ArenaQuery K → Option (Handle K)
  | .get h | .contains h | .resolve h => some h
  | .iter | .handleAt _ | .len | .isEmpty | .capacity => none

def ArenaInput.handle : ArenaInput K T → Option (Handle K)
  | .call op => op.handle
  | .ask q => q.handle

/-- The inputs of callers that make no handle up except from a word. -/
def FittingInput (K : Kind) (T : Type) : Type :=
  { i : ArenaInput K T // ∀ h ∈ i.handle, h.Fits }

section Generations

variable {g g' : UInt32}

/-- The handle of the next tenant tells the generation a free slot was left with. -/
theorem occupied_injective (wf : WellFormed g) (wf' : WellFormed g') (free : live g = false)
    (free' : live g' = false) (same : occupied g = occupied g') : g = g' := by
  have counters := congrArg UInt32.toNat same
  rw [toNat_occupied, toNat_occupied] at counters
  have high : ¬ g.toNat < 65536 := fun low => by
    rw [(live_iff wf).mpr low] at free
    cases free
  have high' : ¬ g'.toNat < 65536 := fun low => by
    rw [(live_iff wf').mpr low] at free'
    cases free'
  obtain ⟨bound, positive⟩ := wf
  obtain ⟨bound', positive'⟩ := wf'
  apply UInt32.toNat_inj.mp
  unfold counter at counters positive positive'
  omega

end Generations

namespace Arena

variable {a b : Arena K T p} {slot slot' : Slot T} {i j : ℕ} {v : T}

def ask (a : Arena K T p) : ArenaQuery K → ArenaReply K T
  | .get h => .object (a.get h)
  | .contains h => .flag (a.contains h)
  | .resolve h => .resolved (a.resolve h)
  | .iter => .items a.iter
  | .handleAt index => .handle (a.handleAt index)
  | .len => .count a.len
  | .isEmpty => .flag a.isEmpty
  | .capacity => .count a.capacity

def SameLive (a b : Arena K T p) : Prop :=
  ∀ (i : ℕ) (slot slot' : Slot T), a.slots[i]? = some slot → b.slots[i]? = some slot' →
    live slot'.generation = live slot.generation ∧ (live slot.generation = true → slot' = slot)

theorem listed_iff (there : a.slots[i]? = some slot) (e : Handle K × T) :
    (e ∈ a.iter ∧ e.1.index = UInt32.ofNat i) ↔
      live slot.generation = true ∧ e = (⟨UInt32.ofNat i, slot.generation⟩, slot.value) := by
  rw [mem_iter]
  constructor
  · rintro ⟨⟨j, slot', there', alive, rfl⟩, index⟩
    have same := congrArg UInt32.toNat index
    change (UInt32.ofNat j).toNat = (UInt32.ofNat i).toNat at same
    rw [ofNat_index (lt_of_slot there'), ofNat_index (lt_of_slot there)] at same
    subst same
    obtain rfl := Option.some.inj (there.symm.trans there')
    exact ⟨alive, rfl⟩
  · rintro ⟨alive, rfl⟩
    exact ⟨⟨i, slot, there, alive, rfl⟩, rfl⟩

theorem sameLive_of_iter (same : a.iter = b.iter) : SameLive a b := by
  intro i slot slot' there there'
  have listed := listed_iff (K := K) there
  rw [same] at listed
  have listed' := listed_iff (K := K) there'
  have forward : live slot.generation = true → live slot'.generation = true ∧ slot' = slot := by
    intro alive
    obtain ⟨alive', entry⟩ := (listed' _).mp ((listed _).mpr ⟨alive, rfl⟩)
    obtain ⟨handle, value⟩ := Prod.mk.inj entry
    have generation := congrArg Handle.generation handle
    refine ⟨alive', ?_⟩
    cases slot
    cases slot'
    simp only at generation value
    rw [generation, value]
  refine ⟨?_, fun alive => (forward alive).2⟩
  by_cases alive : live slot.generation = true
  · rw [alive, (forward alive).1]
  · have dead : ¬ live slot'.generation = true := fun alive' =>
      alive ((listed _).mp ((listed' _).mpr ⟨alive', rfl⟩)).1
    rw [Bool.not_eq_true] at alive dead
    rw [alive, dead]

theorem SameLive.put (same : SameLive a b) (hi : i < p.N) (slot : Slot T) (len len' : ℕ) :
    SameLive (a.put i slot len) (b.put i slot len') := by
  intro j s s' there there'
  rw [slots_put hi] at there there'
  split_ifs at there there' with here
  · obtain rfl := Option.some.inj there
    obtain rfl := Option.some.inj there'
    exact ⟨rfl, fun _ => rfl⟩
  · exact same j s s' there there'

/-- Inserts answered alike took the same slot, and found it with the same generation. -/
theorem SameLive.tryInsert (same : SameLive a b) (wf : a.WellFormed) (wf' : b.WellFormed) (v : T)
    (answer : (a.insert v).1 = (b.insert v).1) :
    (∀ i, b.generationAt i = a.generationAt i) ∨
      ∃ i, i ∉ a.heldSlots ∧ (a.insert v).2.heldSlots = Insert.insert i a.heldSlots ∧
        SameLive (a.insert v).2 (b.insert v).2 ∧ b.generationAt i = a.generationAt i ∧
        ∀ j, j ≠ i → (a.insert v).2.generationAt j = a.generationAt j ∧
          (b.insert v).2.generationAt j = b.generationAt j := by
  rcases tryInsert_cases a v with ⟨all, full⟩ | ⟨i, slot, there, free, taken⟩
  · refine Or.inl fun i => ?_
    by_cases bound : i < p.N
    · obtain ⟨slot, there⟩ := a.slot_exists bound
      obtain ⟨slot', there'⟩ := b.slot_exists bound
      rw [generationAt_slot there, generationAt_slot there',
        (same i slot slot' there there').2 (all i slot there)]
    · rw [generationAt, generationAt, Vector.getElem?_eq_none (by omega),
        Vector.getElem?_eq_none (by omega)]
  · rcases tryInsert_cases b v with ⟨-, full'⟩ | ⟨i', slot', there', free', taken'⟩
    · simp only [Arena.insert, taken, full', Except.mapError, reduceCtorEq] at answer
    · have placed : (a.tryInsert v).1 = .ok ⟨UInt32.ofNat i, occupied slot.generation⟩ := by
        rw [taken]
      have index : (UInt32.ofNat i).toNat = i := ofNat_index (lt_of_slot there)
      have held := heldSlots_tryInsert placed
      have fresh := (tryInsert_lowest placed).1
      simp only [index] at held fresh
      simp only [Arena.insert, taken, taken', Except.mapError, Except.ok.injEq, Handle.mk.injEq]
        at answer held ⊢
      obtain ⟨indices, generations⟩ := answer
      have here := congrArg UInt32.toNat indices
      rw [index, ofNat_index (lt_of_slot there')] at here
      subst here
      refine Or.inr ⟨i, fresh, held, ?_, ?_, fun j other => ?_⟩
      · rw [← generations]
        exact same.put (lt_of_slot there) _ _ _
      · rw [generationAt_slot there, generationAt_slot there',
          occupied_injective (wf.slot there) (wf'.slot there') free free' generations]
      · rw [generationAt_put there, generationAt_put there', if_neg other, if_neg other]
        exact ⟨rfl, rfl⟩

variable [Inhabited T]

def respond (a : Arena K T p) (i : FittingInput K T) : ArenaOutput K T × Arena K T p :=
  match i.1 with
  | .call op => (.answer (a.call op).1, (a.call op).2)
  | .ask q => (.reply (a.ask q), a)

def listing : FittingInput K T := ⟨.ask .iter, by rintro h ⟨⟩⟩

def counting : FittingInput K T := ⟨.ask .len, by rintro h ⟨⟩⟩

def filling : FittingInput K T := ⟨.call (.insert default), by rintro h ⟨⟩⟩

def test (p : Shape) : List (FittingInput K T) := listing :: counting :: List.replicate p.N filling

theorem SameLive.generations (same : SameLive a b) (wf : a.WellFormed) (wf' : b.WellFormed) {n : ℕ}
    (room : p.N ≤ n + a.heldSlots.card)
    (filled : answers respond (List.replicate n filling) a =
      answers respond (List.replicate n filling) b) (i : ℕ) :
    b.generationAt i = a.generationAt i := by
  induction n generalizing a b with
  | zero =>
    have within : a.heldSlots ⊆ Finset.range p.N := fun j held => by
      obtain ⟨slot, there, -⟩ := mem_heldSlots.mp held
      exact Finset.mem_range.mpr (lt_of_slot there)
    have all : a.heldSlots = Finset.range p.N :=
      Finset.eq_of_subset_of_card_le within (by rw [Finset.card_range]; omega)
    by_cases bound : i < p.N
    · have held : i ∈ a.heldSlots := by
        rw [all]
        exact Finset.mem_range.mpr bound
      obtain ⟨slot, there, alive⟩ := mem_heldSlots.mp held
      obtain ⟨slot', there'⟩ := b.slot_exists bound
      rw [generationAt_slot there, generationAt_slot there', (same i slot slot' there there').2 alive]
    · rw [generationAt, generationAt, Vector.getElem?_eq_none (by omega),
        Vector.getElem?_eq_none (by omega)]
  | succ n ih =>
    obtain ⟨first, rest⟩ := List.cons.inj filled
    have answer := ArenaAnswer.inserted.inj (ArenaOutput.answer.inj first)
    rcases same.tryInsert wf wf' default answer with all | ⟨j, fresh, held, after, here, others⟩
    · exact all i
    · rcases eq_or_ne i j with rfl | other
      · exact here
      · have card := congrArg Finset.card held
        rw [Finset.card_insert_of_notMem fresh] at card
        have later := ih after (wf.call (.insert default)) (wf'.call (.insert default))
          (by rw [card]; omega) rest
        rwa [(others i other).1, (others i other).2] at later

theorem sameObjects_of_test (wf : a.WellFormed) (wf' : b.WellFormed)
    (alike : answers respond (test p) a = answers respond (test p) b) : SameObjects a b := by
  obtain ⟨listed, rest⟩ := List.cons.inj alike
  obtain ⟨counted, filled⟩ := List.cons.inj rest
  have same := sameLive_of_iter (ArenaReply.items.inj (ArenaOutput.reply.inj listed))
  have generations := same.generations wf wf' (Nat.le_add_right _ _) filled
  refine ⟨fun i slot slot' there there' => ?_, fun i slot slot' there there' alive => ?_, ?_⟩
  · have now := generations i
    rw [generationAt_slot there, generationAt_slot there'] at now
    exact Option.some.inj now
  · rw [(same i slot slot' there there').2 alive]
  · exact (ArenaReply.count.inj (ArenaOutput.reply.inj counted)).symm

omit [Inhabited T] in
theorem SameObjects.ask (same : SameObjects a b) (wf : a.WellFormed) {q : ArenaQuery K}
    (fits : ∀ h ∈ q.handle, h.Fits) : b.ask q = a.ask q := by
  have readings := same.readings wf
  cases q with
  | get h => exact congrArg ArenaReply.object (readings.get h (fits h rfl))
  | contains h => exact congrArg ArenaReply.flag (readings.contains h (fits h rfl))
  | resolve h => exact congrArg ArenaReply.resolved (readings.resolve h (fits h rfl))
  | iter => exact congrArg ArenaReply.items readings.iter
  | handleAt index => exact congrArg ArenaReply.handle (readings.handleAt index)
  | len => exact congrArg ArenaReply.count readings.len
  | isEmpty => exact congrArg ArenaReply.flag readings.isEmpty
  | capacity => rfl

theorem sameObjects_bisimulation :
    Bisimulation respond fun a b : Arena K T p => a.WellFormed ∧ SameObjects a b where
  answer i related := by
    obtain ⟨⟨op⟩ | ⟨q⟩, fits⟩ := i
    · exact congrArg ArenaOutput.answer (related.2.call_same related.1 fits).1.symm
    · exact congrArg ArenaOutput.reply (related.2.ask related.1 fits).symm
  next i related := by
    obtain ⟨⟨op⟩ | ⟨q⟩, fits⟩ := i
    · exact ⟨related.1.call op, (related.2.call_same related.1 fits).2⟩
    · exact related

end Arena

/-- Of any two arenas, whatever has been done to them: if they list alike, count alike and hand out
the same handles while they are filled up, nothing called through handles that fit a word will ever
tell them apart. -/
theorem listing_and_filling_tell_all [Inhabited T] (ops ops' : List (ArenaOp K T)) :
    let a := Arena.after ops (Arena.new : Arena K T p)
    let b := Arena.after ops' (Arena.new : Arena K T p)
    [answers Arena.respond (Arena.test p) a = answers Arena.respond (Arena.test p) b,
      Indistinguishable Arena.respond a b, Arena.SameObjects a b].TFAE := by
  intro a b
  have wf : a.WellFormed := Arena.new_wellFormed.after ops
  have wf' : b.WellFormed := Arena.new_wellFormed.after ops'
  tfae_have 1 → 3 := Arena.sameObjects_of_test wf wf'
  tfae_have 3 → 2 := fun same => Arena.sameObjects_bisimulation.indistinguishable ⟨wf, same⟩
  tfae_have 2 → 1 := fun same => same (Arena.test p)
  tfae_finish

end RtosCore
