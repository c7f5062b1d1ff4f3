import RtosCore.ArenaContract
import Mathlib.Data.List.Forall2

/-! `discard` is `remove` without the object. It leaves the dead object in the free slot when
its type has no destructor, so the two lead to different arenas; but a free slot's value is
never answered, only overwritten. -/

namespace RtosCore

variable {K : Kind} {T : Type} {p : Shape}

/-- The calls are the same, or one removes what the other discards. -/
inductive Swapped : ArenaOp K T → ArenaOp K T → Prop
  | same (op : ArenaOp K T) : Swapped op op
  | discarding (h : Handle K) : Swapped (.remove h) (.discard h)
  | removing (h : Handle K) : Swapped (.discard h) (.remove h)

inductive SameAnswer : ArenaOp K T × ArenaAnswer K T → ArenaOp K T × ArenaAnswer K T → Prop
  | same (op : ArenaOp K T) (answer : ArenaAnswer K T) : SameAnswer (op, answer) (op, answer)
  | discarding (h : Handle K) (v : Option T) :
      SameAnswer (.remove h, .taken v) (.discard h, .discarded v.isSome)
  | removing (h : Handle K) (v : Option T) :
      SameAnswer (.discard h, .discarded v.isSome) (.remove h, .taken v)

namespace Arena

variable {a b : Arena K T p} {h : Handle K} {slot slot' : Slot T} {i : ℕ} {op op' : ArenaOp K T}
  {ops ops' : List (ArenaOp K T)}

/-- The arenas differ at most in what their free slots hold. -/
structure SameObjects (a b : Arena K T p) : Prop where
  generation : ∀ (i : ℕ) (slot slot' : Slot T), a.slots[i]? = some slot →
    b.slots[i]? = some slot' → slot'.generation = slot.generation
  value : ∀ (i : ℕ) (slot slot' : Slot T), a.slots[i]? = some slot → b.slots[i]? = some slot' →
    live slot.generation = true → slot'.value = slot.value
  len : b.len = a.len

structure SameReadings (a b : Arena K T p) : Prop where
  get : ∀ h : Handle K, h.Fits → b.get h = a.get h
  contains : ∀ h : Handle K, h.Fits → b.contains h = a.contains h
  resolve : ∀ h : Handle K, h.Fits → b.resolve h = a.resolve h
  iter : b.iter = a.iter
  handleAt : ∀ index, b.handleAt index = a.handleAt index
  len : b.len = a.len
  isEmpty : b.isEmpty = a.isEmpty

namespace SameObjects

theorem refl (a : Arena K T p) : SameObjects a a where
  generation i slot slot' there there' := by
    obtain rfl := Option.some.inj (there.symm.trans there')
    rfl
  value i slot slot' there there' _ := by
    obtain rfl := Option.some.inj (there.symm.trans there')
    rfl
  len := rfl

theorem slot_eq (same : SameObjects a b) (there : a.slots[i]? = some slot)
    (there' : b.slots[i]? = some slot') (alive : live slot.generation = true) : slot' = slot := by
  have generation := same.generation i slot slot' there there'
  have value := same.value i slot slot' there there' alive
  cases slot
  cases slot'
  simp only at generation value
  rw [generation, value]

theorem found (same : SameObjects a b) (wf : a.WellFormed) (fits : h.Fits) :
    b.found h = a.found h := by
  unfold Arena.found
  by_cases bound : p.asUsize h.index < p.N
  · obtain ⟨slot, there⟩ := a.slot_exists bound
    obtain ⟨slot', there'⟩ := b.slot_exists bound
    have generation := same.generation _ slot slot' there there'
    rw [there, there']
    by_cases agree : slot.generation = h.generation
    · rw [same.slot_eq there there' (live_of_fits (wf.slot there) fits agree)]
    · simp [Option.filter, generation, agree]
  · rw [Vector.getElem?_eq_none (by omega), Vector.getElem?_eq_none (by omega)]

theorem put (same : SameObjects a b) (hi : i < p.N)
    (generation : slot'.generation = slot.generation)
    (value : live slot.generation = true → slot'.value = slot.value) (len : ℕ) :
    SameObjects (a.put i slot len) (b.put i slot' len) where
  generation j s s' there there' := by
    rw [slots_put hi] at there there'
    split_ifs at there there' with here
    · rw [← Option.some.inj there, ← Option.some.inj there', generation]
    · exact same.generation j s s' there there'
  value j s s' there there' alive := by
    rw [slots_put hi] at there there'
    split_ifs at there there' with here
    · rw [← Option.some.inj there] at alive ⊢
      rw [← Option.some.inj there']
      exact value alive
    · exact same.value j s s' there there' alive
  len := rfl

theorem generationAt (same : SameObjects a b) (i : ℕ) : b.generationAt i = a.generationAt i := by
  by_cases bound : i < p.N
  · obtain ⟨slot, there⟩ := a.slot_exists bound
    obtain ⟨slot', there'⟩ := b.slot_exists bound
    rw [generationAt_slot there, generationAt_slot there', same.generation i slot slot' there there']
  · rw [Arena.generationAt, Arena.generationAt, Vector.getElem?_eq_none (by omega),
      Vector.getElem?_eq_none (by omega)]

theorem generations (same : SameObjects a b) :
    b.slots.toList.map Slot.generation = a.slots.toList.map Slot.generation := by
  refine List.ext_getElem? fun i => ?_
  rw [List.getElem?_map, List.getElem?_map, Vector.getElem?_toList, Vector.getElem?_toList]
  exact same.generationAt i

theorem firstFree (same : SameObjects a b) :
    (b.slots.toList.findIdx? fun s => !live s.generation) =
      a.slots.toList.findIdx? fun s => !live s.generation := by
  have onGenerations : ∀ l : List (Slot T), (l.findIdx? fun s => !live s.generation) =
      (l.map Slot.generation).findIdx? fun g => !live g := fun l => by
    rw [List.findIdx?_map]
    rfl
  rw [onGenerations, onGenerations, same.generations]

theorem tryInsert (same : SameObjects a b) (v : T) :
    (b.tryInsert v).1 = (a.tryInsert v).1 ∧ SameObjects (a.tryInsert v).2 (b.tryInsert v).2 := by
  unfold Arena.tryInsert
  rw [same.firstFree]
  cases search : a.slots.toList.findIdx? fun s => !live s.generation with
  | none => exact ⟨rfl, same⟩
  | some i =>
    have bound : i < p.N := by
      have := (List.findIdx?_eq_some_iff_getElem.mp search).1
      rwa [Vector.length_toList] at this
    obtain ⟨slot, there⟩ := a.slot_exists bound
    obtain ⟨slot', there'⟩ := b.slot_exists bound
    have generation := same.generation i slot slot' there there'
    simp only [there, there', generation, same.len]
    exact ⟨trivial, same.put bound rfl (fun _ => rfl) _⟩

theorem forall₂ (same : SameObjects a b) : List.Forall₂ (fun s s' : Slot T =>
    s'.generation = s.generation ∧ (live s.generation = true → s'.value = s.value))
    a.slots.toList b.slots.toList := by
  refine List.forall₂_iff_get.mpr ⟨by simp, fun i hi hi' => ?_⟩
  have there : a.slots[i]? = some (a.slots.toList.get ⟨i, hi⟩) := by
    rw [← Vector.getElem?_toList, List.getElem?_eq_getElem hi]
    rfl
  have there' : b.slots[i]? = some (b.slots.toList.get ⟨i, hi'⟩) := by
    rw [← Vector.getElem?_toList, List.getElem?_eq_getElem hi']
    rfl
  exact ⟨same.generation i _ _ there there', same.value i _ _ there there'⟩

theorem iter (same : SameObjects a b) : b.iter = a.iter := by
  have slots := same.forall₂
  unfold Arena.iter
  generalize a.slots.toList = l at slots ⊢
  generalize b.slots.toList = l' at slots ⊢
  generalize 0 = n
  induction slots generalizing n with
  | nil => rfl
  | @cons s s' _ _ head _ ih =>
    obtain ⟨generation, value⟩ := head
    rw [List.zipIdx_cons, List.zipIdx_cons]
    by_cases alive : live s.generation = true
    · have alive' : live s'.generation = true := generation ▸ alive
      rw [List.filter_cons_of_pos (by exact alive'), List.filter_cons_of_pos (by exact alive),
        List.map_cons, List.map_cons, ih, generation, value alive]
    · have dead : ¬ live s'.generation = true := generation ▸ alive
      rw [List.filter_cons_of_neg (by exact dead), List.filter_cons_of_neg (by exact alive), ih]

theorem readings (same : SameObjects a b) (wf : a.WellFormed) : SameReadings a b := by
  have get : ∀ h : Handle K, h.Fits → b.get h = a.get h := fun h fits => by
    rw [get_eq, get_eq, same.found wf fits]
  constructor
  case get => exact get
  case contains => exact fun h fits => congrArg Option.isSome (get h fits)
  case resolve => exact fun h fits => by rw [resolve_eq b fits, resolve_eq a fits, get h fits]
  case iter => exact same.iter
  case handleAt =>
    intro index
    have generation := same.generationAt index.toNat
    unfold Arena.generationAt at generation
    unfold Arena.handleAt
    cases there : a.slots[index.toNat]? with
    | none =>
      rw [there] at generation
      rw [Option.map_eq_none_iff.mp generation]
    | some slot =>
      rw [there] at generation
      obtain ⟨slot', there', agree⟩ := Option.map_eq_some_iff.mp generation
      simp only [there', agree]
  case len => exact same.len
  case isEmpty => rw [Arena.isEmpty, Arena.isEmpty, same.len]

theorem getMut (same : SameObjects a b) (wf : a.WellFormed) (fits : h.Fits) (write : T → T) :
    (b.getMut h write).1 = (a.getMut h write).1 ∧
      SameObjects (a.getMut h write).2 (b.getMut h write).2 := by
  have found := same.found wf fits
  cases hit : a.found h with
  | none =>
    rw [getMut_missed hit, getMut_missed (found.trans hit)]
    exact ⟨rfl, same⟩
  | some slot =>
    rw [getMut_hit hit, getMut_hit (found.trans hit), same.len]
    exact ⟨rfl, same.put (lt_of_slot (found_eq_some.mp hit).1) rfl (fun _ => rfl) _⟩

theorem iterMut (same : SameObjects a b) (write : Handle K → T → T) :
    SameObjects (a.iterMut write).2 (b.iterMut write).2 where
  generation i slot slot' there there' := by
    have before := same.generationAt i
    rw [← generationAt_iterMut write, ← generationAt_iterMut (a := a) write,
      generationAt_slot there, generationAt_slot there'] at before
    exact Option.some.inj before
  value i slot slot' there there' alive := by
    rw [Arena.iterMut, Vector.getElem?_mapIdx, Option.map_eq_some_iff] at there there'
    obtain ⟨old, there, rfl⟩ := there
    obtain ⟨old', there', rfl⟩ := there'
    have alive : live old.generation = true := by
      by_contra dead
      rw [if_neg dead] at alive
      exact dead alive
    rw [same.slot_eq there there' alive]
  len := same.len

theorem freed (same : SameObjects a b) (wf : a.WellFormed)
    (hit : a.found h = some slot) (value value' : T) (len : ℕ) :
    SameObjects (a.put (p.asUsize h.index) ⟨slot.generation ||| FREE, value⟩ len)
      (b.put (p.asUsize h.index) ⟨slot.generation ||| FREE, value'⟩ len) := by
  obtain ⟨there, -⟩ := found_eq_some.mp hit
  refine same.put (lt_of_slot there) ?_ (fun alive => ?_) len
  · rfl
  · rw [not_live_or_FREE (wf.slot there)] at alive
    cases alive

variable [Inhabited T]

theorem remove_discard (same : SameObjects a b) (wf : a.WellFormed) (fits : h.Fits) :
    (b.discard h).1 = (a.remove h).1.isSome ∧ (b.remove h).1 = (a.remove h).1 ∧
      (a.discard h).1 = (a.remove h).1.isSome ∧
      SameObjects (a.remove h).2 (b.remove h).2 ∧ SameObjects (a.remove h).2 (b.discard h).2 ∧
      SameObjects (a.discard h).2 (b.remove h).2 ∧ SameObjects (a.discard h).2 (b.discard h).2 := by
  have found := same.found wf fits
  cases hit : a.found h with
  | none =>
    rw [remove_missed hit, discard_missed hit, remove_missed (found.trans hit),
      discard_missed (found.trans hit)]
    exact ⟨rfl, rfl, rfl, same, same, same, same⟩
  | some slot =>
    have freed := fun value value' => same.freed wf hit value value' (p.wrappingPred a.len)
    rw [remove_hit hit, discard_hit hit, remove_hit (found.trans hit),
      discard_hit (found.trans hit), same.len]
    exact ⟨rfl, rfl, rfl, freed _ _, freed _ _, freed _ _, freed _ _⟩

theorem call_same (same : SameObjects a b) (wf : a.WellFormed) (fits : ∀ h ∈ op.handle, h.Fits) :
    (b.call op).1 = (a.call op).1 ∧ SameObjects (a.call op).2 (b.call op).2 := by
  cases op with
  | insert v =>
    obtain ⟨answer, after⟩ := same.tryInsert v
    exact ⟨by simp only [Arena.call, Arena.insert, answer], after⟩
  | tryInsert v =>
    obtain ⟨answer, after⟩ := same.tryInsert v
    exact ⟨congrArg ArenaAnswer.placed answer, after⟩
  | remove h =>
    obtain ⟨-, answer, -, after, -⟩ := same.remove_discard wf (fits h rfl)
    exact ⟨congrArg ArenaAnswer.taken answer, after⟩
  | discard h =>
    obtain ⟨answer, -, answer', -, -, -, after⟩ := same.remove_discard wf (fits h rfl)
    exact ⟨congrArg ArenaAnswer.discarded (answer.trans answer'.symm), after⟩
  | getMut h write =>
    obtain ⟨answer, after⟩ := same.getMut wf (fits h rfl) write
    exact ⟨congrArg ArenaAnswer.seen answer, after⟩
  | resolveMut h write =>
    have resolved := (same.readings wf).resolve h (fits h rfl)
    rw [Arena.call, Arena.call, resolveMut_eq, resolveMut_eq, resolved]
    exact ⟨rfl, (same.getMut wf (fits h rfl) write).2⟩
  | iterMut write => exact ⟨congrArg ArenaAnswer.each same.iter, same.iterMut write⟩

theorem call (same : SameObjects a b) (wf : a.WellFormed) (fits : ∀ h ∈ op.handle, h.Fits)
    (swapped : Swapped op op') :
    SameAnswer (op, (a.call op).1) (op', (b.call op').1) ∧
      SameObjects (a.call op).2 (b.call op').2 := by
  cases swapped with
  | same =>
    obtain ⟨answer, after⟩ := same.call_same wf fits
    rw [answer]
    exact ⟨.same op _, after⟩
  | discarding h =>
    obtain ⟨answer, -, -, -, after, -⟩ := same.remove_discard wf (fits h rfl)
    refine ⟨?_, after⟩
    rw [Arena.call, Arena.call, answer]
    exact .discarding h _
  | removing h =>
    obtain ⟨-, answer, answer', -, -, after, -⟩ := same.remove_discard wf (fits h rfl)
    refine ⟨?_, after⟩
    rw [Arena.call, Arena.call, answer, answer']
    exact .removing h _

theorem run (same : SameObjects a b) (wf : a.WellFormed)
    (fits : ∀ op ∈ ops, ∀ h ∈ op.handle, h.Fits) (swapped : List.Forall₂ Swapped ops ops') :
    List.Forall₂ SameAnswer (ops.zip (Arena.run ops a).1) (ops'.zip (Arena.run ops' b).1) ∧
      SameObjects (after ops a) (after ops' b) := by
  induction swapped generalizing a b with
  | nil => exact ⟨.nil, same⟩
  | @cons op op' ops ops' head _ ih =>
    obtain ⟨answer, after⟩ := same.call wf (fits op List.mem_cons_self) head
    obtain ⟨answers, final⟩ := ih after (wf.call op) fun op mem => fits op (List.mem_cons_of_mem _ mem)
    exact ⟨.cons answer answers, final⟩

end SameObjects

end Arena

/-- Of two runs with the same calls, save that one discards where the other removes, every call
answers alike, and at every point so does every reading call. -/
theorem discard_is_remove [Inhabited T] (ops ops' : List (ArenaOp K T))
    (presents : Arena.Presents p ops) (swapped : List.Forall₂ Swapped ops ops') :
    let a : Arena K T p := Arena.new
    List.Forall₂ SameAnswer (ops.zip (Arena.run ops a).1) (ops'.zip (Arena.run ops' a).1) ∧
      Arena.SameReadings (Arena.after ops a) (Arena.after ops' a) := by
  intro a
  have same := (Arena.SameObjects.refl a).run Arena.new_wellFormed presents.fits swapped
  exact ⟨same.1, same.2.readings (Arena.new_wellFormed.after ops)⟩

theorem discard_is_remove_one :
    let a : Arena .task ℕ Shape.one := Arena.new
    let ops' : List (ArenaOp .task ℕ) := [.insert 3, .discard ⟨0, 2⟩, .remove ⟨0, 2⟩, .insert 4]
    List.Forall₂ SameAnswer (replaced.zip (Arena.run replaced a).1)
        (ops'.zip (Arena.run ops' a).1) ∧
      Arena.SameReadings (Arena.after replaced a) (Arena.after ops' a) :=
  discard_is_remove replaced _ presents_replaced
    (.cons (.same _) (.cons (.discarding _) (.cons (.same _) (.cons (.same _) .nil))))

end RtosCore
