import RtosCore.ArenaLifetime
import RtosCore.ArenaReach

/-! Which arenas there are. The invariant kept by all calls through handles that fit a word leaves
no arena out: every slot can be brought to any generation and any value, since a full arena whose
one slot is freed gives that slot to the next insert. -/

namespace RtosCore

variable {K : Kind} {T : Type} {p : Shape} [Inhabited T]

namespace Arena

variable {a b c : Arena K T p} {h : Handle K} {slot slot' : Slot T} {g g' : UInt32} {i m n : ℕ}
variable {v : T}

def Leads (n : ℕ) (a b : Arena K T p) : Prop :=
  ∃ ops : List (ArenaOp K T), ops.length ≤ n ∧ (∀ op ∈ ops, ∀ h ∈ op.handle, h.Fits) ∧ after ops a = b

theorem Leads.refl (a : Arena K T p) : Leads 0 a a :=
  ⟨[], le_rfl, fun _ none => absurd none List.not_mem_nil, rfl⟩

theorem Leads.mono (leads : Leads m a b) (more : m ≤ n) : Leads n a b := by
  obtain ⟨ops, few, fits, reached⟩ := leads
  exact ⟨ops, few.trans more, fits, reached⟩

theorem Leads.trans (first : Leads m a b) (second : Leads n b c) : Leads (m + n) a c := by
  obtain ⟨ops, few, fits, rfl⟩ := first
  obtain ⟨later, few', fits', rfl⟩ := second
  refine ⟨ops ++ later, ?_, fun op mem => ?_, after_append ops later a⟩
  · rw [List.length_append]
    omega
  · exact (List.mem_append.mp mem).elim (fits op) (fits' op)

theorem leads_call (a : Arena K T p) (op : ArenaOp K T) (fits : ∀ h ∈ op.handle, h.Fits) :
    Leads 1 a (a.call op).2 :=
  ⟨[op], le_rfl, fun _ mem => List.mem_singleton.mp mem ▸ fits, rfl⟩

/-- Where a type needs dropping, no free slot keeps an object. -/
def Emptied (a : Arena K T p) : Prop :=
  p.needsDrop = true → ∀ (i : ℕ) (slot : Slot T), a.slots[i]? = some slot →
    live slot.generation = false → slot.value = default

section Slots

omit [Inhabited T]

@[simp] theorem put_put (len len' : ℕ) : (a.put i slot len).put i slot' len' = a.put i slot' len' := by
  rw [put, put, put, Vector.setIfInBounds_setIfInBounds]

@[simp] theorem put_len (len : ℕ) : (a.put i slot len).len = len := rfl

theorem ext_slots (len : a.len = b.len) (slots : ∀ i < p.N, a.slots[i]? = b.slots[i]?) : a = b := by
  refine Arena.ext (Vector.ext fun i hi => ?_) len
  have same := slots i hi
  rwa [Vector.getElem?_eq_getElem hi, Vector.getElem?_eq_getElem hi, Option.some_inj] at same

theorem put_self (there : a.slots[i]? = some slot) : a.put i slot a.len = a := by
  refine ext_slots rfl fun j hj => ?_
  rw [slots_put (lt_of_slot there)]
  split_ifs with same
  · rw [same, there]
  · rfl

theorem found_slot (there : a.slots[i]? = some slot) :
    a.found ⟨UInt32.ofNat i, slot.generation⟩ = some slot :=
  found_eq_some.mpr ⟨by rw [asUsize_index (lt_of_slot there), there], rfl⟩

theorem Sound.full_iff (sound : a.Sound) : a.len = p.N ↔
    ∀ (i : ℕ) (slot : Slot T), a.slots[i]? = some slot → live slot.generation = true := by
  rw [sound.len, card_eq_iff]

theorem Sound.put_full (sound : a.Sound) (full : a.len = p.N) (there : a.slots[i]? = some slot)
    (slot' : Slot T) (wf : RtosCore.WellFormed slot'.generation)
    (alive : live slot'.generation = true) :
    (a.put i slot' a.len).Sound := by
  refine ⟨sound.wellFormed.put there slot' wf _, ?_⟩
  refine full.trans (card_eq_iff.mpr fun j slot'' here => ?_).symm
  rw [slots_put (lt_of_slot there)] at here
  split_ifs at here
  · obtain rfl := Option.some.inj here
    exact alive
  · exact sound.full_iff.mp full j slot'' here

theorem Sound.put_free (sound : a.Sound) (there : a.slots[i]? = some slot)
    (free : live slot.generation = false) (slot' : Slot T)
    (wf : RtosCore.WellFormed slot'.generation) (alive : live slot'.generation = true) :
    (a.put i slot' (a.len + 1)).Sound := by
  refine ⟨sound.wellFormed.put there slot' wf _, ?_⟩
  have bound := lt_of_slot there
  have fits := fits_live (K := K) wf alive bound
  have fresh : (⟨UInt32.ofNat i, slot'.generation⟩ : Handle K) ∉ a.objects := by
    rw [← Finmap.lookup_eq_none, lookup_fits sound fits, get_slot fits there (ofNat_index bound)]
    refine if_neg fun same => ?_
    rw [show slot.generation = slot'.generation from same, alive] at free
    cases free
  rw [objects_put_live sound.wellFormed there slot' wf alive (Or.inl free),
    KeyedMap.keys_insert_card fresh, ← sound.len]
  rfl

end Slots

section OneCall

theorem leads_insert (a : Arena K T p) (v : T) : Leads 1 a (a.tryInsert v).2 :=
  leads_call a (.insert v) (by rintro h ⟨⟩)

variable (there : a.slots[i]? = some slot) (wf : RtosCore.WellFormed slot.generation)
variable (alive : live slot.generation = true)

include there wf alive

theorem leads_remove :
    Leads 1 a (a.put i ⟨slot.generation ||| FREE, default⟩ (p.wrappingPred a.len)) := by
  have bound := lt_of_slot there
  have removed := leads_call a (.remove ⟨UInt32.ofNat i, slot.generation⟩)
    fun h' named => Option.mem_some.mp named ▸ fits_live wf alive bound
  rwa [call, remove_hit (found_slot there), asUsize_index bound] at removed

theorem leads_discard :
    Leads 1 a (a.put i ⟨slot.generation ||| FREE, if p.needsDrop then default else slot.value⟩
      (p.wrappingPred a.len)) := by
  have bound := lt_of_slot there
  have discarded := leads_call a (.discard ⟨UInt32.ofNat i, slot.generation⟩)
    fun h' named => Option.mem_some.mp named ▸ fits_live wf alive bound
  rwa [call, discard_hit (found_slot there), asUsize_index bound] at discarded

theorem leads_write (v : T) : Leads 1 a (a.put i ⟨slot.generation, v⟩ a.len) := by
  have bound := lt_of_slot there
  have written := leads_call a (.getMut ⟨UInt32.ofNat i, slot.generation⟩ fun _ => v)
    fun h' named => Option.mem_some.mp named ▸ fits_live wf alive bound
  rwa [call, getMut_hit (found_slot there), asUsize_index bound] at written

end OneCall

section Turning

variable (sound : a.Sound) (full : a.len = p.N) (there : a.slots[i]? = some slot)

include sound full there

/-- An object of a full arena removed, and another one put in: it gets the same slot. -/
theorem Sound.turn (v : T) : Leads 2 a (a.put i ⟨occupied slot.generation, v⟩ a.len) := by
  have bound := lt_of_slot there
  have wf := sound.wellFormed.slot there
  have alive := sound.full_iff.mp full
  have removed := leads_remove there wf (alive i slot there)
  have inserted :=
    leads_insert (a.put i ⟨slot.generation ||| FREE, default⟩ (p.wrappingPred a.len)) v
  rcases tryInsert_cases (a.put i ⟨slot.generation ||| FREE, default⟩ (p.wrappingPred a.len)) v with
    ⟨all, -⟩ | ⟨j, freed, here, free, placed⟩
  · have freed := all i ⟨slot.generation ||| FREE, default⟩ (by rw [slots_put bound, if_pos rfl])
    rw [not_live_or_FREE wf] at freed
    cases freed
  · rw [slots_put bound] at here
    split_ifs at here with same
    · subst same
      obtain rfl := Option.some.inj here
      have again : occupied (slot.generation ||| FREE) = occupied slot.generation := by
        rw [← UInt32.toNat_inj, toNat_occupied, toNat_occupied, counter_or_FREE wf]
      have counted := wrappingPred_eq (p := p) (n := a.len) (by omega) full.le
      rw [placed, put_put, again, put_len, wrappingSucc_eq (by omega), counted] at inserted
      exact removed.trans inserted
    · rw [alive j freed here] at free
      cases free

theorem Sound.turns (k : ℕ) : ∃ g, counter g = turned (counter slot.generation) k ∧
    RtosCore.WellFormed g ∧ live g = true ∧ Leads (2 * k) a (a.put i ⟨g, slot.value⟩ a.len) := by
  have wf := sound.wellFormed.slot there
  induction k with
  | zero =>
    refine ⟨slot.generation, (turned_zero wf.2 counter_lt).symm, wf,
      sound.full_iff.mp full i slot there, ?_⟩
    rw [show (⟨slot.generation, slot.value⟩ : Slot T) = slot from rfl, put_self there]
    exact Leads.refl a
  | succ k ih =>
    obtain ⟨g, counted, wf', alive, leads⟩ := ih
    have next := (sound.put_full full there ⟨g, slot.value⟩ wf' alive).turn full
      (by rw [slots_put (lt_of_slot there), if_pos rfl]) slot.value
    refine ⟨occupied g, ?_, wellFormed_occupied, live_occupied, ?_⟩
    · rw [counter_occupied, counted, ← turned_turned wf.2 k 1, turned]
      rfl
    · rw [put_put] at next
      exact leads.trans next

/-- A slot of a full arena is brought to any live generation and any value. -/
theorem Sound.rewrites (wf : RtosCore.WellFormed slot'.generation)
    (alive : live slot'.generation = true) : Leads 131069 a (a.put i slot' a.len) := by
  have bound := lt_of_slot there
  obtain ⟨g, counted, wf', alive', leads⟩ := sound.turns full there
    ((counter slot'.generation + 65535 - counter slot.generation) % 65535)
  have same : g = slot'.generation := by
    refine (generation_eq_iff wf wf' alive).mpr ⟨alive', counted.trans ?_⟩
    have start := (sound.wellFormed.slot there).2
    have small := counter_lt (g := slot.generation)
    have small' := counter_lt (g := slot'.generation)
    have positive := wf.2
    unfold turned
    omega
  subst same
  have here : (a.put i ⟨slot'.generation, slot.value⟩ a.len).slots[i]? =
      some ⟨slot'.generation, slot.value⟩ := by
    rw [slots_put bound, if_pos rfl]
  have written := leads_write here wf alive slot'.value
  rw [put_put] at written
  exact (leads.trans written).mono (by omega)

end Turning

theorem Sound.leads_full (sound : a.Sound) (full : a.len = p.N) (sound' : b.Sound)
    (full' : b.len = p.N) : Leads (131069 * p.N) a b := by
  have upto : ∀ n ≤ p.N, ∃ c : Arena K T p, c.Sound ∧ c.len = p.N ∧
      (∀ i < n, c.slots[i]? = b.slots[i]?) ∧ Leads (131069 * n) a c := by
    intro n
    induction n with
    | zero => exact fun _ => ⟨a, sound, full, fun i none => absurd none (Nat.not_lt_zero i), Leads.refl a⟩
    | succ n ih =>
      intro bound
      obtain ⟨c, soundC, fullC, same, leads⟩ := ih (Nat.le_of_succ_le bound)
      obtain ⟨slot, there⟩ := c.slot_exists (Nat.lt_of_succ_le bound)
      obtain ⟨slot', there'⟩ := b.slot_exists (Nat.lt_of_succ_le bound)
      have wf := sound'.wellFormed.slot there'
      have alive := sound'.full_iff.mp full' n slot' there'
      refine ⟨c.put n slot' c.len, soundC.put_full fullC there slot' wf alive, fullC, fun i hi => ?_,
        leads.trans (soundC.rewrites fullC there wf alive)⟩
      rw [slots_put (lt_of_slot there)]
      split_ifs with last
      · rw [last, there']
      · exact same i (by omega)
  obtain ⟨c, -, fullC, same, leads⟩ := upto p.N le_rfl
  rwa [ext_slots (fullC.trans full'.symm) same] at leads

theorem Sound.leads_filled (sound : a.Sound) (room : a.len + n = p.N) :
    ∃ b : Arena K T p, b.Sound ∧ b.len = p.N ∧ Leads n a b := by
  induction n generalizing a with
  | zero => exact ⟨a, sound, room, Leads.refl a⟩
  | succ n ih =>
    have inserted := leads_insert a default
    rcases tryInsert_store sound default with ⟨full, -⟩ | ⟨h, -, fresh, -, stored, sound'⟩
    · have := sound.len
      omega
    · have grown : (a.tryInsert default).2.len = a.len + 1 := by
        rw [sound'.len, stored, KeyedMap.keys_insert_card fresh, sound.len]
      obtain ⟨b, soundB, fullB, leads⟩ := ih sound' (by omega)
      exact ⟨b, soundB, fullB, (inserted.trans leads).mono (by omega)⟩

theorem low_or_FREE (wf : RtosCore.WellFormed g) (free : live g = false) :
    RtosCore.WellFormed (g &&& 0xFFFF) ∧ live (g &&& 0xFFFF) = true ∧ (g &&& 0xFFFF) ||| FREE = g := by
  have small := counter_lt (g := g)
  have low : counter (g &&& 0xFFFF) = counter g :=
    counter_of_toNat toNat_low (Nat.mod_eq_of_lt small)
  have wf' : RtosCore.WellFormed (g &&& 0xFFFF) := ⟨by rw [toNat_low]; omega, low ▸ wf.2⟩
  refine ⟨wf', (live_iff wf').mpr (toNat_low.trans_lt small), ?_⟩
  rw [← UInt32.toNat_inj, toNat_or_FREE wf', low]
  have high : ¬ g.toNat < 65536 := fun below => by
    rw [(live_iff wf).mpr below] at free
    cases free
  have bound := wf.1
  unfold counter
  omega

theorem Sound.reached (sound : b.Sound) (emptied : b.Emptied) (room : b.len + n = p.N) :
    Leads (131069 * p.N + p.N + n) new b := by
  induction n generalizing b with
  | zero =>
    obtain ⟨a, soundA, fullA, filled⟩ := (new_sound (K := K) (T := T)).leads_filled (Nat.zero_add p.N)
    exact (filled.trans (soundA.leads_full fullA sound room)).mono (by omega)
  | succ n ih =>
    obtain ⟨i, slot, there, free⟩ : ∃ (i : ℕ) (slot : Slot T), b.slots[i]? = some slot ∧
        live slot.generation = false := by
      have notFull : b.len ≠ p.N := by omega
      rw [Ne, sound.full_iff] at notFull
      push Not at notFull
      simpa using notFull
    have bound := lt_of_slot there
    obtain ⟨wf, alive, again⟩ := low_or_FREE (sound.wellFormed.slot there) free
    have before := ih (sound.put_free there free ⟨slot.generation &&& 0xFFFF, slot.value⟩ wf alive) (by
        intro drops j slot' here dead
        rw [slots_put bound] at here
        split_ifs at here
        · obtain rfl := Option.some.inj here
          rw [alive] at dead
          cases dead
        · exact emptied drops j slot' here dead) (by
        change b.len + 1 + n = p.N
        omega)
    have here : (b.put i ⟨slot.generation &&& 0xFFFF, slot.value⟩ (b.len + 1)).slots[i]? =
        some ⟨slot.generation &&& 0xFFFF, slot.value⟩ := by
      rw [slots_put bound, if_pos rfl]
    have discarded := leads_discard here wf alive
    have kept : (if p.needsDrop then default else slot.value) = slot.value := by
      split_ifs with drops
      · exact (emptied drops i slot there free).symm
      · rfl
    have counted := wrappingPred_eq (p := p) (n := b.len + 1) (by omega) (by omega)
    rw [put_put, again, kept, put_len, Nat.succ.inj counted, show (⟨slot.generation, slot.value⟩ : Slot T) = slot from rfl,
      put_self there] at discarded
    exact (before.trans discarded).mono (by omega)

theorem Emptied.put (emptied : a.Emptied) (hi : i < p.N) (slot : Slot T) (len : ℕ)
    (value : p.needsDrop = true → live slot.generation = false → slot.value = default) :
    (a.put i slot len).Emptied := by
  intro drops j slot' here free
  rw [slots_put hi] at here
  split_ifs at here
  · obtain rfl := Option.some.inj here
    exact value drops free
  · exact emptied drops j slot' here free

theorem Emptied.insert (emptied : a.Emptied) (v : T) : (a.tryInsert v).2.Emptied := by
  rcases tryInsert_cases a v with ⟨-, refused⟩ | ⟨i, slot, there, -, placed⟩
  · rwa [refused]
  · rw [placed]
    refine emptied.put (lt_of_slot there) _ _ fun _ free => ?_
    rw [live_occupied] at free
    cases free

theorem Emptied.write (emptied : a.Emptied) (wf : a.WellFormed) (fits : h.Fits) (write : T → T) :
    (a.getMut h write).2.Emptied := by
  cases hit : a.found h with
  | none => rwa [getMut_missed hit]
  | some slot =>
    obtain ⟨there, same⟩ := found_eq_some.mp hit
    rw [getMut_hit hit]
    refine emptied.put (lt_of_slot there) _ _ fun _ free => ?_
    rw [live_of_fits (wf.slot there) fits same] at free
    cases free

theorem Emptied.call (emptied : a.Emptied) (wf : a.WellFormed) (op : ArenaOp K T)
    (fits : ∀ h ∈ op.handle, h.Fits) : (a.call op).2.Emptied := by
  cases op with
  | insert v => exact emptied.insert v
  | tryInsert v => exact emptied.insert v
  | remove h =>
    change (a.remove h).2.Emptied
    cases hit : a.found h with
    | none => rwa [remove_missed hit]
    | some slot =>
      rw [remove_hit hit]
      exact emptied.put (lt_of_slot (found_eq_some.mp hit).1) _ _ fun _ _ => rfl
  | discard h =>
    change (a.discard h).2.Emptied
    cases hit : a.found h with
    | none => rwa [discard_missed hit]
    | some slot =>
      rw [discard_hit hit]
      exact emptied.put (lt_of_slot (found_eq_some.mp hit).1) _ _ fun drops _ => if_pos drops
  | getMut h write => exact emptied.write wf (fits h rfl) write
  | resolveMut h write =>
    change (a.resolveMut h write).2.Emptied
    rw [resolveMut_eq]
    exact emptied.write wf (fits h rfl) write
  | iterMut write =>
    intro drops i slot' here free
    change (a.iterMut write).2.slots[i]? = some slot' at here
    rw [iterMut, Vector.getElem?_mapIdx, Option.map_eq_some_iff] at here
    obtain ⟨slot, there, rfl⟩ := here
    split_ifs at free with alive
    · exact absurd (alive.symm.trans free) Bool.noConfusion
    · rw [if_neg alive]
      exact emptied drops i slot there (Bool.eq_false_iff.mpr alive)

theorem new_emptied : (new : Arena K T p).Emptied := by
  intro _ i slot there _
  obtain ⟨-, rfl⟩ : i < p.N ∧ (⟨FREE ||| 1, default⟩ : Slot T) = slot := by
    simpa [new, Vector.getElem?_replicate] using there
  rfl

theorem Leads.kept (leads : Leads n a b) (sound : a.Sound) (emptied : a.Emptied) :
    b.Sound ∧ b.Emptied := by
  obtain ⟨ops, -, fits, rfl⟩ := leads
  induction ops generalizing a with
  | nil => exact ⟨sound, emptied⟩
  | cons op ops ih =>
    have first := fits op List.mem_cons_self
    exact ih (call_store sound op first).2 (emptied.call sound.wellFormed op first)
      fun op' mem => fits op' (List.mem_cons_of_mem op mem)

end Arena

/-- An arena comes about through calls with handles that fit a word exactly if no generation in it
is malformed, its length counts the live slots, and no free slot keeps an object that needs dropping;
and then it comes about within 131,071 calls for each slot. -/
theorem reachable_arenas (a : Arena K T p) :
    [∃ n, Arena.Leads n Arena.new a, a.Sound ∧ a.Emptied,
      Arena.Leads (131071 * p.N) Arena.new a].TFAE := by
  tfae_have 1 → 2 := by
    rintro ⟨n, leads⟩
    exact leads.kept Arena.new_sound Arena.new_emptied
  tfae_have 2 → 3 := by
    rintro ⟨sound, emptied⟩
    have bound : a.len ≤ p.N := sound.len.trans_le a.card_le
    exact (sound.reached emptied (Nat.add_sub_cancel' bound)).mono (by omega)
  tfae_have 3 → 1 := fun leads => ⟨_, leads⟩
  tfae_finish

end RtosCore
