import RtosCore.ArenaStore
import RtosCore.FuzzTarget
import RtosCore.ListOutcomes

/-! No input makes the target fail. Its books and the model agree after every turn: the books say
where each item is, what was last stored in it and which handles are live. -/

namespace RtosCore

namespace Fuzz

open ListsOf

variable {g : Sizes} {p : Shape}

structure Agrees (s : State g p) (m : Model UInt64) : Prop where
  lists : Refines s.lists m
  container : ∀ x, s.container.lookup x = m.home x
  values : ∀ x v, s.values.lookup x = some v → m.value x = v
  arena : s.arena.Sound
  live : s.arena.objects = KeyedMap.ofEntries s.live
  nodup : (s.live.map Prod.fst).Nodup
  dead : ∀ h ∈ s.dead, h.Fits

def Inv (s : State g p) : Prop := ∃ m, Agrees s m

namespace Agrees

variable {s : State g p} {m : Model UInt64} {x : ItemId} {l : ListId} {v : UInt64}
  {h : Handle .task}

theorem withInput (agrees : Agrees s m) (input : Input) : Agrees { s with input } m :=
  ⟨agrees.lists, agrees.container, agrees.values, agrees.arena, agrees.live, agrees.nodup,
    agrees.dead⟩

theorem mem_container (agrees : Agrees s m) : x ∈ s.container ↔ m.Linked x := by
  rw [← not_iff_not, ← AList.lookup_eq_none, agrees.container, Model.home_eq_none]

theorem insert (agrees : Agrees s m) (b : Build) (l : ListId) (x : ItemId) (v : UInt64) :
    Ends (s.insert b l x v) Inv := by
  rcases agrees.lists.insert_outcome b l x v with ⟨-, e, refused⟩ | ⟨⟨-, free⟩, t, made, after⟩
  · simp only [State.insert, refused, result, ok_bind]
    exact Ends.ok ⟨m, { agrees with }⟩
  · simp only [State.insert, made, result, ok_bind]
    refine Ends.ensure_bind (mt agrees.mem_container.mp free) (Ends.ok ⟨_, { agrees with
      lists := after, container := fun y => ?_, values := fun y w => ?_ }⟩)
    · rw [HashMap.lookup_insert, Model.home_place_setValue free, agrees.container]
    · rw [HashMap.lookup_insert, Model.place_value, Model.setValue_value]
      split_ifs
      · exact Option.some.inj
      · exact agrees.values y w

theorem insertEnd (agrees : Agrees s m) (b : Build) (l : ListId) (x : ItemId) :
    Ends (s.insertEnd b l x) Inv := by
  rcases agrees.lists.insertEnd_outcome b l x with ⟨-, e, refused⟩ | ⟨⟨-, free⟩, t, made, after⟩
  · simp only [State.insertEnd, refused, result, ok_bind]
    exact Ends.ok ⟨m, { agrees with }⟩
  · simp only [State.insertEnd, made, result, ok_bind]
    refine Ends.ensure_bind (mt agrees.mem_container.mp free) (Ends.ok ⟨_, { agrees with
      lists := after, container := fun y => ?_, values := fun y w => ?_ }⟩)
    · rw [HashMap.lookup_insert, Model.home_place free, agrees.container]
    · rw [Model.place_value]
      exact agrees.values y w

/-- What the books count in a list is its length. -/
theorem countValue_eq {container : HashMap UInt16 UInt8} {m : Model UInt64}
    (right : ∀ x, container.lookup x = m.home x) (l : ListId) :
    container.countValue l = (m.rota l).items.length :=
  HashMap.countValue_eq (m.rota l).nodup fun x => by rw [right, Model.home_eq_some]

theorem remove (agrees : Agrees s m) (b : Build) (x : ItemId) : Ends (s.remove b x) Inv := by
  rcases agrees.lists.remove_outcome b x with ⟨home, e, refused⟩ | ⟨l, t, home, made, after⟩
  · simp only [State.remove, refused, result, ok_bind]
    have absent := mt agrees.mem_container.mp (Model.home_eq_none.mp home)
    exact Ends.ensure_bind absent (Ends.ok ⟨m, { agrees with }⟩)
  · have right : ∀ y, (s.container.erase x).lookup y = (m.erase x).home y := fun y => by
      rw [HashMap.lookup_erase, Model.home_erase, agrees.container]
    simp only [State.remove, made, result, ok_bind, agrees.container, home]
    exact Ends.ensure_bind (countValue_eq right l).symm
      (Ends.ok ⟨_, { agrees with lists := after, container := right }⟩)

theorem setValue (agrees : Agrees s m) (b : Build) (x : ItemId) (v : UInt64) :
    Ends (s.setValue b x v) Inv := by
  rcases agrees.lists.setValue_outcome b x v with ⟨e, refused⟩ | ⟨t, made, after⟩
  · simp only [State.setValue, refused, result, ok_bind]
    exact Ends.ok ⟨m, { agrees with }⟩
  · simp only [State.setValue, made, result, ok_bind]
    refine Ends.ok ⟨_, { agrees with
      lists := after, container := fun y => ?_, values := fun y w => ?_ }⟩
    · rw [Model.home_setValue, agrees.container]
    · rw [HashMap.lookup_insert, Model.setValue_value]
      split_ifs
      · exact Option.some.inj
      · exact agrees.values y w

theorem nextRoundRobin (agrees : Agrees s m) (b : Build) (l : ListId) :
    Ends (s.nextRoundRobin b l) Inv := by
  rcases agrees.lists.turn_outcome b l with ⟨-, e, refused⟩ | ⟨-, t, made, after⟩
  · simp only [State.nextRoundRobin, refused, result, ok_bind]
    exact Ends.ok ⟨m, { agrees with }⟩
  · simp only [State.nextRoundRobin, made, result, ok_bind]
    refine Ends.ok ⟨_, { agrees with
      lists := after, container := fun y => ?_, values := agrees.values }⟩
    rw [Model.home_advance, agrees.container]

theorem lookup_live (agrees : Agrees s m) :
    s.arena.objects.lookup h = some v ↔ (h, v) ∈ s.live := by
  rw [agrees.live, KeyedMap.lookup_ofEntries agrees.nodup]

theorem card_live (agrees : Agrees s m) : s.arena.objects.keys.card = s.live.length := by
  rw [agrees.live, KeyedMap.keys_ofEntries_card agrees.nodup]

theorem mem_live (agrees : Agrees s m) : h ∈ s.arena.objects ↔ ∃ e ∈ s.live, e.1 = h := by
  rw [agrees.live, KeyedMap.mem_ofEntries, List.mem_map]

theorem fits_live (agrees : Agrees s m) {e : Handle .task × UInt64} (mem : e ∈ s.live) :
    e.1.Fits :=
  Arena.fits_of_mem agrees.arena.wellFormed (agrees.mem_live.mpr ⟨e, mem, rfl⟩)

theorem resolve_toOption (agrees : Agrees s m) (fits : h.Fits) :
    (s.arena.resolve h).toOption = s.arena.objects.lookup h := by
  rw [Arena.resolve_eq _ fits, Arena.lookup_fits agrees.arena fits]
  cases s.arena.get h <;> rfl

theorem not_live (agrees : Agrees s m) (fits : h.Fits) (absent : ∀ l ∈ s.live, l.1 ≠ h) :
    (s.arena.resolve h).toOption = none := by
  rw [agrees.resolve_toOption fits, Finmap.lookup_eq_none, agrees.mem_live]
  rintro ⟨e, mem, same⟩
  exact absent e mem same

theorem arenaInsert (agrees : Agrees s m) (v : UInt64) : Ends (s.arenaInsert v) Inv := by
  rcases Arena.tryInsert_store agrees.arena v with
    ⟨full, refused⟩ | ⟨h, -, fresh, made, stored, after⟩
  · simp only [State.arenaInsert, Arena.insert, refused, Except.mapError]
    exact Ends.ensure_bind (agrees.card_live.symm.trans full) (Ends.ok ⟨m, { agrees with }⟩)
  · have absent : ∀ l ∈ s.live, l.1 ≠ h := fun l mem same =>
      fresh (agrees.mem_live.mpr ⟨l, mem, same⟩)
    have nodup : ((s.live ++ [(h, v)]).map Prod.fst).Nodup := by
      rw [List.map_append, List.map_singleton, ← List.concat_eq_append, List.nodup_concat]
      refine ⟨fun mem => ?_, agrees.nodup⟩
      obtain ⟨l, mem, same⟩ := List.mem_map.mp mem
      exact absent l mem same
    simp only [State.arenaInsert, Arena.insert, made, Except.mapError]
    refine Ends.ensure_bind absent (Ends.ok ⟨m, { agrees with
      arena := after, live := ?_, nodup }⟩)
    rw [stored, agrees.live, KeyedMap.ofEntries_concat nodup]

theorem arenaRemove (agrees : Agrees s m) {live : List (Handle .task × UInt64)}
    (taken : s.live.Perm ((h, v) :: live)) : Ends (s.arenaRemove h v live) Inv := by
  have mem : (h, v) ∈ s.live := taken.mem_iff.mpr List.mem_cons_self
  have fits := agrees.fits_live mem
  obtain ⟨answer, erased, sound⟩ := Arena.remove_store agrees.arena fits
  rw [agrees.lookup_live.mpr mem] at answer
  obtain ⟨answer', erased', sound'⟩ := Arena.remove_store sound fits
  have gone : (s.arena.remove h).2.objects.lookup h = none := by
    rw [erased, Finmap.lookup_erase]
  rw [gone] at answer'
  rw [KeyedMap.erase_of_lookup_none gone, erased, agrees.live] at erased'
  have nodup : (live.map Prod.fst).Nodup :=
    (List.nodup_cons.mp ((taken.map Prod.fst).nodup_iff.mp agrees.nodup)).2
  unfold State.arenaRemove
  refine Ends.ensure_bind answer (Ends.ensure_bind (by rw [answer']; rfl) (Ends.ok ⟨m, ?_⟩))
  refine { agrees with arena := sound', live := ?_, nodup, dead := ?_ }
  · exact erased'.trans (KeyedMap.ofEntries_erase agrees.nodup taken).symm
  · intro h' old
    rcases List.mem_append.mp old with old | new
    · exact agrees.dead h' old
    · rwa [List.mem_singleton.mp new]

theorem arenaForge (agrees : Agrees s m) : Ends s.arenaForge Inv := by
  have read := Ends.ok (ε := Crash Check) (P := Inv) ⟨m, agrees.withInput s.input.u64.2⟩
  simp only [State.arenaForge]
  split
  · rename_i absent
    exact Ends.ensure_bind (agrees.not_live (Handle.fits_fromRaw _) absent) read
  · exact read

theorem arenaPick (agrees : Agrees s m) : Ends s.arenaPick Inv := by
  have read := agrees.withInput s.input.byte.2
  simp only [State.arenaPick]
  split
  · rename_i choice
    have bound : s.input.byte.1.toNat % s.live.length < s.live.length :=
      Nat.mod_lt _ (List.length_pos_iff.mpr choice.1)
    obtain ⟨⟨h, v⟩, live, taken⟩ := swapRemove_of_lt bound
    simp only [taken]
    exact read.arenaRemove (swapRemove_perm taken)
  · exact read.arenaForge

theorem act (agrees : Agrees s m) (b : Build) : Ends (s.act b) Inv := by
  unfold State.act
  extract_lets item list op i l value s' read
  have before : Agrees s' m := agrees.withInput op.2
  have after : Agrees read m := agrees.withInput value.2
  split
  · exact after.insert b l i value.1
  · exact after.insert b l i value.1
  · exact before.insertEnd b l i
  · exact before.insertEnd b l i
  · exact before.remove b i
  · exact before.remove b i
  · exact after.setValue b i value.1
  · exact before.nextRoundRobin b l
  · exact after.arenaInsert value.1
  · exact before.arenaPick

theorem checkList (agrees : Agrees s m) (b : Build) (hl : l.toNat < g.L) :
    Ends (s.checkList b l) fun _ => True := by
  have walked := agrees.lists.iter_eq (b := b) l
  have count := countValue_eq agrees.container l
  simp only [State.checkList, agrees.lists.len_eq hl, walked, unwrap, Except.mapError, ok_bind]
  refine Ends.ensure_bind trivial (Ends.ensure_bind count.symm (Ends.forM fun x mem => ?_))
  have home := Model.home_eq_some.mpr mem
  have named := agrees.lists.container_eq (b := b) (agrees.lists.item_lt mem)
  simp only [State.checkItem, named, home, unwrap, Except.mapError, ok_bind, agrees.container]
  exact Ends.ensure_bind trivial (Ends.ensure trivial)

theorem checkValue (agrees : Agrees s m) (b : Build) (stored : s.values.lookup x = some v) :
    Ends (s.checkValue b x v) fun _ => True := by
  by_cases range : x.toNat < g.CAPACITY
  · simp only [State.checkValue, agrees.lists.value_eq b range, result, ok_bind]
    exact Ends.ensure (agrees.values x v stored)
  · simp only [State.checkValue, Refines.value_invalid b range, result, ok_bind]
    exact Ends.ok trivial

theorem checkDead (agrees : Agrees s m) (fits : h.Fits) :
    Ends (s.checkDead h) fun _ => True := by
  unfold State.checkDead
  split
  · rename_i absent
    exact Ends.ensure (agrees.not_live fits absent)
  · exact Ends.ok trivial

theorem check (agrees : Agrees s m) (b : Build) (lists : LISTS ≤ g.L) :
    Ends (s.check b) fun _ => True := by
  unfold State.check
  refine (Ends.forM fun l mem => ?_).bind fun _ _ => (Ends.forM fun e mem => ?_).bind fun _ _ =>
    (Ends.forM fun e mem => ?_).bind fun _ _ => (Ends.forM fun h mem => ?_).bind fun _ _ => ?_
  · obtain ⟨i, bound, rfl⟩ := List.mem_map.mp mem
    have bound := List.mem_range.mp bound
    refine agrees.checkList b (lt_of_lt_of_le ?_ lists)
    rw [UInt8.toNat_ofNat_of_lt' (bound.trans (by decide))]
    exact bound
  · exact agrees.checkValue b ((HashMap.mem_entries e.1 e.2).mp mem)
  · refine Ends.ensure ?_
    rw [agrees.resolve_toOption (agrees.fits_live mem), agrees.lookup_live]
    exact mem
  · exact agrees.checkDead (agrees.dead h mem)
  · exact Ends.ensure (agrees.arena.len.trans agrees.card_live)

end Agrees

theorem new_agrees (data : List UInt8) : Agrees (State.new data : State g p) Model.initial where
  lists := new_refines
  container x := by
    have free : ¬ (Model.initial : Model UInt64).Linked x := by
      simp [Model.Linked, Model.initial, Rota.empty]
    rw [Model.home_eq_none.mpr free]
    rfl
  values x v stored := by cases stored
  arena := Arena.new_sound
  live := Arena.objects_new
  nodup := List.nodup_nil
  dead h mem := by cases mem

theorem turn_keeps (b : Build) (lists : LISTS ≤ g.L) (s : State g p) (inv : Inv s) :
    Ends (s.turn b) Inv := by
  obtain ⟨m, agrees⟩ := inv
  refine (agrees.act b).bind fun s' inv' => ?_
  obtain ⟨m', agrees'⟩ := inv'
  exact (agrees'.check b lists).bind fun _ _ => Ends.ok ⟨m', agrees'⟩

/-- Whatever the bytes, no call panics, no assertion fails, and the target ends. -/
theorem fuzz_target_never_fails (b : Build) (usizeBits : {n : ℕ // 16 ≤ n}) (data : List UInt8) :
    ∃ s, fuzzTarget b usizeBits data = .ok s ∧ Inv s :=
  Ends.whileTurns (turn_keeps b le_rfl) ⟨_, new_agrees data⟩ 4000

end Fuzz

end RtosCore
