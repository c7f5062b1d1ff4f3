import RtosCore.DifferentialSound

/-! `oracle/list/driver.c`: the same script on the other side of the differential. It is built
against the kernel's `list.c` and `list.h`, which are not here; what it calls of them is a parameter,
over a memory of any type, and what they document about it is said in terms of rotas. -/

namespace RtosCore

namespace Differential

inductive Pointer
  | item (i : ItemId) | marker (l : ListId)
  deriving DecidableEq

def Pointer.indexOf : Pointer → Option ItemId
  | item i => some i
  | marker _ => none

structure ListH (S : Type) where
  vListInitialise : ListId → S → S
  vListInitialiseItem : ItemId → S → S
  listSET_LIST_ITEM_OWNER : ItemId → Pointer → S → S
  listSET_LIST_ITEM_VALUE : ItemId → UInt32 → S → S
  vListInsert : ListId → ItemId → S → S
  vListInsertEnd : ListId → ItemId → S → S
  uxListRemove : ItemId → S → ℕ × S
  listGET_OWNER_OF_NEXT_ENTRY : ListId → S → Pointer × S
  listLIST_ITEM_CONTAINER : S → ItemId → Option ListId
  listLIST_IS_EMPTY : S → ListId → Bool
  listCURRENT_LIST_LENGTH : S → ListId → ℕ
  listGET_HEAD_ENTRY : S → ListId → Pointer
  listGET_NEXT : S → Pointer → Pointer
  listGET_LIST_ITEM_VALUE : S → ItemId → UInt32
  pxIndex : S → ListId → Pointer

structure Driver (S : Type) where
  rng : UInt32
  memory : S
  out : List Char

namespace ListH

variable {S : Type} (H : ListH S)

/-- The `while` of `print_list`; out of turns, or with a marker of another list, there is no text. -/
def walk (memory : S) (l : ListId) : ℕ → Pointer → Option (List Char)
  | 0, _ => none
  | n + 1, p =>
    if p = .marker l then some []
    else do
      let i ← p.indexOf
      let rest ← walk memory l n (H.listGET_NEXT memory p)
      return ' ' :: numeral i.toNat ++ ':' :: numeral (H.listGET_LIST_ITEM_VALUE memory i).toNat ++
        rest

def printList (turns : ℕ) (memory : S) (step : ℕ) (op : List Char) (r : ℕ) (l : ListId) :
    Option (List Char) := do
  let entries ← H.walk memory l turns (H.listGET_HEAD_ENTRY memory l)
  let index ←
    if H.pxIndex memory l = .marker l then some "end".toList
    else (H.pxIndex memory l).indexOf.map fun i => numeral i.toNat
  return numeral step ++ ' ' :: op ++ " r=".toList ++ numeral r ++ " L".toList ++
    numeral l.toNat ++ " len=".toList ++ numeral (H.listCURRENT_LIST_LENGTH memory l) ++
    " [".toList ++ entries ++ " ] idx=".toList ++ index ++ ['\n']

def print (turns : ℕ) (step : ℕ) (op : List Char) (r : ℕ) (l : ListId) (s : Driver S) :
    Option (Driver S) := do
  let line ← H.printList turns s.memory step op r l
  return { s with out := s.out ++ line }

def step (turns : ℕ) (s : Driver S) (n : ℕ) : Option (Driver S) :=
  let d := draw s.rng
  let s := { s with rng := d.rng }
  let owner := H.listLIST_ITEM_CONTAINER s.memory d.item
  if d.kind < 35 then
    if owner.isSome then some s
    else
      let v := d.value
      let memory := H.vListInsert d.list d.item (H.listSET_LIST_ITEM_VALUE d.item v s.memory)
      let op := "insert ".toList ++ numeral d.item.toNat ++ ' ' :: numeral v.toNat
      H.print turns n op 0 d.list { s with memory }
  else if d.kind < 60 then
    if owner.isSome then some s
    else
      let memory := H.vListInsertEnd d.list d.item s.memory
      H.print turns n ("insert_end ".toList ++ numeral d.item.toNat) 0 d.list { s with memory }
  else if d.kind < 85 then
    match owner with
    | none => some s
    | some fromList =>
      let (r, memory) := H.uxListRemove d.item s.memory
      H.print turns n ("remove ".toList ++ numeral d.item.toNat) r fromList { s with memory }
  else
    if H.listLIST_IS_EMPTY s.memory d.list then some s
    else
      let (got, memory) := H.listGET_OWNER_OF_NEXT_ENTRY d.list s.memory
      match got.indexOf with
      | none => none
      | some r => H.print turns n "next".toList r.toNat d.list { s with memory }

def initialised (static : S) : S :=
  let memory := (List.range LISTS).foldl (fun memory l => H.vListInitialise (UInt8.ofNat l) memory) static
  (List.range ITEMS).foldl (fun memory i =>
    H.listSET_LIST_ITEM_OWNER (UInt16.ofNat i) (.item (UInt16.ofNat i))
      (H.vListInitialiseItem (UInt16.ofNat i) memory)) memory

def main (turns : ℕ) (static : S) (seed : UInt32) (steps : ℕ) : Option (List Char) := do
  let s ← (List.range' 1 steps).foldlM (H.step turns) ⟨seed, H.initialised static, []⟩
  return s.out

end ListH

/-- The node at a position of a list: past the last item stands the marker. -/
def pointer (m : Model UInt32) (l : ListId) (j : ℕ) : Pointer :=
  ((m.rota l).items[j]?).elim (.marker l) .item

/-- What `list.c` documents, for the lists and the items that there are: `holds` says that a memory
stands for rotas. `vListInsert` puts an item that is in no list behind all values that are not
greater, `vListInsertEnd` in front of `pxIndex`, `uxListRemove` moves `pxIndex` back off the item and
answers how many are left. -/
structure ListH.Documented {S : Type} (H : ListH S) (static : S) (holds : S → Model UInt32 → Prop) :
    Prop where
  initialised : holds (H.initialised static) Model.initial
  setValue : ∀ {memory m} {x : ItemId} (v : UInt32), holds memory m → x.toNat < ITEMS → ¬ m.Linked x →
    holds (H.listSET_LIST_ITEM_VALUE x v memory) (m.setValue x v)
  insert : ∀ {memory m} {l : ListId} {x : ItemId}, holds memory m → l.toNat < LISTS → x.toNat < ITEMS →
    ¬ m.Linked x → holds (H.vListInsert l x memory) (m.place l (m.above (m.value x)) x)
  insertEnd : ∀ {memory m} {l : ListId} {x : ItemId}, holds memory m → l.toNat < LISTS →
    x.toNat < ITEMS → ¬ m.Linked x → holds (H.vListInsertEnd l x memory) (m.place l (m.atCursor l) x)
  remove : ∀ {memory m} {l : ListId} {x : ItemId}, holds memory m → m.home x = some l →
    (H.uxListRemove x memory).1 = ((m.erase x).rota l).items.length ∧
      holds (H.uxListRemove x memory).2 (m.erase x)
  next : ∀ {memory m} {l : ListId} {x : ItemId}, holds memory m → l.toNat < LISTS →
    (m.rota l).nextUp = some x → (H.listGET_OWNER_OF_NEXT_ENTRY l memory).1 = .item x ∧
      holds (H.listGET_OWNER_OF_NEXT_ENTRY l memory).2 (m.advance l)
  container : ∀ {memory m} {x : ItemId}, holds memory m → x.toNat < ITEMS →
    H.listLIST_ITEM_CONTAINER memory x = m.home x
  isEmpty : ∀ {memory m} {l : ListId}, holds memory m → l.toNat < LISTS →
    H.listLIST_IS_EMPTY memory l = decide ((m.rota l).items = [])
  length : ∀ {memory m} {l : ListId}, holds memory m → l.toNat < LISTS →
    H.listCURRENT_LIST_LENGTH memory l = (m.rota l).items.length
  head : ∀ {memory m} {l : ListId}, holds memory m → l.toNat < LISTS →
    H.listGET_HEAD_ENTRY memory l = pointer m l 0
  behind : ∀ {memory m} {l : ListId} {x : ItemId} {j : ℕ}, holds memory m → l.toNat < LISTS →
    (m.rota l).items[j]? = some x → H.listGET_NEXT memory (.item x) = pointer m l (j + 1)
  value : ∀ {memory m} {x : ItemId}, holds memory m → x.toNat < ITEMS →
    H.listGET_LIST_ITEM_VALUE memory x = m.value x
  index : ∀ {memory m} {l : ListId}, holds memory m → l.toNat < LISTS →
    H.pxIndex memory l = (m.rota l).cursor.elim (.marker l) .item

namespace ListH.Documented

variable {S : Type} {H : ListH S} {static memory : S} {holds : S → Model UInt32 → Prop}
variable {m : Model UInt32} {l : ListId} {turns : ℕ}

section Printing

variable (documented : H.Documented static holds) (h : holds memory m) (hl : l.toNat < LISTS)
variable (low : ∀ x, m.Linked x → x.toNat < ITEMS)

include documented h hl low

theorem walk (j n : ℕ) (enough : (m.rota l).items.length < j + n) (inside : j ≤ (m.rota l).items.length) :
    H.walk memory l n (pointer m l j) =
      some (row ' ' Line.entry (((m.rota l).items.drop j).map fun x => (x, m.value x))) := by
  induction n generalizing j with
  | zero => omega
  | succ n ih =>
    rw [ListH.walk]
    cases here : (m.rota l).items[j]? with
    | none =>
      have ended : (m.rota l).items.drop j = [] :=
        List.drop_eq_nil_of_le (List.getElem?_eq_none_iff.mp here)
      rw [pointer, here, ended]
      exact if_pos rfl
    | some x =>
      obtain ⟨bound, there⟩ := List.getElem?_eq_some_iff.mp here
      have member : m.Linked x := ⟨l, there ▸ List.getElem_mem bound⟩
      have rest : (m.rota l).items.drop j = x :: (m.rota l).items.drop (j + 1) := by
        rw [← there]
        exact List.drop_eq_getElem_cons bound
      have follows := ih (j + 1) (by omega) bound
      rw [pointer, here, Option.elim_some, if_neg Pointer.noConfusion, documented.behind h hl here,
        follows, rest]
      simp only [Pointer.indexOf, documented.value h (low x member), Option.bind_eq_bind,
        Option.bind_some]
      rfl

theorem printList (enough : ITEMS < turns) (n : ℕ) (done : Done) (r : ℕ) :
    H.printList turns memory n done.text r l = some (Line.text ⟨n, done, r, l, (m.rota l).items.length,
      (m.rota l).items.map fun x => (x, m.value x), (m.rota l).cursor⟩) := by
  have few : (m.rota l).items.length ≤ ITEMS := by
    have inside : (m.rota l).items.map UInt16.toNat ⊆ List.range ITEMS := by
      intro i mem
      obtain ⟨x, member, rfl⟩ := List.mem_map.mp mem
      exact List.mem_range.mpr (low x ⟨l, member⟩)
    have bound := ((m.rota l).nodup.map fun _ _ => UInt16.toNat_inj.mp).length_le_of_subset inside
    rwa [List.length_map, List.length_range] at bound
  have walked := documented.walk h hl low 0 turns (by omega) (Nat.zero_le _)
  rw [ListH.printList, documented.head h hl, walked, documented.index h hl, documented.length h hl]
  cases (m.rota l).cursor with
  | none =>
    simp only [Option.elim_none, if_true]
    rfl
  | some c => rfl

end Printing

theorem place_valued {x : ItemId} (free : ¬ m.Linked x) (v : UInt32) :
    (m.setValue x v).place l ((m.setValue x v).above ((m.setValue x v).value x)) x =
      (m.setValue x v).place l (m.above v) x := by
  have same : ∀ y ∈ (m.rota l).items,
      (m.setValue x v).above ((m.setValue x v).value x) y = m.above v y := by
    intro y member
    have other : y ≠ x := fun same => free ⟨l, same ▸ member⟩
    rw [Model.above, Model.above, Model.setValue_value, if_pos rfl, Model.setValue_value, if_neg other]
  unfold Model.place
  split
  · rfl
  · ext1
    · exact congrArg (Function.update (m.setValue x v).rota l) (Rota.place_congr same)
    · rfl

structure Alike (holds : S → Model UInt32 → Prop) (s : Driver S) (t : Script) : Prop where
  rng : s.rng = t.rng
  memory : holds s.memory t.model
  out : s.out = text t.out

section Steps

variable {s : Driver S} {t : Script} {n : ℕ}
variable (documented : H.Documented static holds) (enough : ITEMS < turns)

include documented enough

theorem print (h : Alike holds s t) (hl : l.toNat < LISTS)
    (low : ∀ x, t.model.Linked x → x.toNat < ITEMS) (n : ℕ) (done : Done) (r : ℕ) :
    ∃ s', H.print turns n done.text r l s = some s' ∧ Alike holds s' (t.print n done r l) := by
  rw [ListH.print, documented.printList h.memory hl low enough]
  refine ⟨_, rfl, h.rng, h.memory, ?_⟩
  change s.out ++ _ = text (t.out ++ [_])
  rw [h.out, text, text, List.flatMap_append, List.flatMap_singleton, List.length_map]

theorem made (h : Alike holds s t) {memory : S} {model : Model UInt32} (after : holds memory model)
    (hl : l.toNat < LISTS) (low : ∀ x, model.Linked x → x.toNat < ITEMS) (n : ℕ) (done : Done) (r : ℕ) :
    ∃ s', H.print turns n done.text r l { s with memory } = some s' ∧
      Alike holds s' (Script.print n done r l { t with model }) := by
  have both : Alike holds { s with memory } { t with model } := ⟨h.rng, after, h.out⟩
  exact documented.print enough both hl low n done r

theorem step (h : Alike holds s t) (low : ∀ x, (t.step n).model.Linked x → x.toNat < ITEMS)
    (bounds : ∀ l, ∀ x ∈ (t.model.rota l).items, l.toNat < LISTS) :
    ∃ s', H.step turns s n = some s' ∧ Alike holds s' (t.step n) := by
  have hl := draw_list t.rng
  have hi := draw_item t.rng
  unfold ListH.step
  unfold Script.step at low ⊢
  rw [h.rng]
  generalize draw t.rng = d at hl hi low ⊢
  have kept : Alike holds { s with rng := d.rng } { t with rng := d.rng } := ⟨rfl, h.memory, h.out⟩
  simp only [documented.container h.memory hi] at low ⊢
  by_cases inserts : d.kind < 35
  · simp only [inserts, if_true, Model.home_isSome] at low ⊢
    by_cases linked : t.model.Linked d.item
    · rw [if_pos linked, if_pos linked]
      exact ⟨_, rfl, kept⟩
    · rw [if_neg linked] at low ⊢
      rw [if_neg linked]
      have valued := documented.setValue d.value h.memory hi linked
      have after := documented.insert valued hl hi (mt Model.linked_setValue.mp linked)
      rw [place_valued linked] at after
      exact documented.made enough kept after hl low n (.insert d.item d.value) 0
  simp only [inserts, if_false] at low ⊢
  by_cases appends : d.kind < 60
  · simp only [appends, if_true, Model.home_isSome] at low ⊢
    by_cases linked : t.model.Linked d.item
    · rw [if_pos linked, if_pos linked]
      exact ⟨_, rfl, kept⟩
    · rw [if_neg linked] at low ⊢
      rw [if_neg linked]
      have after := documented.insertEnd h.memory hl hi linked
      exact documented.made enough kept after hl low n (.insertEnd d.item) 0
  simp only [appends, if_false] at low ⊢
  by_cases removes : d.kind < 85
  · simp only [removes, if_true] at low ⊢
    cases home : t.model.home d.item with
    | none => exact ⟨_, rfl, kept⟩
    | some l =>
      simp only [home] at low ⊢
      obtain ⟨left, after⟩ := documented.remove h.memory home
      rw [left]
      exact documented.made enough kept after (bounds l _ (Model.home_eq_some.mp home)) low n
        (.remove d.item) _
  · simp only [removes, if_false, documented.isEmpty h.memory hl] at low ⊢
    cases up : (t.model.rota d.list).nextUp with
    | none =>
      rw [if_pos (decide_eq_true (Rota.nextUp_eq_none.mp up))]
      exact ⟨_, rfl, kept⟩
    | some got =>
      have nonempty : (t.model.rota d.list).items ≠ [] := List.ne_nil_of_mem (Rota.nextUp_mem up)
      rw [if_neg (by simpa using nonempty)]
      simp only [up] at low
      obtain ⟨turn, after⟩ := documented.next h.memory hl up
      rw [turn]
      exact documented.made enough kept after hl low n .next _

theorem run (b : Build) (ns : List ℕ) {r : State} (beside : Beside r t) (h : Alike holds s t) :
    ∃ r' s', ns.foldlM (State.step b) r = .ok r' ∧ ns.foldlM (H.step turns) s = some s' ∧
      Beside r' (ns.foldl Script.step t) ∧ Alike holds s' (ns.foldl Script.step t) := by
  induction ns generalizing r s t with
  | nil => exact ⟨r, s, rfl, rfl, beside, h⟩
  | cons n ns ih =>
    obtain ⟨r', went, beside'⟩ := beside.step b n
    obtain ⟨s', went', h'⟩ := documented.step enough h beside'.low
      fun l x mem => (beside.lists.bounds l x mem).1
    obtain ⟨r'', s'', done, done', rest⟩ := ih beside' h'
    refine ⟨r'', s'', ?_, ?_, rest⟩
    · rw [List.foldlM_cons, went, ok_bind, done]
    · rw [List.foldlM_cons, went', Option.bind_eq_bind, Option.bind_some, done']

end Steps

end ListH.Documented

/-- Whatever the memory of `list.c` is like: if it does what it documents, both sides get through the
script, from every seed, and print the same text. -/
theorem both_sides_print_alike {S : Type} (H : ListH S) (static : S)
    (holds : S → Model UInt32 → Prop) (documented : H.Documented static holds) (b : Build) (turns : ℕ)
    (enough : ITEMS < turns) (seed : UInt32) (steps : ℕ) :
    ∃ lines, run b seed steps = .ok lines ∧ H.main turns static seed steps = some (text lines) := by
  have beside : Beside ⟨seed, ListsOf.new, []⟩ ⟨seed, Model.initial, []⟩ :=
    ⟨rfl, rfl, new_refines, fun x linked => by
      simp [Model.Linked, Model.initial, Rota.empty] at linked⟩
  have alike : ListH.Documented.Alike holds ⟨seed, H.initialised static, []⟩
      ⟨seed, Model.initial, []⟩ := ⟨rfl, documented.initialised, rfl⟩
  obtain ⟨r, s, went, went', after, alike⟩ :=
    documented.run enough b (List.range' 1 steps) beside alike
  refine ⟨r.out, ?_, ?_⟩
  · rw [run, went]
    rfl
  · rw [ListH.main, went', after.out, ← alike.out]
    rfl

def rotas : ListH (Model UInt32) where
  vListInitialise _ m := m
  vListInitialiseItem _ m := m
  listSET_LIST_ITEM_OWNER _ _ m := m
  listSET_LIST_ITEM_VALUE x v m := m.setValue x v
  vListInsert l x m := m.place l (m.above (m.value x)) x
  vListInsertEnd l x m := m.place l (m.atCursor l) x
  uxListRemove x m := ((m.home x).elim 0 fun l => ((m.erase x).rota l).items.length, m.erase x)
  listGET_OWNER_OF_NEXT_ENTRY l m := ((m.rota l).nextUp.elim (.marker l) .item, m.advance l)
  listLIST_ITEM_CONTAINER m x := m.home x
  listLIST_IS_EMPTY m l := (m.rota l).items = []
  listCURRENT_LIST_LENGTH m l := (m.rota l).items.length
  listGET_HEAD_ENTRY m l := pointer m l 0
  listGET_NEXT m
    | .item x => (m.home x).elim (.item x) fun l => pointer m l ((m.rota l).items.idxOf x + 1)
    | .marker l => pointer m l 0
  listGET_LIST_ITEM_VALUE m x := m.value x
  pxIndex m l := (m.rota l).cursor.elim (.marker l) .item

theorem rotas_documented : rotas.Documented Model.initial Eq where
  initialised := rfl
  setValue := by
    rintro m _ x v rfl - -
    rfl
  insert := by
    rintro m _ l x rfl - - -
    rfl
  insertEnd := by
    rintro m _ l x rfl - - -
    rfl
  remove := by
    rintro m _ l x rfl home
    refine ⟨?_, rfl⟩
    change (m.home x).elim 0 _ = _
    rw [home]
    rfl
  next := by
    rintro m _ l x rfl - up
    refine ⟨?_, rfl⟩
    change (m.rota l).nextUp.elim _ _ = _
    rw [up]
    rfl
  container := by
    rintro m _ x rfl -
    rfl
  isEmpty := by
    rintro m _ l rfl -
    rfl
  length := by
    rintro m _ l rfl -
    rfl
  head := by
    rintro m _ l rfl -
    rfl
  behind := by
    rintro m _ l x j rfl - here
    obtain ⟨bound, there⟩ := List.getElem?_eq_some_iff.mp here
    have home : m.home x = some l := Model.home_eq_some.mpr (there ▸ List.getElem_mem bound)
    change (m.home x).elim _ _ = _
    rw [home, Option.elim_some, ← there, (m.rota l).nodup.idxOf_getElem]
  value := by
    rintro m _ x rfl -
    rfl
  index := by
    rintro m _ l rfl -
    rfl

theorem both_sides_print_alike_rotas :
    ∃ lines, run ⟨false, true⟩ 0x9e3779b9 50000 = .ok lines ∧
      rotas.main 25 Model.initial 0x9e3779b9 50000 = some (text lines) :=
  both_sides_print_alike rotas Model.initial Eq rotas_documented ⟨false, true⟩ 25 (by decide)
    0x9e3779b9 50000

end Differential

end RtosCore
