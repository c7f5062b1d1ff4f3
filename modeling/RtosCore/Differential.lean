import RtosCore.ListModel
import RtosCore.Numerals

/-! `tests/list_differential.rs`: a random script of calls, and after each the list it touched, in
text. The trace it is compared with comes from `list.c`. Beside it stands the same script over rotas,
which has no slots and no marker to print. -/

namespace RtosCore

namespace Differential

def LISTS : ℕ := 4

def ITEMS : ℕ := 24

/-- Capacity 28; the script uses 24. -/
def sizes : Sizes := ⟨32, LISTS, ⟨5, rfl⟩, by decide, by decide, by decide, by decide⟩

def next (rng : UInt32) : UInt32 :=
  let rng := rng ^^^ (rng <<< 13)
  let rng := rng ^^^ (rng >>> 17)
  rng ^^^ (rng <<< 5)

/-- What the generator decides for one step. -/
structure Draw where
  kind : ℕ
  list : ListId
  item : ItemId
  arg : UInt32
  rng : UInt32

def draw (rng : UInt32) : Draw :=
  let kind := next rng
  let list := next kind
  let item := next list
  let arg := next item
  { kind := kind.toNat % 100
    list := UInt8.ofNat (list.toNat % LISTS)
    item := UInt16.ofNat (item.toNat % ITEMS)
    arg
    rng := arg }

def Draw.value (d : Draw) : UInt32 := if d.arg % 16 = 0 then 0xFFFFFFFF else d.arg % 6

inductive Done
  | insert (item : ItemId) (value : UInt32) | insertEnd (item : ItemId) | remove (item : ItemId)
  | next
  deriving DecidableEq

def Done.text : Done → List Char
  | insert i v => "insert ".toList ++ numeral i.toNat ++ ' ' :: numeral v.toNat
  | insertEnd i => "insert_end ".toList ++ numeral i.toNat
  | remove i => "remove ".toList ++ numeral i.toNat
  | next => "next".toList

theorem Done.text_insert (i : ItemId) (v : UInt32) : (Done.insert i v).text =
    'i' :: 'n' :: 's' :: 'e' :: 'r' :: 't' :: ' ' :: (numeral i.toNat ++ ' ' :: numeral v.toNat) := by
  unfold Done.text
  simp

theorem Done.text_insertEnd (i : ItemId) : (Done.insertEnd i).text =
    'i' :: 'n' :: 's' :: 'e' :: 'r' :: 't' :: '_' :: 'e' :: 'n' :: 'd' :: ' ' :: numeral i.toNat := by
  unfold Done.text
  simp

theorem Done.text_remove (i : ItemId) : (Done.remove i).text =
    'r' :: 'e' :: 'm' :: 'o' :: 'v' :: 'e' :: ' ' :: numeral i.toNat := by
  unfold Done.text
  simp

theorem Done.text_next : Done.next.text = ['n', 'e', 'x', 't'] := by
  unfold Done.text
  simp

/-- One line. No `r` that is printed is negative; `idx` is `none` for the end marker. -/
structure Line where
  step : ℕ
  done : Done
  r : ℕ
  list : ListId
  len : ℕ
  items : List (ItemId × UInt32)
  idx : Option ItemId
  deriving DecidableEq

def Line.entry (e : ItemId × UInt32) : List Char := numeral e.1.toNat ++ ':' :: numeral e.2.toNat

def Line.index : Option ItemId → List Char
  | none => "end".toList
  | some cursor => numeral cursor.toNat

theorem Line.index_none : index none = ['e', 'n', 'd'] := by
  unfold index
  simp

theorem Line.index_some (cursor : ItemId) : index (some cursor) = numeral cursor.toNat := by
  unfold index
  simp

def Line.text (l : Line) : List Char :=
  numeral l.step ++ ' ' :: l.done.text ++ " r=".toList ++ numeral l.r ++ " L".toList ++
    numeral l.list.toNat ++ " len=".toList ++ numeral l.len ++ " [".toList ++
    row ' ' entry l.items ++ " ] idx=".toList ++ index l.idx ++ ['\n']

def text (lines : List Line) : List Char := lines.flatMap Line.text

structure State where
  rng : UInt32
  lists : ListsOf UInt32 sizes
  out : List Line

def printList (b : Build) (lists : ListsOf UInt32 sizes) (step : ℕ) (done : Done) (r : ℕ)
    (l : ListId) : Except Exit Line := do
  let len ← (ListsOf.len l lists).1
  let walked ← (ListsOf.iter b l lists).1
  let items ← walked.mapM fun item => do
    let value ← (ListsOf.value b item lists).1
    return (item, value)
  let cursor ← (ListsOf.cursorOf l lists).1
  return ⟨step, done, r, l, len, items, if ITEMS ≤ cursor.toNat then none else some cursor⟩

def State.print (b : Build) (n : ℕ) (done : Done) (r : ℕ) (l : ListId) (s : State) :
    Except Exit State := do
  let line ← printList b s.lists n done r l
  return { s with out := s.out ++ [line] }

def State.step (b : Build) (s : State) (n : ℕ) : Except Exit State := do
  let d := draw s.rng
  let s := { s with rng := d.rng }
  let owner ← (ListsOf.container b d.item s.lists).1
  if d.kind < 35 then
    if owner.isSome then return s
    else
      let call := ListsOf.insert b d.list d.item d.value s.lists
      call.1
      State.print b n (.insert d.item d.value) 0 d.list { s with lists := call.2 }
  else if d.kind < 60 then
    if owner.isSome then return s
    else
      let call := ListsOf.insertEnd b d.list d.item s.lists
      call.1
      State.print b n (.insertEnd d.item) 0 d.list { s with lists := call.2 }
  else if d.kind < 85 then
    match owner with
    | none => return s
    | some fromList =>
      let call := ListsOf.remove b d.item s.lists
      let r ← call.1
      State.print b n (.remove d.item) r fromList { s with lists := call.2 }
  else
    if ← (ListsOf.isEmpty d.list s.lists).1 then return s
    else
      let call := ListsOf.nextRoundRobin b d.list s.lists
      match ← call.1 with
      | some got => State.print b n .next got.toNat d.list { s with lists := call.2 }
      | none => .error .panic

/-- The lines of `run`, from any seed and for any number of steps. -/
def run (b : Build) (seed : UInt32) (steps : ℕ) : Except Exit (List Line) := do
  let s ← (List.range' 1 steps).foldlM (State.step b) ⟨seed, ListsOf.new, []⟩
  return s.out

structure Script where
  rng : UInt32
  model : Model UInt32
  out : List Line

def Script.print (n : ℕ) (done : Done) (r : ℕ) (l : ListId) (t : Script) : Script :=
  let rota := t.model.rota l
  let items := rota.items.map fun x => (x, t.model.value x)
  { t with out := t.out ++ [⟨n, done, r, l, items.length, items, rota.cursor⟩] }

def Script.step (t : Script) (n : ℕ) : Script :=
  let d := draw t.rng
  let m := t.model
  let t := { t with rng := d.rng }
  if d.kind < 35 then
    if m.Linked d.item then t
    else
      let placed := (m.setValue d.item d.value).place d.list (m.above d.value) d.item
      Script.print n (.insert d.item d.value) 0 d.list { t with model := placed }
  else if d.kind < 60 then
    if m.Linked d.item then t
    else
      let placed := m.place d.list (m.atCursor d.list) d.item
      Script.print n (.insertEnd d.item) 0 d.list { t with model := placed }
  else if d.kind < 85 then
    match m.home d.item with
    | none => t
    | some l =>
      let left := m.erase d.item
      Script.print n (.remove d.item) (left.rota l).items.length l { t with model := left }
  else
    match (m.rota d.list).nextUp with
    | none => t
    | some got => Script.print n .next got.toNat d.list { t with model := m.advance d.list }

def Script.run (seed : UInt32) (steps : ℕ) : List Line :=
  ((List.range' 1 steps).foldl Script.step ⟨seed, Model.initial, []⟩).out

end Differential

end RtosCore
