import Mathlib.Data.Nat.Bits
import Mathlib.Data.UInt
import Mathlib.Order.Lattice
import Mathlib.Data.Vector.Basic
import Mathlib.Order.Monotone.Basic

/-! `list.rs`: `list.c` remade over indices.
Items and end markers are nodes of one array and are linked by slot number. A call
works on the whole structure and keeps whatever it wrote, also when it then answers an
error, so that what a refused call leaves behind is part of the model. -/

namespace RtosCore

inductive Error
  | timeout | full | empty | noMemory | gone | invalidHandle | invalidPriority
  | invalidArgument | inIsr | notInIsr | schedulerSuspended | busy | notActive | unsupported
  deriving DecidableEq, Repr

/-- How a call ends without a value: with an error of the API, with a panic (an array index
out of range, a failed debug assertion), or never. -/
inductive Exit
  | err (e : Error) | panic | diverges
  deriving DecidableEq, Repr

abbrev ListId := UInt8
abbrev ItemId := UInt16

/-- What a list sorts by. The trait is sealed, so `MAX` is known to be the largest value. -/
class ListValue (V : Type) extends LinearOrder V where
  MAX : V
  ZERO : V
  le_max : ∀ v : V, v ≤ MAX

instance : ListValue UInt64 where
  toLinearOrder := LinearOrder.lift' UInt64.toNat fun _ _ => UInt64.toNat_inj.mp
  MAX := 0xFFFFFFFFFFFFFFFF
  ZERO := 0
  le_max v := by
    change v.toNat ≤ 0xFFFFFFFFFFFFFFFF
    have := v.toNat_lt
    omega

instance : ListValue UInt32 where
  toLinearOrder := LinearOrder.lift' UInt32.toNat fun _ _ => UInt32.toNat_inj.mp
  MAX := 0xFFFFFFFF
  ZERO := 0
  le_max v := by
    change v.toNat ≤ 0xFFFFFFFF
    have := v.toNat_lt
    omega

instance : ListValue UInt16 where
  toLinearOrder := LinearOrder.lift' UInt16.toNat fun _ _ => UInt16.toNat_inj.mp
  MAX := 0xFFFF
  ZERO := 0
  le_max v := by
    change v.toNat ≤ 0xFFFF
    have := v.toNat_lt
    omega

def NONE : UInt16 := 0xFFFF

def NO_LIST : ListId := 0xFF

/-- The const arguments `N` and `L` of `ListsOf`, with what `SIZES_FIT` asserts of them. -/
structure Sizes where
  N : ℕ
  L : ℕ
  isPowerOfTwo : N.isPowerOfTwo
  L_pos : 0 < L
  L_lt_N : L < N
  N_le : N ≤ 0x8000
  L_le : L ≤ 255

namespace Sizes

variable (g : Sizes)

/-- How many of the `N` slots can hold items. The rest hold markers. -/
def CAPACITY : ℕ := g.N - g.L

def MASK : ℕ := g.N - 1

def endOf (list : ListId) : UInt16 := UInt16.ofNat (g.CAPACITY + list.toNat)

def isEnd (link : UInt16) : Bool := g.CAPACITY ≤ link.toNat

end Sizes

structure Node (V : Type) where
  value : V
  prev : UInt16
  next : UInt16
  container : ListId
  deriving DecidableEq, Repr

def Node.EMPTY {V : Type} [ListValue V] : Node V := ⟨ListValue.ZERO, NONE, NONE, NO_LIST⟩

structure Meta where
  cursor : UInt16
  len : UInt16
  deriving DecidableEq, Repr, Inhabited

/-- Items in `0..CAPACITY`, then one marker per list; the cursor and the count of a list
stand beside them. -/
@[ext] structure ListsOf (V : Type) (g : Sizes) where
  nodes : Vector (Node V) g.N
  metas : Vector Meta g.L
  deriving DecidableEq

/-- How the crate is built. `debug` is `cfg(debug_assertions)`. The shipped code masks a link
before it indexes the nodes; with `masked` off the link is the index, and one that is not
below `N` panics as any array index does. -/
structure Build where
  debug : Bool
  masked : Bool

def Call (V : Type) (g : Sizes) (α : Type) : Type := ListsOf V g → Except Exit α × ListsOf V g

namespace Call

variable {V : Type} {g : Sizes} {α β : Type}

def pure (a : α) : Call V g α := fun s => (.ok a, s)

def bind (m : Call V g α) (k : α → Call V g β) : Call V g β := fun s =>
  match m s with
  | (.ok a, s') => k a s'
  | (.error e, s') => (.error e, s')

instance : Monad (Call V g) where
  pure := Call.pure
  bind := Call.bind

def fail (e : Error) : Call V g α := fun s => (.error (.err e), s)

def panic : Call V g α := fun s => (.error .panic, s)

def diverges : Call V g α := fun s => (.error .diverges, s)

end Call

namespace ListsOf

variable {V : Type} [ListValue V] {g : Sizes}

/-- One turn of the loop in `new`: the marker of list `l` points at itself. -/
def newMarker (s : ListsOf V g) (l : ℕ) : ListsOf V g :=
  let marker := UInt16.ofNat (g.CAPACITY + l)
  { nodes := s.nodes.setIfInBounds (g.CAPACITY + l) ⟨ListValue.MAX, marker, marker, NO_LIST⟩
    metas := s.metas.setIfInBounds l ⟨marker, 0⟩ }

def new : ListsOf V g :=
  (List.range g.L).foldl newMarker
    { nodes := Vector.replicate g.N Node.EMPTY
      metas := Vector.replicate g.L ⟨NONE, 0⟩ }

def slot (g : Sizes) (b : Build) (link : UInt16) : ℕ :=
  if b.masked then link.toNat &&& g.MASK else link.toNat

/-- `at`. -/
def atLink (b : Build) (link : UInt16) : Call V g (Node V) := fun s =>
  match s.nodes[slot g b link]? with
  | some node => (.ok node, s)
  | none => Call.panic s

def atLinkMut (b : Build) (link : UInt16) (write : Node V → Node V) : Call V g Unit := fun s =>
  match s.nodes[slot g b link]? with
  | some node => (.ok (), { s with nodes := s.nodes.setIfInBounds (slot g b link) (write node) })
  | none => Call.panic s

/-- `item`; `item_mut` makes the same check and the callers write with `atLinkMut`. -/
def item (b : Build) (item : ItemId) : Call V g (Node V) :=
  if g.CAPACITY ≤ item.toNat then .fail .invalidArgument else atLink b item

def listMeta (list : ListId) : Call V g Meta := fun s =>
  match s.metas[list.toNat]? with
  | some m => (.ok m, s)
  | none => Call.fail .invalidArgument s

def listMetaMut (list : ListId) (write : Meta → Meta) : Call V g Meta := fun s =>
  match s.metas[list.toNat]? with
  | some m => (.ok (write m), { s with metas := s.metas.setIfInBounds list.toNat (write m) })
  | none => Call.fail .invalidArgument s

def value (b : Build) (i : ItemId) : Call V g V := do
  let n ← item b i
  return n.value

def setValue (b : Build) (i : ItemId) (value : V) : Call V g Unit := do
  let _ ← item b i
  atLinkMut b i fun n => { n with value }

def container (b : Build) (i : ItemId) : Call V g (Option ListId) := do
  let n ← item b i
  return if n.container = NO_LIST then none else some n.container

def linkBetween (b : Build) (list : ListId) (i : ItemId) (before after : UInt16)
    (value : Option V) : Call V g Unit := do
  let n ← item b i
  if n.container ≠ NO_LIST then
    Call.fail .busy
  else
    atLinkMut b i fun n =>
      { value := value.getD n.value, prev := before, next := after, container := list }
    atLinkMut b before fun n => { n with next := i }
    atLinkMut b after fun n => { n with prev := i }
    let _ ← listMetaMut list fun m => { m with len := m.len + 1 }
    return ()

/-- The loop of `insert_inner`: step while the next node's value is not above `value`. The
release build has no other way out, so running out of `fuel` stands for not ending; the
debug build counts its steps and gives up past `N`. -/
def walk (b : Build) (value : V) : ℕ → ℕ → UInt16 → UInt16 → Call V g (UInt16 × UInt16)
  | 0, _, _, _ => Call.diverges
  | fuel + 1, guard, before, after => do
    let node ← atLink b after
    if value < node.value then
      return (before, after)
    else if b.debug && g.N < guard + 1 then
      Call.fail .invalidArgument
    else
      walk b value fuel (guard + 1) after node.next

def sortKey (b : Build) (i : ItemId) : Option V → Call V g V
  | some v => pure v
  | none => value b i

def sortedPlace (b : Build) (list : ListId) (value : V) : Call V g (UInt16 × UInt16) := do
  let last := g.endOf list
  let m ← atLink b last
  if value = ListValue.MAX then
    return (m.prev, last)
  else
    -- `N + 1` turns suffice: the nodes a longer walk reads are ones it has read before.
    walk b value (g.N + 1) 0 last m.next

def insertInner (b : Build) (list : ListId) (i : ItemId) (keep : Option V) : Call V g Unit := do
  let _ ← listMeta list
  let value ← sortKey b i keep
  let place ← sortedPlace b list value
  linkBetween b list i place.1 place.2 keep

def insert (b : Build) (list : ListId) (i : ItemId) (value : V) : Call V g Unit :=
  insertInner b list i (some value)

def insertKeepingValue (b : Build) (list : ListId) (i : ItemId) : Call V g Unit :=
  insertInner b list i none

def insertEnd (b : Build) (list : ListId) (i : ItemId) : Call V g Unit := do
  let m ← listMeta list
  let n ← atLink b m.cursor
  linkBetween b list i n.prev m.cursor none

def insertSorted (b : Build) (list : ListId) (i : ItemId) (value : V) : Call V g Unit := do
  let _ ← listMeta list
  let last := g.endOf list
  let m ← atLink b last
  let tail ← atLink b m.prev
  if tail.value ≤ value then
    linkBetween b list i m.prev last (some value)
  else
    insert b list i value

/-- The cursor rule of `move_to_end`: a cursor on the item steps back to its predecessor. -/
def stepBack (list : ListId) (i : ItemId) (prev cursor : UInt16) : Call V g UInt16 :=
  if cursor = i then do
    let m ← listMetaMut list fun m => { m with cursor := prev }
    return m.cursor
  else
    return cursor

def moveToEnd (b : Build) (list : ListId) (i : ItemId) : Call V g Bool := do
  let m ← listMeta list
  let n ← item b i
  if n.container ≠ list then
    return false
  else
    atLinkMut b n.next fun x => { x with prev := n.prev }
    atLinkMut b n.prev fun x => { x with next := n.next }
    let cursor ← stepBack list i n.prev m.cursor
    let c ← atLink b cursor
    atLinkMut b i fun x => { x with prev := c.prev, next := cursor }
    atLinkMut b c.prev fun x => { x with next := i }
    atLinkMut b cursor fun x => { x with prev := i }
    return true

def unlinkInner (b : Build) (i : ItemId) : Call V g UInt16 := do
  let n ← item b i
  if n.container = NO_LIST then
    Call.fail .notActive
  else
    atLinkMut b n.next fun x => { x with prev := n.prev }
    atLinkMut b n.prev fun x => { x with next := n.next }
    atLinkMut b i fun x => { x with container := NO_LIST }
    let m ← listMetaMut n.container fun m =>
      { cursor := if m.cursor = i then n.prev else m.cursor, len := m.len - 1 }
    return m.len

def remove (b : Build) (i : ItemId) : Call V g ℕ := do
  let len ← unlinkInner b i
  return len.toNat

def unlink (b : Build) (i : ItemId) : Call V g Unit := do
  let _ ← unlinkInner b i
  return ()

/-- The item the cursor moves to. The marker's `next` is the first item, so one read serves
both a cursor on an item and one on the marker. -/
def nextOfCursor (b : Build) (list : ListId) (cursor : UInt16) : Call V g UInt16 := do
  let n ← atLink b cursor
  if n.next = g.endOf list then do
    let last ← atLink b n.next
    return last.next
  else
    return n.next

def nextRoundRobin (b : Build) (list : ListId) : Call V g (Option ItemId) := do
  let m ← listMeta list
  if m.len = 0 then
    return none
  else
    let next ← nextOfCursor b list m.cursor
    let _ ← listMetaMut list fun m => { m with cursor := next }
    if b.debug && g.isEnd next then Call.panic else return some next

def isEmpty (list : ListId) : Call V g Bool := do
  let m ← listMeta list
  return m.len = 0

def isEmptyOf (list : ListId) : Call V g Bool := fun s =>
  match s.metas[list.toNat]? with
  | some m => (.ok (m.len = 0), s)
  | none => (.ok true, s)

def len (list : ListId) : Call V g ℕ := do
  let m ← listMeta list
  return m.len.toNat

def head (b : Build) (list : ListId) : Call V g (Option ItemId) := do
  let m ← listMeta list
  let last ← atLink b (g.endOf list)
  return if 0 < m.len ∧ ¬ g.isEnd last.next then some last.next else none

def headValue (b : Build) (list : ListId) : Call V g V := do
  let _ ← listMeta list
  let last ← atLink b (g.endOf list)
  let first ← atLink b last.next
  return first.value

def tailValue (b : Build) (list : ListId) : Call V g V := do
  let _ ← listMeta list
  let last ← atLink b (g.endOf list)
  let tail ← atLink b last.prev
  return tail.value

/-- The loop of `is_sorted`, which counts its steps in every build. -/
def sortedFrom (b : Build) : ℕ → ℕ → Option V → UInt16 → Call V g Bool
  | 0, _, _, _ => Call.diverges
  | fuel + 1, guard, previous, node =>
    if g.isEnd node then
      return true
    else do
      let n ← atLink b node
      if previous.any (n.value < ·) then
        return false
      else if g.N < guard + 1 then
        Call.fail .invalidArgument
      else
        sortedFrom b fuel (guard + 1) (some n.value) n.next

def isSorted (b : Build) (list : ListId) : Call V g Bool := do
  let _ ← listMeta list
  let last ← atLink b (g.endOf list)
  sortedFrom b (g.N + 1) 0 none last.next

def cursorOf (list : ListId) : Call V g ItemId := do
  let m ← listMeta list
  return m.cursor

def nextAndValue (b : Build) (i : ItemId) : Call V g (Option ItemId × V) := do
  let n ← item b i
  if n.container = NO_LIST then
    Call.fail .notActive
  else
    return (if g.isEnd n.next then none else some n.next, n.value)

def next (b : Build) (i : ItemId) : Call V g (Option ItemId) := do
  let n ← item b i
  if n.container = NO_LIST then
    Call.fail .notActive
  else
    return if g.isEnd n.next then none else some n.next

/-- `Iter::next` until it answers `None`: the count alone ends the walk. -/
def iterFrom (b : Build) : ℕ → UInt16 → Call V g (List ItemId)
  | 0, _ => return []
  | remaining + 1, item => do
    let n ← atLink b item
    let rest ← iterFrom b remaining n.next
    return item :: rest

def iter (b : Build) (list : ListId) : Call V g (List ItemId) := fun s =>
  match s.metas[list.toNat]? with
  | some m => (do
      let last ← atLink b (g.endOf list)
      iterFrom b m.len.toNat last.next : Call V g (List ItemId)) s
  | none => iterFrom b 0 NONE s

end ListsOf

inductive Op (V : Type)
  | insert (list : ListId) (item : ItemId) (value : V)
  | insertKeepingValue (list : ListId) (item : ItemId)
  | insertEnd (list : ListId) (item : ItemId)
  | insertSorted (list : ListId) (item : ItemId) (value : V)
  | moveToEnd (list : ListId) (item : ItemId)
  | remove (item : ItemId)
  | unlink (item : ItemId)
  | setValue (item : ItemId) (value : V)
  | nextRoundRobin (list : ListId)
  deriving DecidableEq

inductive Answer
  | unit | count (n : ℕ) | moved (done : Bool) | chosen (item : Option ItemId)
  deriving DecidableEq

inductive Query
  | value (item : ItemId) | container (item : ItemId) | isEmpty (list : ListId)
  | isEmptyOf (list : ListId) | len (list : ListId) | head (list : ListId)
  | headValue (list : ListId) | tailValue (list : ListId) | isSorted (list : ListId)
  | cursorOf (list : ListId) | next (item : ItemId) | nextAndValue (item : ItemId)
  | iter (list : ListId)
  deriving DecidableEq

inductive Reply (V : Type)
  | value (v : V) | container (list : Option ListId) | flag (b : Bool) | count (n : ℕ)
  | item (i : Option ItemId) | link (i : ItemId) | itemValue (i : Option ItemId) (v : V)
  | items (is : List ItemId)
  deriving DecidableEq

namespace ListsOf

variable {V : Type} [ListValue V] {g : Sizes}

def call (b : Build) : Op V → Call V g Answer
  | .insert l i v => do insert b l i v; return .unit
  | .insertKeepingValue l i => do insertKeepingValue b l i; return .unit
  | .insertEnd l i => do insertEnd b l i; return .unit
  | .insertSorted l i v => do insertSorted b l i v; return .unit
  | .moveToEnd l i => do let done ← moveToEnd b l i; return .moved done
  | .remove i => do let n ← remove b i; return .count n
  | .unlink i => do unlink b i; return .unit
  | .setValue i v => do setValue b i v; return .unit
  | .nextRoundRobin l => do let i ← nextRoundRobin b l; return .chosen i

def query (b : Build) : Query → Call V g (Reply V)
  | .value i => do let v ← value b i; return .value v
  | .container i => do let c ← container b i; return .container c
  | .isEmpty l => do let e ← isEmpty l; return .flag e
  | .isEmptyOf l => do let e ← isEmptyOf l; return .flag e
  | .len l => do let n ← len l; return .count n
  | .head l => do let i ← head b l; return .item i
  | .headValue l => do let v ← headValue b l; return .value v
  | .tailValue l => do let v ← tailValue b l; return .value v
  | .isSorted l => do let e ← isSorted b l; return .flag e
  | .cursorOf l => do let c ← cursorOf l; return .link c
  | .next i => do let n ← next b i; return .item n
  | .nextAndValue i => do let n ← nextAndValue b i; return .itemValue n.1 n.2
  | .iter l => do let is ← iter b l; return .items is

def run (b : Build) : List (Op V) → ListsOf V g → List (Except Exit Answer) × ListsOf V g
  | [], s => ([], s)
  | op :: ops, s =>
    let first := call b op s
    let rest := run b ops first.2
    (first.1 :: rest.1, rest.2)

def after (b : Build) (ops : List (Op V)) (s : ListsOf V g) : ListsOf V g := (run b ops s).2

end ListsOf

end RtosCore
