import RtosCore.ListCode
import Mathlib.Data.Vector.Basic

/-! `handle.rs` and `arena.rs`: slots of one type, named by handles that carry the generation
the slot had when the object was put there. A slot is free when bit 16 of its generation is
set; nothing else says so. -/

namespace RtosCore

inductive Kind
  | task | queue | timer | eventGroup | streamBuffer
  deriving DecidableEq, Repr

@[ext] structure Handle (K : Kind) where
  index : UInt32
  generation : UInt32
  deriving DecidableEq, Repr

namespace Handle

variable {K : Kind}

def MAX_INDEX : UInt32 := 0xFFFF - 1

def NULL : Handle K := ⟨0, 0⟩

def fromParts (index generation : UInt32) : Handle K := ⟨index, generation⟩

def isNull (h : Handle K) : Bool := h.generation = 0

def toRaw (h : Handle K) : UInt32 := (h.generation <<< 16) ||| h.index

def fromRaw (raw : UInt32) : Handle K := fromParts (raw &&& 0xFFFF) (raw >>> 16)

end Handle

/-- The const argument `N` of `Arena`, what `CAPACITY_FITS` asserts of it, and what the build
decides: the width of `usize` and whether `T` has a destructor (`needs_drop`). -/
structure Shape where
  N : ℕ
  capacityFits : N ≤ Handle.MAX_INDEX.toNat
  usizeBits : ℕ
  usizeBits_ge : 16 ≤ usizeBits
  needsDrop : Bool

namespace Shape

variable (p : Shape)

def asUsize (i : UInt32) : ℕ := i.toNat % 2 ^ p.usizeBits

def wrappingSucc (n : ℕ) : ℕ := (n + 1) % 2 ^ p.usizeBits

def wrappingPred (n : ℕ) : ℕ := (n + (2 ^ p.usizeBits - 1)) % 2 ^ p.usizeBits

end Shape

def FREE : UInt32 := (1 : UInt32) <<< 16

def live (generation : UInt32) : Bool := generation &&& FREE = 0

structure Slot (T : Type) where
  generation : UInt32
  value : T

@[ext] structure Arena (K : Kind) (T : Type) (p : Shape) where
  slots : Vector (Slot T) p.N
  len : ℕ

/-- The generation `try_insert` gives the slot it occupies. -/
def occupied (generation : UInt32) : UInt32 :=
  let next := (generation &&& 0xFFFF) + 1
  if 0xFFFF < next ∨ next = 0 then 1 else next

namespace Arena

variable {K : Kind} {T : Type} {p : Shape}

/-- `Default` is what a free slot holds. -/
def new [Inhabited T] : Arena K T p where
  slots := Vector.replicate p.N ⟨FREE ||| 1, default⟩
  len := 0

def isEmpty (a : Arena K T p) : Bool := a.len = 0

def capacity (_ : Arena K T p) : ℕ := p.N

def tryInsert (a : Arena K T p) (value : T) : Except T (Handle K) × Arena K T p :=
  match a.slots.toList.findIdx? fun s => !live s.generation with
  | none => (.error value, a)
  | some index =>
    match a.slots[index]? with
    | none => (.error value, a)
    | some slot =>
      let generation := occupied slot.generation
      (.ok (Handle.fromParts (UInt32.ofNat index) generation),
        { slots := a.slots.setIfInBounds index ⟨generation, value⟩
          len := p.wrappingSucc a.len })

def insert (a : Arena K T p) (value : T) : Except Error (Handle K) × Arena K T p :=
  ((a.tryInsert value).1.mapError fun _ => .noMemory, (a.tryInsert value).2)

def get (a : Arena K T p) (h : Handle K) : Option T :=
  match a.slots[p.asUsize h.index]? with
  | none => none
  | some slot => if slot.generation ≠ h.generation then none else some slot.value

def contains (a : Arena K T p) (h : Handle K) : Bool := (a.get h).isSome

/-- `get_mut`: what it finds, and what is then written through it. -/
def getMut (a : Arena K T p) (h : Handle K) (write : T → T) : Option T × Arena K T p :=
  match a.slots[p.asUsize h.index]? with
  | none => (none, a)
  | some slot =>
    if slot.generation ≠ h.generation then (none, a)
    else
      let slots := a.slots.setIfInBounds (p.asUsize h.index) { slot with value := write slot.value }
      (some slot.value, { a with slots })

def why (h : Handle K) : Error := if h.isNull then .invalidHandle else .gone

def resolve (a : Arena K T p) (h : Handle K) : Except Error T :=
  match a.slots[p.asUsize h.index]? with
  | none => .error .invalidHandle
  | some slot => if slot.generation ≠ h.generation then .error (why h) else .ok slot.value

def resolveMut (a : Arena K T p) (h : Handle K) (write : T → T) :
    Except Error T × Arena K T p :=
  match a.slots[p.asUsize h.index]? with
  | none => (.error .invalidHandle, a)
  | some slot =>
    if slot.generation ≠ h.generation then (.error (why h), a)
    else
      let slots := a.slots.setIfInBounds (p.asUsize h.index) { slot with value := write slot.value }
      (.ok slot.value, { a with slots })

def iter (a : Arena K T p) : List (Handle K × T) :=
  (a.slots.toList.zipIdx.filter fun s => live s.1.generation).map fun s =>
    (Handle.fromParts (UInt32.ofNat s.2) s.1.generation, s.1.value)

def iterMut (a : Arena K T p) (write : Handle K → T → T) : List (Handle K × T) × Arena K T p :=
  let slots := a.slots.mapIdx fun i s =>
    if live s.generation then
      { s with value := write (Handle.fromParts (UInt32.ofNat i) s.generation) s.value }
    else s
  (a.iter, { a with slots })

def handleAt (a : Arena K T p) (index : UInt16) : Option (Handle K) :=
  match a.slots[index.toNat]? with
  | none => none
  | some slot =>
    if live slot.generation then
      some (Handle.fromParts (UInt32.ofNat index.toNat) slot.generation)
    else none

variable [Inhabited T]

def discard (a : Arena K T p) (h : Handle K) : Bool × Arena K T p :=
  match a.slots[p.asUsize h.index]? with
  | none => (false, a)
  | some slot =>
    if slot.generation ≠ h.generation then (false, a)
    else
      let value := if p.needsDrop then default else slot.value
      (true,
        { slots := a.slots.setIfInBounds (p.asUsize h.index) ⟨slot.generation ||| FREE, value⟩
          len := p.wrappingPred a.len })

def remove (a : Arena K T p) (h : Handle K) : Option T × Arena K T p :=
  match a.slots[p.asUsize h.index]? with
  | none => (none, a)
  | some slot =>
    if slot.generation ≠ h.generation then (none, a)
    else
      (some slot.value,
        { slots := a.slots.setIfInBounds (p.asUsize h.index) ⟨slot.generation ||| FREE, default⟩
          len := p.wrappingPred a.len })

end Arena

/-- The calls that may change an arena. What is written through the three borrowing calls is
part of the call. -/
inductive ArenaOp (K : Kind) (T : Type)
  | insert (value : T) | tryInsert (value : T)
  | remove (h : Handle K) | discard (h : Handle K)
  | getMut (h : Handle K) (write : T → T) | resolveMut (h : Handle K) (write : T → T)
  | iterMut (write : Handle K → T → T)

inductive ArenaAnswer (K : Kind) (T : Type)
  | inserted (r : Except Error (Handle K)) | placed (r : Except T (Handle K))
  | taken (value : Option T) | discarded (done : Bool)
  | seen (value : Option T) | resolved (r : Except Error T) | each (items : List (Handle K × T))

namespace Arena

variable {K : Kind} {T : Type} {p : Shape} [Inhabited T]

def call (a : Arena K T p) : ArenaOp K T → ArenaAnswer K T × Arena K T p
  | .insert v => (.inserted (a.insert v).1, (a.insert v).2)
  | .tryInsert v => (.placed (a.tryInsert v).1, (a.tryInsert v).2)
  | .remove h => (.taken (a.remove h).1, (a.remove h).2)
  | .discard h => (.discarded (a.discard h).1, (a.discard h).2)
  | .getMut h write => (.seen (a.getMut h write).1, (a.getMut h write).2)
  | .resolveMut h write => (.resolved (a.resolveMut h write).1, (a.resolveMut h write).2)
  | .iterMut write => (.each (a.iterMut write).1, (a.iterMut write).2)

def run : List (ArenaOp K T) → Arena K T p → List (ArenaAnswer K T) × Arena K T p
  | [], a => ([], a)
  | op :: ops, a =>
    let first := a.call op
    let rest := run ops first.2
    (first.1 :: rest.1, rest.2)

def after (ops : List (ArenaOp K T)) (a : Arena K T p) : Arena K T p := (run ops a).2

end Arena

end RtosCore
