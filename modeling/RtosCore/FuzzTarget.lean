import RtosCore.ArenaCode
import RtosCore.CheckedRun
import RtosCore.Collections

/-! `fuzz_targets/lists_arena.rs`: bytes choose calls on the lists and on an arena. The target keeps
books of its own on what every call should have done, and holds both against them after each. -/

namespace RtosCore

/-- What stops a program that drives the crate: a call that panics, never returns, or answers an
error that is unwrapped, or a failed check of its own. -/
inductive Crash (A : Type)
  | exit (e : Exit) | failed (check : A)
  deriving DecidableEq

def result {A α : Type} : Except Exit α → Except (Crash A) (Except Error α)
  | .ok a => .ok (.ok a)
  | .error (.err e) => .ok (.error e)
  | .error e => .error (.exit e)

def unwrap {A α : Type} (r : Except Exit α) : Except (Crash A) α := r.mapError .exit

namespace Fuzz

def SLOTS : ℕ := 16

def LISTS : ℕ := 3

def sizes : Sizes :=
  ⟨SLOTS, LISTS, ⟨4, rfl⟩, by decide, by decide, by decide, by decide⟩

/-- The arena of the target. A `u64` needs no drop; the machine it runs on decides `usize`. -/
def shape (usizeBits : {n : ℕ // 16 ≤ n}) : Shape :=
  ⟨SLOTS, by decide, usizeBits, usizeBits.2, false⟩

/-- The input, a byte at a time; zeros once it runs out. -/
abbrev Input := List UInt8

def Input.byte : Input → UInt8 × Input
  | [] => (0, [])
  | b :: rest => (b, rest)

def Input.bytes : ℕ → Input → List UInt8 × Input
  | 0, input => ([], input)
  | n + 1, input =>
    let b := byte input
    let rest := bytes n b.2
    (b.1 :: rest.1, rest.2)

def fromLeBytes (w : List UInt8) : UInt64 := w.foldr (fun b n => n <<< 8 ||| b.toUInt64) 0

def Input.u64 (input : Input) : UInt64 × Input :=
  (fromLeBytes (bytes 8 input).1, (bytes 8 input).2)

inductive Check
  | insertOfMember | insertEndOfMember | removedNoMember | removeAnswer | removeRefused
  | handedOutTwice | refusedWithRoom | removedOther | removedTwice | inventedResolved
  | walkedLength | modelLength | namesAnother | modelSaysOtherwise | lastStored
  | liveUnresolved | removedResolves | arenaLength
  deriving DecidableEq

structure State (g : Sizes) (p : Shape) where
  input : Input
  lists : ListsOf UInt64 g
  arena : Arena .task UInt64 p
  container : HashMap UInt16 UInt8
  values : HashMap UInt16 UInt64
  live : List (Handle .task × UInt64)
  dead : List (Handle .task)

abbrev Outcome (α : Type) := Except (Crash Check) α

namespace State

variable {g : Sizes} {p : Shape}

def new (data : List UInt8) : State g p :=
  ⟨data, ListsOf.new, Arena.new, ∅, ∅, [], []⟩

def insert (b : Build) (list : ListId) (item : ItemId) (value : UInt64) (s : State g p) :
    Outcome (State g p) := do
  let call := ListsOf.insert b list item value s.lists
  let s := { s with lists := call.2 }
  match ← result call.1 with
  | .ok () =>
    ensure (item ∉ s.container) (.failed .insertOfMember)
    return { s with
      container := s.container.insert item list, values := s.values.insert item value }
  | .error _ => return s

def insertEnd (b : Build) (list : ListId) (item : ItemId) (s : State g p) :
    Outcome (State g p) := do
  let call := ListsOf.insertEnd b list item s.lists
  let s := { s with lists := call.2 }
  match ← result call.1 with
  | .ok () =>
    ensure (item ∉ s.container) (.failed .insertEndOfMember)
    return { s with container := s.container.insert item list }
  | .error _ => return s

def remove (b : Build) (item : ItemId) (s : State g p) : Outcome (State g p) := do
  let call := ListsOf.remove b item s.lists
  let s := { s with lists := call.2 }
  match ← result call.1 with
  | .ok left =>
    match s.container.lookup item with
    | some was =>
      let s := { s with container := s.container.erase item }
      ensure (left = s.container.countValue was) (.failed .removeAnswer)
      return s
    | none => .error (.failed .removedNoMember)
  | .error _ =>
    ensure (item ∉ s.container) (.failed .removeRefused)
    return s

def setValue (b : Build) (item : ItemId) (value : UInt64) (s : State g p) :
    Outcome (State g p) := do
  let call := ListsOf.setValue b item value s.lists
  let s := { s with lists := call.2 }
  match ← result call.1 with
  | .ok () => return { s with values := s.values.insert item value }
  | .error _ => return s

def nextRoundRobin (b : Build) (list : ListId) (s : State g p) : Outcome (State g p) := do
  let call := ListsOf.nextRoundRobin b list s.lists
  let _ ← result call.1
  return { s with lists := call.2 }

def arenaInsert (value : UInt64) (s : State g p) : Outcome (State g p) := do
  let call := s.arena.insert value
  let s := { s with arena := call.2 }
  match call.1 with
  | .ok h =>
    ensure (∀ l ∈ s.live, l.1 ≠ h) (.failed .handedOutTwice)
    return { s with live := s.live ++ [(h, value)] }
  | .error _ =>
    ensure (s.live.length = p.N) (.failed .refusedWithRoom)
    return s

def arenaRemove (h : Handle .task) (v : UInt64) (live : List (Handle .task × UInt64))
    (s : State g p) : Outcome (State g p) := do
  let first := s.arena.remove h
  ensure (first.1 = some v) (.failed .removedOther)
  let second := first.2.remove h
  ensure (second.1.isNone) (.failed .removedTwice)
  return { s with arena := second.2, live, dead := s.dead ++ [h] }

def arenaForge (s : State g p) : Outcome (State g p) := do
  let raw := s.input.u64
  let forged : Handle .task := Handle.fromRaw raw.1.toUInt32
  let s := { s with input := raw.2 }
  if ∀ l ∈ s.live, l.1 ≠ forged then
    ensure ((s.arena.resolve forged).toOption = none) (.failed .inventedResolved)
  return s

def arenaPick (s : State g p) : Outcome (State g p) :=
  let pick := s.input.byte
  let s := { s with input := pick.2 }
  if s.live ≠ [] ∧ pick.1 % 4 ≠ 0 then
    match swapRemove s.live (pick.1.toNat % s.live.length) with
    | some ((h, v), live) => s.arenaRemove h v live
    | none => .error (.exit .panic)
  else s.arenaForge

/-- One turn of the loop, up to the checks. Ids are out of range on purpose, some of the time. -/
def act (b : Build) (s : State g p) : Outcome (State g p) :=
  let item := s.input.byte
  let list := item.2.byte
  let op := list.2.byte
  let i : ItemId := (item.1 % (UInt8.ofNat SLOTS + 3)).toUInt16
  let l : ListId := list.1 % (UInt8.ofNat LISTS + 2)
  let value := op.2.u64
  let s := { s with input := op.2 }
  let read := { s with input := value.2 }
  match (op.1 % 10).toNat with
  | 0 | 1 => insert b l i value.1 read
  | 2 | 3 => insertEnd b l i s
  | 4 | 5 => remove b i s
  | 6 => setValue b i value.1 read
  | 7 => nextRoundRobin b l s
  | 8 => arenaInsert value.1 read
  | _ => arenaPick s

def checkItem (b : Build) (s : State g p) (l : ListId) (it : ItemId) : Outcome Unit := do
  let named ← unwrap (ListsOf.container b it s.lists).1
  ensure (named = some l) (.failed .namesAnother)
  ensure (s.container.lookup it = some l) (.failed .modelSaysOtherwise)

def checkList (b : Build) (s : State g p) (l : ListId) : Outcome Unit := do
  let len ← unwrap (ListsOf.len l s.lists).1
  let walked ← unwrap (ListsOf.iter b l s.lists).1
  ensure (len = walked.length) (.failed .walkedLength)
  ensure (len = s.container.countValue l) (.failed .modelLength)
  walked.forM (checkItem b s l)

def checkValue (b : Build) (s : State g p) (it : ItemId) (v : UInt64) : Outcome Unit := do
  match ← result (ListsOf.value b it s.lists).1 with
  | .ok stored => ensure (stored = v) (.failed .lastStored)
  | .error _ => return ()

def checkDead (s : State g p) (h : Handle .task) : Outcome Unit :=
  if ∀ l ∈ s.live, l.1 ≠ h then
    ensure ((s.arena.resolve h).toOption = none) (.failed .removedResolves)
  else return ()

def check (b : Build) (s : State g p) : Outcome Unit := do
  ((List.range LISTS).map UInt8.ofNat).forM (checkList b s)
  s.values.entries.forM fun e => checkValue b s e.1 e.2
  s.live.forM fun l => ensure ((s.arena.resolve l.1).toOption = some l.2) (.failed .liveUnresolved)
  s.dead.forM (checkDead s)
  ensure (s.arena.len = s.live.length) (.failed .arenaLength)

def turn (b : Build) (s : State g p) : Outcome (State g p) := do
  let s ← s.act b
  s.check b
  return s

end State

/-- The target: turns while there is input, for at most 4000 steps. -/
def fuzzTarget (b : Build) (usizeBits : {n : ℕ // 16 ≤ n}) (data : List UInt8) :
    Outcome (State sizes (shape usizeBits)) :=
  whileTurns (fun s => !s.input.isEmpty) (State.turn b) 4000 (State.new data)

end Fuzz

end RtosCore
