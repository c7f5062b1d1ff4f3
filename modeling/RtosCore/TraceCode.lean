import RtosCore.ArenaCode

/-! `trace.rs`: the events a kernel traces, sinks for them, and the projection of a trace to its
schedule. -/

namespace RtosCore

structure Priority where
  raw : UInt8
  deriving DecidableEq, Repr

inductive Event
  | startingScheduler
  | taskCreate (task : Handle .task) (name : String) (priority : Priority)
  | taskCreateFailed
  | taskDelete (task : Handle .task) (name : String)
  | taskSwitchedIn (task : Handle .task) (name : String)
  | taskSwitchedOut (task : Handle .task) (name : String)
  | taskDelay (task : Handle .task) (name : String) (ticks : UInt64)
  | taskDelayUntil (task : Handle .task) (name : String) (wakeAt : UInt64)
  | taskSuspend (task : Handle .task) (name : String)
  | taskResume (task : Handle .task) (name : String)
  | taskResumeFromIsr (task : Handle .task) (name : String)
  | taskPrioritySet (task : Handle .task) (name : String) (priority : Priority)
  | taskPriorityInherit (task : Handle .task) (name : String) (priority : Priority)
  | taskPriorityDisinherit (task : Handle .task) (name : String) (priority : Priority)
  | taskIncrementTick (tick : UInt64)
  | movedTaskToReadyState (task : Handle .task) (name : String)
  | movedTaskToDelayedList (task : Handle .task) (name : String)
  | movedTaskToOverflowDelayedList (task : Handle .task) (name : String)
  | taskNotify (task : Handle .task) (name : String) (index : ℕ)
  | taskNotifyWait (task : Handle .task) (name : String) (index : ℕ)
  | taskNotifyWaitBlock (task : Handle .task) (name : String) (index : ℕ)
  | taskNotifyTake (task : Handle .task) (name : String) (index : ℕ)
  | taskNotifyTakeBlock (task : Handle .task) (name : String) (index : ℕ)
  | queueCreate (queue : Handle .queue) (name : String) (length : ℕ)
  | queueSend (queue : Handle .queue) (name : String)
  | queueSendFailed (queue : Handle .queue) (name : String)
  | queueSendFromIsr (queue : Handle .queue) (name : String)
  | queueReceive (queue : Handle .queue) (name : String)
  | queueReceiveFailed (queue : Handle .queue) (name : String)
  | queueReceiveFromIsr (queue : Handle .queue) (name : String)
  | queuePeek (queue : Handle .queue) (name : String)
  | blockingOnQueueSend (queue : Handle .queue) (name : String)
  | blockingOnQueueReceive (queue : Handle .queue) (name : String)
  | blockingOnQueuePeek (queue : Handle .queue) (name : String)
  | timerCreate (timer : Handle .timer) (name : String)
  | timerCommandSend (timer : Handle .timer) (name : String) (command : Int32) (value : UInt64)
  | timerExpired (timer : Handle .timer) (name : String)
  | eventGroupCreate (group : Handle .eventGroup)
  | eventGroupSetBits (group : Handle .eventGroup) (bits : UInt32)
  | eventGroupWaitBitsBlock (group : Handle .eventGroup) (bits : UInt32)
  | eventGroupWaitBitsEnd (group : Handle .eventGroup) (bits : UInt32) (timedOut : Bool)
  | streamBufferCreate (buffer : Handle .streamBuffer) (isMessageBuffer : Bool)
  | streamBufferSend (buffer : Handle .streamBuffer) (bytes : ℕ)
  | streamBufferReceive (buffer : Handle .streamBuffer) (bytes : ℕ)
  | lowPowerIdleBegin
  | lowPowerIdleEnd

class Trace (T : Type) where
  noteExits : T → UInt64 → T := fun sink _ => sink
  WANTS_NAMES : Bool := true
  EMITS : Bool := true
  event : T → UInt64 → Event → T

/-- The events a tickless sleep is allowed to change. -/
def isSuppressible : Event → Bool
  | .taskIncrementTick _ | .lowPowerIdleBegin | .lowPowerIdleEnd => true
  | _ => false

structure Scheduling (T : Type) where
  inner : T

namespace Scheduling

variable {T : Type}

def new (inner : T) : Scheduling T := ⟨inner⟩

def intoInner (sink : Scheduling T) : T := sink.inner

instance [Trace T] : Trace (Scheduling T) where
  noteExits sink exits := ⟨Trace.noteExits sink.inner exits⟩
  WANTS_NAMES := Trace.WANTS_NAMES T
  EMITS := Trace.EMITS T
  event sink tick event :=
    if !isSuppressible event then ⟨Trace.event sink.inner tick event⟩ else sink

end Scheduling

structure NoTrace where

instance : Trace NoTrace where
  WANTS_NAMES := false
  EMITS := false
  event sink _ _ := sink

def saturatingSucc (n : UInt64) : UInt64 := if n = 0xFFFFFFFFFFFFFFFF then n else n + 1

structure CountTrace where
  events : UInt64 := 0
  switches : UInt64 := 0
  ticks : UInt64 := 0
  deriving DecidableEq, Repr

instance : Trace CountTrace where
  WANTS_NAMES := false
  event sink _ event :=
    let sink := { sink with events := saturatingSucc sink.events }
    match event with
    | .taskSwitchedIn .. => { sink with switches := saturatingSucc sink.switches }
    | .taskIncrementTick _ => { sink with ticks := saturatingSucc sink.ticks }
    | _ => sink

/-- An event as the kernel traces it: the exit count is noted first. -/
structure Traced where
  exits : UInt64
  tick : UInt64
  event : Event

def Trace.traced {T : Type} [Trace T] (sink : T) (c : Traced) : T :=
  Trace.event (Trace.noteExits sink c.exits) c.tick c.event

def Trace.feed {T : Type} [Trace T] (cs : List Traced) (sink : T) : T := cs.foldl Trace.traced sink

end RtosCore
