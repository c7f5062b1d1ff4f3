import RtosCore.Projection

/-! What a trace line says of an event: the macro's name and the object's. A reader who has only the
lines tells the kinds of event apart by the first, which is enough to drop the events of a tickless
sleep from the text. -/

namespace RtosCore

namespace Event

/-- The C macro's suffix: the second field of a trace line. -/
def name : Event → String
  | .startingScheduler => "STARTING_SCHEDULER"
  | .taskCreate .. => "TASK_CREATE"
  | .taskCreateFailed => "TASK_CREATE_FAILED"
  | .taskDelete .. => "TASK_DELETE"
  | .taskSwitchedIn .. => "TASK_SWITCHED_IN"
  | .taskSwitchedOut .. => "TASK_SWITCHED_OUT"
  | .taskDelay .. => "TASK_DELAY"
  | .taskDelayUntil .. => "TASK_DELAY_UNTIL"
  | .taskSuspend .. => "TASK_SUSPEND"
  | .taskResume .. => "TASK_RESUME"
  | .taskResumeFromIsr .. => "TASK_RESUME_FROM_ISR"
  | .taskPrioritySet .. => "TASK_PRIORITY_SET"
  | .taskPriorityInherit .. => "TASK_PRIORITY_INHERIT"
  | .taskPriorityDisinherit .. => "TASK_PRIORITY_DISINHERIT"
  | .taskIncrementTick .. => "TASK_INCREMENT_TICK"
  | .movedTaskToReadyState .. => "MOVED_TASK_TO_READY_STATE"
  | .movedTaskToDelayedList .. => "MOVED_TASK_TO_DELAYED_LIST"
  | .movedTaskToOverflowDelayedList .. => "MOVED_TASK_TO_OVERFLOW_DELAYED_LIST"
  | .taskNotify .. => "TASK_NOTIFY"
  | .taskNotifyWait .. => "TASK_NOTIFY_WAIT"
  | .taskNotifyWaitBlock .. => "TASK_NOTIFY_WAIT_BLOCK"
  | .taskNotifyTake .. => "TASK_NOTIFY_TAKE"
  | .taskNotifyTakeBlock .. => "TASK_NOTIFY_TAKE_BLOCK"
  | .queueCreate .. => "QUEUE_CREATE"
  | .queueSend .. => "QUEUE_SEND"
  | .queueSendFailed .. => "QUEUE_SEND_FAILED"
  | .queueSendFromIsr .. => "QUEUE_SEND_FROM_ISR"
  | .queueReceive .. => "QUEUE_RECEIVE"
  | .queueReceiveFailed .. => "QUEUE_RECEIVE_FAILED"
  | .queueReceiveFromIsr .. => "QUEUE_RECEIVE_FROM_ISR"
  | .queuePeek .. => "QUEUE_PEEK"
  | .blockingOnQueueSend .. => "BLOCKING_ON_QUEUE_SEND"
  | .blockingOnQueueReceive .. => "BLOCKING_ON_QUEUE_RECEIVE"
  | .blockingOnQueuePeek .. => "BLOCKING_ON_QUEUE_PEEK"
  | .timerCreate .. => "TIMER_CREATE"
  | .timerCommandSend .. => "TIMER_COMMAND_SEND"
  | .timerExpired .. => "TIMER_EXPIRED"
  | .eventGroupCreate .. => "EVENT_GROUP_CREATE"
  | .eventGroupSetBits .. => "EVENT_GROUP_SET_BITS"
  | .eventGroupWaitBitsBlock .. => "EVENT_GROUP_WAIT_BITS_BLOCK"
  | .eventGroupWaitBitsEnd .. => "EVENT_GROUP_WAIT_BITS_END"
  | .streamBufferCreate .. => "STREAM_BUFFER_CREATE"
  | .streamBufferSend .. => "STREAM_BUFFER_SEND"
  | .streamBufferReceive .. => "STREAM_BUFFER_RECEIVE"
  | .lowPowerIdleBegin => "LOW_POWER_IDLE_BEGIN"
  | .lowPowerIdleEnd => "LOW_POWER_IDLE_END"

def subject : Event → Option String
  | .taskCreate _ name _ | .taskDelete _ name | .taskSwitchedIn _ name | .taskSwitchedOut _ name
  | .taskDelay _ name _ | .taskDelayUntil _ name _ | .taskSuspend _ name | .taskResume _ name
  | .taskResumeFromIsr _ name | .taskPrioritySet _ name _ | .taskPriorityInherit _ name _
  | .taskPriorityDisinherit _ name _ | .movedTaskToReadyState _ name
  | .movedTaskToDelayedList _ name | .movedTaskToOverflowDelayedList _ name | .taskNotify _ name _
  | .taskNotifyWait _ name _ | .taskNotifyWaitBlock _ name _ | .taskNotifyTake _ name _
  | .taskNotifyTakeBlock _ name _ | .queueCreate _ name _ | .queueSend _ name
  | .queueSendFailed _ name | .queueSendFromIsr _ name | .queueReceive _ name
  | .queueReceiveFailed _ name | .queueReceiveFromIsr _ name | .queuePeek _ name
  | .blockingOnQueueSend _ name | .blockingOnQueueReceive _ name | .blockingOnQueuePeek _ name
  | .timerCreate _ name | .timerCommandSend _ name _ _ | .timerExpired _ name => some name
  | _ => none

def renamed (f : String → String) : Event → Event
  | .taskCreate task name priority => .taskCreate task (f name) priority
  | .taskDelete task name => .taskDelete task (f name)
  | .taskSwitchedIn task name => .taskSwitchedIn task (f name)
  | .taskSwitchedOut task name => .taskSwitchedOut task (f name)
  | .taskDelay task name ticks => .taskDelay task (f name) ticks
  | .taskDelayUntil task name wakeAt => .taskDelayUntil task (f name) wakeAt
  | .taskSuspend task name => .taskSuspend task (f name)
  | .taskResume task name => .taskResume task (f name)
  | .taskResumeFromIsr task name => .taskResumeFromIsr task (f name)
  | .taskPrioritySet task name priority => .taskPrioritySet task (f name) priority
  | .taskPriorityInherit task name priority => .taskPriorityInherit task (f name) priority
  | .taskPriorityDisinherit task name priority => .taskPriorityDisinherit task (f name) priority
  | .movedTaskToReadyState task name => .movedTaskToReadyState task (f name)
  | .movedTaskToDelayedList task name => .movedTaskToDelayedList task (f name)
  | .movedTaskToOverflowDelayedList task name => .movedTaskToOverflowDelayedList task (f name)
  | .taskNotify task name index => .taskNotify task (f name) index
  | .taskNotifyWait task name index => .taskNotifyWait task (f name) index
  | .taskNotifyWaitBlock task name index => .taskNotifyWaitBlock task (f name) index
  | .taskNotifyTake task name index => .taskNotifyTake task (f name) index
  | .taskNotifyTakeBlock task name index => .taskNotifyTakeBlock task (f name) index
  | .queueCreate queue name length => .queueCreate queue (f name) length
  | .queueSend queue name => .queueSend queue (f name)
  | .queueSendFailed queue name => .queueSendFailed queue (f name)
  | .queueSendFromIsr queue name => .queueSendFromIsr queue (f name)
  | .queueReceive queue name => .queueReceive queue (f name)
  | .queueReceiveFailed queue name => .queueReceiveFailed queue (f name)
  | .queueReceiveFromIsr queue name => .queueReceiveFromIsr queue (f name)
  | .queuePeek queue name => .queuePeek queue (f name)
  | .blockingOnQueueSend queue name => .blockingOnQueueSend queue (f name)
  | .blockingOnQueueReceive queue name => .blockingOnQueueReceive queue (f name)
  | .blockingOnQueuePeek queue name => .blockingOnQueuePeek queue (f name)
  | .timerCreate timer name => .timerCreate timer (f name)
  | .timerCommandSend timer name command value => .timerCommandSend timer (f name) command value
  | .timerExpired timer name => .timerExpired timer (f name)
  | event => event

def names : List String :=
  ["STARTING_SCHEDULER", "TASK_CREATE", "TASK_CREATE_FAILED", "TASK_DELETE", "TASK_SWITCHED_IN",
    "TASK_SWITCHED_OUT", "TASK_DELAY", "TASK_DELAY_UNTIL", "TASK_SUSPEND", "TASK_RESUME",
    "TASK_RESUME_FROM_ISR", "TASK_PRIORITY_SET", "TASK_PRIORITY_INHERIT",
    "TASK_PRIORITY_DISINHERIT", "TASK_INCREMENT_TICK", "MOVED_TASK_TO_READY_STATE",
    "MOVED_TASK_TO_DELAYED_LIST", "MOVED_TASK_TO_OVERFLOW_DELAYED_LIST", "TASK_NOTIFY",
    "TASK_NOTIFY_WAIT", "TASK_NOTIFY_WAIT_BLOCK", "TASK_NOTIFY_TAKE", "TASK_NOTIFY_TAKE_BLOCK",
    "QUEUE_CREATE", "QUEUE_SEND", "QUEUE_SEND_FAILED", "QUEUE_SEND_FROM_ISR", "QUEUE_RECEIVE",
    "QUEUE_RECEIVE_FAILED", "QUEUE_RECEIVE_FROM_ISR", "QUEUE_PEEK", "BLOCKING_ON_QUEUE_SEND",
    "BLOCKING_ON_QUEUE_RECEIVE", "BLOCKING_ON_QUEUE_PEEK", "TIMER_CREATE", "TIMER_COMMAND_SEND",
    "TIMER_EXPIRED", "EVENT_GROUP_CREATE", "EVENT_GROUP_SET_BITS", "EVENT_GROUP_WAIT_BITS_BLOCK",
    "EVENT_GROUP_WAIT_BITS_END", "STREAM_BUFFER_CREATE", "STREAM_BUFFER_SEND",
    "STREAM_BUFFER_RECEIVE", "LOW_POWER_IDLE_BEGIN", "LOW_POWER_IDLE_END"]

theorem names_nodup : names.Nodup := by decide +kernel

theorem names_ctorIdx (e : Event) : names[e.ctorIdx]? = some e.name := by
  cases e <;> rfl

theorem name_eq_iff (e e' : Event) : e.name = e'.name ↔ e.ctorIdx = e'.ctorIdx := by
  have here := names_ctorIdx e
  have here' := names_ctorIdx e'
  constructor
  · intro same
    obtain ⟨bound, -⟩ := List.getElem?_eq_some_iff.mp here
    exact (List.getElem?_inj bound names_nodup).mp (by rw [here, here', same])
  · intro same
    rw [same, here', Option.some_inj] at here
    exact here.symm

def sleepNames : List String := ["TASK_INCREMENT_TICK", "LOW_POWER_IDLE_BEGIN", "LOW_POWER_IDLE_END"]

theorem mem_sleepNames (e : Event) : e.name ∈ sleepNames ↔ isSuppressible e = true := by
  constructor
  · intro named
    simp only [sleepNames, List.mem_cons, List.not_mem_nil, or_false] at named
    rcases named with tick | sleeps | wakes
    · have kind := (name_eq_iff e (taskIncrementTick 0)).mp tick
      cases e <;> first | rfl | cases kind
    · have kind := (name_eq_iff e lowPowerIdleBegin).mp sleeps
      cases e <;> first | rfl | cases kind
    · have kind := (name_eq_iff e lowPowerIdleEnd).mp wakes
      cases e <;> first | rfl | cases kind
  · intro suppressible
    cases e with
    | taskIncrementTick => exact List.mem_cons_self
    | lowPowerIdleBegin => exact List.mem_cons_of_mem _ List.mem_cons_self
    | lowPowerIdleEnd => exact List.mem_cons_of_mem _ (List.mem_cons_of_mem _ List.mem_cons_self)
    | _ => cases suppressible

theorem isSuppressible_renamed (f : String → String) (e : Event) :
    isSuppressible (e.renamed f) = isSuppressible e := by
  cases e <;> rfl

end Event

structure TraceLine where
  tick : UInt64
  name : String
  subject : Option String
  deriving DecidableEq

def Traced.line (c : Traced) : TraceLine := ⟨c.tick, c.event.name, c.event.subject⟩

def awake (text : List TraceLine) : List TraceLine :=
  text.filter fun l => l.name ∉ Event.sleepNames

theorem awake_lines (cs : List Traced) :
    awake (cs.map Traced.line) = (loud Traced.suppressible cs).map Traced.line := by
  rw [awake, List.filter_map, loud]
  refine congrArg (List.map Traced.line) (List.filter_congr fun c _ => ?_)
  change decide (c.event.name ∉ Event.sleepNames) = !isSuppressible c.event
  simp [Event.mem_sleepNames]

section Sinks

variable {T : Type} [Trace T]

open Trace

structure Prints (text : T → List TraceLine) : Prop where
  noteExits : ∀ sink exits, text (Trace.noteExits sink exits) = text sink
  event : ∀ sink tick event,
    text (Trace.event sink tick event) = text sink ++ [⟨tick, event.name, event.subject⟩]

variable {text : T → List TraceLine}

theorem Prints.traced (prints : Prints text) (sink : T) (c : Traced) :
    text (Trace.traced sink c) = text sink ++ [c.line] := by
  rw [Trace.traced, prints.event, prints.noteExits]
  rfl

theorem Prints.feed (prints : Prints text) (cs : List Traced) (sink : T) :
    text (feed cs sink) = text sink ++ cs.map Traced.line := by
  induction cs generalizing sink with
  | nil => exact (List.append_nil _).symm
  | cons c cs ih =>
    change text (Trace.feed cs (Trace.traced sink c)) = _
    rw [ih, prints.traced, List.append_assoc]
    rfl

theorem Prints.feed_projected (prints : Prints text) (cs : List Traced) (sink : Scheduling T) :
    text (Trace.feed cs sink).intoInner =
      text sink.intoInner ++ (loud Traced.suppressible cs).map Traced.line := by
  induction cs generalizing sink with
  | nil => exact (List.append_nil _).symm
  | cons c cs ih =>
    change text (Trace.feed cs (Trace.traced sink c)).intoInner = _
    rw [ih]
    cases silent : c.suppressible with
    | true => rw [intoInner_suppressed silent, prints.noteExits, loud_cons_quiet silent]
    | false =>
      rw [intoInner_passed silent, prints.traced, loud_cons silent, List.append_assoc]
      rfl

/-- What the constants of a sink promise: that it reads no names, and that it does nothing at all. -/
structure Honest (T : Type) [Trace T] : Prop where
  names : WANTS_NAMES T = false → ∀ (sink : T) (tick : UInt64) (e : Event) (f : String → String),
    event sink tick (e.renamed f) = event sink tick e
  event : EMITS T = false → ∀ (sink : T) (tick : UInt64) (e : Event), event sink tick e = sink
  noteExits : EMITS T = false → ∀ (sink : T) (exits : UInt64), noteExits sink exits = sink

theorem honest_noTrace : Honest NoTrace :=
  ⟨fun _ _ _ _ _ => rfl, fun _ _ _ _ => rfl, fun _ _ _ => rfl⟩

theorem honest_countTrace : Honest CountTrace where
  names _ sink tick e f := by
    cases e <;> rfl
  event := by rintro ⟨⟩
  noteExits := by rintro ⟨⟩

theorem Honest.scheduling (honest : Honest T) : Honest (Scheduling T) where
  names unread sink tick e f := by
    change (if !isSuppressible (e.renamed f) then _ else _) = if !isSuppressible e then _ else _
    rw [e.isSuppressible_renamed, honest.names unread]
  event silent sink tick e := by
    change (if !isSuppressible e then _ else _) = sink
    rw [honest.event silent]
    exact ite_self sink
  noteExits silent sink exits := intoInner_injective (honest.noteExits silent sink.intoInner exits)

/-- What reaches a sink from a kernel that believes its constants: no event at all where nothing is
emitted, and no name where none is read. -/
def spared (sink : T) (c : Traced) : T :=
  if !EMITS T then sink
  else if !WANTS_NAMES T then traced sink { c with event := c.event.renamed fun _ => "" }
  else traced sink c

theorem Honest.spared_eq (honest : Honest T) (sink : T) (c : Traced) : spared sink c = traced sink c := by
  rw [spared]
  split_ifs with silent unread
  · rw [Bool.not_eq_true'] at silent
    rw [traced, honest.event silent, honest.noteExits silent]
  · rw [Bool.not_eq_true'] at unread
    exact honest.names unread _ _ _ _
  · rfl

end Sinks

structure Transcript where
  lines : List TraceLine := []

instance : Trace Transcript where
  event sink tick event := ⟨sink.lines ++ [⟨tick, event.name, event.subject⟩]⟩

theorem prints_transcript : Prints Transcript.lines := ⟨fun _ _ => rfl, fun _ _ _ => rfl⟩

/-- A kernel may believe the constants of any sink that keeps its promises, and of such a sink
behind the projection. -/
theorem sinks_may_be_spared {T : Type} [Trace T] (honest : Honest T) (cs : List Traced) (sink : T)
    (projected : Scheduling T) :
    cs.foldl spared sink = Trace.feed cs sink ∧
      cs.foldl spared projected = Trace.feed cs projected ∧ Honest (Scheduling T) := by
  have all : (spared : T → Traced → T) = Trace.traced := by
    funext sink c
    exact honest.spared_eq sink c
  have all' : (spared : Scheduling T → Traced → Scheduling T) = Trace.traced := by
    funext sink c
    exact honest.scheduling.spared_eq sink c
  exact ⟨by rw [all, Trace.feed], by rw [all', Trace.feed], honest.scheduling⟩

end RtosCore
