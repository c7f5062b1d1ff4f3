import RtosCore.ListCode
import RtosCore.Scaling
import RtosCore.Tick

/-! `config.rs` and `time.rs`: what a kernel is configured with, and milliseconds, durations and
timeouts in its ticks. A configuration is a value here, with the knobs `validate` looks at. -/

namespace RtosCore

structure Config where
  Tick : TickWidth
  TICK_RATE_HZ : UInt32
  INITIAL_TICK_COUNT : UInt64 := 0
  MAX_PRIORITIES : UInt8
  MINIMAL_STACK_SIZE : ℕ
  MAX_TASK_NAME_LEN : ℕ
  NOTIFICATION_ARRAY_ENTRIES : ℕ := 1
  TIMER_TASK_PRIORITY : UInt8
  TIMER_QUEUE_LENGTH : ℕ := 10
  TIMER_TASK_STACK_DEPTH : ℕ
  CHECK_FOR_STACK_OVERFLOW : UInt8 := 2
  NUMBER_OF_CORES : UInt8 := 1
  MAX_TASKS : ℕ := 16
  MAX_QUEUES : ℕ := 16
  MAX_TIMERS : ℕ := 8
  MAX_EVENT_GROUPS : ℕ := 4
  MAX_STREAM_BUFFERS : ℕ := 4
  deriving DecidableEq, Repr

namespace Config

variable (C : Config)

def validate : Except Error Unit :=
  let ok := C.TICK_RATE_HZ > 0
    ∧ C.MAX_PRIORITIES ≥ 1
    ∧ C.TIMER_TASK_PRIORITY < C.MAX_PRIORITIES
    ∧ C.MINIMAL_STACK_SIZE > 0
    ∧ C.TIMER_TASK_STACK_DEPTH ≥ C.MINIMAL_STACK_SIZE
    ∧ C.MAX_TASK_NAME_LEN ≥ 1
    ∧ C.NOTIFICATION_ARRAY_ENTRIES ≥ 1
    ∧ C.NOTIFICATION_ARRAY_ENTRIES ≤ 4
    ∧ C.TIMER_QUEUE_LENGTH ≤ 32
    ∧ C.TIMER_QUEUE_LENGTH ≥ 1
    ∧ C.CHECK_FOR_STACK_OVERFLOW ≤ 2
    ∧ C.NUMBER_OF_CORES ≥ 1
    ∧ C.MAX_TASKS ≥ 2
    ∧ C.INITIAL_TICK_COUNT ≤ C.Tick.MAX
    ∧ C.MAX_TASKS ≤ 0x7FFF
    ∧ C.MAX_QUEUES ≤ 0x7FFF
    ∧ C.MAX_TIMERS ≤ 0x7FFF
    ∧ C.MAX_EVENT_GROUPS ≤ 0x7FFF
    ∧ C.MAX_STREAM_BUFFERS ≤ 0x7FFF
  if ok then .ok () else .error .invalidArgument

def msToTicks (ms : UInt64) : UInt64 :=
  let hz := C.TICK_RATE_HZ.toUInt64
  let ticks := (checkedMul ms hz).elim C.Tick.MAX fun n => n / 1000
  min ticks C.Tick.MAX

def ticksToMs (ticks : UInt64) : UInt64 :=
  let hz := max C.TICK_RATE_HZ.toUInt64 1
  (checkedMul ticks 1000).elim 0xFFFFFFFFFFFFFFFF fun n => (checkedDiv n hz).getD 0

end Config

def DefaultConfig : Config where
  Tick := .bits32
  TICK_RATE_HZ := 100
  MAX_PRIORITIES := 5
  MINIMAL_STACK_SIZE := 128
  MAX_TASK_NAME_LEN := 16
  TIMER_TASK_PRIORITY := 4
  TIMER_TASK_STACK_DEPTH := 128

/-- Its ticks are `unsigned long`, as wide as a pointer of the target. -/
def PosixDemoConfig (targetPointerWidth : ℕ) : Config where
  Tick := if targetPointerWidth = 64 then .bits64 else .bits32
  TICK_RATE_HZ := 1000
  MAX_PRIORITIES := 7
  MINIMAL_STACK_SIZE := 128
  MAX_TASK_NAME_LEN := 12
  TIMER_TASK_PRIORITY := 6
  TIMER_QUEUE_LENGTH := 20
  TIMER_TASK_STACK_DEPTH := 256
  CHECK_FOR_STACK_OVERFLOW := 0
  NOTIFICATION_ARRAY_ENTRIES := 3
  MAX_TASKS := 64
  MAX_QUEUES := 64
  MAX_TIMERS := 32
  MAX_EVENT_GROUPS := 8
  MAX_STREAM_BUFFERS := 16

/-- The field is what `micros` makes a span of and what `as_micros` reads. -/
structure Duration where
  micros : UInt64
  deriving DecidableEq, Repr

namespace Duration

def millis (ms : UInt64) : Duration := ⟨saturatingMul ms 1000⟩

def secs (s : UInt64) : Duration := ⟨saturatingMul s 1000000⟩

def asMillis (d : Duration) : UInt64 := d.micros / 1000

variable (C : Config) (d : Duration)

def fromSecs : Option UInt64 :=
  let wholeSecs := d.micros / 1000000
  checkedMul wholeSecs C.TICK_RATE_HZ.toUInt64

def fromRem : Option UInt64 :=
  let remMicros := d.micros % 1000000
  (checkedMul remMicros C.TICK_RATE_HZ.toUInt64).map fun n => n / 1000000

def toTicks : UInt64 :=
  match d.fromSecs C, d.fromRem C with
  | some a, some b => min (saturatingAdd a b) C.Tick.MAX
  | _, _ => C.Tick.MAX

end Duration

inductive Timeout
  | none | ticks (n : UInt64) | forever
  deriving DecidableEq, Repr

namespace Timeout

variable (C : Config)

def toTicks : Timeout → UInt64
  | none => 0
  | ticks n => min n C.Tick.MAX
  | forever => C.Tick.MAX

def fromTicks (n : UInt64) : Timeout :=
  if n = 0 then none else if n ≥ C.Tick.MAX then forever else ticks n

def after (d : Duration) : Timeout := fromTicks C (d.toTicks C)

def blocks : Timeout → Bool
  | none => false
  | _ => true

end Timeout

end RtosCore
