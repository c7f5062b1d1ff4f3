import RtosCore.Erasure
import RtosCore.TraceCode

/-! What the projection hides from the sink behind it. It drops the events of a tickless sleep, but
it passes on the exit count noted for each of them, so a sink that takes any notice of exit counts
can tell a run that slept from one that did not. -/

namespace RtosCore

def Traced.suppressible (c : Traced) : Bool := isSuppressible c.event

def schedule (cs : List Traced) : List (UInt64 × Event) :=
  (loud Traced.suppressible cs).map fun c => (c.tick, c.event)

section Projection

variable {T : Type} [Trace T] {c : Traced} {cs cs' : List Traced}

open Trace

/-- Runs that differ in suppressible events only, each left out with the exit count noted for it,
leave the sink behind the projection in the same state. -/
def HidesSleep (sink : T) : Prop :=
  ∀ cs cs', loud Traced.suppressible cs = loud Traced.suppressible cs' →
    (feed cs (Scheduling.new sink)).intoInner = (feed cs' (Scheduling.new sink)).intoInner

def IgnoresExits (sink : T) : Prop :=
  ∀ cs : List Traced, (∀ c ∈ cs, c.suppressible = false) →
    ∀ exits, noteExits (feed cs sink) exits = feed cs sink

/-- Where the trace notes the exit count of a suppressed event, the sink takes no notice of it. -/
def Undisturbed (sink : T) : List Traced → Prop
  | [] => True
  | c :: cs =>
    if c.suppressible then noteExits sink c.exits = sink ∧ Undisturbed sink cs
    else Undisturbed (traced sink c) cs

def Overwrites (T : Type) [Trace T] : Prop :=
  ∀ (sink : T) (earlier exits : UInt64), noteExits (noteExits sink earlier) exits = noteExits sink exits

structure Records (recorded : T → List (UInt64 × Event)) : Prop where
  noteExits : ∀ sink exits, recorded (Trace.noteExits sink exits) = recorded sink
  event : ∀ sink tick event, recorded (Trace.event sink tick event) = recorded sink ++ [(tick, event)]

theorem intoInner_suppressed (silent : c.suppressible = true) (sink : Scheduling T) :
    (traced sink c).intoInner = noteExits sink.intoInner c.exits := by
  change Scheduling.inner (if !c.suppressible then _ else _) = _
  rw [silent]
  rfl

theorem intoInner_passed (passed : c.suppressible = false) (sink : Scheduling T) :
    (traced sink c).intoInner = traced sink.intoInner c := by
  change Scheduling.inner (if !c.suppressible then _ else _) = _
  rw [passed]
  rfl

theorem intoInner_feed (passed : ∀ c ∈ cs, c.suppressible = false) (sink : Scheduling T) :
    (feed cs sink).intoInner = feed cs sink.intoInner := by
  induction cs generalizing sink with
  | nil => rfl
  | cons c cs ih =>
    change (feed cs (traced sink c)).intoInner = feed cs (traced sink.intoInner c)
    rw [ih (fun c mem => passed c (List.mem_cons_of_mem _ mem)),
      intoInner_passed (passed c List.mem_cons_self)]

omit [Trace T] in
theorem intoInner_injective : Function.Injective (Scheduling.intoInner (T := T)) := by
  rintro ⟨inner⟩ ⟨inner'⟩ rfl
  rfl

theorem Undisturbed.idle {sink : Scheduling T} (undisturbed : Undisturbed sink.intoInner cs) :
    Idle traced Traced.suppressible sink cs := by
  induction cs generalizing sink with
  | nil => trivial
  | cons c cs ih =>
    rw [Undisturbed] at undisturbed
    cases silent : c.suppressible with
    | true =>
      rw [if_pos silent] at undisturbed
      have still : traced sink c = sink := intoInner_injective
        ((intoInner_suppressed silent sink).trans undisturbed.1)
      refine ⟨fun _ => still, ?_⟩
      rw [still]
      exact ih undisturbed.2
    | false =>
      rw [if_neg (by simp [silent]), ← intoInner_passed silent] at undisturbed
      exact ⟨fun silent' => absurd (silent.symm.trans silent') Bool.false_ne_true, ih undisturbed⟩

theorem Undisturbed.hides {sink : T} (undisturbed : Undisturbed sink cs)
    (undisturbed' : Undisturbed sink cs')
    (same : loud Traced.suppressible cs = loud Traced.suppressible cs') :
    (feed cs (Scheduling.new sink)).intoInner = (feed cs' (Scheduling.new sink)).intoInner := by
  have idle : Idle traced Traced.suppressible (Scheduling.new sink) cs := Undisturbed.idle undisturbed
  have idle' : Idle traced Traced.suppressible (Scheduling.new sink) cs' :=
    Undisturbed.idle undisturbed'
  rw [feed, feed, idle.run, idle'.run, same]

theorem inert_iff_ignoresExits (sink : T) :
    Inert traced Traced.suppressible (Scheduling.new sink) ↔ IgnoresExits sink := by
  constructor
  · intro inert cs passed exits
    have idle := inert cs passed ⟨exits, 0, .lowPowerIdleBegin⟩ rfl
    have inner := congrArg Scheduling.intoInner idle
    rw [intoInner_suppressed rfl] at inner
    change noteExits (feed cs (Scheduling.new sink)).intoInner exits =
      (feed cs (Scheduling.new sink)).intoInner at inner
    rwa [intoInner_feed passed] at inner
  · intro ignores cs passed c silent
    apply intoInner_injective
    change (traced (feed cs (Scheduling.new sink)) c).intoInner =
      (feed cs (Scheduling.new sink)).intoInner
    rw [intoInner_suppressed silent, intoInner_feed passed]
    exact ignores cs passed c.exits

theorem hidesSleep_iff (sink : T) : HidesSleep sink ↔ IgnoresExits sink := by
  rw [← inert_iff_ignoresExits, inert_iff]
  constructor
  · exact fun hides cs cs' same => intoInner_injective (hides cs cs' same)
  · exact fun erasable cs cs' same => congrArg Scheduling.intoInner (erasable cs cs' same)

/-- The last count noted is the one that counts, so a sink that keeps no other is told apart from
the other run by nothing that comes later. -/
theorem Overwrites.unseen (overwrites : Overwrites T)
    (same : loud Traced.suppressible cs = loud Traced.suppressible cs') (sink : T) (exits : UInt64) :
    noteExits (feed cs (Scheduling.new sink)).intoInner exits =
      noteExits (feed cs' (Scheduling.new sink)).intoInner exits := by
  have hides : Hides traced Traced.suppressible fun s s' : Scheduling T =>
      ∀ exits, noteExits s.intoInner exits = noteExits s'.intoInner exits := by
    constructor
    · intro s s' c agree silent exits
      rw [intoInner_suppressed silent, overwrites]
      exact agree exits
    · intro s s' c agree passed exits
      rw [intoInner_passed passed, intoInner_passed passed, traced, traced, agree]
  refine hides.unseen ⟨fun s exits => rfl, fun agree exits => (agree exits).symm, ?_⟩ same
    (Scheduling.new sink) exits
  exact fun agree agree' exits => (agree exits).trans (agree' exits)

theorem Overwrites.after_event (overwrites : Overwrites T)
    (same : loud Traced.suppressible cs = loud Traced.suppressible cs')
    (passed : c.suppressible = false) (sink : T) :
    (feed (cs ++ [c]) (Scheduling.new sink)).intoInner =
      (feed (cs' ++ [c]) (Scheduling.new sink)).intoInner := by
  rw [feed, feed, List.foldl_concat, List.foldl_concat, intoInner_passed passed,
    intoInner_passed passed]
  exact congrArg (event · c.tick c.event) (overwrites.unseen same sink c.exits)

theorem schedule_cons (c : Traced) (cs : List Traced) : schedule (c :: cs) =
    if c.suppressible then schedule cs else (c.tick, c.event) :: schedule cs := by
  cases silent : c.suppressible with
  | true => rw [schedule, loud_cons_quiet silent, if_pos rfl, schedule]
  | false => rw [schedule, loud_cons silent, if_neg Bool.false_ne_true, List.map_cons, schedule]

theorem Records.feed {recorded : T → List (UInt64 × Event)} (records : Records recorded)
    (cs : List Traced) (sink : Scheduling T) :
    recorded (feed cs sink).intoInner = recorded sink.intoInner ++ schedule cs := by
  induction cs generalizing sink with
  | nil => exact (List.append_nil _).symm
  | cons c cs ih =>
    change recorded (Trace.feed cs (traced sink c)).intoInner = _
    rw [ih, schedule_cons]
    cases silent : c.suppressible with
    | true =>
      rw [intoInner_suppressed silent, records.noteExits]
      rfl
    | false =>
      rw [intoInner_passed silent, traced, records.event, records.noteExits, List.append_assoc]
      rfl

end Projection

section Counting

def Event.switchesIn : Event → Bool
  | .taskSwitchedIn .. => true
  | _ => false

theorem toNat_saturatingSucc (n : UInt64) :
    (saturatingSucc n).toNat = min (n.toNat + 1) (2 ^ 64 - 1) := by
  have bound := UInt64.toNat_lt n
  rw [saturatingSucc]
  split_ifs with full
  · rw [full]
    rfl
  · have room : n.toNat ≠ 2 ^ 64 - 1 := fun last => full (UInt64.toNat_inj.mp last)
    rw [UInt64.toNat_add, UInt64.toNat_one]
    omega

theorem event_count {e : Event} (passed : isSuppressible e = false) (sink : CountTrace)
    (tick : UInt64) : Trace.event sink tick e =
      ⟨saturatingSucc sink.events,
        if e.switchesIn then saturatingSucc sink.switches else sink.switches, sink.ticks⟩ := by
  cases e with
  | taskIncrementTick | lowPowerIdleBegin | lowPowerIdleEnd => cases passed
  | _ => rfl

theorem toNat_iterate_saturatingSucc (n : UInt64) (k : ℕ) :
    (saturatingSucc^[k] n).toNat = min (n.toNat + k) (2 ^ 64 - 1) := by
  induction k with
  | zero =>
    have bound := UInt64.toNat_lt n
    change n.toNat = _
    omega
  | succ k ih =>
    rw [Function.iterate_succ_apply', toNat_saturatingSucc, ih]
    omega

theorem feed_count (cs : List Traced) (sink : Scheduling CountTrace) :
    (Trace.feed cs sink).intoInner =
      ⟨saturatingSucc^[(schedule cs).length] sink.intoInner.events,
        saturatingSucc^[(schedule cs).countP fun e => e.2.switchesIn] sink.intoInner.switches,
        sink.intoInner.ticks⟩ := by
  induction cs generalizing sink with
  | nil => rfl
  | cons c cs ih =>
    change (Trace.feed cs (Trace.traced sink c)).intoInner = _
    rw [ih, schedule_cons]
    cases silent : c.suppressible with
    | true =>
      rw [intoInner_suppressed silent]
      rfl
    | false =>
      rw [intoInner_passed silent, Trace.traced, event_count silent, if_neg Bool.false_ne_true,
        List.countP_cons]
      cases c.event.switchesIn <;> rfl

theorem count_schedule (cs : List Traced) :
    let counted := (Trace.feed cs (Scheduling.new ({} : CountTrace))).intoInner
    counted.events.toNat = min (schedule cs).length (2 ^ 64 - 1) ∧
    counted.switches.toNat = min ((schedule cs).countP fun e => e.2.switchesIn) (2 ^ 64 - 1) ∧
    counted.ticks = 0 := by
  intro counted
  have all : counted = _ := feed_count cs (Scheduling.new {})
  rw [all]
  refine ⟨?_, ?_, rfl⟩
  · exact (toNat_iterate_saturatingSucc 0 _).trans (by rw [UInt64.toNat_zero, Nat.zero_add])
  · exact (toNat_iterate_saturatingSucc 0 _).trans (by rw [UInt64.toNat_zero, Nat.zero_add])

end Counting

/-- The projection hides a tickless sleep in runs whose suppressed events disturb nothing, and from
exactly those sinks that take no notice of exit counts in all runs. What a sink records of the
events it is given is the schedule, for any sink. -/
theorem projection_hides_sleep_iff {T : Type} [Trace T] (sink : T) :
    (HidesSleep sink ↔ IgnoresExits sink) ∧
    (∀ cs cs', Undisturbed sink cs → Undisturbed sink cs' →
      loud Traced.suppressible cs = loud Traced.suppressible cs' →
      (Trace.feed cs (Scheduling.new sink)).intoInner =
        (Trace.feed cs' (Scheduling.new sink)).intoInner) ∧
    ∀ recorded : T → List (UInt64 × Event), Records recorded →
      (∀ cs, recorded (Trace.feed cs (Scheduling.new sink)).intoInner =
        recorded sink ++ schedule cs) ∧
      ∀ cs cs', recorded (Trace.feed cs (Scheduling.new sink)).intoInner =
        recorded (Trace.feed cs' (Scheduling.new sink)).intoInner → schedule cs = schedule cs' := by
  refine ⟨hidesSleep_iff sink, fun cs cs' => Undisturbed.hides, fun recorded records => ?_⟩
  have whole := fun cs => records.feed cs (Scheduling.new sink)
  refine ⟨whole, fun cs cs' same => ?_⟩
  rw [whole, whole] at same
  exact List.append_cancel_left same

structure ExitColumn where
  noted : List UInt64 := []
  lines : List (List UInt64 × UInt64 × Event) := []

instance : Trace ExitColumn where
  noteExits sink exits := { sink with noted := sink.noted ++ [exits] }
  event sink tick event := ⟨[], sink.lines ++ [(sink.noted, tick, event)]⟩

/-- The heartbeat of tick 7 does not reach the sink, but the exit count noted for it does. -/
theorem exits_of_heartbeat_reach_sink :
    let slept : List Traced := [⟨6, 7, .startingScheduler⟩]
    let woken : List Traced := [⟨5, 7, .taskIncrementTick 7⟩, ⟨6, 7, .startingScheduler⟩]
    let sink : Scheduling ExitColumn := Scheduling.new {}
    loud Traced.suppressible woken = loud Traced.suppressible slept ∧
    (Trace.feed woken sink).intoInner.lines = [([5, 6], 7, .startingScheduler)] ∧
    (Trace.feed slept sink).intoInner.lines = [([6], 7, .startingScheduler)] ∧
    ¬ HidesSleep ({} : ExitColumn) := by
  intro slept woken sink
  refine ⟨rfl, rfl, rfl, fun hides => ?_⟩
  have lines := congrArg ExitColumn.lines (hides woken slept rfl)
  have columns : [[5, 6]] = [[(6 : UInt64)]] := congrArg (List.map Prod.fst) lines
  exact absurd columns (by decide)

end RtosCore
