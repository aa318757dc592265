import HardRT.CortexM.System
import HardRT.Posix.System
import HardRT.Protocol.SemaphorePool
import HardRT.Spec.Kernel

/-! # The ports on the kernel of the specification

The machines of the two ports with `Spec.Kernel` in the place of the code. The actions are those of the
ports, so that the runs can be compared.

* `Spec.Sys`, `Spec.Sys.boot` — a system of the specification, and after boot.
* `Spec.cortexM`, `Spec.posix` — the machines. -/

namespace HardRT

namespace Spec

open Lib

/-! ## Systems -/

/-- The kernel with every task's continuation and the log of events so far. -/
structure Sys where
  k : Kernel
  conts : ℕ → Cont
  log : List Event

namespace Sys

/-- The continuations after a task has been created in a slot. -/
def spawned (s : Sys) : Option ℕ → ℕ → Cont
  | none => s.conts
  | some id => Function.update s.conts id .user

/-- Task `t` has acted. -/
def apply (s : Sys) (t : ℕ) (o : Outcome) : Sys where
  k := o.k
  conts := Function.update (s.spawned o.spawn) t o.cont
  log := s.log ++ o.evs

/-- Task `t` takes its next action, if it has one. -/
def task (sz : Sizing) (port : Port) (t : ℕ) (c : Call) (s : Sys) : Option Sys :=
  (nextAction sz port t c s.k (s.conts t)).map (s.apply t)

/-- Task `t` is back from the scheduler. -/
def land (s : Sys) (t : ℕ) (a : After) : Sys :=
  { s with conts := Function.update s.conts t (.resumed a) }

/-- An ISR. -/
def isr (sz : Sizing) (op : Isr) (s : Sys) : Sys :=
  { s with k := (isrAction sz s.k op).1, log := s.log ++ (isrAction sz s.k op).2 }

/-- A call of `main`. -/
def main (sz : Sizing) (port : Port) (s : Sys) : MainCall → Sys
  | .createTask a =>
      { s with k := (createTask sz port a s.k).2, conts := s.spawned (createTask sz port a s.k).1 }
  | .setPolicy p => { s with k := { s.k with policy := p } }
  | .setDefaultTimeslice n => { s with k := { s.k with defaultSlice := n % 65536 } }

/-- **A system after boot**: no tasks, empty queues, semaphores with their tokens. -/
def boot (sz : Sizing) (port : Port) (cfg : Option KernelConfig) (objs : ObjectSpecs) : Sys where
  k :=
    let k : Kernel :=
      { tcbs := fun _ => { Tcb.zero with state := .unused }
        ready := fun _ => []
        current := none
        tick := 0
        tickHz := cfg.elim 1000 fun c => if c.tickHz = 0 then 1000 else c.tickHz
        policy := cfg.elim .priorityRr KernelConfig.policy
        defaultSlice := cfg.elim 5 fun c => if c.defaultSlice = 0 then 5 else c.defaultSlice
        error := .none
        pend := false
        sems := fun i => ⟨(objs.sem i).initCount, (objs.sem i).bound, []⟩
        mutexes := fun _ => ⟨none, []⟩
        queues := fun i => ⟨⟨(objs.queue i).capacity, [], [], []⟩, (objs.queue i).itemSize⟩ }
    match port.initIdleTask with
    | some sp => setSp sz.idleId sp k
    | none => k
  conts := fun _ => .none
  log := []

end Sys

/-! ## The ports -/

/-- **The Cortex-M port of the specification.** -/
def cortexM (sz : Sizing) (idleStack : ℕ) (s : Sys) : CortexM.Action → Option Sys
  | .main c =>
      if s.k.current = none ∧ s.k.pend = false then some (s.main sz (.cortexM idleStack) c) else none
  | .start => if s.k.current = none then some { s with k := s.k.requestSwitch } else none
  | .task c =>
      match s.k.current with
      | none => none
      | some t =>
          if s.k.pend then none
          else match s.conts t with
            | .hop a => some { s.land t a with k := s.k.requestSwitch }
            | _ => s.task sz (.cortexM idleStack) t c
  | .isr op => some (s.isr sz op)
  | .tick => some { s with k := tickIsr sz s.k }
  | .pendsv oldSp =>
      if s.k.pend = true ∧ (oldSp = 0 ↔ s.k.current = none) then
        some { s with k := schedule sz oldSp { s.k with pend := false } }
      else none

/-- One turn of the scheduler loop of the POSIX port. -/
def loopStep (sz : Sizing) (s : Sys × Posix.Mode) : Option (Sys × Posix.Mode) :=
  match s.2 with
  | .head =>
      if s.1.k.pend then some ({ s.1 with k := { s.1.k with pend := false } }, .cleared) else some s
  | .cleared =>
      let r := pick sz s.1.k
      if r.1 = sz.idleId then some ({ s.1 with k := r.2 }, .head)
      else some ({ s.1 with k := { r.2 with current := some r.1 } }, .running)
  | _ => none

/-- **The POSIX port of the specification.** -/
def posix (sz : Sizing) (s : Sys × Posix.Mode) : Posix.Action → Option (Sys × Posix.Mode)
  | .main c => if s.2 = .boot then some (s.1.main sz .posix c, s.2) else none
  | .start => if s.2 = .boot then some ({ s.1 with k := s.1.k.requestSwitch }, .head) else none
  | .loop => loopStep sz s
  | .task c =>
      if s.2 = .running then
        match s.1.k.current with
        | none => none
        | some t =>
            match s.1.conts t with
            | .hop a =>
                if t = sz.idleId then some (s.1.land t a, s.2)
                else some ({ s.1.land t a with k := schedulerEntry sz s.1.k }, .head)
            | _ => (s.1.task sz .posix t c).map fun s' => (s', .running)
      else none
  | .finish =>
      if s.2 = .running then
        match s.1.k.current with
        | none => none
        | some t =>
            if Exited t (s.1.k.stateOf t) (s.1.conts t) s.1.log then
              some ({ s.1.land t (.ret .taskDelete 0) with k := schedulerEntry sz s.1.k }, .head)
            else none
      else none
  | .isr op => some (s.1.isr sz op, s.2)
  | .tick alarm =>
      some ({ s.1 with k := if alarm then (tickIsr sz s.1.k).requestSwitch else tickIsr sz s.1.k }, s.2)

end Spec

end HardRT
