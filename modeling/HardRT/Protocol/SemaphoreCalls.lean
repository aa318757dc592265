import HardRT.Protocol.SemaphorePool
import HardRT.System.Waiting

/-! # Semaphore calls: why a take returns

`hrt_sem_take` returns 0 without looking at the semaphore again once it has parked. That this is
right is a fact about the whole system: the task runs again only because a give popped it.

* `takes i t log` — what happened between task `t` and semaphore `i` since `t` entered its latest call.
* `TakeRule` — how that record, the wait FIFO and the task's continuation fit together.
* `takeInv_of_run` — while parked tasks wait, every return of `hrt_sem_take` was earned: the call took
  a token, or it parked and was handed one afterwards. -/

namespace HardRT

open Lib

/-! ## The record of a call -/

/-- Extend the record of task `t` at semaphore `i` by one event: a new call starts it afresh. -/
def takeStep (i t : ℕ) (acc : List (TokenEvent ℕ)) (e : Event) : List (TokenEvent ℕ) :=
  match e with
  | .call u _ => if u = t then [] else acc
  | e => acc ++ (e.token i).toList.filter (TokenPool.isAbout t)

/-- What happened between task `t` and semaphore `i` since `t` entered its latest call. -/
def takes (i t : ℕ) (log : List Event) : List (TokenEvent ℕ) := log.foldl (takeStep i t) []

theorem takes_append (i t : ℕ) (l es : List Event) :
    takes i t (l ++ es) = es.foldl (takeStep i t) (takes i t l) := by
  simp [takes]

/-- An event that is not a new call of `t` extends its record by the moves of the pool about it. -/
theorem takeStep_of_ne {i t : ℕ} {e : Event} (he : ∀ c, e ≠ .call t c) (acc : List (TokenEvent ℕ)) :
    takeStep i t acc e = acc ++ ([e].filterMap (Event.token i)).filter (TokenPool.isAbout t) := by
  have hone : [e].filterMap (Event.token i) = (e.token i).toList := by
    cases h : e.token i <;> simp [h]
  rw [hone]
  cases e with
  | call u c =>
      have hu : u ≠ t := fun hu => he c (by rw [hu])
      simp [takeStep, hu, Event.token]
  | _ => rfl

/-- Events among which `t` enters no call extend its record by the moves of the pool about it. -/
theorem foldl_takeStep {i t : ℕ} {es : List Event} (hcall : ∀ c, .call t c ∉ es)
    (acc : List (TokenEvent ℕ)) : es.foldl (takeStep i t) acc =
      acc ++ (es.filterMap (Event.token i)).filter (TokenPool.isAbout t) := by
  induction es generalizing acc with
  | nil => exact (List.append_nil acc).symm
  | cons e es ih =>
      have hrest : ∀ c, .call t c ∉ es := fun c hc => hcall c (List.mem_cons_of_mem _ hc)
      have he : ∀ c, e ≠ .call t c := fun c hc => hcall c (by rw [hc]; exact List.mem_cons_self)
      rw [List.foldl_cons, ih hrest, takeStep_of_ne he, List.append_assoc, ← List.filter_append,
        ← List.filterMap_append]
      rfl

/-- **Every return of `hrt_sem_take` was earned**: it reports success, and the call either took a token
or parked and was then handed one. -/
def TakeReturnsOk (l : List Event) : Event → Prop
  | .ret t (.semTake i) code => code = 0 ∧
      (takes i t l = [.taken t] ∨ takes i t l = [.parked t, .handoff t])
  | _ => True

/-- What a call may still return: only success from `hrt_sem_take`. -/
def After.takeOk : After → Prop
  | .ret (.semTake _) code => code = 0
  | _ => True

/-- A take never ends in a yield, and what it returns later is success. -/
def Cont.takeOk : Cont → Prop
  | .yield (.ret (.semTake _) _) => False
  | .yield a | .pend a | .hop a | .resumed a => a.takeOk
  | _ => True

/-- **How the record fits** the wait FIFO and the continuation of task `t`: it waits in the FIFO only
inside a take that has parked; while it is there it has parked and nothing more; once it is not, it was
handed a token; before the second critical section nothing has happened. -/
structure TakeRule (sz : Sizing) (s : Sys) (i t : ℕ) : Prop where
  waiting : t ∈ s.k.waiters sz (.sem i) → (s.conts t).awaits (.semTake i)
  parked : (s.conts t).awaits (.semTake i) → t ∈ s.k.waiters sz (.sem i) →
    takes i t s.log = [.parked t]
  served : (s.conts t).awaits (.semTake i) → t ∉ s.k.waiters sz (.sem i) →
    takes i t s.log = [.parked t, .handoff t]
  fresh : s.conts t = .semTake i → takes i t s.log = []

/-- Only the taking by `t` projects to the taking by `t`. -/
theorem Event.token_eq_taken {e : Event} {i t : ℕ} :
    e.token i = some (.taken t) ↔ e = .semTaken i t := by
  cases e with
  | semTaken j u =>
      by_cases hj : j = i <;> simp [Event.token, hj]
  | _ => simp [Event.token]

/-- Only the parking of `t` projects to the parking of `t`. -/
theorem Event.token_eq_parked {e : Event} {i t : ℕ} :
    e.token i = some (.parked t) ↔ e = .semParked i t := by
  cases e with
  | semParked j u =>
      by_cases hj : j = i <;> simp [Event.token, hj]
  | _ => simp [Event.token]

/-- The takings in a log, seen from the pool. -/
theorem taken_mem_filterMap {evs : List Event} {i t : ℕ} :
    .taken t ∈ evs.filterMap (Event.token i) ↔ .semTaken i t ∈ evs := by
  simp [List.mem_filterMap, Event.token_eq_taken]

/-- The parkings in a log, seen from the pool. -/
theorem parked_mem_filterMap {evs : List Event} {i t : ℕ} :
    .parked t ∈ evs.filterMap (Event.token i) ↔ .semParked i t ∈ evs := by
  simp [List.mem_filterMap, Event.token_eq_parked]

section Moves

variable {sz : Sizing} {s s' : Sys} {i t : ℕ} {evs : List Event}

/-- **A task that does nothing at the semaphore itself.** -/
theorem TakeRule.bystander (h : TakeRule sz s i t) (hlog : s'.log = s.log ++ evs)
    (hs : TokenPool.Step ((s.k.sems i).pool sz) (evs.filterMap (Event.token i))
      ((s'.k.sems i).pool sz))
    (hnd : (s.k.waiters sz (.sem i)).Nodup) (hcall : ∀ c, .call t c ∉ evs)
    (htake : .semTaken i t ∉ evs) (hpark : .semParked i t ∉ evs)
    (haw : (s'.conts t).awaits (.semTake i) ↔ (s.conts t).awaits (.semTake i))
    (hcont : s'.conts t = .semTake i → s.conts t = .semTake i) : TakeRule sz s' i t := by
  have hfold : takes i t s'.log =
      takes i t s.log ++ (evs.filterMap (Event.token i)).filter (TokenPool.isAbout t) := by
    rw [hlog, takes_append, foldl_takeStep hcall]
  rcases hs.bystander hnd (mt taken_mem_filterMap.mp htake) (mt parked_mem_filterMap.mp hpark) with
    ⟨hnone, hiff⟩ | ⟨hone, hin, hout⟩
  · -- nothing happened to it
    rw [hnone, List.append_nil] at hfold
    have hiff' : t ∈ s'.k.waiters sz (.sem i) ↔ t ∈ s.k.waiters sz (.sem i) := hiff
    refine ⟨fun hw => haw.mpr (h.waiting (hiff'.mp hw)), fun ha hw => ?_, fun ha hw => ?_, fun hc => ?_⟩
    · rw [hfold]
      exact h.parked (haw.mp ha) (hiff'.mp hw)
    · rw [hfold]
      exact h.served (haw.mp ha) fun hw' => hw (hiff'.mpr hw')
    · rw [hfold]
      exact h.fresh (hcont hc)
  · -- it was waiting and has been handed a token
    rw [hone] at hfold
    have haw' := h.waiting hin
    refine ⟨fun hw => absurd hw hout, fun _ hw => absurd hw hout, fun _ _ => ?_, fun hc => ?_⟩
    · rw [hfold, h.parked haw' hin]
      rfl
    · rw [hcont hc] at haw'
      exact haw'.elim

/-- **A task that moves and was not waiting.** -/
theorem TakeRule.mover (evs : List Event)
    (hs : TokenPool.Step ((s.k.sems i).pool sz) (evs.filterMap (Event.token i))
      ((s'.k.sems i).pool sz)) (ht : t ∉ s.k.waiters sz (.sem i))
    (haw : (s'.conts t).awaits (.semTake i) ↔ .semParked i t ∈ evs)
    (hparked : .semParked i t ∈ evs → takes i t s'.log = [.parked t])
    (hfresh : s'.conts t = .semTake i → takes i t s'.log = []) : TakeRule sz s' i t := by
  have hiff : t ∈ s'.k.waiters sz (.sem i) ↔ .semParked i t ∈ evs :=
    (hs.mem_waiters ht).trans parked_mem_filterMap
  refine ⟨fun hw => haw.mpr (hiff.mp hw), fun _ hw => hparked (hiff.mp hw), fun ha hw => ?_, hfresh⟩
  exact absurd (hiff.mpr (haw.mp ha)) hw

end Moves

/-! ## One action -/

/-- The event neither takes a token, nor parks on a semaphore, nor starts or ends a take. -/
def Event.offTake : Event → Prop
  | .call _ _ | .semTaken _ _ | .semParked _ _ | .ret _ (.semTake _) _ => False
  | _ => True

/-- The outcome of an action that takes no token and parks on no semaphore. -/
structure OffTake (o : Outcome) : Prop where
  evs : ∀ e ∈ o.evs, e.offTake
  cont : ∀ i, ¬ o.cont.awaits (.semTake i) ∧ o.cont ≠ .semTake i
  ok : o.cont.takeOk

/-- **What an action of `t` does to its own record**, `l` being the log before it. -/
structure TakeAction (t : ℕ) (l : List Event) (o : Outcome) : Prop where
  returns : AlwaysFrom TakeReturnsOk l o.evs
  own : ∀ i u, .semTaken i u ∈ o.evs ∨ .semParked i u ∈ o.evs → u = t
  calls : ∀ u c, .call u c ∈ o.evs → u = t
  awaits : ∀ i, o.cont.awaits (.semTake i) ↔ .semParked i t ∈ o.evs
  parked : ∀ i, .semParked i t ∈ o.evs → takes i t (l ++ o.evs) = [.parked t]
  fresh : ∀ i, o.cont = .semTake i → takes i t (l ++ o.evs) = []
  ok : o.cont.takeOk

section Action

variable {sz : Sizing} {port : Port} {t : ℕ} {k : Kernel} {call : Call} {o : Outcome} {l : List Event}

theorem OffTake.action (h : OffTake o) : TakeAction t l o where
  returns := by
    refine alwaysFrom_of_forall (fun e he l => ?_) l
    have hoff := h.evs e he
    cases e with
    | ret u c code => cases c <;> first | exact hoff.elim | trivial
    | _ => trivial
  own i u hmem := by
    rcases hmem with hmem | hmem
    · exact (h.evs _ hmem).elim
    · exact (h.evs _ hmem).elim
  calls u c hmem := (h.evs _ hmem).elim
  awaits i := iff_of_false (h.cont i).1 fun hmem => h.evs _ hmem
  parked i hmem := (h.evs _ hmem).elim
  fresh i hc := absurd hc (h.cont i).2
  ok := h.ok

theorem sendAttempt_offTake (q : ℕ) (item : List UInt8) (k : Kernel) :
    OffTake (sendAttempt sz t q item k) := by
  simp only [sendAttempt]
  split
  · split
    · exact ⟨by simp [Event.offTake], fun i => ⟨not_false, by simp⟩, trivial⟩
    · exact ⟨by simp [Event.offTake], fun i => ⟨not_false, by simp⟩, trivial⟩
  · exact ⟨by simp, fun i => ⟨not_false, by simp⟩, trivial⟩

theorem recvAttempt_offTake (q : ℕ) (k : Kernel) : OffTake (recvAttempt sz t q k) := by
  simp only [recvAttempt]
  split
  · split
    · exact ⟨by simp [Event.offTake], fun i => ⟨not_false, by simp⟩, trivial⟩
    · exact ⟨by simp [Event.offTake], fun i => ⟨not_false, by simp⟩, trivial⟩
  · exact ⟨by simp, fun i => ⟨not_false, by simp⟩, trivial⟩

/-- The calls that may take a token. -/
def Call.takesToken : Call → Prop
  | .semTryTake _ | .semTake _ => True
  | _ => False

/-- A call other than a take takes no token. -/
theorem issue_offTake (sz : Sizing) (port : Port) (t : ℕ) (k : Kernel) (hcall : ¬ call.takesToken) :
    OffTake (issue sz port t k call) := by
  cases call with
  | semTryTake i => exact absurd trivial hcall
  | semTake i => exact absurd trivial hcall
  | queueSend q item => exact sendAttempt_offTake q item k
  | queueRecv q => exact recvAttempt_offTake q k
  | semGive i =>
      simp only [issue, giveEvents]
      split
      · exact ⟨by simp [Event.offTake], fun i => ⟨not_false, by simp⟩, trivial⟩
      · split
        · exact ⟨by simp [Event.offTake], fun i => ⟨not_false, by simp⟩, trivial⟩
        · exact ⟨by simp [Event.offTake], fun i => ⟨not_false, by simp⟩, trivial⟩
  | yield =>
      exact ⟨by simp [issue], fun i => ⟨by simp [issue, Cont.awaits], by simp [issue]⟩, trivial⟩
  | sleep ms =>
      exact ⟨by simp [issue], fun i => ⟨by simp [issue, Cont.awaits], by simp [issue]⟩, trivial⟩
  | _ =>
      simp only [issue]
      repeat' split
      all_goals
        exact ⟨by simp [Event.offTake], fun i => ⟨by simp [Cont.awaits], by simp⟩, trivial⟩

/-- Taking a token at once ends the call with a record of just that. -/
theorem takes_taken {i : ℕ} (h : takes i t l = []) : takes i t (l ++ [.semTaken i t]) = [.taken t] := by
  simp [takes_append, takeStep, h, Event.token, TokenPool.isAbout]

/-- Parking is recorded. -/
theorem takes_parked {i : ℕ} (h : takes i t l = []) :
    takes i t (l ++ [.semParked i t]) = [.parked t] := by
  simp [takes_append, takeStep, h, Event.token, TokenPool.isAbout]

/-- The first action of a call, with an empty record. -/
theorem issue_takeAction (sz : Sizing) (port : Port) (k : Kernel) (call : Call)
    (hfresh : ∀ i, takes i t l = []) : TakeAction t l (issue sz port t k call) := by
  cases call with
  | semTryTake i =>
      simp only [issue]
      split
      · refine ⟨⟨trivial, trivial, trivial⟩, ?_, by simp, fun j => iff_of_false not_false (by simp),
          by simp, by simp, trivial⟩
        intro j u hmem
        simp_all
      · exact ⟨⟨trivial, trivial⟩, by simp, by simp, fun j => iff_of_false not_false (by simp),
          by simp, by simp, trivial⟩
  | semTake i =>
      simp only [issue]
      split
      · refine ⟨⟨trivial, ⟨rfl, Or.inl (takes_taken (hfresh i))⟩, trivial⟩, ?_, by simp,
          fun j => iff_of_false not_false (by simp), by simp, by simp, trivial⟩
        intro j u hmem
        simp_all
      · refine ⟨trivial, by simp, by simp, fun j => iff_of_false not_false (by simp), by simp,
          fun j _ => ?_, trivial⟩
        rw [List.append_nil]
        exact hfresh j
  | _ =>
      refine (issue_offTake sz port t k ?_).action
      exact not_false

/-- The second critical section of `hrt_sem_take`, with an empty record. -/
theorem semTakeAction_takeAction (sz : Sizing) (k : Kernel) {i : ℕ} (hfresh : takes i t l = []) :
    TakeAction t l (semTakeAction sz t i k) := by
  simp only [semTakeAction]
  split
  · refine ⟨⟨trivial, ⟨rfl, Or.inl (takes_taken hfresh)⟩, trivial⟩, ?_, by simp,
      fun j => iff_of_false not_false (by simp), by simp, by simp, trivial⟩
    intro j u hmem
    simp_all
  · refine ⟨⟨trivial, trivial⟩, ?_, by simp, fun j => ?_, fun j hmem => ?_, by simp, rfl⟩
    · intro j u hmem
      simp_all
    · simp [Cont.awaits, eq_comm]
    · obtain rfl : j = i := by simpa using hmem
      exact takes_parked hfresh

/-- The second critical section of `hrt_mutex_lock` is not about semaphores. -/
theorem mutexLockAction_offTake (i : ℕ) (k : Kernel) : OffTake (mutexLockAction sz t i k) := by
  simp only [mutexLockAction]
  split <;> exact ⟨by simp [Event.offTake], fun j => ⟨by simp [Cont.awaits], by simp⟩, trivial⟩

/-- The second critical section of `hrt_queue_send` is not about semaphores. -/
theorem queueSendAction_offTake (q : ℕ) (item : List UInt8) (k : Kernel) :
    OffTake (queueSendAction sz t q item k) := by
  simp only [queueSendAction]
  split
  · rename_i w _
    refine ⟨?_, fun j => ⟨by simp [Cont.awaits], by simp⟩, trivial⟩
    cases w <;> simp [rxWokenEvent, Event.offTake]
  · exact ⟨by simp [Event.offTake], fun j => ⟨by simp [Cont.awaits], by simp⟩, trivial⟩

/-- The second critical section of `hrt_queue_recv` is not about semaphores. -/
theorem queueRecvAction_offTake (q : ℕ) (k : Kernel) : OffTake (queueRecvAction sz t q k) := by
  simp only [queueRecvAction]
  split
  · rename_i w _
    refine ⟨?_, fun j => ⟨by simp [Cont.awaits], by simp⟩, trivial⟩
    cases w <;> simp [txWokenEvent, Event.offTake]
  · exact ⟨by simp [Event.offTake], fun j => ⟨by simp [Cont.awaits], by simp⟩, trivial⟩

/-- **Every action of a task that runs** keeps its record right. -/
theorem task_takeAction {c : Cont} (hfresh : ∀ i, c = .semTake i → takes i t l = [])
    (hserved : ∀ i code, c = .resumed (.ret (.semTake i) code) →
      code = 0 ∧ takes i t l = [.parked t, .handoff t])
    (hex : c.executing = true) (h : nextAction sz port t call k c = some o) : TakeAction t l o := by
  cases c with
  | none => exact absurd hex (by simp [Cont.executing])
  | yield a => exact absurd hex (by simp [Cont.executing])
  | pend a => exact absurd hex (by simp [Cont.executing])
  | hop a => exact absurd hex (by simp [Cont.executing])
  | user =>
      obtain rfl := Option.some.inj h
      have hnew : ∀ i, takes i t (l ++ [.call t call]) = [] := by
        intro i
        simp [takes_append, takeStep]
      obtain ⟨hret, hown, hcalls, haw, hpark, hfr, hok⟩ := issue_takeAction sz port k call hnew
      refine ⟨⟨trivial, hret⟩, ?_, ?_, fun i => ?_, fun i hmem => ?_, fun i hc => ?_, hok⟩
      · intro i u hmem
        exact hown i u (by simpa using hmem)
      · intro u c hmem
        rcases List.mem_cons.mp hmem with heq | hmem
        · exact (Event.call.inj heq).1
        · exact hcalls u c hmem
      · rw [haw i]
        simp
      · have := hpark i (by simpa using hmem)
        rwa [List.append_assoc] at this
      · have := hfr i hc
        rwa [List.append_assoc] at this
  | resumed a =>
      obtain rfl := Option.some.inj h
      cases a with
      | ret c' code =>
          by_cases hc' : ∃ i, c' = .semTake i
          · obtain ⟨i, rfl⟩ := hc'
            obtain ⟨rfl, htakes⟩ := hserved i code rfl
            exact ⟨⟨⟨rfl, Or.inr htakes⟩, trivial⟩, by simp [resume], by simp [resume],
              fun j => iff_of_false not_false (by simp [resume]), by simp [resume], by simp [resume],
              trivial⟩
          · refine OffTake.action ⟨?_, fun i => ⟨not_false, by simp [resume]⟩, trivial⟩
            intro e he
            obtain rfl : e = .ret t c' code := by simpa [resume] using he
            cases c' <;> first | trivial | exact (hc' ⟨_, rfl⟩).elim
      | sendAgain q item => exact (sendAttempt_offTake q item k).action
      | recvAgain q => exact (recvAttempt_offTake q k).action
  | semTake i =>
      obtain rfl := Option.some.inj h
      exact semTakeAction_takeAction sz k (hfresh i rfl)
  | mutexLock i => exact Option.some.inj h ▸ (mutexLockAction_offTake i k).action
  | queueSend q item => exact Option.some.inj h ▸ (queueSendAction_offTake q item k).action
  | queueRecv q => exact Option.some.inj h ▸ (queueRecvAction_offTake q k).action

end Action

/-! ## Every step -/

/-- **The take invariant.** -/
structure TakeInv (sz : Sizing) (s : Sys) : Prop where
  rule : ∀ i t, TakeRule sz s i t
  alive : ∀ i t, (s.conts t).awaits (.semTake i) → s.k.stateOf t ≠ .unused
  ok : ∀ t, (s.conts t).takeOk
  returns : Always TakeReturnsOk s.log

section Steps

variable {sz : Sizing} {port : Port} {s s' : Sys} {es : List Event}

/-- **A step in which nobody takes or parks**, and every task stays at its place in its call. -/
theorem TakeInv.frame (h : TakeInv sz s) (hinv : PartInv sz s) (hlog : s'.log = s.log ++ es)
    (hpool : SemStep sz s.k s'.k es) (hoff : ∀ e ∈ es, e.offTake)
    (haw : ∀ i u, (s'.conts u).awaits (.semTake i) ↔ (s.conts u).awaits (.semTake i))
    (hsem : ∀ i u, s'.conts u = .semTake i → s.conts u = .semTake i)
    (hok : ∀ u, (s'.conts u).takeOk)
    (halive : ∀ u, s'.k.stateOf u = .unused → s.k.stateOf u = .unused) : TakeInv sz s' := by
  refine ⟨fun i t => ?_, fun i t ha hun => ?_, hok, ?_⟩
  · exact (h.rule i t).bystander hlog (hpool i).1 (hinv.part.part.nodup _)
      (fun c hc => hoff _ hc) (fun hc => hoff _ hc) (fun hc => hoff _ hc) (haw i t) (hsem i t)
  · exact h.alive i t ((haw i t).mp ha) (halive t hun)
  · rw [hlog]
    refine always_append.mpr ⟨h.returns, alwaysFrom_of_forall (fun e he l => ?_) _⟩
    have hoff' := hoff e he
    cases e with
    | ret u c code => cases c <;> first | exact hoff'.elim | trivial
    | _ => trivial

/-- A fresh context is not inside a take. -/
theorem spawned_takeOk (h : ∀ t, (s.conts t).takeOk) (id : Option ℕ) (t : ℕ) :
    (s.spawned id t).takeOk := by
  rcases s.spawned_cases id t with hs | ⟨-, hs⟩
  · rw [hs]
    exact h t
  · rw [hs]
    trivial

/-- A task in the second critical section of a take was there before a slot was filled. -/
theorem spawned_semTake {id : Option ℕ} {i u : ℕ} (h : s.spawned id u = .semTake i) :
    s.conts u = .semTake i := by
  rwa [Sys.spawned_of_ne_user (by simp [h])] at h

/-- ISR operations neither take nor park. -/
theorem isr_offTake (sz : Sizing) (k : Kernel) (op : Isr) :
    ∀ e ∈ (isrAction sz k op).2.2, e.offTake := by
  cases op with
  | semGive i =>
      simp only [isrAction, giveEvents]
      split
      · simp [Event.offTake]
      · split <;> simp [Event.offTake]
  | queueTrySend q item =>
      simp only [isrAction]
      split
      · cases (hrtQueueTrySendFromIsrCs sz q item k).2.1 <;> simp [rxWokenEvent, Event.offTake]
      · simp
  | queueTryRecv q =>
      simp only [isrAction]
      split
      · cases (hrtQueueTryRecvFromIsrCs sz q k).2.2.1 <;> simp [txWokenEvent, Event.offTake]
      · simp

/-- A task that goes on to wait in a take has just been blocked. -/
theorem blocked_of_awaits {t i : ℕ} {k : Kernel} {call : Call} {c : Cont} {o : Outcome}
    (heff : TaskEffect sz port t k call c o) (hex : c.executing = true)
    (ha : o.cont.awaits (.semTake i)) : o.k.stateOf t = .blocked := by
  cases heff with
  | quiet hq hc hc' =>
      rcases hc' with rfl | ⟨hre, -⟩
      · exact ha.elim
      · rename_i c' _ _
        cases c' <;> first | exact ha.elim | exact absurd hre (by simp [Cont.rechecks])
  | request => exact absurd hex (by simp [Cont.executing])
  | yield hc =>
      rcases hc with ⟨-, -, rfl⟩ | rfl
      · exact absurd ha (by simp [Cont.awaits])
      · exact absurd hex (by simp [Cont.executing])
  | sleep => exact absurd ha (by simp [Cont.awaits])
  | delete ht hcall => exact absurd ha (by simp [Cont.awaits])
  | park hc hp => rw [hp.stateOf, if_pos rfl]
  | wake hc hf hw => exact ha.elim
  | wakeOnRecheck hc hw => exact ha.elim
  | create hcall => exact ha.elim
  | policy hcall => exact ha.elim

/-- **An action of a task that runs** keeps the take invariant. -/
theorem TakeInv.task (h : TakeInv sz s) (hinv : PartInv sz s) {t : ℕ} {call : Call} {o : Outcome}
    (hex : (s.conts t).executing = true) (hnb : s.k.stateOf t ≠ .blocked)
    (ho : nextAction sz port t call s.k (s.conts t) = some o) (hpool : SemStep sz s.k o.k o.evs) :
    TakeInv sz (s.apply t o) := by
  have hout : ∀ i, t ∉ s.k.waiters sz (.sem i) := fun i hm => hnb (hinv.part.blocked_of_mem hm)
  have hact : TakeAction t s.log o := by
    refine task_takeAction (fun i hc => (h.rule i t).fresh hc) (fun i code hc => ?_) hex ho
    have hok := h.ok t
    rw [hc] at hok
    obtain rfl : code = 0 := hok
    exact ⟨rfl, (h.rule i t).served (by rw [hc]; rfl) (hout i)⟩
  refine ⟨fun i u => ?_, fun i u ha => ?_, fun u => ?_, ?_⟩
  · by_cases hut : u = t
    · subst hut
      refine TakeRule.mover o.evs (hpool i).1 (hout i) ?_ (hact.parked i) fun hc => ?_
      · rw [Sys.apply_conts_self]
        exact hact.awaits i
      · rw [Sys.apply_conts_self] at hc
        exact hact.fresh i hc
    · refine (h.rule i u).bystander rfl (hpool i).1 (hinv.part.part.nodup _)
        (fun c hc => hut (hact.calls u c hc)) (fun hc => hut (hact.own i u (Or.inl hc)))
        (fun hc => hut (hact.own i u (Or.inr hc))) ?_ fun hc => ?_
      · exact (awaits_others (h.alive i) ho).1 u hut
      · rw [Sys.apply_conts_of_ne s hut] at hc
        exact spawned_semTake hc
  · by_cases hut : u = t
    · subst hut
      rw [Sys.apply_conts_self] at ha
      have hb := blocked_of_awaits (taskEffect ho) hex ha
      show o.k.stateOf u ≠ .unused
      rw [hb]
      simp
    · obtain ⟨haw, halive⟩ := awaits_others (h.alive i) ho
      exact halive u hut ((haw u hut).mp ha)
  · by_cases hut : u = t
    · rw [hut, Sys.apply_conts_self]
      exact hact.ok
    · rw [Sys.apply_conts_of_ne s hut]
      exact spawned_takeOk h.ok o.spawn u
  · exact always_append.mpr ⟨h.returns, hact.returns⟩

/-- A step that logs nothing and moves one task along inside its call. -/
theorem TakeInv.moved (h : TakeInv sz s) (hinv : PartInv sz s) (hlog : s'.log = s.log ++ [])
    (hpool : SemStep sz s.k s'.k []) {t : ℕ} {c' : Cont}
    (hconts : s'.conts = Function.update s.conts t c')
    (haw : ∀ i, c'.awaits (.semTake i) ↔ (s.conts t).awaits (.semTake i))
    (hsem : ∀ i, c' ≠ .semTake i) (hok : c'.takeOk)
    (hst : ∀ u, s'.k.stateOf u = s.k.stateOf u) : TakeInv sz s' := by
  refine h.frame hinv hlog hpool (by simp) (fun i u => ?_) (fun i u hc => ?_) (fun u => ?_)
    fun u hu => (hst u).symm.trans hu
  · by_cases hut : u = t
    · rw [hconts, hut, Function.update_self]
      exact haw i
    · rw [hconts, Function.update_of_ne hut]
  · by_cases hut : u = t
    · rw [hconts, hut, Function.update_self] at hc
      exact absurd hc (hsem i)
    · rwa [hconts, Function.update_of_ne hut] at hc
  · by_cases hut : u = t
    · rw [hconts, hut, Function.update_self]
      exact hok
    · rw [hconts, Function.update_of_ne hut]
      exact h.ok u

/-- **A call on its way out**: the record and the FIFOs stay as they are. -/
theorem TakeInv.leaving (h : TakeInv sz s) (hinv : PartInv sz s) {t : ℕ} {call : Call} {o : Outcome}
    (hex : (s.conts t).executing = false) (ho : nextAction sz port t call s.k (s.conts t) = some o)
    (hpool : SemStep sz s.k o.k o.evs) : TakeInv sz (s.apply t o) := by
  have hok := h.ok t
  cases hc : s.conts t with
  | yield a =>
      rw [hc] at ho hok
      obtain rfl := Option.some.inj ho
      refine h.moved hinv rfl hpool rfl (fun i => ?_) (by simp) ?_ (stateOf_hrtYieldBody sz t s.k)
      · show (Cont.pend a).awaits (.semTake i) ↔ (s.conts t).awaits (.semTake i)
        rw [hc]
        refine iff_of_false ?_ not_false
        rintro rfl
        exact hok
      · cases a with
        | ret c' code => cases c' <;> first | exact hok.elim | trivial
        | sendAgain q item => trivial
        | recvAgain q => trivial
  | pend a =>
      rw [hc] at ho hok
      obtain rfl := Option.some.inj ho
      refine h.moved hinv rfl hpool rfl (fun i => ?_) (by simp) hok fun u => rfl
      show (Cont.hop a).awaits (.semTake i) ↔ (s.conts t).awaits (.semTake i)
      rw [hc]
      exact Iff.rfl
  | none => rw [hc] at ho; exact absurd ho (by simp [nextAction])
  | hop a => rw [hc] at ho; exact absurd ho (by simp [nextAction])
  | _ => rw [hc] at hex; exact absurd hex (by simp [Cont.executing])

/-- The return from `hrt_port_yield_to_scheduler` keeps the take invariant. -/
theorem TakeInv.land (h : TakeInv sz s) (hinv : PartInv sz s) {t : ℕ} {x : After}
    (hx : s.conts t = .hop x) (hpool : SemStep sz s.k (s.land t x).k []) : TakeInv sz (s.land t x) := by
  have hok := h.ok t
  rw [hx] at hok
  refine h.moved hinv (List.append_nil _).symm hpool rfl (fun i => ?_) (by simp) hok fun u => rfl
  show (Cont.resumed x).awaits (.semTake i) ↔ (s.conts t).awaits (.semTake i)
  rw [hx]
  exact Iff.rfl

/-- **Every step in which parked tasks wait keeps the take invariant.** -/
theorem TakeInv.step (hr : sz.Representable) {a : Interleave.Action} (h : TakeInv sz s)
    (hinv : PartInv sz s) (hS : ∀ i, (s.k.sems i).WF) (hwait : WaitsParked s a)
    (hstep : Interleave.step sz port s a = some s') : TakeInv sz s' := by
  obtain ⟨es, hlog, hpool⟩ := sem_refines hr hinv hS hstep
  -- a step that logs nothing
  have hsilent : s'.log = s.log → es = [] := fun hl =>
    List.append_cancel_left ((hlog.symm.trans hl).trans (List.append_nil s.log).symm)
  cases a with
  | main c =>
      obtain rfl := Option.some.inj hstep
      cases c with
      | createTask a =>
          obtain rfl := hsilent rfl
          refine h.frame hinv hlog hpool (by simp) (fun i u => ?_) (fun i u hc => ?_) (fun u => ?_)
            fun u hu => hrtCreateTask_unused hu
          · exact awaits_spawned (h.alive i) (fun j hj => (hrtCreateTask_some hj).2) u
          · exact spawned_semTake hc
          · exact spawned_takeOk h.ok _ u
      | setPolicy p =>
          obtain rfl := hsilent rfl
          exact h.frame hinv hlog hpool (by simp) (fun i u => Iff.rfl) (fun i u hc => hc) h.ok
            fun u hu => hu
      | setDefaultTimeslice n =>
          obtain rfl := hsilent rfl
          exact h.frame hinv hlog hpool (by simp) (fun i u => Iff.rfl) (fun i u hc => hc) h.ok
            fun u hu => hu
  | isr op =>
      obtain rfl := Option.some.inj hstep
      obtain rfl : (isrAction sz s.k op).2.2 = es := List.append_cancel_left hlog
      exact h.frame hinv hlog hpool (isr_offTake sz s.k op) (fun i u => Iff.rfl) (fun i u hc => hc)
        h.ok fun u hu => isr_unused hu
  | tick =>
      obtain rfl := Option.some.inj hstep
      obtain rfl := hsilent rfl
      exact h.frame hinv hlog hpool (by simp) (fun i u => Iff.rfl) (fun i u hc => hc) h.ok
        fun u hu => (hrtTickIsr_unused_iff sz s.k u).mp hu
  | sched op =>
      obtain rfl := Option.some.inj hstep
      obtain rfl := hsilent rfl
      refine h.frame hinv hlog hpool (by simp) (fun i u => Iff.rfl) (fun i u hc => hc) h.ok
        fun u hu => ?_
      rwa [Interleave.SchedOp.run_stateOf] at hu
  | task t c =>
      -- making `t` current touches nothing the invariant reads
      have hcur : TakeInv sz (s.setCurrent t) :=
        ⟨fun i u => ⟨(h.rule i u).waiting, (h.rule i u).parked, (h.rule i u).served,
          (h.rule i u).fresh⟩, h.alive, h.ok, h.returns⟩
      have hinv' := hinv.setCurrent t
      rcases Interleave.step_task hstep with ⟨o, hact, ho, rfl⟩ | ⟨x, hx, rfl⟩
      · obtain rfl : o.evs = es := List.append_cancel_left hlog
        cases hex : (s.conts t).executing with
        | true => exact hcur.task hinv' hex (hinv.not_blocked hact hwait hex) ho hpool
        | false => exact hcur.leaving hinv' hex ho hpool
      · obtain rfl := hsilent rfl
        exact hcur.land hinv' hx hpool

/-- After boot nobody is inside a take. -/
theorem TakeInv.boot (sz : Sizing) (port : Port) (cfg : Option KernelConfig) (objs : ObjectSpecs)
    (mem : Kernel) : TakeInv sz (Sys.boot sz port cfg objs mem) := by
  refine ⟨fun i t => ⟨fun hw => ?_, fun ha => ha.elim, fun ha => ha.elim, ?_⟩, fun i t ha => ha.elim,
    fun t => trivial, always_nil⟩
  · have hb := (PartInv.boot sz port cfg objs mem).part.blocked_of_mem hw
    exact absurd ((stateOf_hrtInit sz _ port cfg t).symm.trans hb) (by simp)
  · intro hc
    exact absurd hc (by simp [Sys.boot])

/-- **Along every run in which parked tasks wait** the take invariant holds. -/
theorem takeInv_of_run {cfg : Option KernelConfig} {objs : ObjectSpecs} {mem : Kernel}
    {as : List Interleave.Action} (hr : sz.Representable)
    (hrun : exec (Interleave.step sz port) (Sys.boot sz port cfg objs mem) as = some s)
    (hwait : Along (Interleave.step sz port) WaitsParked (Sys.boot sz port cfg objs mem) as) :
    TakeInv sz s := by
  have hinv : TakeInv sz s ∧ PartInv sz s ∧ ∀ i, (s.k.sems i).WF := by
    refine exec_invariant (I := fun s => TakeInv sz s ∧ PartInv sz s ∧ ∀ i, (s.k.sems i).WF) ?_
      ⟨TakeInv.boot sz port cfg objs mem, PartInv.boot sz port cfg objs mem,
        Sem.WF.boot sz port cfg objs mem⟩ hwait hrun
    rintro s a s' ⟨h, hpart, hS⟩ hw hstep
    obtain ⟨es, -, hmove⟩ := sem_refines hr hpart hS hstep
    exact ⟨h.step hr hpart hS hw hstep, hpart.step hr hstep, fun i => (hmove i).2⟩
  exact hinv.1

end Steps

end HardRT
