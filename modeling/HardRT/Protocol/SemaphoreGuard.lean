import HardRT.Lib.TokenHolders
import HardRT.Protocol.SemaphoreCalls

/-! # Semaphores that guard a resource

A semaphore does not know who took a token, and anybody may give one. If a task gives only after a take
of its own has returned, and no interrupt gives, a semaphore that starts with `n` tokens lets at most `n`
tasks in at a time; with one token it excludes them from each other like a mutex.

* `entered i log` — the tasks a take of semaphore `i` has let in and that have not given since.
* `holders i log` — those that hold a token, the ones included that have been handed one while parked.
* `GivesEntered i` — the rule: `hrt_sem_give` is called only by a task that has been let in.
* `GuardEffect` — what one action of a task means for one semaphore.
* `sem_guards` — over every interleaving that keeps the rule, each of the `n` tokens is stored or held,
  at most `n` tasks are inside, no give is lost, and a task waits only while all tokens are held. -/

namespace HardRT

open Lib

/-! ## Holders and tasks inside -/

/-- The holders after one more event: whoever takes a token or is handed one, until it calls
`hrt_sem_give`. -/
def holdStep (i : ℕ) (h : List ℕ) : Event → List ℕ
  | .semTaken j t | .semHandoff j t => if j = i then t :: h else h
  | .call t (.semGive j) => if j = i then h.erase t else h
  | _ => h

/-- **The holders of semaphore `i`**, as often as they hold a token of it, latest first. -/
def holders (i : ℕ) (log : List Event) : List ℕ := log.foldl (holdStep i) []

/-- The tasks inside after one more event: whoever a take has returned 0 to, until it calls
`hrt_sem_give`. -/
def enterStep (i : ℕ) (h : List ℕ) : Event → List ℕ
  | .ret t (.semTake j) code | .ret t (.semTryTake j) code =>
      if j = i ∧ code = 0 then t :: h else h
  | .call t (.semGive j) => if j = i then h.erase t else h
  | _ => h

/-- **The tasks that semaphore `i` has let in** and that have not given since, latest first. -/
def entered (i : ℕ) (log : List Event) : List ℕ := log.foldl (enterStep i) []

/-- The events that matter to semaphore `i`. -/
def Event.concerns (i : ℕ) : Event → Bool
  | .semTaken j _ | .semParked j _ | .semGiven j | .semHandoff j _ | .semSaturated j => j = i
  | .call _ (.semGive j) => j = i
  | .ret _ (.semTake j) code | .ret _ (.semTryTake j) code => decide (j = i ∧ code = 0)
  | _ => false

/-- An event that does not matter to a semaphore changes neither list and is no move of the pool. -/
theorem Event.unconcerned {i : ℕ} {e : Event} (h : e.concerns i = false) (l : List ℕ) :
    holdStep i l e = l ∧ enterStep i l e = l ∧ e.token i = none := by
  cases e with
  | call t c =>
      cases c with
      | semGive j =>
          have hj : j ≠ i := by simpa [Event.concerns] using h
          simp [holdStep, enterStep, Event.token, hj]
      | _ => exact ⟨rfl, rfl, rfl⟩
  | ret t c code =>
      cases c with
      | semTake j =>
          have hj : ¬ (j = i ∧ code = 0) := by simpa [Event.concerns] using h
          exact ⟨rfl, if_neg hj, rfl⟩
      | semTryTake j =>
          have hj : ¬ (j = i ∧ code = 0) := by simpa [Event.concerns] using h
          exact ⟨rfl, if_neg hj, rfl⟩
      | _ => exact ⟨rfl, rfl, rfl⟩
  | semTaken j t =>
      have hj : j ≠ i := by simpa [Event.concerns] using h
      exact ⟨if_neg hj, rfl, if_neg hj⟩
  | semHandoff j t =>
      have hj : j ≠ i := by simpa [Event.concerns] using h
      exact ⟨if_neg hj, rfl, if_neg hj⟩
  | semParked j t =>
      have hj : j ≠ i := by simpa [Event.concerns] using h
      exact ⟨rfl, rfl, if_neg hj⟩
  | semGiven j =>
      have hj : j ≠ i := by simpa [Event.concerns] using h
      exact ⟨rfl, rfl, if_neg hj⟩
  | semSaturated j =>
      have hj : j ≠ i := by simpa [Event.concerns] using h
      exact ⟨rfl, rfl, if_neg hj⟩
  | _ => exact ⟨rfl, rfl, rfl⟩

/-- **Only the events that matter to a semaphore count**, for the two lists and for the pool. -/
theorem foldl_concerns (i : ℕ) (es : List Event) (l : List ℕ) :
    es.foldl (holdStep i) l = (es.filter (Event.concerns i)).foldl (holdStep i) l ∧
    es.foldl (enterStep i) l = (es.filter (Event.concerns i)).foldl (enterStep i) l ∧
    es.filterMap (Event.token i) = (es.filter (Event.concerns i)).filterMap (Event.token i) := by
  -- both lists are built up from the left, so the induction is over every list to start from
  induction es generalizing l with
  | nil => exact ⟨rfl, rfl, rfl⟩
  | cons e es ih =>
      cases he : e.concerns i with
      | true =>
          rw [List.filter_cons_of_pos he]
          refine ⟨(ih _).1, (ih _).2.1, ?_⟩
          rw [List.filterMap_cons, List.filterMap_cons, (ih l).2.2]
      | false =>
          obtain ⟨hhold, henter, htoken⟩ := Event.unconcerned he l
          rw [List.filter_cons_of_neg (by simp [he]), List.foldl_cons, List.foldl_cons, hhold, henter,
            List.filterMap_cons_none htoken]
          exact ih l

/-! ## One action of a task -/

/-- The call has yet to return from `hrt_sem_try_take`. -/
def After.tries : After → Prop
  | .ret (.semTryTake _) _ => True
  | _ => False

/-- The task is somewhere inside `hrt_sem_try_take`; it never is, since that call is one action. -/
def Cont.tries : Cont → Prop
  | .yield a | .pend a | .hop a | .resumed a => a.tries
  | _ => False

/-- **What an action of task `t` at `c` means for semaphore `i`**: the events that matter to it, and
whether the task is in a take that has parked. -/
inductive GuardEffect (i t : ℕ) (call : Call) (c : Cont) : List Event → Cont → Prop
  /-- Nothing. -/
  | off {es : List Event} {c' : Cont} (hes : es.filter (Event.concerns i) = [])
      (haw : c'.awaits (.semTake i) ↔ c.awaits (.semTake i)) : GuardEffect i t call c es c'
  /-- A take finds a token and returns. -/
  | take {es : List Event} {c' : Cont} {x : Call} (hx : x = .semTryTake i ∨ x = .semTake i)
      (hes : es.filter (Event.concerns i) = [.semTaken i t, .ret t x 0])
      (haw : ¬ c.awaits (.semTake i)) (haw' : ¬ c'.awaits (.semTake i)) : GuardEffect i t call c es c'
  /-- A take parks. -/
  | park {es : List Event} {c' : Cont} (hes : es.filter (Event.concerns i) = [.semParked i t])
      (haw : ¬ c.awaits (.semTake i)) (haw' : c'.awaits (.semTake i)) : GuardEffect i t call c es c'
  /-- A take that had parked returns. -/
  | back {es : List Event} {c' : Cont} (hc : c = .resumed (.ret (.semTake i) 0))
      (hes : es.filter (Event.concerns i) = [.ret t (.semTake i) 0])
      (haw' : ¬ c'.awaits (.semTake i)) : GuardEffect i t call c es c'
  /-- A give. -/
  | give {es : List Event} {c' : Cont} (w : Option ℕ) (S : Sem) (hc : c = .user)
      (hcall : call = .semGive i)
      (hes : es.filter (Event.concerns i) = .call t (.semGive i) :: giveEvents i w S)
      (haw' : ¬ c'.awaits (.semTake i)) : GuardEffect i t call c es c'

/-- The outcome of an action that does nothing at semaphore `i`. -/
structure OffSem (i : ℕ) (o : Outcome) : Prop where
  evs : o.evs.filter (Event.concerns i) = []
  awaits : ¬ o.cont.awaits (.semTake i)
  tries : ¬ o.cont.tries

section Action

variable {sz : Sizing} {port : Port} {i t : ℕ} {k : Kernel} {call : Call} {c : Cont} {o : Outcome}

/-- A round of `hrt_queue_send` does nothing at a semaphore. -/
theorem sendAttempt_offSem (q : ℕ) (item : List UInt8) (k : Kernel) :
    OffSem i (sendAttempt sz t q item k) := by
  simp only [sendAttempt]
  split
  · split <;> exact ⟨rfl, not_false, not_false⟩
  · exact ⟨rfl, not_false, not_false⟩

/-- Nor does one of `hrt_queue_recv`. -/
theorem recvAttempt_offSem (q : ℕ) (k : Kernel) : OffSem i (recvAttempt sz t q k) := by
  simp only [recvAttempt]
  split
  · split <;> exact ⟨rfl, not_false, not_false⟩
  · exact ⟨rfl, not_false, not_false⟩

/-- The calls on semaphores. -/
def Call.onSem : Call → Prop
  | .semTryTake _ | .semTake _ | .semGive _ => True
  | _ => False

/-- Any other call does nothing at a semaphore. -/
theorem issue_offSem (sz : Sizing) (port : Port) (t : ℕ) (k : Kernel) (hcall : ¬ call.onSem) :
    OffSem i (issue sz port t k call) := by
  cases call with
  | semTryTake j => exact absurd trivial hcall
  | semTake j => exact absurd trivial hcall
  | semGive j => exact absurd trivial hcall
  | queueSend q item => exact sendAttempt_offSem q item k
  | queueRecv q => exact recvAttempt_offSem q k
  | yield => exact ⟨rfl, by simp [issue, Cont.awaits], not_false⟩
  | sleep ms => exact ⟨rfl, by simp [issue, Cont.awaits], not_false⟩
  | _ =>
      simp only [issue]
      repeat' split
      all_goals exact ⟨rfl, by simp [Cont.awaits], not_false⟩

/-- The second critical section of `hrt_mutex_lock` does nothing at a semaphore. -/
theorem mutexLockAction_offSem (m : ℕ) (k : Kernel) : OffSem i (mutexLockAction sz t m k) := by
  simp only [mutexLockAction]
  split <;> exact ⟨rfl, by simp [Cont.awaits], not_false⟩

/-- The second critical section of `hrt_queue_send` does nothing at a semaphore. -/
theorem queueSendAction_offSem (q : ℕ) (item : List UInt8) (k : Kernel) :
    OffSem i (queueSendAction sz t q item k) := by
  simp only [queueSendAction]
  split
  · rename_i w _
    cases w <;> exact ⟨rfl, not_false, not_false⟩
  · exact ⟨rfl, by simp [Cont.awaits], not_false⟩

/-- The second critical section of `hrt_queue_recv` does nothing at a semaphore. -/
theorem queueRecvAction_offSem (q : ℕ) (k : Kernel) : OffSem i (queueRecvAction sz t q k) := by
  simp only [queueRecvAction]
  split
  · rename_i w _
    cases w <;> exact ⟨rfl, not_false, not_false⟩
  · exact ⟨rfl, by simp [Cont.awaits], not_false⟩

/-- All events of a give matter to its semaphore, and to no other. -/
theorem giveEvents_filter (i j : ℕ) (w : Option ℕ) (S : Sem) :
    (giveEvents j w S).filter (Event.concerns i) = if j = i then giveEvents j w S else [] := by
  unfold giveEvents
  by_cases hj : j = i
  · split
    · simp [Event.concerns, hj]
    · split <;> simp [Event.concerns, hj]
  · split
    · simp [Event.concerns, hj]
    · split <;> simp [Event.concerns, hj]

/-- The first action of a call. -/
theorem issue_guardEffect (sz : Sizing) (port : Port) (i t : ℕ) (k : Kernel) (call : Call) :
    GuardEffect i t call .user (.call t call :: (issue sz port t k call).evs)
      (issue sz port t k call).cont ∧ ¬ (issue sz port t k call).cont.tries := by
  by_cases hsem : call.onSem
  · cases call with
    | semTryTake j =>
        simp only [issue]
        split
        · refine ⟨?_, not_false⟩
          by_cases hj : j = i
          · subst hj
            exact .take (Or.inl rfl) (by simp [Event.concerns]) not_false not_false
          · exact .off (by simp [Event.concerns, hj]) Iff.rfl
        · exact ⟨.off (by simp [Event.concerns]) Iff.rfl, not_false⟩
    | semTake j =>
        simp only [issue]
        split
        · refine ⟨?_, not_false⟩
          by_cases hj : j = i
          · subst hj
            exact .take (Or.inr rfl) (by simp [Event.concerns]) not_false not_false
          · exact .off (by simp [Event.concerns, hj]) Iff.rfl
        · exact ⟨.off (by simp [Event.concerns]) Iff.rfl, not_false⟩
    | semGive j =>
        simp only [issue]
        split
        · rename_i w hw
          refine ⟨?_, not_false⟩
          by_cases hj : j = i
          · subst hj
            refine .give (some w) (k.sems j) rfl rfl ?_ not_false
            rw [List.filter_cons_of_pos (by simp [Event.concerns]), giveEvents_filter, if_pos rfl]
          · refine .off ?_ Iff.rfl
            rw [List.filter_cons_of_neg (by simp [Event.concerns, hj]), giveEvents_filter, if_neg hj]
        · refine ⟨?_, not_false⟩
          -- nobody was woken: the call returns at once
          have hret : [Event.ret t (.semGive j) 0].filter (Event.concerns i) = [] := rfl
          by_cases hj : j = i
          · subst hj
            refine .give none (k.sems j) rfl rfl ?_ not_false
            rw [List.filter_cons_of_pos (by simp [Event.concerns]), List.filter_append, hret,
              List.append_nil, giveEvents_filter, if_pos rfl]
          · refine .off ?_ Iff.rfl
            rw [List.filter_cons_of_neg (by simp [Event.concerns, hj]), List.filter_append, hret,
              List.append_nil, giveEvents_filter, if_neg hj]
    | _ => exact absurd hsem not_false
  · obtain ⟨hevs, haw, htries⟩ := issue_offSem (i := i) sz port t k hsem
    refine ⟨.off ?_ (iff_of_false haw not_false), htries⟩
    have hcall : ¬ (Event.call t call).concerns i = true := by
      cases call <;> first | exact absurd trivial hsem | simp [Event.concerns]
    rw [List.filter_cons_of_neg hcall, hevs]

/-- An action that does nothing at the semaphore, from outside of a parked take. -/
theorem OffSem.guardEffect (h : OffSem i o) (hc : ¬ c.awaits (.semTake i)) :
    GuardEffect i t call c o.evs o.cont ∧ ¬ o.cont.tries :=
  ⟨.off h.evs (iff_of_false h.awaits hc), h.tries⟩

/-- **Every action of a task has one of these effects.** -/
theorem guardEffect (i : ℕ) (hok : c.takeOk) (htries : ¬ c.tries)
    (h : nextAction sz port t call k c = some o) :
    GuardEffect i t call c o.evs o.cont ∧ ¬ o.cont.tries := by
  cases c with
  | none => exact absurd h (by simp [nextAction])
  | hop a => exact absurd h (by simp [nextAction])
  | user =>
      obtain rfl := Option.some.inj h
      exact issue_guardEffect sz port i t k call
  | yield a =>
      obtain rfl := Option.some.inj h
      -- a take never ends in a yield
      refine ⟨.off rfl (iff_of_false ?_ not_false), htries⟩
      rintro rfl
      exact hok
  | pend a =>
      obtain rfl := Option.some.inj h
      exact ⟨.off rfl Iff.rfl, htries⟩
  | resumed a =>
      obtain rfl := Option.some.inj h
      cases a with
      | ret c' code =>
          refine ⟨?_, not_false⟩
          by_cases hc' : c' = .semTake i
          · subst hc'
            obtain rfl : code = 0 := hok
            exact .back rfl (by simp [resume, Event.concerns]) not_false
          · refine .off ?_ (iff_of_false not_false ?_)
            · cases c' with
              | semTryTake j => exact absurd trivial htries
              | semTake j =>
                  have hj : j ≠ i := fun hj => hc' (by rw [hj])
                  simp [resume, Event.concerns, hj]
              | _ => rfl
            · simp [Cont.awaits, hc']
      | sendAgain q item => exact (sendAttempt_offSem q item k).guardEffect (by simp [Cont.awaits])
      | recvAgain q => exact (recvAttempt_offSem q k).guardEffect (by simp [Cont.awaits])
  | semTake j =>
      obtain rfl := Option.some.inj h
      simp only [semTakeAction]
      split
      · refine ⟨?_, not_false⟩
        by_cases hj : j = i
        · subst hj
          exact .take (Or.inr rfl) (by simp [Event.concerns]) not_false not_false
        · exact .off (by simp [Event.concerns, hj]) Iff.rfl
      · refine ⟨?_, not_false⟩
        by_cases hj : j = i
        · subst hj
          exact .park (by simp [Event.concerns]) not_false rfl
        · exact .off (by simp [Event.concerns, hj])
            (iff_of_false (by simp [Cont.awaits, hj]) not_false)
  | mutexLock m =>
      obtain rfl := Option.some.inj h
      exact (mutexLockAction_offSem m k).guardEffect not_false
  | queueSend q item =>
      obtain rfl := Option.some.inj h
      exact (queueSendAction_offSem q item k).guardEffect not_false
  | queueRecv q =>
      obtain rfl := Option.some.inj h
      exact (queueRecvAction_offSem q k).guardEffect not_false

/-- ISR operations other than a give do nothing at a semaphore. -/
theorem isr_concerns (sz : Sizing) (k : Kernel) {op : Isr} (hop : op ≠ .semGive i) :
    (isrAction sz k op).2.2.filter (Event.concerns i) = [] := by
  cases op with
  | semGive j =>
      have hj : j ≠ i := fun hj => hop (by rw [hj])
      exact (giveEvents_filter i j _ _).trans (if_neg hj)
  | queueTrySend q item =>
      simp only [isrAction]
      split
      · cases (hrtQueueTrySendFromIsrCs sz q item k).2.1 <;> rfl
      · rfl
  | queueTryRecv q =>
      simp only [isrAction]
      split
      · cases (hrtQueueTryRecvFromIsrCs sz q k).2.2.1 <;> rfl
      · rfl

end Action

/-! ## Every step -/

/-- **The rule of a guard**: `hrt_sem_give` is called only by a task that semaphore `i` has let in, and
not by an interrupt. -/
def GivesEntered (i : ℕ) (s : Sys) : Interleave.Action → Prop
  | .task t (.semGive j) => j = i → s.conts t = .user → t ∈ entered i s.log
  | .isr (.semGive j) => j ≠ i
  | _ => True

instance (i : ℕ) (s : Sys) : DecidablePred (GivesEntered i s) := by
  intro a
  unfold GivesEntered
  split <;> infer_instance

/-- **The guard invariant** of a semaphore with `n` tokens: the books of its pool are right, and no give
has been lost. -/
structure GuardInv (sz : Sizing) (n i : ℕ) (s : Sys) : Prop where
  guards : ((s.k.sems i).pool sz).Guards n (holders i s.log) (entered i s.log)
    fun t => (s.conts t).awaits (.semTake i)
  kept : .semSaturated i ∉ s.log
  tries : ∀ t, ¬ (s.conts t).tries

section Steps

variable {sz : Sizing} {port : Port} {n i : ℕ} {s s' : Sys} {es : List Event}

/-- The lost gives in a log, seen from the pool. -/
theorem saturated_mem_filterMap {evs : List Event} :
    .saturated ∈ evs.filterMap (Event.token i) ↔ .semSaturated i ∈ evs := by
  rw [List.mem_filterMap]
  refine ⟨?_, fun h => ⟨_, h, by simp [Event.token]⟩⟩
  rintro ⟨e, he, htoken⟩
  cases e with
  | semSaturated j =>
      have hj : j = i := by
        by_contra hj
        simp [Event.token, hj] at htoken
      rwa [hj] at he
  | _ => simp [Event.token] at htoken

/-- The events of a step, as far as they matter to the semaphore. -/
theorem concerns_append (hlog : s'.log = s.log ++ es) {cs : List Event}
    (hes : es.filter (Event.concerns i) = cs) :
    holders i s'.log = cs.foldl (holdStep i) (holders i s.log) ∧
    entered i s'.log = cs.foldl (enterStep i) (entered i s.log) ∧
    es.filterMap (Event.token i) = cs.filterMap (Event.token i) := by
  subst hes
  obtain ⟨-, -, htoken⟩ := foldl_concerns i es []
  refine ⟨?_, ?_, htoken⟩
  · rw [hlog, holders, List.foldl_append]
    exact (foldl_concerns i es _).1
  · rw [hlog, entered, List.foldl_append]
    exact (foldl_concerns i es _).2.1

/-- No give is lost in a step whose moves of the pool lose none. -/
theorem kept_append (hlog : s'.log = s.log ++ es) (h : .semSaturated i ∉ s.log)
    {ts : List (TokenEvent ℕ)} (htoken : es.filterMap (Event.token i) = ts) (hts : .saturated ∉ ts) :
    .semSaturated i ∉ s'.log := by
  rw [hlog, List.mem_append, not_or]
  refine ⟨h, fun hmem => ?_⟩
  rw [← saturated_mem_filterMap, htoken] at hmem
  exact hts hmem

/-- **The books after events that do not matter to the semaphore**; `aw'` says who is in a parked take
afterwards. -/
theorem GuardInv.unconcerned (h : GuardInv sz n i s) (hlog : s'.log = s.log ++ es)
    (hstep : TokenPool.Step ((s.k.sems i).pool sz) (es.filterMap (Event.token i))
      ((s'.k.sems i).pool sz))
    (hes : es.filter (Event.concerns i) = []) {aw' : ℕ → Prop}
    (haw : ∀ u, aw' u ↔ (s.conts u).awaits (.semTake i)) :
    ((s'.k.sems i).pool sz).Guards n (holders i s'.log) (entered i s'.log) aw' ∧
      .semSaturated i ∉ s'.log := by
  obtain ⟨hhold, henter, htoken⟩ := concerns_append hlog hes
  rw [htoken] at hstep
  refine ⟨?_, kept_append hlog h.kept htoken List.not_mem_nil⟩
  rw [hhold, henter, hstep.eq_of_nil]
  exact h.guards.congr haw

/-- **A step that does nothing at the semaphore.** -/
theorem GuardInv.frame (h : GuardInv sz n i s) (hlog : s'.log = s.log ++ es)
    (hpool : SemStep sz s.k s'.k es) (hes : es.filter (Event.concerns i) = [])
    (haw : ∀ u, (s'.conts u).awaits (.semTake i) ↔ (s.conts u).awaits (.semTake i))
    (htries : ∀ u, ¬ (s'.conts u).tries) : GuardInv sz n i s' := by
  obtain ⟨hguards, hkept⟩ := h.unconcerned hlog (hpool i).1 hes haw
  exact ⟨hguards, hkept, htries⟩

/-- A fresh context is not inside `hrt_sem_try_take`. -/
theorem spawned_tries (h : ∀ t, ¬ (s.conts t).tries) (id : Option ℕ) (t : ℕ) :
    ¬ (s.spawned id t).tries := by
  rcases s.spawned_cases id t with hs | ⟨-, hs⟩
  · rw [hs]
    exact h t
  · rw [hs]
    exact not_false

/-- The giver leaves both lists, and whoever is handed its token is a holder. -/
theorem foldl_giveEvents (i t : ℕ) (w : Option ℕ) (S : Sem) (h e : List ℕ) :
    ∃ ts, (giveEvents i w S).filterMap (Event.token i) = .given :: ts ∧
      (Event.call t (.semGive i) :: giveEvents i w S).foldl (holdStep i) h =
        ts.filterMap TokenPool.handedTo ++ h.erase t ∧
      (Event.call t (.semGive i) :: giveEvents i w S).foldl (enterStep i) e = e.erase t := by
  cases w with
  | some w =>
      refine ⟨[.handoff w], ?_, ?_, ?_⟩
      · simp [giveEvents, Event.token]
      · simp [giveEvents, holdStep, TokenPool.handedTo]
      · simp [giveEvents, enterStep]
  | none =>
      by_cases hlt : S.count < S.maxCount
      · refine ⟨[], ?_, ?_, ?_⟩
        · simp [giveEvents, Event.token, hlt]
        · simp [giveEvents, holdStep, hlt]
        · simp [giveEvents, enterStep, hlt]
      · refine ⟨[.saturated], ?_, ?_, ?_⟩
        · simp [giveEvents, Event.token, hlt]
        · simp [giveEvents, holdStep, TokenPool.handedTo, hlt]
        · simp [giveEvents, enterStep, hlt]

/-- **The books after an action of task `t`**, which has left or entered a parked take or not; `aw'` says
who is in one afterwards. -/
theorem GuardInv.books (h : GuardInv sz n i s) (hinv : PartInv sz s) {t : ℕ} {call : Call} {o : Outcome}
    {aw' : ℕ → Prop} (hrule : GivesEntered i s (.task t call))
    (hnb : (s.conts t).executing = true → s.k.stateOf t ≠ .blocked) (hlog : s'.log = s.log ++ o.evs)
    (hstep : TokenPool.Step ((s.k.sems i).pool sz) (o.evs.filterMap (Event.token i))
      ((s'.k.sems i).pool sz))
    (heff : GuardEffect i t call (s.conts t) o.evs o.cont)
    (hself : aw' t ↔ o.cont.awaits (.semTake i))
    (hothers : ∀ u, u ≠ t → (aw' u ↔ (s.conts u).awaits (.semTake i))) :
    ((s'.k.sems i).pool sz).Guards n (holders i s'.log) (entered i s'.log) aw' ∧
      .semSaturated i ∉ s'.log := by
  -- who is in a parked take, if task `t` is or is not in one before and after
  have hstay : (o.cont.awaits (.semTake i) ↔ (s.conts t).awaits (.semTake i)) →
      ∀ u, aw' u ↔ (s.conts u).awaits (.semTake i) := by
    intro hiff u
    by_cases hut : u = t
    · rw [hut, hself, hiff]
    · exact hothers u hut
  cases heff with
  | off hes haw => exact h.unconcerned hlog hstep hes (hstay haw)
  | take hx hes haw haw' =>
      obtain ⟨hhold, henter, htoken⟩ := concerns_append hlog hes
      have hhold' : holders i s'.log = t :: holders i s.log := by
        rw [hhold]
        rcases hx with rfl | rfl <;> simp [holdStep]
      have henter' : entered i s'.log = t :: entered i s.log := by
        rw [henter]
        rcases hx with rfl | rfl <;> simp [enterStep]
      have htoken' : o.evs.filterMap (Event.token i) = [.taken t] := by
        rw [htoken]
        simp [Event.token]
      rw [htoken'] at hstep
      refine ⟨?_, kept_append hlog h.kept htoken' (by simp)⟩
      rw [hhold', henter']
      exact (h.guards.take hstep).congr (hstay (iff_of_false haw' haw))
  | park hes haw haw' =>
      obtain ⟨hhold, henter, htoken⟩ := concerns_append hlog hes
      have htoken' : o.evs.filterMap (Event.token i) = [.parked t] := by
        rw [htoken]
        simp [Event.token]
      rw [htoken'] at hstep
      refine ⟨?_, kept_append hlog h.kept htoken' (by simp)⟩
      rw [hhold, henter]
      refine h.guards.park hstep haw fun u => ?_
      by_cases hut : u = t
      · subst hut
        exact iff_of_true (hself.mpr haw') (Or.inr rfl)
      · rw [hothers u hut]
        exact (or_iff_left hut).symm
  | back hc hes haw' =>
      obtain ⟨hhold, henter, htoken⟩ := concerns_append hlog hes
      have henter' : entered i s'.log = t :: entered i s.log := by
        rw [henter]
        simp [enterStep]
      have htoken' : o.evs.filterMap (Event.token i) = [] := by
        rw [htoken]
        simp [Event.token]
      rw [htoken'] at hstep
      refine ⟨?_, kept_append hlog h.kept htoken' List.not_mem_nil⟩
      -- the task runs, so it is in no wait FIFO any more
      have hout : t ∉ s.k.waiters sz (.sem i) := fun hmem =>
        hnb (by rw [hc]; rfl) (hinv.part.blocked_of_mem hmem)
      rw [hhold, henter', hstep.eq_of_nil]
      refine h.guards.back (by rw [hc]; rfl) hout fun u => ?_
      by_cases hut : u = t
      · subst hut
        exact iff_of_false (mt hself.mp haw') fun hc => hc.2 rfl
      · rw [hothers u hut]
        exact (and_iff_left hut).symm
  | give w S hc hcall hes haw' =>
      -- the rule says that the giver is inside, so it holds the token it gives
      subst hcall
      obtain ⟨hhold, henter, htoken⟩ := concerns_append hlog hes
      obtain ⟨ts, hts, hhold', henter'⟩ :=
        foldl_giveEvents i t w S (holders i s.log) (entered i s.log)
      have htoken' : o.evs.filterMap (Event.token i) = .given :: ts := by
        rw [htoken, List.filterMap_cons_none rfl, hts]
      rw [htoken'] at hstep
      obtain ⟨hnot, hbooks⟩ := h.guards.give hstep (hinv.part.part.nodup (.sem i)) (hrule rfl hc)
      refine ⟨?_, kept_append hlog h.kept htoken' (by simp [hnot])⟩
      rw [hhold, hhold', henter, henter']
      refine hbooks.congr (hstay (iff_of_false haw' ?_))
      rw [hc]
      exact not_false

/-- **An action of a task** that keeps the rule keeps the invariant. -/
theorem GuardInv.task (h : GuardInv sz n i s) (htake : TakeInv sz s) (hinv : PartInv sz s) {t : ℕ}
    {call : Call} {o : Outcome} (hrule : GivesEntered i s (.task t call))
    (hnb : (s.conts t).executing = true → s.k.stateOf t ≠ .blocked)
    (ho : nextAction sz port t call s.k (s.conts t) = some o) (hpool : SemStep sz s.k o.k o.evs) :
    GuardInv sz n i (s.apply t o) := by
  obtain ⟨heff, htries⟩ := guardEffect i (htake.ok t) (h.tries t) ho
  have hself : (s.apply t o).conts t = o.cont := Sys.apply_conts_self s t o
  have hlog : (s.apply t o).log = s.log ++ o.evs := rfl
  obtain ⟨hguards, hkept⟩ := h.books hinv hrule hnb hlog (hpool i).1 heff
    (by rw [hself]) (awaits_others (htake.alive i) ho).1
  refine ⟨hguards, hkept, fun u => ?_⟩
  by_cases hut : u = t
  · rwa [hut, hself]
  · rw [Sys.apply_conts_of_ne s hut]
    exact spawned_tries h.tries o.spawn u

/-- **Every step that keeps the rule keeps the invariant.** -/
theorem GuardInv.step (hr : sz.Representable) {a : Interleave.Action} (h : GuardInv sz n i s)
    (htake : TakeInv sz s) (hinv : PartInv sz s) (hS : ∀ i, (s.k.sems i).WF) (hwait : WaitsParked s a)
    (hrule : GivesEntered i s a) (hstep : Interleave.step sz port s a = some s') :
    GuardInv sz n i s' := by
  obtain ⟨es, hlog, hpool⟩ := sem_refines hr hinv hS hstep
  -- a step that logs nothing
  have hsilent : s'.log = s.log → es = [] := fun hl =>
    List.append_cancel_left ((hlog.symm.trans hl).trans (List.append_nil s.log).symm)
  cases a with
  | main c =>
      obtain rfl := Option.some.inj hstep
      cases c with
      | createTask a =>
          obtain rfl := hsilent rfl
          refine h.frame hlog hpool rfl (fun u => ?_) (spawned_tries h.tries _)
          exact awaits_spawned (htake.alive i) (fun j hj => (hrtCreateTask_some hj).2) u
      | setPolicy p =>
          obtain rfl := hsilent rfl
          exact h.frame hlog hpool rfl (fun u => Iff.rfl) h.tries
      | setDefaultTimeslice n =>
          obtain rfl := hsilent rfl
          exact h.frame hlog hpool rfl (fun u => Iff.rfl) h.tries
  | isr op =>
      obtain rfl := Option.some.inj hstep
      obtain rfl : (isrAction sz s.k op).2.2 = es := List.append_cancel_left hlog
      refine h.frame hlog hpool (isr_concerns sz s.k ?_) (fun u => Iff.rfl) h.tries
      rintro rfl
      exact hrule rfl
  | tick =>
      obtain rfl := Option.some.inj hstep
      obtain rfl := hsilent rfl
      exact h.frame hlog hpool rfl (fun u => Iff.rfl) h.tries
  | sched op =>
      obtain rfl := Option.some.inj hstep
      obtain rfl := hsilent rfl
      exact h.frame hlog hpool rfl (fun u => Iff.rfl) h.tries
  | task t c =>
      -- making `t` current touches nothing the invariants read
      have hcur : GuardInv sz n i (s.setCurrent t) := ⟨h.guards, h.kept, h.tries⟩
      have htake' : TakeInv sz (s.setCurrent t) :=
        ⟨fun i u => ⟨(htake.rule i u).waiting, (htake.rule i u).parked, (htake.rule i u).served,
          (htake.rule i u).fresh⟩, htake.alive, htake.ok, htake.returns⟩
      have hinv' := hinv.setCurrent t
      rcases Interleave.step_task hstep with ⟨o, hact, ho, rfl⟩ | ⟨x, hx, rfl⟩
      · obtain rfl : o.evs = es := List.append_cancel_left hlog
        have hnb : (s.conts t).executing = true → s.k.stateOf t ≠ .blocked :=
          hinv.not_blocked hact hwait
        have hrule' : GivesEntered i (s.setCurrent t) (.task t c) := by
          cases c <;> exact hrule
        exact hcur.task htake' hinv' hrule' hnb ho hpool
      · obtain rfl := hsilent rfl
        have hfirst := h.tries t
        rw [hx] at hfirst
        refine hcur.frame hlog hpool rfl (fun u => ?_) fun u => ?_
        · by_cases hut : u = t
          · rw [hut, Sys.land_conts_self]
            show (Cont.resumed x).awaits (.semTake i) ↔ (s.conts t).awaits (.semTake i)
            rw [hx]
            exact Iff.rfl
          · rw [Sys.land_conts_of_ne _ hut]
        · by_cases hut : u = t
          · rw [hut, Sys.land_conts_self]
            exact hfirst
          · rw [Sys.land_conts_of_ne _ hut]
            exact h.tries u

end Steps

/-! ## The result -/

section Results

variable {sz : Sizing} {port : Port} {cfg : Option KernelConfig} {objs : ObjectSpecs} {mem : Kernel}
  {as : List Interleave.Action} {s : Sys} {i : ℕ}

/-- After boot all tokens are stored. -/
theorem GuardInv.boot (sz : Sizing) (port : Port) (cfg : Option KernelConfig) (objs : ObjectSpecs)
    (mem : Kernel) (i : ℕ) :
    GuardInv sz (objs.sem i).initCount i (Sys.boot sz port cfg objs mem) := by
  obtain ⟨hcount, hmax, hwait⟩ := (objs.sem i).apply_spec (mem.sems i)
  refine ⟨⟨hcount, ?_, ?_, fun t ht => ht.elim, fun t _ => rfl⟩, List.not_mem_nil, fun t => not_false⟩
  · exact (objs.sem i).initCount_le.trans_eq hmax.symm
  · have hnil : ((objs.sem i).apply (mem.sems i)).waitq.toList sz.maxTasks = [] :=
      RingBuffer.toList_eq_nil_iff.mpr hwait
    intro t ht
    exact absurd (hnil ▸ ht : t ∈ []) List.not_mem_nil

/-- **Along every run that keeps the rule** the guard invariant holds. -/
theorem guardInv_of_run (hr : sz.Representable)
    (hrun : exec (Interleave.step sz port) (Sys.boot sz port cfg objs mem) as = some s)
    (hall : Along (Interleave.step sz port) (fun s a => WaitsParked s a ∧ GivesEntered i s a)
      (Sys.boot sz port cfg objs mem) as) : GuardInv sz (objs.sem i).initCount i s := by
  have hinv : GuardInv sz (objs.sem i).initCount i s ∧ TakeInv sz s ∧ PartInv sz s ∧
      ∀ i, (s.k.sems i).WF := by
    refine exec_invariant (I := fun s => GuardInv sz (objs.sem i).initCount i s ∧ TakeInv sz s ∧
      PartInv sz s ∧ ∀ i, (s.k.sems i).WF) ?_ ?_ hall hrun
    · rintro s a s' ⟨hguard, htake, hpart, hS⟩ ⟨hwait, hrule⟩ hstep
      obtain ⟨es, -, hmove⟩ := sem_refines hr hpart hS hstep
      exact ⟨hguard.step hr htake hpart hS hwait hrule hstep, htake.step hr hpart hS hwait hstep,
        hpart.step hr hstep, fun i => (hmove i).2⟩
    · exact ⟨GuardInv.boot sz port cfg objs mem i, TakeInv.boot sz port cfg objs mem,
        PartInv.boot sz port cfg objs mem, Sem.WF.boot sz port cfg objs mem⟩
  exact hinv.1

/-- **Semaphore `i` guards `n` tokens**: each one is stored or held; at most `n` tasks are inside, and
they are holders; no give has been lost; and a task waits only while all tokens are held. -/
structure SemGuards (sz : Sizing) (n i : ℕ) (s : Sys) : Prop where
  tokens : (s.k.sems i).count + (holders i s.log).length = n
  inside : (entered i s.log).length ≤ n
  hold : ∀ t, (entered i s.log).count t ≤ (holders i s.log).count t
  lossless : .semSaturated i ∉ s.log
  waits : s.k.waiters sz (.sem i) ≠ [] → (holders i s.log).length = n

/-- **A semaphore with `n` tokens lets in at most `n` tasks.** In every interleaving of tasks,
interrupts, ticks and scheduler moves in which parked tasks wait, and `hrt_sem_give` on the semaphore is
called only by tasks that a take has let in and never by an interrupt, the semaphore guards as many
tokens as it was initialised with. -/
theorem sem_guards (hr : sz.Representable) (i : ℕ)
    (hrun : exec (Interleave.step sz port) (Sys.boot sz port cfg objs mem) as = some s)
    (hall : Along (Interleave.step sz port) (fun s a => WaitsParked s a ∧ GivesEntered i s a)
      (Sys.boot sz port cfg objs mem) as) : SemGuards sz (objs.sem i).initCount i s := by
  obtain ⟨hguards, hkept, -⟩ := guardInv_of_run hr hrun hall
  obtain ⟨htrace, -, -⟩ := sem_trace hr hrun i
  have hbal := TokenPool.balance_of_trace rfl (objs.sem i).initCount_le htrace
  have htotal : (s.k.sems i).count + (holders i s.log).length = (objs.sem i).initCount := hguards.total
  refine ⟨htotal, hguards.inside_le, hguards.count_le, hkept, fun hne => ?_⟩
  -- nobody waits while a token is stored
  have h0 : (s.k.sems i).count = 0 := by
    by_contra hpos
    exact hne (hbal.no_waiter (Nat.pos_of_ne_zero hpos))
  rwa [h0, Nat.zero_add] at htotal

/-- Semaphores with one token. -/
def oneToken : ObjectSpecs := { ObjectSpecs.basic with sem := fun _ => .binary 1 }

/-- Three tasks take semaphore 0; the first one is let in and the others park. The first one gives: the
second one is handed the token and has not returned from its call yet. -/
def guardedRun : List Interleave.Action :=
  [.main (.createTask ⟨1, 0, 0x1000, 64, none⟩), .main (.createTask ⟨1, 0, 0x2000, 64, none⟩),
    .main (.createTask ⟨1, 0, 0x3000, 64, none⟩), .task 0 (.semTake 0), .task 1 (.semTake 0),
    .task 1 .yield, .task 1 .yield, .task 2 (.semTake 0), .task 2 .yield, .task 2 .yield,
    .task 0 (.semGive 0)]

/-- At the end of `guardedRun` the second task holds the token, nobody is inside, and the third one
waits. -/
theorem sem_guards_handed :
    ∃ s, exec (Interleave.step .default .posix) (Sys.boot .default .posix none oneToken .bss)
        guardedRun = some s ∧
      holders 0 s.log = [1] ∧ entered 0 s.log = [] ∧ s.k.waiters .default (.sem 0) = [2] ∧
      SemGuards .default 1 0 s := by
  have hr : Sizing.default.Representable := by decide
  have hall : Along (Interleave.step .default .posix)
      (fun s a => WaitsParked s a ∧ GivesEntered 0 s a)
      (Sys.boot .default .posix none oneToken .bss) guardedRun := by decide +kernel
  have heval : ((exec (Interleave.step .default .posix) (Sys.boot .default .posix none oneToken .bss)
      guardedRun).map fun s => (holders 0 s.log, entered 0 s.log, s.k.waiters .default (.sem 0))) =
        some ([1], [], [2]) := by
    decide +kernel
  obtain ⟨s, hs, hv⟩ := Option.map_eq_some_iff.mp heval
  obtain ⟨hhold, hv⟩ := Prod.mk.inj hv
  obtain ⟨henter, hwait⟩ := Prod.mk.inj hv
  exact ⟨s, hs, hhold, henter, hwait, sem_guards hr 0 hs hall⟩

end Results

end HardRT
