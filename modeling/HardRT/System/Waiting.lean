import HardRT.System.Effect

/-! # Calls that wait to return

A blocking call that has parked returns 0 when its task runs again. `Cont.awaits c` says that the task
is at that point of the call `c`. Only the task itself leaves it: what other tasks do, creation of
tasks included, does not touch it as long as the waiting task's slot is in use. -/

namespace HardRT

/-- The task has parked in the call `c`, which has yet to return 0. -/
def Cont.awaits (c : Call) : Cont → Prop
  | .pend a | .hop a | .resumed a => a = .ret c 0
  | _ => False

instance (c : Call) : (cont : Cont) → Decidable (cont.awaits c)
  | .pend a | .hop a | .resumed a => decEq a (.ret c 0)
  | .none | .user | .yield _ | .semTake _ | .mutexLock _ | .queueSend _ _ | .queueRecv _ =>
      isFalse not_false

section Awaiting

variable {sz : Sizing} {port : Port} {t : ℕ} {call c : Call} {s : Sys} {o : Outcome}

/-- The slot a task's action builds a context in was free. -/
theorem TaskEffect.spawn_unused {k : Kernel} {cont : Cont}
    (heff : TaskEffect sz port t k call cont o) {id : ℕ} (hid : o.spawn = some id) :
    k.stateOf id = .unused := by
  obtain ⟨a, -, -, hnew⟩ := heff.spawn_eq hid
  exact (hrtCreateTask_some hnew).2

/-- Giving a free slot a context does not touch the waiting calls. -/
theorem awaits_spawned (halive : ∀ u, (s.conts u).awaits c → s.k.stateOf u ≠ .unused) {id : Option ℕ}
    (hid : ∀ i, id = some i → s.k.stateOf i = .unused) (u : ℕ) :
    (s.spawned id u).awaits c ↔ (s.conts u).awaits c := by
  rcases s.spawned_cases id u with hs | ⟨hnew, hs⟩
  · rw [hs]
  · rw [hs]
    exact ⟨fun hc => hc.elim, fun hc => absurd (hid u hnew) (halive u hc)⟩

/-- What an action of `t` leaves of the other tasks' waiting calls. -/
theorem awaits_others (halive : ∀ u, (s.conts u).awaits c → s.k.stateOf u ≠ .unused)
    (ho : nextAction sz port t call s.k (s.conts t) = some o) :
    (∀ u, u ≠ t → (((s.apply t o).conts u).awaits c ↔ (s.conts u).awaits c)) ∧
    (∀ u, u ≠ t → (s.conts u).awaits c → (s.apply t o).k.stateOf u ≠ .unused) := by
  have heff := taskEffect ho
  refine ⟨fun u hu => ?_, fun u hu haw hun => ?_⟩
  · rw [Sys.apply_conts_of_ne s hu]
    exact awaits_spawned halive (fun i hi => heff.spawn_unused hi) u
  · exact halive u haw (heff.unused_of_unused hu hun)

end Awaiting

end HardRT
