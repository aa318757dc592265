import Mathlib.Logic.Function.Iterate
import Mathlib.Data.List.Basic
import Mathlib.Data.Nat.Init

/-! # Deterministic machines in lockstep

Two machines that are each driven deterministically need not take the same number of steps for the same
piece of work. What they agree on is what an observer sees.

* `advance step drive upd` — one turn of a machine whose next action is a function of its state, with a
  record kept beside it; a machine whose action is disabled stays where it is.
* `Glides f obs x x'` — some turns lead from `x` to `x'`, and all that is seen on the way is what is seen
  at the two ends.
* `lockstep` — the rule: if related states glide to related states, and related states look the same,
  both machines show the same observations.
* `Stutters l m` — `m` is `l` with entries repeated in place; `Leads x l m` — and copies of `x` in
  front. -/

namespace Lib

/-! ## Driven machines -/

section Advance

variable {σ α γ : Type*}

/-- One turn of a driven machine with a record: `upd` notes what the new state shows. -/
def advance (step : σ → α → Option σ) (drive : σ → α) (upd : σ → γ → γ) (x : σ × γ) : σ × γ :=
  (step x.1 (drive x.1)).elim x fun s' => (s', upd s' x.2)

variable {step : σ → α → Option σ} {drive : σ → α} {upd : σ → γ → γ} {s s' : σ} {g : γ}

/-- The turn when the action is enabled. -/
theorem advance_of_step (h : step s (drive s) = some s') :
    advance step drive upd (s, g) = (s', upd s' g) := by
  rw [advance, h]
  rfl

/-- The turn when the action is disabled. -/
theorem advance_of_none (h : step s (drive s) = none) :
    advance step drive upd (s, g) = (s, g) := by
  rw [advance, h]
  rfl

/-- A machine that is stuck stays as it is. -/
theorem iterate_advance_of_none {x : σ × γ} {N : ℕ}
    (h : step ((advance step drive upd)^[N] x).1 (drive ((advance step drive upd)^[N] x).1) = none)
    {n : ℕ} (hn : N ≤ n) : (advance step drive upd)^[n] x = (advance step drive upd)^[N] x := by
  induction n, hn using Nat.le_induction with
  | base => rfl
  | succ n _ ih => rw [Function.iterate_succ_apply', ih, advance_of_none h]

end Advance

/-! ## Lockstep -/

section Lockstep

variable {X Y O : Type*} {f : X → X} {obs : X → O} {h : Y → Y} {obs' : Y → O}

/-- **Some turns lead from `x` to `x'`**, with nothing to see on the way but what is seen at the ends. -/
def Glides (f : X → X) (obs : X → O) (x x' : X) : Prop :=
  ∃ n, f^[n + 1] x = x' ∧ ∀ i ≤ n, obs (f^[i] x) = obs x ∨ obs (f^[i] x) = obs x'

/-- A single turn. -/
theorem Glides.single (x : X) : Glides f obs x (f x) :=
  ⟨0, rfl, fun i hi => by rw [Nat.le_zero.mp hi]; exact Or.inl rfl⟩

/-- A single turn with a known result. -/
theorem Glides.of_eq {x x' : X} (hx : f x = x') : Glides f obs x x' := hx ▸ Glides.single x

/-- Glides compose when one of them shows nothing new. -/
theorem Glides.trans {x y z : X} (hxy : Glides f obs x y) (hyz : Glides f obs y z)
    (hobs : obs y = obs x ∨ obs y = obs z) : Glides f obs x z := by
  obtain ⟨n, rfl, hn⟩ := hxy
  obtain ⟨m, rfl, hm⟩ := hyz
  refine ⟨m + 1 + n, by rw [← Function.iterate_add_apply]; rfl, fun i hi => ?_⟩
  rcases Nat.lt_or_ge n i with hlt | hle
  · -- on the second part
    obtain ⟨j, rfl⟩ : ∃ j, i = j + (n + 1) := ⟨i - (n + 1), by omega⟩
    rw [Function.iterate_add_apply]
    rcases hm j (by omega) with hj | hj
    · rw [hj]
      exact hobs
    · exact Or.inr hj
  · rcases hn i hle with hj | hj
    · exact Or.inl hj
    · rw [hj]
      exact hobs

/-- What holds at every turn from `x` on holds at every turn from where `x` glides to. -/
theorem Glides.forall_iterate {x x' : X} (hx : Glides f obs x x') {P : X → Prop}
    (hP : ∀ n, P (f^[n] x)) (n : ℕ) : P (f^[n] x') := by
  obtain ⟨m, rfl, -⟩ := hx
  rw [← Function.iterate_add_apply]
  exact hP _

/-- One direction of the lockstep rule. The induction is on the number of turns still to be matched:
either the glide covers them, and shows one of its ends, or it uses some of them up. -/
theorem lockstep_left {R : X → Y → Prop} (hobs : ∀ x y, R x y → obs x = obs' y)
    (hstep : ∀ x y, R x y → ∃ x' y', Glides f obs x x' ∧ Glides h obs' y y' ∧ R x' y') (n : ℕ) :
    ∀ x y, R x y → ∃ m, obs (f^[n] x) = obs' (h^[m] y) := by
  induction n using Nat.strong_induction_on with
  | _ n ih =>
    intro x y hR
    obtain ⟨x', y', ⟨i, rfl, hi⟩, ⟨j, rfl, -⟩, hR'⟩ := hstep x y hR
    rcases Nat.lt_or_ge i n with hlt | hle
    · obtain ⟨m, hm⟩ := ih (n - (i + 1)) (by omega) _ _ hR'
      rw [← Function.iterate_add_apply, ← Function.iterate_add_apply,
        Nat.sub_add_cancel (by omega)] at hm
      exact ⟨_, hm⟩
    · rcases hi n hle with hn | hn
      · exact ⟨0, hn.trans (hobs x y hR)⟩
      · exact ⟨j + 1, hn.trans (hobs _ _ hR')⟩

/-- **Lockstep rule.** If related states look the same and glide to related states, then from related
states each machine shows what the other one shows. -/
theorem lockstep {R : X → Y → Prop} (hobs : ∀ x y, R x y → obs x = obs' y)
    (hstep : ∀ x y, R x y → ∃ x' y', Glides f obs x x' ∧ Glides h obs' y y' ∧ R x' y')
    {x : X} {y : Y} (hR : R x y) :
    (∀ n, ∃ m, obs (f^[n] x) = obs' (h^[m] y)) ∧ ∀ m, ∃ n, obs (f^[n] x) = obs' (h^[m] y) := by
  refine ⟨fun n => lockstep_left hobs hstep n x y hR, fun m => ?_⟩
  obtain ⟨n, hn⟩ := lockstep_left (R := fun y x => R x y) (fun y x hyx => (hobs x y hyx).symm)
    (fun y x hyx => by
      obtain ⟨x', y', hx, hy, hR'⟩ := hstep x y hyx
      exact ⟨y', x', hy, hx, hR'⟩) m y x hR
  exact ⟨n, hn.symm⟩

/-- What a turn only extends, later turns only extend. -/
theorem iterate_prefix {β : Type*} {obs : X → List β} (hgrow : ∀ x, obs x <+: obs (f x)) (x : X)
    {m n : ℕ} (hmn : m ≤ n) : obs (f^[m] x) <+: obs (f^[n] x) := by
  induction n, hmn using Nat.le_induction with
  | base => exact List.prefix_rfl
  | succ n _ ih =>
      rw [Function.iterate_succ_apply']
      exact ih.trans (hgrow _)

end Lockstep

/-! ## Repetitions in place -/

section Stutters

variable {α : Type*} {l m : List α} {x : α}

/-- **`m` is `l` with entries repeated in place.** -/
inductive Stutters : List α → List α → Prop
  | nil : Stutters [] []
  | cons {y : α} {l m : List α} (n : ℕ) (h : Stutters l m) :
      Stutters (y :: l) (y :: (List.replicate n y ++ m))

/-- A list repeats itself. -/
theorem Stutters.refl : ∀ l : List α, Stutters l l
  | [] => .nil
  | _ :: l => .cons 0 (refl l)

/-- Repetition neither adds nor removes an entry. -/
theorem Stutters.mem_iff (h : Stutters l m) : x ∈ m ↔ x ∈ l := by
  induction h with
  | nil => rfl
  | @cons y l m n _ ih =>
      rw [List.mem_cons, List.mem_append, List.mem_replicate, ih, List.mem_cons]
      constructor
      · rintro (rfl | ⟨-, rfl⟩ | hx)
        · exact Or.inl rfl
        · exact Or.inl rfl
        · exact Or.inr hx
      · rintro (rfl | hx)
        · exact Or.inl rfl
        · exact Or.inr (Or.inr hx)

/-- Nothing repeats to nothing only. -/
theorem Stutters.eq_nil_iff (h : Stutters l m) : m = [] ↔ l = [] := by
  cases h <;> simp

/-- The same entries at the end of both. -/
theorem Stutters.append (h : Stutters l m) (r : List α) : Stutters (l ++ r) (m ++ r) := by
  induction h with
  | nil => exact .refl r
  | @cons y l m n _ ih =>
      rw [List.cons_append, List.cons_append, List.append_assoc]
      exact .cons n ih

/-- The last entry once more. -/
theorem Stutters.concat_last (h : Stutters (l ++ [x]) m) : Stutters (l ++ [x]) (m ++ [x]) := by
  induction l generalizing m with
  | nil =>
      cases h with
      | cons n hnil =>
          cases hnil
          rw [List.append_nil, List.cons_append, ← List.replicate_succ']
          simpa using Stutters.cons (y := x) (n + 1) .nil
  | cons y l ih =>
      cases h with
      | cons n hrest =>
          rw [List.cons_append, List.cons_append, List.append_assoc]
          exact .cons n (ih hrest)

/-- A single entry repeats to copies of it. -/
theorem Stutters.replicate (n : ℕ) (x : α) : Stutters [x] (List.replicate (n + 1) x) := by
  simpa [List.replicate_succ] using Stutters.cons (y := x) n .nil

/-- **`m` is copies of `x` followed by `l` with entries repeated in place.** -/
def Leads (x : α) (l m : List α) : Prop := ∃ n r, m = List.replicate n x ++ r ∧ Stutters l r

/-- The same entries at the end of both. -/
theorem Leads.append (h : Leads x l m) (e : List α) : Leads x (l ++ e) (m ++ e) := by
  obtain ⟨n, r, rfl, hr⟩ := h
  exact ⟨n, r ++ e, List.append_assoc _ _ _, hr.append e⟩

/-- Both lists lose their first entry; the copies of it are now in front. -/
theorem Stutters.tail (h : Stutters (x :: l) m) : ∃ r, m = x :: r ∧ Leads x l r := by
  cases h with
  | cons n hr => exact ⟨_, rfl, n, _, rfl, hr⟩

/-- A first entry other than `x` means that there are no copies in front. -/
theorem Leads.stutters_of_head (h : Leads x l m) (hx : m.head? ≠ some x) : Stutters l m := by
  obtain ⟨n, r, rfl, hr⟩ := h
  cases n with
  | zero => exact hr
  | succ n => exact absurd rfl hx

/-- If all entries are `x` and the first list has none, it is empty. -/
theorem Leads.eq_replicate (h : Leads x l m) (hm : ∀ y ∈ m, y = x) (hl : x ∉ l) :
    l = [] ∧ ∃ n, m = List.replicate n x := by
  obtain ⟨n, r, rfl, hr⟩ := h
  have hr0 : r = [] := by
    refine List.eq_nil_iff_forall_not_mem.mpr fun y hy => hl ?_
    rw [← hm y (List.mem_append_right _ hy)]
    exact hr.mem_iff.mp hy
  subst hr0
  exact ⟨hr.eq_nil_iff.mp rfl, n, List.append_nil _⟩

/-- If all entries are `x` and the first list is without repetition, they are copies of one entry. -/
theorem Leads.stutters_of_all (h : Leads x (l ++ [x]) m) (hm : ∀ y ∈ m, y = x)
    (hl : (l ++ [x]).Nodup) : Stutters (l ++ [x]) (m ++ [x]) := by
  have hl0 : l = [] := by
    obtain ⟨n, r, rfl, hr⟩ := h
    refine List.eq_nil_iff_forall_not_mem.mpr fun y hy => ?_
    have hyx : y = x := hm y (List.mem_append_right _ (hr.mem_iff.mpr (List.mem_append_left _ hy)))
    exact (List.nodup_append.mp hl).2.2 y hy x (List.mem_singleton_self x) hyx
  subst hl0
  rw [List.eq_replicate_of_mem hm, ← List.replicate_succ']
  exact .replicate _ x

/-- If `x` occurs at most once in the second list, there is at most one copy of it in front. -/
theorem Leads.stutters_or_cons [BEq α] [LawfulBEq α] (h : Leads x l m) (hcount : m.count x ≤ 1) :
    Stutters l m ∨ ∃ r, m = x :: r ∧ Stutters l r := by
  obtain ⟨n, r, rfl, hr⟩ := h
  rw [List.count_append, List.count_replicate_self] at hcount
  rcases Nat.lt_or_ge n 1 with hn | hn
  · obtain rfl : n = 0 := by omega
    exact Or.inl hr
  · obtain rfl : n = 1 := by omega
    exact Or.inr ⟨r, rfl, hr⟩

end Stutters

end Lib
