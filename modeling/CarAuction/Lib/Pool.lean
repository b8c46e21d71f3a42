import Mathlib.Data.List.Basic

/- Pools of processes over a shared world. A state is the world, the list of all
   processes started so far, each with its own local state, and the log of what
   they have emitted. An action starts a process, runs one step of a process with
   an input, lets the environment change the world, or kills a process; a schedule
   of actions is an interleaving. `step_inv` splits the pool around the process
   that moves, and `Lone` says that at most one process has a property. -/
namespace Pool

variable {ω π ε ι κ : Type*}

structure State (ω π ε : Type*) where
  world : ω
  procs : List π
  log : List ε

inductive Action (π ι κ : Type*) where
  | start (p : π)
  | run (i : ℕ) (input : ι)
  | env (k : κ)
  | kill (i : ℕ)

/-- What the processes and the environment do. -/
structure Program (ω π ε ι κ : Type*) where
  begins : π → Bool
  step : ι → ω → π → Option (ω × π × List ε)
  env : κ → ω → ω
  kill : π → Option π

def step (P : Program ω π ε ι κ) (s : State ω π ε) : Action π ι κ → Option (State ω π ε)
  | .start p => if P.begins p then some { s with procs := s.procs ++ [p] } else none
  | .run i input =>
    match s.procs[i]? with
    | none => none
    | some p => (P.step input s.world p).map fun r => ⟨r.1, s.procs.set i r.2.1, s.log ++ r.2.2⟩
  | .env k => some { s with world := P.env k s.world }
  | .kill i =>
    match s.procs[i]? with
    | none => none
    | some p => (P.kill p).map fun p' => { s with procs := s.procs.set i p' }

/-- The same step as a relation, with the pool split around the process that moves. -/
inductive Step (P : Program ω π ε ι κ) : State ω π ε → Action π ι κ → State ω π ε → Prop where
  | start {w procs log p} : P.begins p = true →
      Step P ⟨w, procs, log⟩ (.start p) ⟨w, procs ++ [p], log⟩
  | run {w w' l r log p p' es input} : P.step input w p = some (w', p', es) →
      Step P ⟨w, l ++ p :: r, log⟩ (.run l.length input) ⟨w', l ++ p' :: r, log ++ es⟩
  | env {w procs log} (k : κ) : Step P ⟨w, procs, log⟩ (.env k) ⟨P.env k w, procs, log⟩
  | kill {w l r log p p'} : P.kill p = some p' →
      Step P ⟨w, l ++ p :: r, log⟩ (.kill l.length) ⟨w, l ++ p' :: r, log⟩

/-- A condition on the processes that start. -/
def OnStart (R : State ω π ε → π → Prop) (s : State ω π ε) : Action π ι κ → State ω π ε → Prop
  | .start p, _ => R s p
  | _, _ => True

/-- No process is killed. -/
def NoKill (_ : State ω π ε) : Action π ι κ → State ω π ε → Prop
  | .kill _, _ => False
  | _, _ => True

instance {R : State ω π ε → π → Prop} [∀ s p, Decidable (R s p)] {s t : State ω π ε}
    {a : Action π ι κ} : Decidable (OnStart R s a t) := by
  cases a <;> unfold OnStart <;> infer_instance

instance {s t : State ω π ε} {a : Action π ι κ} : Decidable (NoKill s a t) := by
  cases a <;> unfold NoKill <;> infer_instance

/-- The process whose step the action runs. -/
def moving (s : State ω π ε) : Action π ι κ → Option π
  | .run i _ => s.procs[i]?
  | _ => none

@[simp] theorem moving_run {w : ω} {l r : List π} {p : π} {log : List ε} {input : ι} :
    moving ⟨w, l ++ p :: r, log⟩ (.run l.length input : Action π ι κ) = some p := by
  simp [moving]

theorem mem_of_moving {s : State ω π ε} {p : π} {a : Action π ι κ} (h : moving s a = some p) :
    p ∈ s.procs := by
  cases a with
  | run i _ => exact List.mem_of_getElem? h
  | _ => cases h

/-- The processes other than that one. -/
def others (s : State ω π ε) : Action π ι κ → List π
  | .run i _ => s.procs.eraseIdx i
  | _ => s.procs

@[simp] theorem others_run {w : ω} {l r : List π} {p : π} {log : List ε} {input : ι} :
    others ⟨w, l ++ p :: r, log⟩ (.run l.length input : Action π ι κ) = l ++ r := by
  simp [others, List.eraseIdx_append_of_length_le]

theorem mem_split {l r : List π} {p q : π} : q ∈ l ++ p :: r ↔ q = p ∨ q ∈ l ++ r := by
  simp only [List.mem_append, List.mem_cons, or_left_comm]

theorem forall_replace {l r : List π} {p p' : π} {I : π → Prop} (h : ∀ q ∈ l ++ p :: r, I q)
    (hp : I p → I p') : ∀ q ∈ l ++ p' :: r, I q := by
  intro q hq
  rcases mem_split.mp hq with rfl | hq
  · exact hp (h p (mem_split.mpr (.inl rfl)))
  · exact h q (mem_split.mpr (.inr hq))

theorem split_at {procs : List π} {i : ℕ} {p : π} (h : procs[i]? = some p) :
    ∃ l r, procs = l ++ p :: r ∧ l.length = i := by
  obtain ⟨hi, rfl⟩ := List.getElem?_eq_some_iff.mp h
  refine ⟨procs.take i, procs.drop (i + 1), ?_, by simp; omega⟩
  rw [← List.drop_eq_getElem_cons hi, List.take_append_drop]

theorem step_inv {P : Program ω π ε ι κ} {s t : State ω π ε} {a : Action π ι κ}
    (h : step P s a = some t) : Step P s a t := by
  obtain ⟨w, procs, log⟩ := s
  cases a with
  | start p =>
    simp only [step, Option.ite_none_right_eq_some, Option.some.injEq] at h
    obtain ⟨hb, rfl⟩ := h
    exact .start hb
  | run i input =>
    simp only [step] at h
    split at h
    · cases h
    · next p hp =>
      obtain ⟨⟨w', p', es⟩, hstep, rfl⟩ := Option.map_eq_some_iff.mp h
      obtain ⟨l, r, rfl, rfl⟩ := split_at hp
      simpa using Step.run hstep
  | env k => cases h; exact .env k
  | kill i =>
    simp only [step] at h
    split at h
    · cases h
    · next p hp =>
      obtain ⟨p', hkill, rfl⟩ := Option.map_eq_some_iff.mp h
      obtain ⟨l, r, rfl, rfl⟩ := split_at hp
      simpa using Step.kill hkill

/-- What starts, statements and kills keep of a process holds of all of them. -/
theorem Step.forall_procs {P : Program ω π ε ι κ} {s t : State ω π ε} {a : Action π ι κ}
    {I : π → Prop} (h : Step P s a t) (hs : ∀ p ∈ s.procs, I p)
    (hstart : ∀ p, a = .start p → I p)
    (hrun : ∀ input w p w' p' es, P.step input w p = some (w', p', es) → I p → I p')
    (hkill : ∀ p p', P.kill p = some p' → I p → I p') : ∀ p ∈ t.procs, I p := by
  cases h with
  | start _ =>
    intro q hq
    rcases List.mem_append.mp hq with hq | hq
    · exact hs q hq
    · rw [List.mem_singleton.mp hq]; exact hstart _ rfl
  | run hstep => exact forall_replace hs (hrun _ _ _ _ _ _ hstep)
  | env k => exact hs
  | kill hk => exact forall_replace hs (hkill _ _ hk)

/-- Where a process of a later state comes from. -/
theorem Step.getElem?_cases {P : Program ω π ε ι κ} {s t : State ω π ε} {a : Action π ι κ} {i : ℕ}
    {p' : π} (h : Step P s a t) (hp' : t.procs[i]? = some p') :
    s.procs[i]? = some p' ∨ (i = s.procs.length ∧ P.begins p' = true) ∨
      (∃ p input es, s.procs[i]? = some p ∧ P.step input s.world p = some (t.world, p', es)) ∨
      ∃ p, s.procs[i]? = some p ∧ P.kill p = some p' := by
  have hreplace : ∀ {l r : List π} {p q : π}, (l ++ q :: r)[i]? = some p' →
      (l ++ p :: r)[i]? = some p' ∨ i = l.length ∧ q = p' := by
    intro l r p q hq
    rcases Nat.lt_trichotomy i l.length with hlt | rfl | hgt
    · rw [List.getElem?_append_left hlt] at hq ⊢
      exact .inl hq
    · simp only [List.getElem?_append_right (Nat.le_refl _), Nat.sub_self, List.getElem?_cons_zero] at hq
      exact .inr ⟨rfl, Option.some.inj hq⟩
    · obtain ⟨k, hk⟩ := Nat.exists_eq_succ_of_ne_zero (Nat.sub_ne_zero_of_lt hgt)
      rw [List.getElem?_append_right (Nat.le_of_lt hgt), hk, List.getElem?_cons_succ] at hq ⊢
      exact .inl hq
  cases h with
  | @start w procs log p hb =>
    rcases Nat.lt_or_ge i procs.length with hlt | hge
    · rw [List.getElem?_append_left hlt] at hp'
      exact .inl hp'
    · rw [List.getElem?_append_right hge] at hp'
      rw [List.getElem?_singleton, Option.ite_none_right_eq_some, Option.some.injEq] at hp'
      obtain ⟨hzero, rfl⟩ := hp'
      have hi : i = procs.length := by omega
      exact .inr (.inl ⟨hi, hb⟩)
  | @run w w' l r log p q es input hstep =>
    rcases hreplace (p := p) hp' with hold | ⟨rfl, rfl⟩
    · exact .inl hold
    · exact .inr (.inr (.inl ⟨p, input, es, by simp, hstep⟩))
  | env k => exact .inl hp'
  | @kill w l r log p q hk =>
    rcases hreplace (p := p) hp' with hold | ⟨rfl, rfl⟩
    · exact .inl hold
    · exact .inr (.inr (.inr ⟨p, by simp, hk⟩))

/-- No process leaves the pool. -/
theorem Step.length_le {P : Program ω π ε ι κ} {s t : State ω π ε} {a : Action π ι κ}
    (h : Step P s a t) : s.procs.length ≤ t.procs.length := by
  cases h with
  | start _ => simp
  | run _ => simp
  | env k => exact Nat.le_refl _
  | kill _ => simp

/-- A symmetric relation between the processes, after one of them has moved. -/
theorem pairwise_replace {R : π → π → Prop} (hsymm : ∀ p q, R p q → R q p) {l r : List π} {p p' : π}
    (h : (l ++ p :: r).Pairwise R) (hp : ∀ q ∈ l ++ r, R p q → R p' q) :
    (l ++ p' :: r).Pairwise R := by
  rw [List.pairwise_middle (fun {p q} => hsymm p q), List.pairwise_cons] at h ⊢
  exact ⟨fun q hq => hp q hq (h.1 q hq), h.2⟩

theorem pairwise_getElem? {R : π → π → Prop} (hsymm : ∀ p q, R p q → R q p) {procs : List π}
    (h : procs.Pairwise R) {i j : ℕ} {p q : π} (hij : i ≠ j) (hp : procs[i]? = some p)
    (hq : procs[j]? = some q) : R p q := by
  obtain ⟨hi, rfl⟩ := List.getElem?_eq_some_iff.mp hp
  obtain ⟨hj, rfl⟩ := List.getElem?_eq_some_iff.mp hq
  rcases Nat.lt_or_gt_of_ne hij with hlt | hgt
  · exact List.pairwise_iff_getElem.mp h i j hi hj hlt
  · exact hsymm _ _ (List.pairwise_iff_getElem.mp h j i hj hi hgt)

/-- Of the processes with a property, only the one that moves may come or go. -/
theorem countP_replace (f : π → Bool) (l r : List π) (p p' : π) :
    (l ++ p' :: r).countP f + (if f p then 1 else 0) =
      (l ++ p :: r).countP f + (if f p' then 1 else 0) := by
  simp only [List.countP_append, List.countP_cons]
  omega

/-- At most one process has the property. -/
def Lone (f : π → Bool) (procs : List π) : Prop := procs.countP f ≤ 1

namespace Lone

variable {f : π → Bool} {l r procs : List π} {p p' : π}

theorem others (h : Lone f (l ++ p :: r)) (hp : f p = true) : ∀ q ∈ l ++ r, f q = false := by
  unfold Lone at h
  rw [List.countP_append, List.countP_cons_of_pos hp] at h
  have h0 : (l ++ r).countP f = 0 := by rw [List.countP_append]; omega
  intro q hq
  simpa using List.countP_eq_zero.mp h0 q hq

/-- A step after which the process has the property only if it had it before. -/
theorem replace (h : Lone f (l ++ p :: r)) (hp : f p' = true → f p = true) :
    Lone f (l ++ p' :: r) := by
  unfold Lone at h ⊢
  rw [List.countP_append, List.countP_cons] at h ⊢
  by_cases hf' : f p' = true
  · rw [if_pos (hp hf')] at h
    rw [if_pos hf']; exact h
  · rw [if_neg hf']; omega

/-- A start, with no process that has the property or of one that does not. -/
theorem start (h : Lone f procs) (hp : f p = true → ∀ q ∈ procs, f q = false) :
    Lone f (procs ++ [p]) := by
  unfold Lone at h ⊢
  rw [List.countP_append, List.countP_singleton]
  split
  · next hf =>
    have hnone : procs.countP f = 0 := List.countP_eq_zero.mpr fun q hq => by simp [hp hf q hq]
    omega
  · exact h

end Lone

end Pool
