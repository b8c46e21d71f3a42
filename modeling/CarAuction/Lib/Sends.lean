import CarAuction.Lib.Machine
import CarAuction.Lib.PubSub

/- Calls that send several messages, one after the other, with nothing around the
   sends. A call has a script of messages; a send is awaited, so the next one starts
   when it has resolved. A message that is not `storable` is not stored, though its
   send resolves. A send may also fail, with its message stored or not, and the call
   ends with the exception; and a node may stop, and its calls end where they are.

   `CallStep` is what a step does to one call, and `Progress` the stages of a call:
   what it has stored is an initial part of its script, and all of it once it has
   returned. `atomic_iff` says when every call leaves all of its messages or none:
   when no call fails or stops that has stored one. -/
namespace Sends

open Machine PubSub

/-- How a call ended. -/
inductive Outcome where
  | returned
  | threw
  | stopped
  deriving DecidableEq

inductive Action (ι γ : Type*) where
  | send (i : ι)
  | fail (i : ι) (stored : Bool)
  | stop (node : γ)

/-- What a call has still to send, how it ended, and what is stored of it. -/
structure Call (μ : Type*) where
  pending : List μ
  ended : Option Outcome
  stored : List μ

variable {ι γ μ : Type*} {storable : μ → Bool} {node : ι → γ} {script : List μ} {act : Action ι γ}
  {c d : Call μ} {i : ι}

/-! One call. -/

def Action.concerns (node : ι → γ) (i : ι) (c : Call μ) : Action ι γ → Prop
  | .send j => j = i
  | .fail j _ => j = i
  | .stop g => node i = g ∧ c.ended = none

/-- What a step does to one call. -/
inductive CallStep (storable : μ → Bool) (node : ι → γ) (i : ι) :
    Action ι γ → Call μ → Call μ → Prop where
  | frame (act : Action ι γ) (c : Call μ) : ¬ act.concerns node i c →
      CallStep storable node i act c c
  | sends (m : μ) (rest stored : List μ) :
      CallStep storable node i (.send i) ⟨m :: rest, none, stored⟩
        ⟨rest, if rest.isEmpty then some .returned else none, stored ++ [m].filter storable⟩
  | fails (b : Bool) (m : μ) (rest stored : List μ) :
      CallStep storable node i (.fail i b) ⟨m :: rest, none, stored⟩
        ⟨m :: rest, some .threw, stored ++ if b then [m].filter storable else []⟩
  | stops (pending stored : List μ) :
      CallStep storable node i (.stop (node i)) ⟨pending, none, stored⟩
        ⟨pending, some .stopped, stored⟩

/-- The stages of a call with this script. -/
inductive Progress (storable : μ → Bool) (script : List μ) : Call μ → Prop where
  | running (done : List μ) (m : μ) (rest : List μ) : script = done ++ m :: rest →
      Progress storable script ⟨m :: rest, none, done.filter storable⟩
  | returned : Progress storable script ⟨[], some .returned, script.filter storable⟩
  | threw (done : List μ) (m : μ) (rest sent : List μ) : script = done ++ m :: rest →
      sent = done ∨ sent = done ++ [m] →
      Progress storable script ⟨m :: rest, some .threw, sent.filter storable⟩
  | stopped (done : List μ) (m : μ) (rest : List μ) : script = done ++ m :: rest →
      Progress storable script ⟨m :: rest, some .stopped, done.filter storable⟩

/-- Every step of any call keeps the stage of each. -/
theorem progress_step (hc : Progress storable script c)
    (hstep : CallStep storable node i act c d) : Progress storable script d := by
  cases hstep with
  | frame act c hframe => exact hc
  | sends m rest stored =>
    cases hc with
    | running done m rest hscript =>
      have hdone : script = (done ++ [m]) ++ rest := by rw [hscript]; simp
      rw [← List.filter_append]
      cases rest with
      | nil =>
        rw [List.append_nil] at hdone
        rw [← hdone]
        exact .returned
      | cons m' rest => exact .running (done ++ [m]) m' rest hdone
  | fails b m rest stored =>
    cases hc with
    | running done m rest hscript =>
      cases b with
      | false =>
        rw [if_neg Bool.false_ne_true, List.append_nil]
        exact .threw done m rest done hscript (.inl rfl)
      | true =>
        rw [if_pos rfl, ← List.filter_append]
        exact .threw done m rest (done ++ [m]) hscript (.inr rfl)
  | stops pending stored =>
    cases hc with
    | running done m rest hscript => exact .stopped done m rest hscript

/-- What a call has stored is an initial part of what it stores when it returns. -/
theorem Progress.isPrefix (h : Progress storable script c) :
    c.stored <+: script.filter storable := by
  have hdone : ∀ done rest : List μ, script = done ++ rest →
      done.filter storable <+: script.filter storable := by
    intro done rest hscript
    rw [hscript, List.filter_append]
    exact List.prefix_append _ _
  cases h with
  | running done m rest hscript => exact hdone done (m :: rest) hscript
  | returned => exact List.prefix_refl _
  | threw done m rest sent hscript hsent =>
    rcases hsent with rfl | rfl
    · exact hdone sent (m :: rest) hscript
    · exact hdone (done ++ [m]) rest (by rw [hscript]; simp)
  | stopped done m rest hscript => exact hdone done (m :: rest) hscript

/-- A call that has ended has stored nothing, or all it could. -/
def Call.Atomic (c : Call μ) : Prop := c.ended ≠ none → c.stored = [] ∨ c.ended = some .returned

/-- The step ends the call after some of its messages were stored, or stores one as it fails. -/
def Call.Torn (storable : μ → Bool) (c : Call μ) : Action ι γ → Prop
  | .send _ => False
  | .fail _ stored => c.stored ≠ [] ∨ stored = true ∧ ∃ m ∈ c.pending.head?, storable m
  | .stop _ => c.stored ≠ []

theorem atomic_step (hc : c.Atomic) (hstep : CallStep storable node i act c d) :
    d.Atomic ↔ ¬ (act.concerns node i c ∧ c.Torn storable act) := by
  cases hstep with
  | frame act c hframe => exact iff_of_true hc fun h => hframe h.1
  | sends m rest stored =>
    refine iff_of_true (fun hended => .inr ?_) fun h => h.2
    cases rest with
    | nil => rfl
    | cons m' rest => exact absurd rfl hended
  | fails b m rest stored =>
    have hatomic : Call.Atomic ⟨m :: rest, some .threw, stored ++ if b then [m].filter storable else []⟩ ↔
        stored = [] ∧ (b = true → storable m = false) := by
      simp [Call.Atomic]
    rw [hatomic]
    simp [Action.concerns, Call.Torn]
  | stops pending stored => simp [Call.Atomic, Action.concerns, Call.Torn]

/-! All the calls. -/

/-- The messages each call has still to send, how it ended, and the messages stored, in order. -/
structure State (ι μ : Type*) where
  pending : ι → List μ
  ended : ι → Option Outcome
  log : List (ι × μ)

def init (script : ι → List μ) : State ι μ := ⟨script, fun _ => none, []⟩

variable [DecidableEq ι]

/-- What the broker has stored of a call. -/
def State.storedBy (s : State ι μ) (i : ι) : List μ := ofTag i s.log

def State.call (s : State ι μ) (i : ι) : Call μ := ⟨s.pending i, s.ended i, s.storedBy i⟩

/-- What is left of call `i`, how it ended, and its messages stored on the way. -/
def State.advance (s : State ι μ) (i : ι) (pending : List μ) (ended : Option Outcome)
    (stored : List μ) : State ι μ where
  pending := Function.update s.pending i pending
  ended := Function.update s.ended i ended
  log := s.log ++ stored.map (i, ·)

variable [DecidableEq γ]

def step (storable : μ → Bool) (node : ι → γ) (s : State ι μ) : Action ι γ → Option (State ι μ)
  | .send i =>
    match s.ended i, s.pending i with
    | none, m :: rest =>
      -- the last send that resolves is followed by the return
      let ended := if rest.isEmpty then some .returned else none
      some (s.advance i rest ended ([m].filter storable))
    | _, _ => none
  | .fail i stored =>
    match s.ended i, s.pending i with
    | none, m :: rest =>
      some (s.advance i (m :: rest) (some .threw) (if stored then [m].filter storable else []))
    | _, _ => none
  | .stop g => some
    { s with ended := fun i => if node i = g ∧ s.ended i = none then some .stopped else s.ended i }

/-- The step tears one of the calls it concerns. -/
def Torn (storable : μ → Bool) (node : ι → γ) (s : State ι μ) (act : Action ι γ) : Prop :=
  ∃ i, act.concerns node i (s.call i) ∧ (s.call i).Torn storable act

variable {s t : State ι μ}

theorem call_advance_self (s : State ι μ) (i : ι) (pending : List μ) (ended : Option Outcome)
    (stored : List μ) : (s.advance i pending ended stored).call i =
      ⟨pending, ended, s.storedBy i ++ stored⟩ := by
  simp only [State.call, State.storedBy, State.advance, Function.update_self, ofTag_append_self]

theorem call_advance_of_ne {i j : ι} (h : j ≠ i) (s : State ι μ) (pending : List μ)
    (ended : Option Outcome) (stored : List μ) :
    (s.advance j pending ended stored).call i = s.call i := by
  simp only [State.call, State.storedBy, State.advance, Function.update_of_ne (Ne.symm h),
    ofTag_append_of_ne h]

theorem call_step (h : step storable node s act = some t) (i : ι) :
    CallStep storable node i act (s.call i) (t.call i) := by
  cases act with
  | send j =>
    simp only [step] at h
    split at h
    · next m rest hended hpending =>
      cases h
      by_cases hj : j = i
      · subst hj
        rw [call_advance_self, State.call, hended, hpending]
        exact .sends m rest _
      · rw [call_advance_of_ne hj]
        exact .frame _ _ hj
    · cases h
  | fail j stored =>
    simp only [step] at h
    split at h
    · next m rest hended hpending =>
      cases h
      by_cases hj : j = i
      · subst hj
        rw [call_advance_self, State.call, hended, hpending]
        exact .fails stored m rest _
      · rw [call_advance_of_ne hj]
        exact .frame _ _ hj
    · cases h
  | stop g =>
    cases h
    by_cases hstops : node i = g ∧ s.ended i = none
    · obtain ⟨rfl, hended⟩ := hstops
      simp only [State.call, State.storedBy, hended, and_self, if_true]
      exact .stops _ _
    · simp only [State.call, State.storedBy, if_neg hstops]
      exact .frame _ _ hstops

theorem progress_init {script : ι → List μ} (h : ∀ i, script i ≠ []) (i : ι) :
    Progress storable (script i) ((init script).call i) := by
  obtain ⟨m, rest, hscript⟩ := List.exists_cons_of_ne_nil (h i)
  have hcall : (init script).call i = ⟨m :: rest, none, [].filter storable⟩ := by
    rw [← hscript]
    rfl
  rw [hcall]
  exact .running [] m rest hscript

/-- In every run, every call is at one of its stages. -/
theorem progress_always {script : ι → List μ} (h : ∀ i, script i ≠ []) (as : List (Action ι γ)) :
    Always (step storable node) (fun s => ∀ i, Progress storable (script i) (s.call i))
      (init script) as := by
  apply always_of_inv _ (fun s hs => hs) as (progress_init h) (along_true as)
  intro s act t hs _ ht i
  exact progress_step (hs i) (call_step ht i)

/-- Every call leaves all its messages or none exactly when no step tears one. -/
theorem atomic_iff {script : ι → List μ} (as : List (Action ι γ)) :
    Always (step storable node) (fun s => ∀ i, (s.call i).Atomic) (init script) as ↔
      Along (step storable node) (fun s act _ => ¬ Torn storable node s act) (init script) as := by
  have hinit : ∀ i, ((init script).call i).Atomic := fun i hended => absurd rfl hended
  have hiff : Along (step storable node) (fun _ _ t => ∀ i, (t.call i).Atomic) (init script) as ↔
      Along (step storable node) (fun s act _ => ¬ Torn storable node s act) (init script) as := by
    apply along_iff_of_inv (I := fun s : State ι μ => ∀ i, (s.call i).Atomic) _ as hinit
    intro s act t hs ht
    refine ⟨?_, fun h => h⟩
    rw [Torn, not_exists]
    exact forall_congr' fun i => atomic_step (hs i) (call_step ht i)
  exact ⟨fun h => hiff.mp h.2, fun h => ⟨hinit, hiff.mpr h⟩⟩

end Sends
