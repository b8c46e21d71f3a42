import CarAuction.Lib.Machine
import CarAuction.Lib.Pool

/- Pools whose processes have tags and keep to the part of the world with their own
   tag. `Isolated` states it of single steps: a process reads nothing of the other
   parts, so that it takes the same step over any world with the same own part, and
   changes nothing there. `own_run` says that the run made of the steps of one tag
   alone (`ownSteps`) then ends with that tag's part of the world, its processes and
   what they have emitted, whatever the others did in between. -/
namespace Pool

open Machine

variable {ω π ε ι κ τ : Type*} [DecidableEq τ]

/-- Processes with a tag read and write only the part of the world that `Same` compares. -/
structure Isolated (P : Program ω π ε ι κ) (tag : π → τ) (owner : κ → τ) (visible : τ → ε → Bool)
    (Same : τ → ω → ω → Prop) : Prop where
  refl : ∀ a w, Same a w w
  step_tag : ∀ i w p w' p' es, P.step i w p = some (w', p', es) → tag p' = tag p
  kill_tag : ∀ p p', P.kill p = some p' → tag p' = tag p
  own : ∀ i w u p w' p' es, Same (tag p) w u → P.step i w p = some (w', p', es) →
    (∀ e ∈ es, visible (tag p) e = true) ∧ ∃ u', P.step i u p = some (u', p', es) ∧ Same (tag p) w' u'
  other : ∀ a i w u p w' p' es, tag p ≠ a → Same a w u → P.step i w p = some (w', p', es) →
    (∀ e ∈ es, visible a e = false) ∧ Same a w' u
  env_own : ∀ k w u, Same (owner k) w u → Same (owner k) (P.env k w) (P.env k u)
  env_other : ∀ a k w u, owner k ≠ a → Same a w u → Same a (P.env k w) u

/-- The number of a process among those with its tag. -/
def rank (tag : π → τ) (a : τ) (s : State ω π ε) (i : ℕ) : ℕ :=
  (s.procs.take i).countP (fun p => tag p = a)

/-- The action, if it is one of the tag, in the pool that has only the processes with the tag. -/
def ownAction (tag : π → τ) (owner : κ → τ) (a : τ) (s : State ω π ε) :
    Action π ι κ → List (Action π ι κ)
  | .start p => if tag p = a then [.start p] else []
  | .run i input =>
    if s.procs[i]?.map tag = some a then [.run (rank tag a s i) input] else []
  | .env k => if owner k = a then [.env k] else []
  | .kill i => if s.procs[i]?.map tag = some a then [.kill (rank tag a s i)] else []

/-- The steps of the tag, in their order. -/
def ownSteps (P : Program ω π ε ι κ) (tag : π → τ) (owner : κ → τ) (a : τ) :
    State ω π ε → List (Action π ι κ) → List (Action π ι κ) :=
  translate (step P) (ownAction tag owner a)

/-- `u` is what there is of the tag in `s`. -/
structure Projects (tag : π → τ) (visible : τ → ε → Bool) (Same : τ → ω → ω → Prop) (a : τ)
    (s u : State ω π ε) : Prop where
  world : Same a s.world u.world
  procs : u.procs = s.procs.filter (fun p => tag p = a)
  log : u.log = s.log.filter (visible a)

variable {P : Program ω π ε ι κ} {tag : π → τ} {owner : κ → τ} {visible : τ → ε → Bool}
  {Same : τ → ω → ω → Prop} {a : τ} {s t u : State ω π ε} {act : Action π ι κ}

theorem filter_visible {es log : List ε} {f : ε → Bool} (h : ∀ e ∈ es, f e = true) :
    (log ++ es).filter f = log.filter f ++ es := by
  rw [List.filter_append, List.filter_eq_self.mpr h]

theorem filter_hidden {es log : List ε} {f : ε → Bool} (h : ∀ e ∈ es, f e = false) :
    (log ++ es).filter f = log.filter f := by
  have hnone : es.filter f = [] := List.filter_eq_nil_iff.mpr (fun e he => by simp [h e he])
  rw [List.filter_append, hnone, List.append_nil]

theorem filter_split {l r : List π} {p : π} (h : tag p = a) :
    (l ++ p :: r).filter (fun p => tag p = a) =
      l.filter (fun p => tag p = a) ++ p :: r.filter (fun p => tag p = a) := by
  simp [List.filter_append, h]

theorem filter_split_of_ne {l r : List π} {p : π} (h : tag p ≠ a) :
    (l ++ p :: r).filter (fun p => tag p = a) =
      l.filter (fun p => tag p = a) ++ r.filter (fun p => tag p = a) := by
  simp [List.filter_append, h]

theorem rank_split {w : ω} {l r : List π} {p : π} {log : List ε} :
    rank tag a ⟨w, l ++ p :: r, log⟩ l.length = (l.filter (fun p => tag p = a)).length := by
  simp [rank, List.countP_eq_length_filter]

/-- A step of a process of the pool, as the executable step. -/
theorem step_run {i : ι} {w w' : ω} {l r : List π} {p p' : π} {log es : List ε}
    (h : P.step i w p = some (w', p', es)) :
    step P ⟨w, l ++ p :: r, log⟩ (.run l.length i) = some ⟨w', l ++ p' :: r, log ++ es⟩ := by
  simp [step, h]

theorem step_kill {w : ω} {l r : List π} {p p' : π} {log : List ε} (h : P.kill p = some p') :
    step P ⟨w, l ++ p :: r, log⟩ (.kill l.length) = some ⟨w, l ++ p' :: r, log⟩ := by
  simp [step, h]

/-- A statement of a process with the tag is its statement alone; any other is none. -/
theorem own_statement (hP : Isolated P tag owner visible Same) {i : ι} {w w' : ω} {l r : List π}
    {p p' : π} {log es : List ε} (hrun : P.step i w p = some (w', p', es))
    (h : Projects tag visible Same a ⟨w, l ++ p :: r, log⟩ u) :
    ∃ v, exec (step P) u (ownAction tag owner a ⟨w, l ++ p :: r, log⟩ (.run l.length i)) = some v ∧
      Projects tag visible Same a ⟨w', l ++ p' :: r, log ++ es⟩ v := by
  obtain ⟨uw, uprocs, ulog⟩ := u
  obtain ⟨hworld, hprocs, hlog⟩ := h
  dsimp only at hworld hprocs hlog
  subst hprocs hlog
  have htag := hP.step_tag _ _ _ _ _ _ hrun
  by_cases hp : tag p = a
  · subst hp
    obtain ⟨hvisible, u', hu', hsame⟩ := hP.own _ _ _ _ _ _ _ hworld hrun
    have hown : ownAction tag owner (tag p) ⟨w, l ++ p :: r, log⟩ (.run l.length i) =
        [.run (l.filter (fun q => tag q = tag p)).length i] := by
      simp [ownAction, rank_split]
    refine ⟨⟨u', l.filter (fun q => tag q = tag p) ++ p' :: r.filter (fun q => tag q = tag p),
      log.filter (visible (tag p)) ++ es⟩, ?_, hsame, ?_, ?_⟩
    · rw [hown, exec_singleton, filter_split rfl, step_run hu']
    · rw [← htag]
      exact (filter_split rfl).symm
    · exact (filter_visible hvisible).symm
  · have hown : ownAction tag owner a ⟨w, l ++ p :: r, log⟩ (.run l.length i) = [] := by
      simp [ownAction, hp]
    obtain ⟨hhidden, hsame⟩ := hP.other _ _ _ _ _ _ _ _ hp hworld hrun
    refine ⟨_, by rw [hown]; rfl, hsame, ?_, (filter_hidden hhidden).symm⟩
    rw [filter_split_of_ne hp]
    exact (filter_split_of_ne (htag ▸ hp)).symm

/-- The same for a kill. -/
theorem own_kill (hP : Isolated P tag owner visible Same) {w : ω} {l r : List π} {p p' : π}
    {log : List ε} (hkill : P.kill p = some p')
    (h : Projects tag visible Same a ⟨w, l ++ p :: r, log⟩ u) :
    ∃ v, exec (step P) u
        (ownAction tag owner a ⟨w, l ++ p :: r, log⟩ (.kill l.length : Action π ι κ)) = some v ∧
      Projects tag visible Same a ⟨w, l ++ p' :: r, log⟩ v := by
  obtain ⟨uw, uprocs, ulog⟩ := u
  obtain ⟨hworld, hprocs, hlog⟩ := h
  dsimp only at hworld hprocs hlog
  subst hprocs hlog
  have htag := hP.kill_tag _ _ hkill
  by_cases hp : tag p = a
  · subst hp
    have hown : ownAction tag owner (tag p) ⟨w, l ++ p :: r, log⟩ (.kill l.length : Action π ι κ) =
        [.kill (l.filter (fun q => tag q = tag p)).length] := by
      simp [ownAction, rank_split]
    refine ⟨⟨uw, l.filter (fun q => tag q = tag p) ++ p' :: r.filter (fun q => tag q = tag p),
      log.filter (visible (tag p))⟩, ?_, hworld, ?_, ?_⟩
    · rw [hown, exec_singleton, filter_split rfl, step_kill hkill]
    · rw [← htag]
      exact (filter_split rfl).symm
    · rfl
  · have hown : ownAction tag owner a ⟨w, l ++ p :: r, log⟩ (.kill l.length : Action π ι κ) = [] := by
      simp [ownAction, hp]
    refine ⟨_, by rw [hown]; rfl, hworld, ?_, rfl⟩
    rw [filter_split_of_ne hp]
    exact (filter_split_of_ne (htag ▸ hp)).symm

/-- One step of the pool is at most one step of the tag. -/
theorem own_step (hP : Isolated P tag owner visible Same) (hstep : step P s act = some t)
    (h : Projects tag visible Same a s u) :
    ∃ v, exec (step P) u (ownAction tag owner a s act) = some v ∧
      Projects tag visible Same a t v := by
  cases step_inv hstep with
  | run hrun => exact own_statement hP hrun h
  | kill hkill => exact own_kill hP hkill h
  | @start w procs log p hbegins =>
    by_cases hp : tag p = a
    · have hown : ownAction tag owner a ⟨w, procs, log⟩ (.start p : Action π ι κ) = [.start p] := if_pos hp
      refine ⟨{ u with procs := u.procs ++ [p] }, ?_, h.world, ?_, h.log⟩
      · rw [hown, exec_singleton]
        simp [step, hbegins]
      · simp [List.filter_append, hp, h.procs]
    · have hown : ownAction tag owner a ⟨w, procs, log⟩ (.start p : Action π ι κ) = [] := if_neg hp
      refine ⟨u, by rw [hown]; rfl, h.world, ?_, h.log⟩
      simp [List.filter_append, hp, h.procs]
  | @env w procs log k =>
    by_cases hk : owner k = a
    · subst hk
      have hown : ownAction tag owner (owner k) ⟨w, procs, log⟩ (.env k : Action π ι κ) = [.env k] :=
        if_pos rfl
      refine ⟨{ u with world := P.env k u.world }, ?_, hP.env_own k _ _ h.world, h.procs, h.log⟩
      rw [hown, exec_singleton]
      rfl
    · have hown : ownAction tag owner a ⟨w, procs, log⟩ (.env k : Action π ι κ) = [] := if_neg hk
      exact ⟨u, by rw [hown]; rfl, hP.env_other a k _ _ hk h.world, h.procs, h.log⟩

/-- The steps of a tag alone end with what there is of the tag at the end of the whole run. -/
theorem own_run (hP : Isolated P tag owner visible Same) {w : ω} (as : List (Action π ι κ))
    (ht : exec (step P) ⟨w, [], []⟩ as = some t) :
    ∃ v, exec (step P) ⟨w, [], []⟩ (ownSteps P tag owner a ⟨w, [], []⟩ as) = some v ∧
      Projects tag visible Same a t v := by
  have hstart : Projects tag visible Same a ⟨w, [], []⟩ ⟨w, [], []⟩ := ⟨hP.refl a w, rfl, rfl⟩
  refine exec_translate (fun s act t u hs hu => ?_) as hstart ht
  exact own_step hP hs hu

end Pool
