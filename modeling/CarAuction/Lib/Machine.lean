import Mathlib.Data.List.Basic

/- Runs of a machine that takes labelled steps. A machine is its step function
   `step : σ → α → Option σ`, `none` where the action is not enabled. A run is a
   start state and the list of its actions. `Along step P` says that every step
   the run takes satisfies `P` (a scheduling discipline, a side condition, a
   property of the step), `Always step Q` that every state it visits satisfies
   `Q`. `along_of_inv` and `always_of_inv` are the invariant rules: what one step
   preserves, a whole run preserves. -/
namespace Machine

variable {σ α : Type*} {step : σ → α → Option σ}

/-- The state after the actions, `none` when one of them is not enabled. -/
def exec (step : σ → α → Option σ) : σ → List α → Option σ
  | s, [] => some s
  | s, a :: as => (step s a).bind (fun t => exec step t as)

/-- `P` holds of every step the run takes. -/
def Along (step : σ → α → Option σ) (P : σ → α → σ → Prop) : σ → List α → Prop
  | _, [] => True
  | s, a :: as => ∀ t, step s a = some t → P s a t ∧ Along step P t as

/-- `Q` holds of every state the run visits, the first one included. -/
def Always (step : σ → α → Option σ) (Q : σ → Prop) (s : σ) (as : List α) : Prop :=
  Q s ∧ Along step (fun _ _ t => Q t) s as

theorem along_and {P R : σ → α → σ → Prop} {s : σ} (as : List α) (hP : Along step P s as)
    (hR : Along step R s as) : Along step (fun s a t => P s a t ∧ R s a t) s as := by
  induction as generalizing s with
  | nil => trivial
  | cons a as ih =>
    intro t ht
    exact ⟨⟨(hP t ht).1, (hR t ht).1⟩, ih (hP t ht).2 (hR t ht).2⟩

/-- The invariant rule for steps: from an invariant, `P` yields `R` of each step and the
    invariant again. -/
theorem along_of_inv {I : σ → Prop} {P R : σ → α → σ → Prop}
    (h : ∀ s a t, I s → P s a t → step s a = some t → I t ∧ R s a t) {s : σ} (as : List α)
    (hs : I s) (hr : Along step P s as) : Along step R s as := by
  induction as generalizing s with
  | nil => trivial
  | cons a as ih =>
    intro t ht
    obtain ⟨hp, hrest⟩ := hr t ht
    obtain ⟨hi, hR⟩ := h s a t hs hp ht
    exact ⟨hR, ih hi hrest⟩

/-- The invariant rule for states. -/
theorem always_of_inv {I Q : σ → Prop} {P : σ → α → σ → Prop}
    (h : ∀ s a t, I s → P s a t → step s a = some t → I t) (hQ : ∀ s, I s → Q s) {s : σ}
    (as : List α) (hs : I s) (hr : Along step P s as) : Always step Q s as :=
  ⟨hQ s hs, along_of_inv (fun s a t hi hp ht => ⟨h s a t hi hp ht, hQ t (h s a t hi hp ht)⟩) as hs hr⟩

/-- Both rules together. -/
theorem run_of_inv {I Q : σ → Prop} {P R : σ → α → σ → Prop}
    (h : ∀ s a t, I s → P s a t → step s a = some t → I t ∧ R s a t) (hQ : ∀ s, I s → Q s) {s : σ}
    (as : List α) (hs : I s) (hr : Along step P s as) : Along step R s as ∧ Always step Q s as := by
  refine ⟨along_of_inv h as hs hr, always_of_inv ?_ hQ as hs hr⟩
  intro s a t hi hp ht
  exact (h s a t hi hp ht).1

/-- What an invariant says of the last state. -/
theorem exec_of_inv {I : σ → Prop} (h : ∀ s a t, I s → step s a = some t → I t) {s u : σ}
    (as : List α) (hs : I s) (hu : exec step s as = some u) : I u := by
  induction as generalizing s with
  | nil => cases hu; exact hs
  | cons a as ih =>
    obtain ⟨t, ht, hu⟩ := Option.bind_eq_some_iff.mp hu
    exact ih (h s a t hs ht) hu

@[simp] theorem exec_singleton {s : σ} {a : α} : exec step s [a] = step s a := by
  simp [exec]

theorem exec_append {s : σ} (as bs : List α) :
    exec step s (as ++ bs) = (exec step s as).bind (fun t => exec step t bs) := by
  induction as generalizing s with
  | nil => rfl
  | cons a as ih =>
    rw [List.cons_append, exec, exec, Option.bind_assoc]
    apply congrArg
    funext t
    exact ih

/-- The actions of a run, each replaced by the actions `f` gives for it in its state. -/
def translate {β : Type*} (step : σ → α → Option σ) (f : σ → α → List β) : σ → List α → List β
  | _, [] => []
  | s, a :: as => f s a ++ ((step s a).map fun t => translate step f t as).getD []

/-- A relation that every step keeps with the translation of its action, a run keeps too. -/
theorem exec_translate {τ β : Type*} {step' : τ → β → Option τ} {f : σ → α → List β}
    {R : σ → τ → Prop}
    (h : ∀ s a t u, step s a = some t → R s u → ∃ v, exec step' u (f s a) = some v ∧ R t v)
    {s t : σ} {u : τ} (as : List α) (hs : R s u) (ht : exec step s as = some t) :
    ∃ v, exec step' u (translate step f s as) = some v ∧ R t v := by
  induction as generalizing s u with
  | nil =>
    cases ht
    exact ⟨u, rfl, hs⟩
  | cons a as ih =>
    obtain ⟨s', hs', ht⟩ := Option.bind_eq_some_iff.mp ht
    obtain ⟨u', hu', hR⟩ := h s a s' u hs' hs
    obtain ⟨v, hv, hR⟩ := ih hR ht
    refine ⟨v, ?_, hR⟩
    rw [translate, exec_append, hu', hs']
    exact hv

/-- The last state is one of those visited. -/
theorem Always.last {Q : σ → Prop} {s u : σ} {as : List α} (h : Always step Q s as)
    (hu : exec step s as = some u) : Q u := by
  induction as generalizing s with
  | nil => cases hu; exact h.1
  | cons a as ih =>
    obtain ⟨t, ht, hu⟩ := Option.bind_eq_some_iff.mp hu
    exact ih (h.2 t ht) hu

theorem Always.mono {P Q : σ → Prop} {s : σ} {as : List α} (h : ∀ s, P s → Q s)
    (hP : Always step P s as) : Always step Q s as :=
  always_of_inv (I := P) (fun _ _ _ _ ht _ => ht) h as hP.1 hP.2

/-- Two properties that agree wherever `P` holds. -/
theorem always_congr {P Q R : σ → Prop} {s : σ} {as : List α} (h : ∀ s, P s → (Q s ↔ R s))
    (hP : Always step P s as) : Always step Q s as ↔ Always step R s as := by
  have hboth : ∀ {Q R : σ → Prop}, (∀ s, P s → Q s → R s) → Always step Q s as →
      Always step R s as := by
    intro Q R himp hQ
    exact Always.mono (P := fun s => P s ∧ Q s) (fun s hs => himp s hs.1 hs.2)
      ⟨⟨hP.1, hQ.1⟩, along_and as hP.2 hQ.2⟩
  exact ⟨hboth fun s hs => (h s hs).mp, hboth fun s hs => (h s hs).mpr⟩

/-- A run whose actions all decrease a measure is no longer than the measure of its first state. -/
theorem length_le_of_decreasing {A : α → Prop} {measure : σ → ℕ}
    (h : ∀ s a t, A a → step s a = some t → measure t < measure s) {s t : σ} (as : List α)
    (hA : ∀ a ∈ as, A a) (ht : exec step s as = some t) : as.length ≤ measure s := by
  induction as generalizing s with
  | nil => exact Nat.zero_le _
  | cons a as ih =>
    obtain ⟨u, hu, ht⟩ := Option.bind_eq_some_iff.mp ht
    have hfirst := h s a u (hA a List.mem_cons_self) hu
    have hrest := ih (fun b hb => hA b (List.mem_cons_of_mem a hb)) ht
    rw [List.length_cons]
    omega

/-- Two properties of steps that agree as long as the invariant holds, and of which the first
    keeps it, hold of the same runs among those that follow a discipline `D`. -/
theorem along_iff_of_run {I : σ → Prop} {D P R : σ → α → σ → Prop}
    (h : ∀ s a t, I s → D s a t → step s a = some t → (P s a t ↔ R s a t) ∧ (P s a t → I t))
    {s : σ} (as : List α) (hs : I s) (hD : Along step D s as) :
    Along step P s as ↔ Along step R s as := by
  induction as generalizing s with
  | nil => exact Iff.rfl
  | cons a as ih =>
    refine ⟨fun hr t ht => ?_, fun hr t ht => ?_⟩
    · obtain ⟨hp, hrest⟩ := hr t ht
      obtain ⟨hd, hds⟩ := hD t ht
      obtain ⟨hiff, hkeep⟩ := h s a t hs hd ht
      exact ⟨hiff.mp hp, (ih (hkeep hp) hds).mp hrest⟩
    · obtain ⟨hp, hrest⟩ := hr t ht
      obtain ⟨hd, hds⟩ := hD t ht
      obtain ⟨hiff, hkeep⟩ := h s a t hs hd ht
      exact ⟨hiff.mpr hp, (ih (hkeep (hiff.mpr hp)) hds).mpr hrest⟩

theorem along_true {s : σ} (as : List α) : Along step (fun _ _ _ => True) s as := by
  induction as generalizing s with
  | nil => trivial
  | cons a as ih => exact fun t _ => ⟨trivial, ih⟩

/-- What holds of all actions holds along the run. -/
theorem along_of_forall {A : α → Prop} {s : σ} {as : List α} (h : ∀ a ∈ as, A a) :
    Along step (fun _ a _ => A a) s as := by
  induction as generalizing s with
  | nil => trivial
  | cons a as ih =>
    exact fun t _ => ⟨h a List.mem_cons_self, ih fun b hb => h b (List.mem_cons_of_mem a hb)⟩

/-- What holds along a run whose steps are all taken holds of all its actions. -/
theorem along_iff_forall {I : σ → Prop} {A : α → Prop}
    (h : ∀ s a, I s → ∃ t, step s a = some t ∧ I t) {s : σ} (as : List α) (hs : I s) :
    Along step (fun _ a _ => A a) s as ↔ ∀ a ∈ as, A a := by
  refine ⟨fun hr => ?_, along_of_forall⟩
  induction as generalizing s with
  | nil => exact fun a ha => by cases ha
  | cons a as ih =>
    obtain ⟨t, ht, hi⟩ := h s a hs
    obtain ⟨hfirst, hrest⟩ := hr t ht
    exact List.forall_mem_cons.mpr ⟨hfirst, ih hi hrest⟩

/-- The same without a discipline. -/
theorem along_iff_of_inv {I : σ → Prop} {P R : σ → α → σ → Prop}
    (h : ∀ s a t, I s → step s a = some t → (P s a t ↔ R s a t) ∧ (P s a t → I t))
    {s : σ} (as : List α) (hs : I s) : Along step P s as ↔ Along step R s as :=
  along_iff_of_run (fun s a t hi _ ht => h s a t hi ht) as hs (along_true as)

/-- The invariant rule for a property of the states that fails exactly when a step with `B` is
    taken: the invariant survives the other steps and gives `Q`, a step with `B` breaks `Q`. -/
theorem always_iff_of_inv {I Q : σ → Prop} {D : σ → α → σ → Prop} {B : σ → α → Prop}
    (hQ : ∀ s, I s → Q s)
    (hkeep : ∀ s a t, I s → D s a t → step s a = some t → ¬ B s a → I t)
    (hbreak : ∀ s a t, I s → D s a t → step s a = some t → B s a → ¬ Q t)
    {s : σ} (as : List α) (hs : I s) (hD : Along step D s as) :
    Always step Q s as ↔ Along step (fun s a _ => ¬ B s a) s as := by
  have hiff : Along step (fun _ _ t => Q t) s as ↔ Along step (fun s a _ => ¬ B s a) s as := by
    apply along_iff_of_run (I := I) _ as hs hD
    intro s a t hi hd ht
    have hnot : Q t → ¬ B s a := fun hq hb => hbreak s a t hi hd ht hb hq
    refine ⟨⟨hnot, fun hb => hQ t (hkeep s a t hi hd ht hb)⟩, fun hq => ?_⟩
    exact hkeep s a t hi hd ht (hnot hq)
  exact ⟨fun h => hiff.mp h.2, fun h => ⟨hQ s hs, hiff.mpr h⟩⟩

/-- The rule for a property of the last state that fails exactly when a step with `B` was taken:
    `I` survives the other steps and gives `Q` in the end, a step with `B` leaves `I` for `J`, which
    lasts and excludes `Q`. -/
theorem last_iff_of_inv {I J : σ → Prop} {B : σ → α → Prop} {Q : Prop} {u : σ}
    (hkeep : ∀ s a t, I s → step s a = some t → ¬ B s a → I t)
    (hbreak : ∀ s a t, I s → step s a = some t → B s a → J t)
    (hstay : ∀ s a t, J s → step s a = some t → J t) (hQ : I u → Q) (hnot : J u → ¬ Q) {s : σ}
    (as : List α) (hs : I s) (hu : exec step s as = some u) :
    Q ↔ Along step (fun s a _ => ¬ B s a) s as := by
  induction as generalizing s with
  | nil =>
    cases hu
    exact ⟨fun _ => trivial, fun _ => hQ hs⟩
  | cons a as ih =>
    obtain ⟨t, ht, hu⟩ := Option.bind_eq_some_iff.mp hu
    by_cases hb : B s a
    · have hlast : J u := exec_of_inv hstay as (hbreak s a t hs ht hb) hu
      exact ⟨fun hq => absurd hq (hnot hlast), fun h => absurd hb (h t ht).1⟩
    · have hrest := ih (hkeep s a t hs ht hb) hu
      refine ⟨fun hq t' ht' => ?_, fun h => hrest.mpr (h t ht).2⟩
      cases ht.symm.trans ht'
      exact ⟨hb, hrest.mp hq⟩

/-- The run takes a step with `H`. -/
def Sometime (step : σ → α → Option σ) (H : σ → α → Prop) : σ → List α → Prop
  | _, [] => False
  | s, a :: as => ∃ t, step s a = some t ∧ (H s a ∨ Sometime step H t as)

/-- Every step with `B` is followed, some time later, by one with `H`. -/
def Repaired (step : σ → α → Option σ) (B H : σ → α → Prop) : σ → List α → Prop
  | _, [] => True
  | s, a :: as => ∀ t, step s a = some t → (B s a → Sometime step H t as) ∧ Repaired step B H t as

/-- The rule for a flaw `J` that steps with `B` make and only steps with `H` mend: the last state is
    free of it exactly when the run repairs what it breaks. -/
theorem last_iff_of_repaired {J : σ → Prop} {B H : σ → α → Prop}
    (hgood : ∀ s a t, ¬ J s → step s a = some t → (J t ↔ B s a))
    (hbad : ∀ s a t, J s → step s a = some t → (J t ↔ ¬ H s a))
    (hdisjoint : ∀ s a, B s a → ¬ H s a) {s u : σ} (as : List α)
    (hu : exec step s as = some u) :
    (¬ J s → (¬ J u ↔ Repaired step B H s as)) ∧
      (J s → (¬ J u ↔ Sometime step H s as ∧ Repaired step B H s as)) := by
  induction as generalizing s with
  | nil =>
    cases hu
    exact ⟨fun hs => iff_of_true hs trivial, fun hs => iff_of_false (not_not.mpr hs) (fun h => h.1)⟩
  | cons a as ih =>
    obtain ⟨t, ht, hu⟩ := Option.bind_eq_some_iff.mp hu
    obtain ⟨ihgood, ihbad⟩ := ih hu
    have hrepaired : Repaired step B H s (a :: as) ↔
        (B s a → Sometime step H t as) ∧ Repaired step B H t as := by
      refine ⟨fun h => h t ht, fun h t' ht' => ?_⟩
      cases ht.symm.trans ht'
      exact h
    have hsometime : Sometime step H s (a :: as) ↔ H s a ∨ Sometime step H t as := by
      refine ⟨fun ⟨t', ht', h⟩ => ?_, fun h => ⟨t, ht, h⟩⟩
      cases ht.symm.trans ht'
      exact h
    rw [hrepaired, hsometime]
    refine ⟨fun hs => ?_, fun hs => ?_⟩
    · by_cases hb : B s a
      · rw [ihbad ((hgood s a t hs ht).mpr hb), forall_prop_of_true hb]
      · rw [ihgood (mt (hgood s a t hs ht).mp hb), forall_prop_of_false hb, true_and]
    · by_cases hh : H s a
      · have hb : ¬ B s a := fun hb => hdisjoint s a hb hh
        rw [ihgood (fun hbad' => (hbad s a t hs ht).mp hbad' hh), forall_prop_of_false hb]
        simp [hh]
      · rw [ihbad ((hbad s a t hs ht).mpr hh)]
        simp only [hh, false_or]
        exact ⟨fun h => ⟨h.1, fun _ => h.1, h.2⟩, fun h => ⟨h.1, h.2.2⟩⟩

/-- The machine that also counts the steps with `B`. -/
def counting (step : σ → α → Option σ) (B : σ → α → Prop) [∀ s a, Decidable (B s a)]
    (s : σ × ℕ) (a : α) : Option (σ × ℕ) :=
  (step s.1 a).map fun t => (t, if B s.1 a then s.2 + 1 else s.2)

theorem counting_eq_some {B : σ → α → Prop} [∀ s a, Decidable (B s a)] {s t : σ} {a : α} {k n : ℕ} :
    counting step B (s, k) a = some (t, n) ↔
      step s a = some t ∧ n = if B s a then k + 1 else k := by
  rw [counting, Option.map_eq_some_iff]
  constructor
  · rintro ⟨u, hu, heq⟩
    cases heq
    exact ⟨hu, rfl⟩
  · rintro ⟨ht, rfl⟩
    exact ⟨t, ht, rfl⟩

/-- The machine with a clock, whose actions carry times that do not go back. -/
def clocked {τ : Type*} [LE τ] [DecidableLE τ] (step : σ → α → Option σ) (time : α → τ) (s : σ × τ)
    (a : α) : Option (σ × τ) :=
  if s.2 ≤ time a then (step s.1 a).map fun t => (t, time a) else none

theorem clocked_eq_some {τ : Type*} [LE τ] [DecidableLE τ] {time : α → τ} {s t : σ} {a : α} {c d : τ} :
    clocked step time (s, c) a = some (t, d) ↔ c ≤ time a ∧ step s a = some t ∧ d = time a := by
  rw [clocked, Option.ite_none_right_eq_some, Option.map_eq_some_iff]
  apply and_congr_right
  intro _
  constructor
  · rintro ⟨u, hu, heq⟩
    cases heq
    exact ⟨hu, rfl⟩
  · rintro ⟨ht, rfl⟩
    exact ⟨t, ht, rfl⟩

instance decidableAlong {P : σ → α → σ → Prop} [∀ s a t, Decidable (P s a t)] :
    ∀ (s : σ) (as : List α), Decidable (Along step P s as)
  | _, [] => isTrue trivial
  | s, a :: as =>
    match h : step s a with
    | none => isTrue (fun t ht => by rw [h] at ht; cases ht)
    | some t =>
      have : Decidable (Along step P t as) := decidableAlong t as
      decidable_of_iff (P s a t ∧ Along step P t as)
        ⟨fun hr u hu => by rw [h] at hu; cases hu; exact hr, fun hr => hr t h⟩

instance {Q : σ → Prop} [DecidablePred Q] (s : σ) (as : List α) : Decidable (Always step Q s as) :=
  inferInstanceAs (Decidable (_ ∧ _))

end Machine
