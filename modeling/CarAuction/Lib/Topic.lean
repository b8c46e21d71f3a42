import Mathlib.Data.Int.Notation
import Mathlib.Data.List.Basic
import Mathlib.Logic.Function.Basic

/- Topics of a log broker. A topic has `n` partitions, each of which keeps its
   messages in the order they arrived; a message names its partition, and one for a
   partition that does not exist is not stored. A consumer takes the first message
   of any partition. `Ordered` says that a partition's messages are consumed in the
   order they were sent; `kept_iff` that a drained topic has lost nothing exactly
   when every message named a partition that exists, and then keeps the order of any
   key that determines the partition. -/
namespace Topic

variable {μ κ : Type*}

/-- The messages sent, those stored and not consumed yet, and those consumed, in order. -/
structure State (μ : Type*) where
  sent : List μ
  queue : ℤ → List μ
  consumed : List μ

def empty : State μ := ⟨[], fun _ => [], []⟩

/-- The message names a partition that exists. -/
def Stored (n : ℕ) (partition : μ → ℤ) (m : μ) : Prop := 0 ≤ partition m ∧ partition m < n

instance {n : ℕ} {partition : μ → ℤ} {m : μ} : Decidable (Stored n partition m) :=
  inferInstanceAs (Decidable (_ ∧ _))

def send (n : ℕ) (partition : μ → ℤ) (s : State μ) (m : μ) : State μ where
  sent := s.sent ++ [m]
  queue := if Stored n partition m then
      Function.update s.queue (partition m) (s.queue (partition m) ++ [m])
    else s.queue
  consumed := s.consumed

def receive (s : State μ) (p : ℤ) : Option (μ × State μ) :=
  match s.queue p with
  | [] => none
  | m :: rest => some (m, ⟨s.sent, Function.update s.queue p rest, s.consumed ++ [m]⟩)

variable {n : ℕ} {partition : μ → ℤ} {s t : State μ} {m : μ} {p : ℤ}

/-- A partition holds its own messages, and hands them on in the order they were sent. -/
structure Ordered (n : ℕ) (partition : μ → ℤ) (s : State μ) : Prop where
  own : ∀ p, ∀ m ∈ s.queue p, partition m = p
  order : ∀ p, s.consumed.filter (partition · = p) ++ s.queue p =
    s.sent.filter (fun m => partition m = p ∧ Stored n partition m)

theorem receive_eq_some (h : receive s p = some (m, t)) :
    ∃ rest, s.queue p = m :: rest ∧
      t = ⟨s.sent, Function.update s.queue p rest, s.consumed ++ [m]⟩ := by
  unfold receive at h
  split at h
  · cases h
  · next m' rest hq => cases h; exact ⟨rest, hq, rfl⟩

theorem ordered_empty : Ordered n partition empty where
  own := fun _ _ hm => nomatch hm
  order := fun _ => rfl

theorem ordered_send (h : Ordered n partition s) (m : μ) :
    Ordered n partition (send n partition s m) := by
  by_cases hm : Stored n partition m
  · refine ⟨fun p m' hm' => ?_, fun p => ?_⟩
    · by_cases hp : p = partition m
      · subst hp
        simp only [send, if_pos hm, Function.update_self] at hm'
        rcases List.mem_append.mp hm' with hm' | hm'
        · exact h.own _ m' hm'
        · rw [List.mem_singleton.mp hm']
      · simp only [send, if_pos hm, Function.update_of_ne hp] at hm'
        exact h.own p m' hm'
    · by_cases hp : p = partition m
      · subst hp
        simp [send, hm, ← List.append_assoc, h.order]
      · simp [send, hm, Function.update_of_ne hp, Ne.symm hp, h.order]
  · refine ⟨fun p m' hm' => ?_, fun p => ?_⟩
    · simp only [send, if_neg hm] at hm'
      exact h.own p m' hm'
    · simp [send, hm, h.order]

theorem ordered_receive (h : Ordered n partition s) (hr : receive s p = some (m, t)) :
    Ordered n partition t := by
  obtain ⟨rest, hq, rfl⟩ := receive_eq_some hr
  have hm : partition m = p := h.own p m (by rw [hq]; exact List.mem_cons_self)
  refine ⟨fun p' m' hm' => ?_, fun p' => ?_⟩
  · by_cases hp : p' = p
    · subst hp
      simp only [Function.update_self] at hm'
      exact h.own p' m' (by rw [hq]; exact List.mem_cons_of_mem m hm')
    · simp only [Function.update_of_ne hp] at hm'
      exact h.own p' m' hm'
  · by_cases hp : p' = p
    · subst hp
      rw [← h.order p', hq]
      simp [hm]
    · rw [← h.order p']
      simp [Function.update_of_ne hp, hm, Ne.symm hp]

/-- A drained topic has handed on, in order, what each partition stored. -/
theorem consumed_of_drained (h : Ordered n partition s) (hdrained : ∀ p, s.queue p = []) (p : ℤ) :
    s.consumed.filter (partition · = p) =
      s.sent.filter (fun m => partition m = p ∧ Stored n partition m) := by
  have horder := h.order p
  rwa [hdrained, List.append_nil] at horder

/-- A drained topic has handed on all messages, in order for each key, exactly when every message
    named a partition that exists. -/
theorem kept_iff [DecidableEq κ] (key : μ → κ) (route : κ → ℤ) (h : Ordered n partition s)
    (hroute : ∀ m, partition m = route (key m)) (hdrained : ∀ p, s.queue p = []) :
    (∀ k, s.consumed.filter (key · = k) = s.sent.filter (key · = k)) ↔
      ∀ m ∈ s.sent, Stored n partition m := by
  -- a key's messages are those of one partition
  have hkey : ∀ k, s.consumed.filter (key · = k) =
      s.sent.filter (fun m => key m = k ∧ Stored n partition m) := by
    intro k
    have hpart := congrArg (List.filter (key · = k)) (consumed_of_drained h hdrained (route k))
    rw [List.filter_filter, List.filter_filter] at hpart
    calc s.consumed.filter (key · = k)
        = s.consumed.filter (fun m => decide (key m = k) && decide (partition m = route k)) := by
          apply List.filter_congr
          intro m _
          by_cases hk : key m = k <;> simp [hk, hroute]
      _ = s.sent.filter (fun m => decide (key m = k) &&
            decide (partition m = route k ∧ Stored n partition m)) := hpart
      _ = s.sent.filter (fun m => key m = k ∧ Stored n partition m) := by
          apply List.filter_congr
          intro m _
          by_cases hk : key m = k <;> simp [hk, hroute]
  refine ⟨fun hall m hm => ?_, fun hall k => ?_⟩
  · have hmem : m ∈ s.sent.filter (key · = key m) := by simp [hm]
    rw [← hall, hkey] at hmem
    simpa [hm] using hmem
  · rw [hkey]
    apply List.filter_congr
    intro m hm
    simp [hall m hm]

end Topic
