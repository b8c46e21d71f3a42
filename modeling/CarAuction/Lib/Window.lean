import Mathlib.Algebra.Order.Group.Defs
import Mathlib.Algebra.Order.Sub.Basic
import Mathlib.Data.List.Basic

/- Sliding windows over a list of times. `recent width t times` are the times after
   `t - width`, what a limiter that prunes its list at `t` keeps; `window width t
   times` are those of the window that ends at `t`. `Capped width n times` says that
   no window, wherever it ends, has more than `n` of them. When the times do not
   decrease it is enough to look at the windows that end at one of them:
   `capped_concat_iff` is the step of that induction. -/
namespace Window

variable {α : Type*} [AddCommGroup α] [LinearOrder α] {width s t x : α}
  {times : List α} {n : ℕ}

/-- The times after `t - width`. -/
def recent (width t : α) (times : List α) : List α := times.filter fun x => t - width < x

/-- The times in the window of that width that ends at `t`. -/
def window (width t : α) (times : List α) : List α :=
  times.filter fun x => t - width < x ∧ x ≤ t

/-- No window has more than `n` of the times. -/
def Capped (width : α) (n : ℕ) (times : List α) : Prop :=
  ∀ t, (window width t times).length ≤ n

@[simp] theorem mem_recent : x ∈ recent width t times ↔ x ∈ times ∧ t - width < x := by
  simp [recent]

@[simp] theorem recent_append (l : List α) :
    recent width t (times ++ l) = recent width t times ++ recent width t l := List.filter_append _ _

theorem window_eq_recent (h : ∀ x ∈ times, x ≤ t) : window width t times = recent width t times := by
  apply List.filter_congr
  intro x hx
  simp [h x hx]

theorem capped_nil : Capped width n [] := fun _ => Nat.zero_le n

variable [IsOrderedAddMonoid α]

/-- What an earlier cut has dropped a later one drops anyway. -/
theorem recent_recent (h : s ≤ t) : recent width t (recent width s times) = recent width t times := by
  rw [recent, recent, List.filter_filter]
  apply List.filter_congr
  intro x _
  have hcut : s - width ≤ t - width := sub_le_sub_right h width
  simpa using hcut.trans_lt

/-- Nothing is recent once the width has passed. -/
theorem recent_eq_nil (h : ∀ x ∈ times, x + width ≤ t) : recent width t times = [] := by
  rw [recent, List.filter_eq_nil_iff]
  intro x hx
  simpa using le_sub_iff_add_le.mpr (h x hx)

/-- A window that ends later has no more of the times than the one at the last of them. -/
theorem window_length_le (h : s ≤ t) :
    (window width t times).length ≤ (recent width s times).length := by
  apply List.Sublist.length_le
  apply List.monotone_filter_right
  intro x hx
  have hcut : s - width ≤ t - width := sub_le_sub_right h width
  simp only [decide_eq_true_eq] at hx ⊢
  exact hcut.trans_lt hx.1

/-- One more time, no earlier than the others, is within the cap exactly when its own window has
    room for it. -/
theorem capped_concat_iff (hwidth : 0 < width) (h : Capped width n times) (hle : ∀ x ∈ times, x ≤ s) :
    Capped width n (times ++ [s]) ↔ (recent width s times).length < n := by
  have hown : s - width < s := sub_lt_self s hwidth
  refine ⟨fun hcapped => ?_, fun hroom t => ?_⟩
  · have hwindow := hcapped s
    rw [window, List.filter_append, List.filter_cons_of_pos (by simpa using hown)] at hwindow
    have hone : (window width s times).length + 1 ≤ n := by simpa [window] using hwindow
    rw [← window_eq_recent hle]
    exact Nat.lt_of_succ_le hone
  · rw [window, List.filter_append, List.length_append]
    by_cases hst : s ≤ t
    · have hbefore : (window width t times).length ≤ (recent width s times).length :=
        window_length_le hst
      have hlast := List.length_filter_le (fun x => decide (t - width < x ∧ x ≤ t)) [s]
      simp only [List.length_singleton, window] at hlast hbefore
      omega
    · rw [List.filter_cons_of_neg (by simp [hst])]
      exact h t

end Window
