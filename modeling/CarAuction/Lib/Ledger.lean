import Mathlib.Order.Lattice
import Mathlib.Data.List.Basic

/- Ledgers: lists of entries in the order they were committed, compared by a key.
   `Ascending floor l` says that the keys increase strictly and start above
   `floor`; `high floor l` is the key of the last entry. In an ascending ledger
   the last entry is the only one with the largest key, so any query for a top
   entry finds exactly it (`Ascending.top_iff`). -/
namespace Ledger

variable {β κ : Type*} {key : β → κ} {floor : κ} {l : List β} {b c : β}

/-- The key of the last entry, `floor` when there is none. -/
def high (key : β → κ) (floor : κ) (l : List β) : κ := (l.getLast?.map key).getD floor

@[simp] theorem high_concat : high key floor (l ++ [b]) = key b := by simp [high]

variable [LinearOrder κ]

/-- The keys increase strictly and start above `floor`. -/
def Ascending (key : β → κ) (floor : κ) (l : List β) : Prop :=
  l.Pairwise (fun b c => key b < key c) ∧ ∀ b ∈ l, floor < key b

/-- `b` is an entry with the largest key: what a query ordered by descending key may return
    first. -/
def Top (key : β → κ) (l : List β) (b : β) : Prop := b ∈ l ∧ ∀ c ∈ l, key c ≤ key b

instance [DecidableEq β] : Decidable (Top key l b) := inferInstanceAs (Decidable (_ ∧ _))

theorem ascending_nil : Ascending key floor [] := ⟨List.Pairwise.nil, by simp⟩

namespace Ascending

theorem le_high (h : Ascending key floor l) (hc : c ∈ l) : key c ≤ high key floor l := by
  obtain ⟨hp, -⟩ := h
  rcases l.eq_nil_or_concat' with rfl | ⟨init, b, rfl⟩
  · cases hc
  · rw [List.pairwise_append] at hp
    rw [high_concat]
    rcases List.mem_append.mp hc with hi | hb
    · exact (hp.2.2 c hi b (by simp)).le
    · rw [List.mem_singleton.mp hb]

theorem floor_le_high (h : Ascending key floor l) : floor ≤ high key floor l := by
  rcases l.eq_nil_or_concat' with rfl | ⟨init, b, rfl⟩
  · exact le_rfl
  · rw [high_concat]; exact (h.2 b (by simp)).le

/-- An entry above the last one keeps the ledger ascending. -/
theorem concat (h : Ascending key floor l) (hb : high key floor l < key b) :
    Ascending key floor (l ++ [b]) := by
  refine ⟨List.pairwise_append.mpr ⟨h.1, List.pairwise_singleton _ _, ?_⟩, ?_⟩
  · intro c hc d hd
    rw [List.mem_singleton.mp hd]
    exact (h.le_high hc).trans_lt hb
  · intro c hc
    rcases List.mem_append.mp hc with hc | hc
    · exact h.2 c hc
    · rw [List.mem_singleton.mp hc]
      exact h.floor_le_high.trans_lt hb

/-- The last entry of an ascending ledger is its only top entry. -/
theorem top_iff (h : Ascending key floor l) : Top key l b ↔ l.getLast? = some b := by
  obtain ⟨hp, -⟩ := id h
  rcases l.eq_nil_or_concat' with rfl | ⟨init, d, rfl⟩
  · simp [Top]
  · rw [List.pairwise_append] at hp
    have hlast : ∀ c ∈ init, key c < key d := fun c hc => hp.2.2 c hc d (by simp)
    rw [List.getLast?_concat, Option.some.injEq]
    constructor
    · rintro ⟨hmem, htop⟩
      rcases List.mem_append.mp hmem with hi | hb
      · exact absurd (htop d (by simp)) (not_le.mpr (hlast b hi))
      · exact (List.mem_singleton.mp hb).symm
    · rintro rfl
      refine ⟨by simp, fun c hc => ?_⟩
      have := h.le_high hc
      rwa [high_concat] at this

end Ascending

theorem top_singleton : Top key [b] b := ⟨by simp, by simp⟩

theorem exists_top (key : β → κ) (h : l ≠ []) : ∃ b, Top key l b := by
  induction l with
  | nil => exact absurd rfl h
  | cons c l ih =>
    by_cases hl : l = []
    · subst hl; exact ⟨c, top_singleton⟩
    · obtain ⟨b, hb⟩ := ih hl
      rcases le_total (key b) (key c) with hbc | hcb
      · refine ⟨c, by simp, fun d hd => ?_⟩
        rcases List.mem_cons.mp hd with rfl | hd
        · exact le_rfl
        · exact (hb.2 d hd).trans hbc
      · refine ⟨b, List.mem_cons_of_mem _ hb.1, fun d hd => ?_⟩
        rcases List.mem_cons.mp hd with rfl | hd
        · exact hcb
        · exact hb.2 d hd

end Ledger
