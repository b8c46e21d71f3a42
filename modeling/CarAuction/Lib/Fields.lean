import Mathlib.Data.List.Basic
import Mathlib.Data.Nat.Notation

/- Texts made of fields with a separator between them. A text whose fields are free
   of the separator has those fields only (`intercalate_inj`), and a map of its
   characters maps the fields (`map_intercalate`). `gapped` fields are two groups of
   fields with one blank between them, and a blank for a group that is empty: what
   the compressed notations of number sequences look like; `gapped_inj` reads the
   two groups back. `head_inj` and `last_inj` read back what is before the first
   separator and after the last one.

   The fields of the numeric notations are numerals, `Nat.toDigits`: injective in
   every base up to sixteen, and made of digits only. -/
namespace Fields

variable {α β : Type*}

section Separator

variable {c : α} {fs gs : List (List α)} {x y xs ys : List α}

/-- The fields of a text, when none of them has the separator. -/
theorem intercalate_inj [DecidableEq α] (hf : ∀ f ∈ fs, c ∉ f) (hg : ∀ g ∈ gs, c ∉ g)
    (hfs : fs ≠ []) (hgs : gs ≠ []) (h : [c].intercalate fs = [c].intercalate gs) : fs = gs :=
  calc fs = ([c].intercalate fs).splitOn c := (List.splitOn_intercalate c hf hfs).symm
    _ = ([c].intercalate gs).splitOn c := by rw [h]
    _ = gs := List.splitOn_intercalate c hg hgs

theorem map_intercalate (f : α → β) (c : α) (fs : List (List α)) :
    ([c].intercalate fs).map f = [f c].intercalate (fs.map (List.map f)) := by
  induction fs with
  | nil => rfl
  | cons x fs ih =>
    cases fs with
    | nil => simp
    | cons y fs => simpa using ih

theorem mem_of_mem_intercalate {a : α} (h : a ∈ [c].intercalate fs) : a = c ∨ ∃ f ∈ fs, a ∈ f := by
  induction fs with
  | nil => cases h
  | cons x fs ih =>
    cases fs with
    | nil => exact .inr ⟨x, List.mem_cons_self, by simpa using h⟩
    | cons y fs =>
      rw [List.intercalate_cons_cons, List.mem_append, List.mem_append, List.mem_singleton] at h
      rcases h with (hx | hc) | hrest
      · exact .inr ⟨x, List.mem_cons_self, hx⟩
      · exact .inl hc
      · rcases ih hrest with hc | ⟨f, hf, ha⟩
        · exact .inl hc
        · exact .inr ⟨f, List.mem_cons_of_mem x hf, ha⟩

theorem mem_intercalate (h : 2 ≤ fs.length) : c ∈ [c].intercalate fs := by
  match fs, h with
  | x :: y :: fs, _ => simp

/-- What is before the first separator. -/
theorem head_inj (hx : c ∉ x) (hy : c ∉ y) (h : x ++ c :: xs = y ++ c :: ys) : x = y ∧ xs = ys := by
  rcases List.append_eq_append_iff.mp h with ⟨as, hyx, hcs⟩ | ⟨as, hxy, hcs⟩
  · cases as with
    | nil => exact ⟨by simpa using hyx.symm, by simpa using hcs⟩
    | cons a as =>
      obtain ⟨rfl, -⟩ := List.cons.inj hcs
      exact absurd (by simp [hyx]) hy
  · cases as with
    | nil => exact ⟨by simpa using hxy, by simpa using hcs.symm⟩
    | cons a as =>
      obtain ⟨rfl, -⟩ := List.cons.inj hcs
      exact absurd (by simp [hxy]) hx

/-- What is after the last separator. -/
theorem last_inj (hxs : c ∉ xs) (hys : c ∉ ys) (h : x ++ c :: xs = y ++ c :: ys) :
    x = y ∧ xs = ys := by
  have hreverse := congrArg List.reverse h
  simp only [List.reverse_append, List.reverse_cons, List.append_assoc, List.singleton_append]
    at hreverse
  obtain ⟨hlast, hrest⟩ := head_inj (by simpa using hxs) (by simpa using hys) hreverse
  exact ⟨List.reverse_injective hrest, List.reverse_injective hlast⟩

end Separator

section Gap

variable {blank : α} {pre post pre' post' : List α}

/-- The fields of one side of a gap: the blank stands for none. -/
def side (blank : α) : List α → List α
  | [] => [blank]
  | l => l

def gapped (blank : α) (pre post : List α) : List α := side blank pre ++ blank :: side blank post

theorem side_ne_nil (blank : α) (l : List α) : side blank l ≠ [] := by
  cases l with
  | nil => exact List.cons_ne_nil blank []
  | cons a l => exact List.cons_ne_nil a l

theorem two_le_length_gapped (blank : α) (pre post : List α) :
    2 ≤ (gapped blank pre post).length := by
  have hpre := List.length_pos_iff.mpr (side_ne_nil blank pre)
  rw [gapped, List.length_append, List.length_cons]
  omega

theorem side_inj {l l' : List α} (hl : blank ∉ l) (hl' : blank ∉ l')
    (h : side blank l = side blank l') : l = l' := by
  cases l with
  | nil =>
    cases l' with
    | nil => rfl
    | cons a l' => exact absurd (by rw [← show [blank] = a :: l' from h]; simp) hl'
  | cons a l =>
    cases l' with
    | nil => exact absurd (by rw [show a :: l = [blank] from h]; simp) hl
    | cons a' l' => exact h

/-- The two sides of a gap. -/
theorem gapped_inj (hpre : blank ∉ pre) (hpost : blank ∉ post) (hpre' : blank ∉ pre')
    (hpost' : blank ∉ post') (h : gapped blank pre post = gapped blank pre' post') :
    pre = pre' ∧ post = post' := by
  cases pre with
  | nil =>
    cases pre' with
    | nil =>
      simp only [gapped, side, List.cons_append, List.nil_append, List.cons.injEq, true_and] at h
      exact ⟨rfl, side_inj hpost hpost' h⟩
    | cons a pre' =>
      obtain ⟨rfl, -⟩ := List.cons.inj h
      exact absurd List.mem_cons_self hpre'
  | cons a pre =>
    cases pre' with
    | nil =>
      obtain ⟨rfl, -⟩ := List.cons.inj h
      exact absurd List.mem_cons_self hpre
    | cons a' pre' =>
      obtain ⟨hfirst, hrest⟩ := head_inj hpre hpre' h
      exact ⟨hfirst, side_inj hpost hpost' hrest⟩

end Gap

section Numerals

variable {b m n : ℕ} {c : Char}

theorem mem_toDigits (hb : 1 < b) (h : c ∈ Nat.toDigits b n) : ∃ d < b, c = d.digitChar := by
  induction n using Nat.strongRecOn with
  | ind n ih =>
    rw [Nat.toDigits_eq_if hb] at h
    split at h
    · next hn => exact ⟨n, hn, List.mem_singleton.mp h⟩
    · next hn =>
      rcases List.mem_append.mp h with hfirst | hlast
      · have hless : n / b < n := Nat.div_lt_self (by omega) hb
        exact ih (n / b) hless hfirst
      · exact ⟨n % b, Nat.mod_lt n (by omega), List.mem_singleton.mp hlast⟩

theorem digitChar_inj (hm : m < 16) (hn : n < 16) (h : m.digitChar = n.digitChar) : m = n := by
  have hall : ∀ i < 16, ∀ j < 16, i.digitChar = j.digitChar → i = j := by decide
  exact hall m hm n hn h

/-- A number that is no digit has more than one. -/
theorem toDigits_ne_singleton (hb : 1 < b) (hn : b ≤ n) : Nat.toDigits b n ≠ [c] := by
  intro h
  rw [Nat.toDigits_of_base_le hb hn, List.append_eq_singleton_iff] at h
  rcases h with ⟨hnil, -⟩ | ⟨-, hnil⟩
  · exact Nat.toDigits_ne_nil hnil
  · cases hnil

theorem toDigits_inj (hb : 1 < b) (hb16 : b ≤ 16) (h : Nat.toDigits b m = Nat.toDigits b n) :
    m = n := by
  induction m using Nat.strongRecOn generalizing n with
  | ind m ih =>
    by_cases hm : m < b
    · by_cases hn : n < b
      · rw [Nat.toDigits_of_lt_base hm, Nat.toDigits_of_lt_base hn] at h
        exact digitChar_inj (by omega) (by omega) (List.singleton_inj.mp h)
      · rw [Nat.toDigits_of_lt_base hm] at h
        exact absurd h.symm (toDigits_ne_singleton hb (Nat.le_of_not_lt hn))
    · by_cases hn : n < b
      · rw [Nat.toDigits_of_lt_base hn] at h
        exact absurd h (toDigits_ne_singleton hb (Nat.le_of_not_lt hm))
      · rw [Nat.toDigits_of_base_le hb (Nat.le_of_not_lt hm),
          Nat.toDigits_of_base_le hb (Nat.le_of_not_lt hn)] at h
        obtain ⟨hfirst, hlast⟩ := List.append_inj' h rfl
        have hdiv : m / b = n / b := ih (m / b) (Nat.div_lt_self (by omega) hb) hfirst
        have hm16 : m % b < 16 := Nat.lt_of_lt_of_le (Nat.mod_lt m (by omega)) hb16
        have hn16 : n % b < 16 := Nat.lt_of_lt_of_le (Nat.mod_lt n (by omega)) hb16
        have hmod : m % b = n % b := digitChar_inj hm16 hn16 (List.singleton_inj.mp hlast)
        calc m = b * (m / b) + m % b := (Nat.div_add_mod m b).symm
          _ = b * (n / b) + n % b := by rw [hdiv, hmod]
          _ = n := Nat.div_add_mod n b

end Numerals

end Fields
