import Mathlib.Data.List.Nodup
import Mathlib.Data.List.Infix
import Mathlib.Algebra.Order.Ring.Int

/- Tables with a serial primary key and unique columns. The id of a row is the next
   number of a sequence that only goes forward, and that goes forward too when the
   insertion is then refused; no two rows agree in a unique column. Both laws are
   fields of the table, so every table has them.

   `Extends` is what a later table owes an earlier one: the rows are kept where they
   are. A row found by its id or in a unique column is found there ever after. -/
namespace SerialTable

variable {ρ κ : Type*} {columns : List (ρ → κ)}

structure Table (columns : List (ρ → κ)) where
  rows : List (ℤ × ρ)
  nextId : ℤ
  increasing : (rows.map Prod.fst).Pairwise (· < ·)
  below : ∀ r ∈ rows, r.1 < nextId
  unique : ∀ column ∈ columns, (rows.map fun r => column r.2).Nodup

inductive InsertError where
  | uniqueViolation
  | sequenceExhausted
  deriving DecidableEq

/-- A search by a key that tells the elements apart. -/
theorem find_key {α κ : Type*} [DecidableEq κ] {l : List α} {r : α} {k : κ} (key : α → κ)
    (hkey : ∀ a ∈ l, ∀ b ∈ l, key a = key b → a = b) :
    l.find? (fun a => key a = k) = some r ↔ r ∈ l ∧ key r = k := by
  constructor
  · intro h
    have hfound := List.find?_some h
    exact ⟨List.mem_of_find?_eq_some h, of_decide_eq_true hfound⟩
  · rintro ⟨hr, rfl⟩
    cases hfound : l.find? (fun a => key a = key r) with
    | none =>
      have hnone := List.find?_eq_none.mp hfound r hr
      exact absurd (decide_eq_true rfl) hnone
    | some a =>
      have ha := List.find?_some hfound
      rw [hkey a (List.mem_of_find?_eq_some hfound) r hr (of_decide_eq_true ha)]

namespace Table

variable {t t' t'' : Table columns} {row : ρ} {r r' : ℤ × ρ} {column : ρ → κ} {k : κ} {id last : ℤ}

/-- The table after its sequence has been drawn from in vain. -/
def advance (t : Table columns) : Table columns :=
  { t with
    nextId := t.nextId + 1
    below := fun r hr => (t.below r hr).trans (Int.lt_succ t.nextId) }

theorem increasing_concat (t : Table columns) (row : ρ) :
    ((t.rows ++ [(t.nextId, row)]).map Prod.fst).Pairwise (· < ·) := by
  rw [List.map_append, List.pairwise_append]
  refine ⟨t.increasing, List.pairwise_singleton _ _, ?_⟩
  intro i hi j hj
  obtain ⟨r, hr, rfl⟩ := List.mem_map.mp hi
  rw [List.mem_singleton.mp hj]
  exact t.below r hr

theorem below_concat (t : Table columns) (row : ρ) :
    ∀ r ∈ t.rows ++ [(t.nextId, row)], r.1 < t.nextId + 1 := by
  intro r hr
  rcases List.mem_append.mp hr with hr | hr
  · exact (t.below r hr).trans (Int.lt_succ t.nextId)
  · rw [List.mem_singleton.mp hr]
    exact Int.lt_succ t.nextId

/-! A row is known by its id, and by its value in a unique column. -/

theorem eq_of_id (hr : r ∈ t.rows) (hr' : r' ∈ t.rows) (h : r.1 = r'.1) : r = r' := by
  have hnodup : (t.rows.map Prod.fst).Nodup := t.increasing.imp ne_of_lt
  exact List.inj_on_of_nodup_map hnodup hr hr' h

theorem eq_of_unique (hcolumn : column ∈ columns) (hr : r ∈ t.rows) (hr' : r' ∈ t.rows)
    (h : column r.2 = column r'.2) : r = r' :=
  List.inj_on_of_nodup_map (t.unique column hcolumn) hr hr' h

/-- The rows of an earlier table are those a later one begins with. -/
structure Extends (t t' : Table columns) : Prop where
  rows : t.rows <+: t'.rows
  nextId : t.nextId ≤ t'.nextId

@[refl] theorem Extends.refl (t : Table columns) : Extends t t := ⟨List.prefix_rfl, le_rfl⟩

theorem Extends.trans (h : Extends t t') (h' : Extends t' t'') : Extends t t'' :=
  ⟨h.rows.trans h'.rows, h.nextId.trans h'.nextId⟩

theorem Extends.mem (h : Extends t t') (hr : r ∈ t.rows) : r ∈ t'.rows := h.rows.subset hr

def findId (id : ℤ) (t : Table columns) : Option (ℤ × ρ) := t.rows.find? fun r => r.1 = id

theorem findId_eq_some : t.findId id = some r ↔ r ∈ t.rows ∧ r.1 = id :=
  find_key Prod.fst fun _ hr _ hr' h => eq_of_id hr hr' h

/-- What is found by its id is found there ever after. -/
theorem Extends.findId (h : Extends t t') (hr : t.findId id = some r) : t'.findId id = some r :=
  findId_eq_some.mpr ⟨h.mem (findId_eq_some.mp hr).1, (findId_eq_some.mp hr).2⟩

variable [DecidableEq κ]

/-- No row has a value of this one in a unique column. -/
def free (t : Table columns) (row : ρ) : Bool :=
  columns.all fun column => t.rows.all fun r => column r.2 ≠ column row

theorem free_iff : t.free row = true ↔ ∀ column ∈ columns, ∀ r ∈ t.rows, column r.2 ≠ column row := by
  simp [free]

theorem unique_concat (h : t.free row = true) :
    ∀ column ∈ columns, ((t.rows ++ [(t.nextId, row)]).map fun r => column r.2).Nodup := by
  intro column hcolumn
  rw [List.map_append, List.nodup_append]
  refine ⟨t.unique column hcolumn, List.nodup_singleton _, ?_⟩
  intro x hx y hy
  obtain ⟨r, hr, rfl⟩ := List.mem_map.mp hx
  rw [List.mem_singleton.mp hy]
  exact free_iff.mp h column hcolumn r hr

def push (t : Table columns) (row : ρ) (h : t.free row = true) : Table columns where
  rows := t.rows ++ [(t.nextId, row)]
  nextId := t.nextId + 1
  increasing := t.increasing_concat row
  below := t.below_concat row
  unique := unique_concat h

/-- `INSERT ... RETURNING`, where `last` is the last number of the sequence. -/
def insert (last : ℤ) (row : ρ) (t : Table columns) : Table columns × Except InsertError (ℤ × ρ) :=
  if last < t.nextId then (t, .error .sequenceExhausted)
  else if h : t.free row = true then (t.push row h, .ok (t.nextId, row))
  else (t.advance, .error .uniqueViolation)

/-- The row with that value in a unique column. -/
def findUnique (column : ρ → κ) (k : κ) (t : Table columns) : Option (ℤ × ρ) :=
  t.rows.find? fun r => column r.2 = k

theorem findUnique_eq_some (hcolumn : column ∈ columns) :
    t.findUnique column k = some r ↔ r ∈ t.rows ∧ column r.2 = k :=
  find_key (fun r : ℤ × ρ => column r.2) fun _ hr _ hr' h => eq_of_unique hcolumn hr hr' h

/-! What an insertion does. -/

theorem insert_eq_ok (h : t.insert last row = (t', .ok r)) :
    r = (t.nextId, row) ∧ t'.rows = t.rows ++ [r] ∧ t'.nextId = t.nextId + 1 ∧ t.free row = true := by
  unfold insert at h
  split at h
  · cases h
  · split at h
    · next hfree => cases h; exact ⟨rfl, rfl, rfl, hfree⟩
    · cases h

theorem insert_eq_error {e : InsertError} (h : t.insert last row = (t', .error e)) :
    t'.rows = t.rows ∧ t.nextId ≤ t'.nextId ∧ (e = .uniqueViolation → t.free row = false) := by
  unfold insert at h
  split at h
  · cases h
    exact ⟨rfl, le_rfl, fun he => by cases he⟩
  · split at h
    · cases h
    · next hfree =>
      cases h
      exact ⟨rfl, (Int.lt_succ t.nextId).le, fun _ => Bool.eq_false_iff.mpr hfree⟩

theorem insert_extends (last : ℤ) (row : ρ) (t : Table columns) : Extends t (t.insert last row).1 := by
  unfold insert
  split
  · rfl
  · split
    · exact ⟨List.prefix_append _ _, (Int.lt_succ t.nextId).le⟩
    · exact ⟨List.prefix_rfl, (Int.lt_succ t.nextId).le⟩

end Table

end SerialTable
