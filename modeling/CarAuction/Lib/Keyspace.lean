import Mathlib.Data.Finset.Card
import Mathlib.Logic.Function.Basic

/- A store of keys that each hold a string or a non-empty set. A command acts on the
   entry of one key, and a write to a set where a string is changes nothing; reads of
   the wrong type fail.

   `run_comp` says that commands see no more of the keys than which of them are
   equal: an injective naming of the keys carries a run of commands to the names.
   In a store that is `Kinded`, where each key holds entries of its own type, the
   strings and the sets are two tables that no command mixes up (`strings_multi`,
   `members_multi`), and no read fails. -/
namespace Keyspace

inductive Kind where
  | string
  | set
  deriving DecidableEq

inductive Entry (ν μ : Type*) where
  | string (value : ν)
  | set (members : Finset μ) (nonempty : members.Nonempty)

def Entry.kind {ν μ : Type*} : Entry ν μ → Kind
  | .string _ => .string
  | .set _ _ => .set

abbrev Store (κ ν μ : Type*) := κ → Option (Entry ν μ)

inductive Op (ν μ : Type*) where
  | set (value : ν)
  | del
  | sadd (member : μ)
  | srem (member : μ)

variable {κ κ' ν μ : Type*}

section Op

variable [DecidableEq μ] {op : Op ν μ} {e : Option (Entry ν μ)}

/-- What a command leaves of the entry of its key. -/
def Op.act : Op ν μ → Option (Entry ν μ) → Option (Entry ν μ)
  | .set v, _ => some (.string v)
  | .del, _ => none
  | .sadd m, none => some (.set {m} (Finset.singleton_nonempty m))
  | .sadd m, some (.set ms _) => some (.set (insert m ms) (Finset.insert_nonempty m ms))
  | .sadd _, some (.string v) => some (.string v)
  | .srem _, none => none
  | .srem m, some (.set ms _) =>
    -- a set without members is no key
    if h : (ms.erase m).Nonempty then some (.set (ms.erase m) h) else none
  | .srem _, some (.string v) => some (.string v)

/-- The string of an entry, and its members, if it has them. -/
def strings : Option (Entry ν μ) → Option ν
  | some (.string v) => some v
  | _ => none

def members : Option (Entry ν μ) → Finset μ
  | some (.set ms _) => ms
  | _ => ∅

def Op.onString : Op ν μ → Option ν → Option ν
  | .set v, _ => some v
  | .del, _ => none
  | .sadd _, o => o
  | .srem _, o => o

def Op.onMembers : Op ν μ → Finset μ → Finset μ
  | .set _, ms => ms
  | .del, ms => ms
  | .sadd m, ms => insert m ms
  | .srem m, ms => ms.erase m

/-- A key with entries of this type may be given the command. -/
def Op.fits : Op ν μ → Option Kind → Prop
  | .set _, kind => kind = some .string
  | .del, kind => kind = some .string
  | .sadd _, kind => kind = some .set
  | .srem _, kind => kind = some .set

theorem strings_act (op : Op ν μ) (e : Option (Entry ν μ)) :
    strings (op.act e) = op.onString (strings e) := by
  cases op with
  | set v => rfl
  | del => rfl
  | sadd m =>
    match e with
    | none => rfl
    | some (.string v) => rfl
    | some (.set ms h) => rfl
  | srem m =>
    match e with
    | none => rfl
    | some (.string v) => rfl
    | some (.set ms h) =>
      simp only [Op.act]
      split
      · rfl
      · rfl

variable {kind : Option Kind}

theorem members_act (hop : op.fits kind) (he : ∀ x ∈ e, kind = some x.kind) :
    members (op.act e) = op.onMembers (members e) := by
  match e with
  | none =>
    cases op with
    | set v => rfl
    | del => rfl
    | sadd m => rfl
    | srem m => rfl
  | some (.string v) =>
    cases op with
    | set v => rfl
    | del => rfl
    | sadd m => cases hop.symm.trans (he _ rfl)
    | srem m => rfl
  | some (.set ms h) =>
    cases op with
    | set v => cases hop.symm.trans (he _ rfl)
    | del => cases hop.symm.trans (he _ rfl)
    | sadd m => rfl
    | srem m =>
      simp only [Op.act]
      split
      · rfl
      · next hempty => exact (Finset.not_nonempty_iff_eq_empty.mp hempty).symm

theorem kind_act (hop : op.fits kind) (he : ∀ x ∈ e, kind = some x.kind) :
    ∀ x ∈ op.act e, kind = some x.kind := by
  intro x hx
  cases op with
  | set v => cases hx; exact hop
  | del => cases hx
  | sadd m =>
    match e with
    | none => cases hx; exact hop
    | some (.string v) => cases hx; exact he _ rfl
    | some (.set ms h) => cases hx; exact hop
  | srem m =>
    match e with
    | none => cases hx
    | some (.string v) => cases hx; exact he _ rfl
    | some (.set ms h) =>
      simp only [Op.act] at hx
      split at hx
      · cases hx; exact hop
      · cases hx

end Op

/-! Reads. -/

inductive WrongType where
  | wrongType
  deriving DecidableEq

def get (s : Store κ ν μ) (k : κ) : Except WrongType (Option ν) :=
  match s k with
  | none => .ok none
  | some (.string v) => .ok (some v)
  | some (.set _ _) => .error .wrongType

def smembers (s : Store κ ν μ) (k : κ) : Except WrongType (Finset μ) :=
  match s k with
  | none => .ok ∅
  | some (.set ms _) => .ok ms
  | some (.string _) => .error .wrongType

def scard (s : Store κ ν μ) (k : κ) : Except WrongType ℕ := (smembers s k).map Finset.card

/-- Every key has entries of its own type only. -/
def Kinded (kind : κ → Option Kind) (s : Store κ ν μ) : Prop :=
  ∀ k, ∀ e ∈ s k, kind k = some e.kind

variable {s : Store κ ν μ} {kind : κ → Option Kind} {k : κ}

theorem get_of_kind (hs : Kinded kind s) (hk : kind k = some .string) :
    get s k = .ok (strings (s k)) := by
  rw [get]
  match he : s k with
  | none => rfl
  | some (.string v) => rfl
  | some (.set ms h) => cases hk.symm.trans (hs k _ he)

theorem smembers_of_kind (hs : Kinded kind s) (hk : kind k = some .set) :
    smembers s k = .ok (members (s k)) := by
  rw [smembers]
  match he : s k with
  | none => rfl
  | some (.string v) => cases hk.symm.trans (hs k _ he)
  | some (.set ms h) => rfl

/-! Commands. -/

variable [DecidableEq κ] [DecidableEq κ'] {α : Type*}

/-- A command on a table that has what it acts on at each key. -/
def apply (act : Op ν μ → α → α) (t : κ → α) (c : κ × Op ν μ) : κ → α :=
  Function.update t c.1 (act c.2 (t c.1))

def run (act : Op ν μ → α → α) (t : κ → α) (cs : List (κ × Op ν μ)) : κ → α :=
  cs.foldl (apply act) t

variable {act : Op ν μ → α → α} {t : κ → α} {c : κ × Op ν μ} {cs : List (κ × Op ν μ)}

/-- The keys that no command names keep what they have. -/
theorem run_of_notMem (h : k ∉ cs.map Prod.fst) : run act t cs k = t k := by
  induction cs generalizing t with
  | nil => rfl
  | cons c cs ih =>
    rw [List.map_cons, List.mem_cons, not_or] at h
    calc run act t (c :: cs) k = apply act t c k := ih h.2
      _ = t k := Function.update_of_ne h.1 _ _

/-- A key that one command names has what that command leaves. -/
theorem run_of_mem {op : Op ν μ} (hnodup : (cs.map Prod.fst).Nodup) (h : (k, op) ∈ cs) :
    run act t cs k = act op (t k) := by
  induction cs generalizing t with
  | nil => cases h
  | cons c cs ih =>
    rw [List.map_cons, List.nodup_cons] at hnodup
    rcases List.mem_cons.mp h with rfl | hrest
    · calc run act t ((k, op) :: cs) k = apply act t (k, op) k := run_of_notMem hnodup.1
        _ = act op (t k) := Function.update_self _ _ _
    · have hne : k ≠ c.1 := by
        rintro rfl
        exact hnodup.1 (List.mem_map.mpr ⟨(c.1, op), hrest, rfl⟩)
      calc run act t (c :: cs) k = act op (apply act t c k) := ih hnodup.2 hrest
        _ = act op (t k) := by rw [apply, Function.update_of_ne hne]

/-- Commands on the names of keys do what the commands on the keys do. -/
theorem run_comp {f : κ → κ'} (hf : Function.Injective f) (t : κ' → α) (cs : List (κ × Op ν μ)) :
    run act t (cs.map (Prod.map f id)) ∘ f = run act (t ∘ f) cs := by
  induction cs generalizing t with
  | nil => rfl
  | cons c cs ih =>
    have hfirst : apply act t (f c.1, c.2) ∘ f = apply act (t ∘ f) c :=
      Function.update_comp_eq_of_injective t hf c.1 _
    calc run act t ((c :: cs).map (Prod.map f id)) ∘ f
        = run act (apply act t (f c.1, c.2) ∘ f) cs := ih (apply act t (f c.1, c.2))
      _ = run act (t ∘ f) (c :: cs) := by rw [hfirst]; rfl

variable [DecidableEq μ]

/-- A MULTI block. -/
def multi (s : Store κ ν μ) (cs : List (κ × Op ν μ)) : Store κ ν μ := run Op.act s cs

/-- Every command is one for the type of its key. -/
def Fitting (kind : κ → Option Kind) (cs : List (κ × Op ν μ)) : Prop :=
  ∀ c ∈ cs, c.2.fits (kind c.1)

theorem kinded_apply (hs : Kinded kind s) (hc : c.2.fits (kind c.1)) :
    Kinded kind (apply Op.act s c) := by
  intro k
  by_cases hk : k = c.1
  · subst hk
    rw [apply, Function.update_self]
    exact kind_act hc (hs c.1)
  · rw [apply, Function.update_of_ne hk]
    exact hs k

theorem kinded_multi (hs : Kinded kind s) (hcs : Fitting kind cs) : Kinded kind (multi s cs) := by
  induction cs generalizing s with
  | nil => exact hs
  | cons c cs ih =>
    apply ih (kinded_apply hs (hcs c List.mem_cons_self))
    exact fun d hd => hcs d (List.mem_cons_of_mem c hd)

/-- The strings see the commands as commands on strings. -/
theorem strings_multi (s : Store κ ν μ) (cs : List (κ × Op ν μ)) :
    strings ∘ multi s cs = run Op.onString (strings ∘ s) cs := by
  induction cs generalizing s with
  | nil => rfl
  | cons c cs ih =>
    have hfirst : strings ∘ apply Op.act s c = apply Op.onString (strings ∘ s) c := by
      rw [apply, Function.comp_update, strings_act]
      rfl
    calc strings ∘ multi s (c :: cs) = run Op.onString (strings ∘ apply Op.act s c) cs := ih _
      _ = run Op.onString (strings ∘ s) (c :: cs) := by rw [hfirst]; rfl

/-- The sets see them as commands on sets, when each is for the type of its key. -/
theorem members_multi (hs : Kinded kind s) (hcs : Fitting kind cs) :
    members ∘ multi s cs = run Op.onMembers (members ∘ s) cs := by
  induction cs generalizing s with
  | nil => rfl
  | cons c cs ih =>
    have hc : c.2.fits (kind c.1) := hcs c List.mem_cons_self
    have hfirst : members ∘ apply Op.act s c = apply Op.onMembers (members ∘ s) c := by
      rw [apply, Function.comp_update, members_act hc (hs c.1)]
      rfl
    calc members ∘ multi s (c :: cs) = run Op.onMembers (members ∘ apply Op.act s c) cs :=
          ih (kinded_apply hs hc) fun d hd => hcs d (List.mem_cons_of_mem c hd)
      _ = run Op.onMembers (members ∘ s) (c :: cs) := by rw [hfirst]; rfl

end Keyspace
