import Mathlib.Algebra.Order.BigOperators.Group.Finset
import Mathlib.Data.Fintype.Card
import Mathlib.Data.List.Perm.Basic
import Mathlib.Logic.Function.Basic

/- Publish and subscribe. Every message goes to every subscriber, which receives
   each message of its inbox once, in any order, and records something it saw on
   the way. `Complete` says that nothing is lost or duplicated: what a subscriber
   has received and what is still in its inbox is what was published.
   `received_of_settled` reads off what a subscriber has received of the messages
   with a property once none of them is in its inbox.

   Logs whose entries carry a tag have a projection for each tag, `ofTag`. -/
namespace PubSub

section Tags

variable {τ α : Type*} [DecidableEq τ]

/-- The entries with a tag, in order. -/
def ofTag (k : τ) (log : List (τ × α)) : List α := (log.filter (·.1 = k)).map Prod.snd

theorem ofTag_append_self (k : τ) (log : List (τ × α)) (es : List α) :
    ofTag k (log ++ es.map (k, ·)) = ofTag k log ++ es := by
  have hall : (es.map (fun e => (k, e))).filter (·.1 = k) = es.map (k, ·) := by
    apply List.filter_eq_self.mpr
    intro e he
    obtain ⟨a, -, rfl⟩ := List.mem_map.mp he
    simp
  simp [ofTag, List.filter_append, hall]

theorem ofTag_append_of_ne {j k : τ} (h : j ≠ k) (log : List (τ × α)) (es : List α) :
    ofTag k (log ++ es.map (j, ·)) = ofTag k log := by
  have hnone : (es.map (fun e => (j, e))).filter (·.1 = k) = [] := by
    apply List.filter_eq_nil_iff.mpr
    intro e he
    obtain ⟨a, -, rfl⟩ := List.mem_map.mp he
    simpa using h
  simp [ofTag, List.filter_append, hnone]

theorem ofTag_of_forall_ne {k : τ} {log : List (τ × α)} (h : ∀ e ∈ log, e.1 ≠ k) :
    ofTag k log = [] := by
  have hnone : log.filter (·.1 = k) = [] := List.filter_eq_nil_iff.mpr (by simpa using h)
  rw [ofTag, hnone, List.map_nil]

/-- A single entry of a projection is a single entry with that tag. -/
theorem filter_of_ofTag {k : τ} {log : List (τ × α)} {a : α} (h : ofTag k log = [a]) :
    log.filter (·.1 = k) = [(k, a)] := by
  obtain ⟨e, hlog, rfl⟩ := List.map_eq_singleton_iff.mp h
  have hmem : e ∈ log.filter (·.1 = k) := by rw [hlog]; exact List.mem_singleton_self e
  have htag : e.1 = k := by simpa using (List.mem_filter.mp hmem).2
  rw [hlog, ← htag]

end Tags

variable {ι μ κ : Type*}

/-- The messages published, those on their way to each subscriber, and those it has received with
    what it recorded. -/
structure State (ι μ κ : Type*) where
  published : List μ
  inbox : ι → List μ
  received : ι → List (μ × κ)

def empty : State ι μ κ := ⟨[], fun _ => [], fun _ => []⟩

def publish (s : State ι μ κ) (ms : List μ) : State ι μ κ :=
  ⟨s.published ++ ms, fun g => s.inbox g ++ ms, s.received⟩

/-- The subscriber receives the `i`-th message of its inbox and records `seen`. -/
def receive [DecidableEq ι] (s : State ι μ κ) (g : ι) (i : ℕ) (seen : κ) :
    Option (μ × State ι μ κ) :=
  match (s.inbox g)[i]? with
  | none => none
  | some m => some (m, ⟨s.published, Function.update s.inbox g ((s.inbox g).eraseIdx i),
      Function.update s.received g (s.received g ++ [(m, seen)])⟩)

/-- Every subscriber has received, or will receive, each message once. -/
def Complete (s : State ι μ κ) : Prop :=
  ∀ g, ((s.received g).map Prod.fst ++ s.inbox g).Perm s.published

/-- How many messages are on their way. -/
def pending [Fintype ι] (s : State ι μ κ) : ℕ := ∑ g, (s.inbox g).length

variable {s t : State ι μ κ} {m : μ} {g : ι} {i : ℕ} {seen : κ}

theorem complete_empty : Complete (empty : State ι μ κ) := fun _ => .nil

theorem complete_publish (h : Complete s) (ms : List μ) : Complete (publish s ms) := by
  intro g
  have := (h g).append_right ms
  rwa [List.append_assoc] at this

section Receive

variable [DecidableEq ι]

theorem receive_eq_some (h : receive s g i seen = some (m, t)) :
    (s.inbox g)[i]? = some m ∧
      t = ⟨s.published, Function.update s.inbox g ((s.inbox g).eraseIdx i),
        Function.update s.received g (s.received g ++ [(m, seen)])⟩ := by
  unfold receive at h
  split at h
  · cases h
  · next m' hm => cases h; exact ⟨hm, rfl⟩

theorem complete_receive (h : Complete s) (hr : receive s g i seen = some (m, t)) :
    Complete t := by
  obtain ⟨hm, rfl⟩ := receive_eq_some hr
  obtain ⟨hi, rfl⟩ := List.getElem?_eq_some_iff.mp hm
  intro g'
  by_cases hg : g' = g
  · subst hg
    simp only [Function.update_self, List.map_append, List.map_cons, List.map_nil]
    refine List.Perm.trans ?_ (h g')
    rw [List.append_assoc]
    exact (List.getElem_cons_eraseIdx_perm hi).append_left _
  · simpa only [Function.update_of_ne hg] using h g'

theorem pending_receive [Fintype ι] (hr : receive s g i seen = some (m, t)) :
    pending t < pending s := by
  obtain ⟨hm, rfl⟩ := receive_eq_some hr
  obtain ⟨hi, -⟩ := List.getElem?_eq_some_iff.mp hm
  refine Finset.sum_lt_sum (fun g' _ => ?_) ⟨g, Finset.mem_univ g, ?_⟩
  · by_cases hg : g' = g
    · subst hg
      simp [List.length_eraseIdx_le]
    · simp [Function.update_of_ne hg]
  · simp only [Function.update_self, List.length_eraseIdx_of_lt hi]
    omega

theorem receive_isSome (seen : κ) (h : i < (s.inbox g).length) : (receive s g i seen).isSome := by
  simp [receive, List.getElem?_eq_getElem h]

end Receive

theorem pending_publish [Fintype ι] (ms : List μ) :
    pending (publish s ms) = pending s + Fintype.card ι * ms.length := by
  simp [pending, publish, Finset.sum_add_distrib]

/-- Once none of the messages with a property is in the inbox, and one was published, it is the
    one received. -/
theorem received_of_settled (h : Complete s) {p : μ → Bool} (hinbox : (s.inbox g).filter p = [])
    (hp : s.published.filter p = [m]) :
    ∃ seen, (s.received g).filter (fun r => p r.1) = [(m, seen)] := by
  have hperm := (h g).filter p
  rw [List.filter_append, hinbox, List.append_nil, hp, List.perm_singleton,
    List.filter_map] at hperm
  obtain ⟨⟨m', seen⟩, hr, rfl⟩ := List.map_eq_singleton_iff.mp hperm
  exact ⟨seen, hr⟩

end PubSub
