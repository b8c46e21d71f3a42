import CarAuction.Throttle

/- The bid throttle with several bids of one user at a time. Each execution of
   `BidThrottleInterceptor.intercept` reads its clock, prunes the user's set, counts
   it and then rejects the bid or adds its timestamp, in separate commands, so that
   the count may be stale by the time of the `zadd`.

   `concurrent_cap_iff`: of the executions of one window no more than `MAX_BIDS` reach
   the handler exactly when none adds its timestamp on a stale count. -/
namespace CarAuction

open Machine

/-- The interceptor is still at work. -/
def GatewayPc.intercepting : GatewayPc → Bool
  | received => true
  | pruned _ => true
  | counted _ _ => true
  | _ => false

/-- The user's key, where each execution is, and those that have reached the handler. -/
structure Interceptors (ι : Type*) where
  key : TimestampKey
  gate : ι → GatewayPc
  reached : List ι

def Interceptors.start {ι : Type*} (key : TimestampKey) : Interceptors ι := ⟨key, fun _ => .received, []⟩

variable {ι : Type*}

/-- The next statement of an execution. `clock` is what each reads on its own gateway, the action
    carries the time at Redis. -/
def interceptStep [DecidableEq ι] (throttle : Throttle) (ttl : ℕ) (clock : ι → Time) (bid : ι → BidMessage)
    (s : Interceptors ι) : ι × Time → Option (Interceptors ι)
  | (i, now) =>
    if (s.gate i).intercepting then
      (gatewayStep throttle (clock i) (bid i) (fun _ => s.key.live now) (s.gate i)).map fun t =>
        { key := ⟨t.1 (bid i).bidderUsername,
            if t.2.1 = .passed then now + ttl * 1000 else s.key.deadline⟩
          gate := Function.update s.gate i t.2.1
          reached := if t.2.1 = .passed then s.reached ++ [i] else s.reached }
    else none

/-- The entries of the window that starts at `t₀`. -/
def Interceptors.entries (s : Interceptors ι) (t₀ now : Time) : List Time :=
  (s.key.live now).filter fun x => t₀ ≤ x

/-- The execution has found room, and adds its timestamp to a set that has none left. -/
def AddsStale (throttle : Throttle) (t₀ : Time) (s : Interceptors ι) : ι × Time → Prop
  | (i, now) => (∃ reading count, s.gate i = .counted reading count ∧ count < throttle.maxBids) ∧
      throttle.maxBids ≤ (s.entries t₀ now).length

def GatewayPc.foundRoom (throttle : Throttle) : GatewayPc → Bool
  | counted _ count => count < throttle.maxBids
  | _ => false

theorem GatewayPc.foundRoom_iff {throttle : Throttle} {pc : GatewayPc} : pc.foundRoom throttle = true ↔
    ∃ reading count, pc = .counted reading count ∧ count < throttle.maxBids := by
  cases pc <;> simp [foundRoom]

instance {throttle : Throttle} {t₀ : Time} {s : Interceptors ι} : DecidablePred (AddsStale throttle t₀ s)
  | (_, _) => decidable_of_iff _ (and_congr_left fun _ => GatewayPc.foundRoom_iff)

variable {throttle : Throttle} {ttl : ℕ} {clock : ι → Time} {bid : ι → BidMessage}
  {s s' : Interceptors ι} {i : ι} {t₀ r₀ now : Time}

/-- The executions of the window against its entries; `r₀` is a time at Redis before their first
    command. -/
structure InterceptorsOk (ttl : ℕ) (clock : ι → Time) (t₀ r₀ : Time) (s : Interceptors ι) : Prop where
  reading_eq : ∀ i reading, (s.gate i = .pruned reading ∨ ∃ count, s.gate i = .counted reading count) →
    reading = clock i
  reached_passed : ∀ i ∈ s.reached, s.gate i = .passed
  entry_reached : ∀ x ∈ s.key.scores, t₀ ≤ x → ∃ i ∈ s.reached, clock i = x
  counted : (s.key.scores.filter fun x => t₀ ≤ x).length = s.reached.length
  kept : s.reached ≠ [] → r₀ + ttl * 1000 ≤ s.key.deadline

/-- No entry of the window elapses. -/
theorem InterceptorsOk.entries_length (hok : InterceptorsOk ttl clock t₀ r₀ s)
    (hnow : now < r₀ + ttl * 1000) : (s.entries t₀ now).length = s.reached.length := by
  unfold Interceptors.entries TimestampKey.live
  split
  · next helapsed =>
    have hnone : s.reached = [] := by
      by_contra hsome
      exact absurd ((hok.kept hsome).trans helapsed) (not_le.mpr hnow)
    rw [hnone]
    rfl
  · exact hok.counted

theorem interceptorsOk_start {key : TimestampKey} (hkey : ∀ x ∈ key.scores, x < t₀) :
    InterceptorsOk ttl clock t₀ r₀ (.start key) where
  reading_eq i reading h := by
    rcases h with h | ⟨count, h⟩
    · cases h
    · cases h
  reached_passed i hi := absurd hi List.not_mem_nil
  entry_reached x hx hin := absurd hin (not_le.mpr (hkey x hx))
  counted := by
    rw [Interceptors.start, List.length_nil, List.length_eq_zero_iff, List.filter_eq_nil_iff]
    intro x hx
    simpa using hkey x hx
  kept h := absurd rfl h

/-! One statement. -/

variable [DecidableEq ι]

inductive InterceptStep (throttle : Throttle) (ttl : ℕ) (clock : ι → Time) (s : Interceptors ι) (i : ι)
    (now : Time) : Interceptors ι → Prop where
  | prunes : s.gate i = .received → InterceptStep throttle ttl clock s i now
      ⟨⟨zremrangebyscore 0 (clock i - throttle.window) (s.key.live now), s.key.deadline⟩,
        Function.update s.gate i (.pruned (clock i)), s.reached⟩
  | counts {reading} : s.gate i = .pruned reading → InterceptStep throttle ttl clock s i now
      ⟨⟨s.key.live now, s.key.deadline⟩,
        Function.update s.gate i (.counted reading (zcard (s.key.live now))), s.reached⟩
  | rejects {reading count} : s.gate i = .counted reading count → throttle.maxBids ≤ count →
      InterceptStep throttle ttl clock s i now
        ⟨⟨s.key.live now, s.key.deadline⟩, Function.update s.gate i .finished, s.reached⟩
  | adds {reading count} : s.gate i = .counted reading count → count < throttle.maxBids →
      InterceptStep throttle ttl clock s i now
        ⟨⟨zadd reading (s.key.live now), now + ttl * 1000⟩, Function.update s.gate i .passed,
          s.reached ++ [i]⟩

theorem interceptStep_inv (h : interceptStep throttle ttl clock bid s (i, now) = some s') :
    InterceptStep throttle ttl clock s i now s' := by
  simp only [interceptStep, Option.ite_none_right_eq_some, Option.map_eq_some_iff] at h
  obtain ⟨hgate, ⟨timestamps, gate, effect⟩, hstep, rfl⟩ := h
  cases hpc : s.gate i with
  | received =>
    rw [hpc] at hstep
    cases hstep
    have hprunes : InterceptStep throttle ttl clock s i now _ := .prunes hpc
    simpa [Throttle.window] using hprunes
  | pruned reading =>
    rw [hpc] at hstep
    cases hstep
    exact .counts hpc
  | counted reading count =>
    rw [hpc, gatewayStep] at hstep
    split at hstep
    · next hfull =>
      cases hstep
      exact .rejects hpc hfull
    · next hroom =>
      cases hstep
      have hadds : InterceptStep throttle ttl clock s i now _ := .adds hpc (not_le.mp hroom)
      simpa using hadds
  | _ =>
    rw [hpc] at hgate
    cases hgate

theorem mem_live {key : TimestampKey} {x : Time} (hx : x ∈ key.live now) : x ∈ key.scores := by
  unfold TimestampKey.live at hx
  split at hx
  · cases hx
  · exact hx

/-- A statement that neither adds an entry of the window nor removes one. -/
theorem InterceptorsOk.same_entries (hok : InterceptorsOk ttl clock t₀ r₀ s)
    (hnow : now < r₀ + ttl * 1000) {scores : List Time}
    {gate : GatewayPc} (hbusy : s.gate i ≠ .passed)
    (hscores : scores.filter (fun x => t₀ ≤ x) = s.entries t₀ now)
    (hreading : ∀ reading, (gate = .pruned reading ∨ ∃ count, gate = .counted reading count) →
      reading = clock i) :
    InterceptorsOk ttl clock t₀ r₀
      ⟨⟨scores, s.key.deadline⟩, Function.update s.gate i gate, s.reached⟩ := by
  refine ⟨fun j reading hj => ?_, fun j hj => ?_, fun x hx hin => ?_, ?_, hok.kept⟩
  · by_cases hji : j = i
    · rw [hji] at hj ⊢
      exact hreading reading (by simpa using hj)
    · exact hok.reading_eq j reading (by simpa [hji] using hj)
  · have hji : j ≠ i := fun hji => hbusy (hji ▸ hok.reached_passed j hj)
    exact (Function.update_of_ne hji _ _).trans (hok.reached_passed j hj)
  · have hmem : x ∈ s.entries t₀ now := by
      rw [← hscores]
      exact List.mem_filter.mpr ⟨hx, by simpa using hin⟩
    exact hok.entry_reached x (mem_live (List.mem_filter.mp hmem).1) hin
  · rw [hscores]
    exact hok.entries_length hnow

/-- An execution that adds its timestamp adds an entry of the window. -/
theorem InterceptorsOk.add (hok : InterceptorsOk ttl clock t₀ r₀ s)
    (hinj : Function.Injective clock) (hclock : t₀ ≤ clock i) (hfirst : r₀ ≤ now)
    (hnow : now < r₀ + ttl * 1000) (hbusy : s.gate i ≠ .passed) :
    InterceptorsOk ttl clock t₀ r₀
      ⟨⟨zadd (clock i) (s.key.live now), now + ttl * 1000⟩, Function.update s.gate i .passed,
        s.reached ++ [i]⟩ := by
  -- the clock readings differ, so the member is a new one
  have hnew : clock i ∉ s.key.live now := by
    intro hmem
    obtain ⟨j, hj, heq⟩ := hok.entry_reached (clock i) (mem_live hmem) hclock
    exact hbusy (hinj heq ▸ hok.reached_passed j hj)
  rw [zadd, if_neg hnew]
  refine ⟨fun j reading hj => ?_, fun j hj => ?_, fun x hx hin => ?_, ?_, fun _ => ?_⟩
  · have hji : j ≠ i := by
      rintro rfl
      simp at hj
    exact hok.reading_eq j reading (by simpa [hji] using hj)
  · by_cases hji : j = i
    · rw [hji]
      exact Function.update_self i _ _
    · have hbefore : j ∈ s.reached := (List.mem_append.mp hj).resolve_right (by simpa using hji)
      exact (Function.update_of_ne hji _ _).trans (hok.reached_passed j hbefore)
  · rcases List.mem_append.mp hx with hx | hx
    · obtain ⟨j, hj, heq⟩ := hok.entry_reached x (mem_live hx) hin
      exact ⟨j, List.mem_append_left _ hj, heq⟩
    · exact ⟨i, by simp, (List.mem_singleton.mp hx).symm⟩
  · rw [List.filter_append, List.length_append, List.length_append]
    have hentries := hok.entries_length hnow
    rw [Interceptors.entries] at hentries
    simp [hentries, hclock]
  · exact add_le_add_left hfirst _

theorem interceptorsOk_step (hok : InterceptorsOk ttl clock t₀ r₀ s)
    (hinj : Function.Injective clock)
    (hclock : ∀ i, t₀ ≤ clock i ∧ clock i < t₀ + throttle.window) (hfirst : r₀ ≤ now)
    (hnow : now < r₀ + ttl * 1000) (h : InterceptStep throttle ttl clock s i now s') :
    InterceptorsOk ttl clock t₀ r₀ s' := by
  cases h with
  | prunes hgate =>
    refine hok.same_entries hnow (by simp [hgate]) ?_ (by simp)
    -- what is pruned lies before the window
    rw [zremrangebyscore, List.filter_filter]
    apply List.filter_congr
    intro x _
    have hcut : clock i - throttle.window < t₀ := sub_lt_iff_lt_add.mpr (hclock i).2
    by_cases hin : t₀ ≤ x
    · simp [hin, hcut.trans_le hin]
    · simp [hin]
  | @counts reading hgate =>
    refine hok.same_entries hnow (by simp [hgate]) rfl ?_
    simpa using hok.reading_eq i reading (.inl hgate)
  | rejects hgate _ => exact hok.same_entries hnow (by simp [hgate]) rfl (by simp)
  | @adds reading count hgate _ =>
    rw [hok.reading_eq i reading (.inr ⟨count, hgate⟩)]
    exact hok.add hinj (hclock i).1 hfirst hnow (by simp [hgate])

/-! Whole schedules. -/

theorem addsStale_reached (hok : InterceptorsOk ttl clock t₀ r₀ s)
    (hnow : now < r₀ + ttl * 1000)
    (hcap : s.reached.length ≤ throttle.maxBids) (h : InterceptStep throttle ttl clock s i now s') :
    s'.reached.length ≤ throttle.maxBids ↔ ¬ AddsStale throttle t₀ s (i, now) := by
  have hentries := hok.entries_length hnow
  cases h with
  | prunes hgate => exact iff_of_true hcap (by simp [AddsStale, hgate])
  | counts hgate => exact iff_of_true hcap (by simp [AddsStale, hgate])
  | rejects hgate hfull => exact iff_of_true hcap (by simp [AddsStale, hgate, hfull])
  | @adds reading count hgate hroom =>
    have hstale : AddsStale throttle t₀ s (i, now) ↔ throttle.maxBids ≤ s.reached.length := by
      rw [AddsStale, hentries]
      exact and_iff_right ⟨reading, count, hgate, hroom⟩
    rw [hstale, List.length_append, List.length_singleton]
    omega

/-- Of the executions of one window no more than `MAX_BIDS` reach the handler exactly when none adds its
    timestamp to a set that has no room left. `r₀` is a time at Redis before their commands, which take
    less than `REDIS_TTL` seconds. -/
theorem concurrent_cap_iff (throttle : Throttle) (ttl : ℕ) (clock : ι → Time)
    (hinj : Function.Injective clock) (t₀ : Time)
    (hclock : ∀ i, t₀ ≤ clock i ∧ clock i < t₀ + throttle.window) (bid : ι → BidMessage)
    (key : TimestampKey) (hkey : ∀ x ∈ key.scores, x < t₀) (r₀ : Time) (schedule : List (ι × Time))
    (hnow : ∀ a ∈ schedule, r₀ ≤ a.2 ∧ a.2 < r₀ + ttl * 1000) :
    Always (interceptStep throttle ttl clock bid) (fun s => s.reached.length ≤ throttle.maxBids)
        (.start key) schedule ↔
      Along (interceptStep throttle ttl clock bid) (fun s a _ => ¬ AddsStale throttle t₀ s a)
        (.start key) schedule := by
  refine always_iff_of_inv (I := fun s => InterceptorsOk ttl clock t₀ r₀ s ∧
      s.reached.length ≤ throttle.maxBids) (fun s hs => hs.2) ?_ ?_ schedule
    ⟨interceptorsOk_start hkey, Nat.zero_le _⟩ (along_of_forall hnow)
  · rintro s ⟨i, now⟩ s' ⟨hok, hcap⟩ ⟨hfirst, hlast⟩ hstep hroom
    have hinv := interceptStep_inv hstep
    exact ⟨interceptorsOk_step hok hinj hclock hfirst hlast hinv,
      (addsStale_reached hok hlast hcap hinv).mpr hroom⟩
  · rintro s ⟨i, now⟩ s' ⟨hok, hcap⟩ ⟨-, hlast⟩ hstep hstale hcap'
    exact (addsStale_reached hok hlast hcap (interceptStep_inv hstep)).mp hcap' hstale

/-- Two bids of Ann where one may pass in ten seconds: both count before either adds. -/
def annTwice : List (Bool × Time) :=
  [(true, 5000), (false, 5001), (true, 5001), (false, 5002), (true, 5002), (false, 5003)]

def annClocks (first : Bool) : Time := if first then 5000 else 5001

theorem concurrent_bids_pass : ¬ Always
    (interceptStep ⟨1, 10⟩ 3600 annClocks fun _ => ⟨1, 10, 7, "ann", "socket-a"⟩)
    (fun s => s.reached.length ≤ 1) (.start ⟨[], 0⟩) annTwice := by
  intro hall
  obtain ⟨s, hs, htwo⟩ : ∃ s ∈ exec (interceptStep ⟨1, 10⟩ 3600 annClocks
      fun _ => ⟨1, 10, 7, "ann", "socket-a"⟩) (.start ⟨[], 0⟩) annTwice,
      s.reached.length = 2 := by decide +kernel
  have hone := hall.last hs
  rw [htwo] at hone
  exact absurd hone (by decide)

/-- The same bids, one after the other. -/
def annOneByOne : List (Bool × Time) :=
  [(true, 5000), (true, 5001), (true, 5002), (false, 5003), (false, 5004), (false, 5005)]

theorem concurrent_cap_iff_twice : (Always
    (interceptStep ⟨1, 10⟩ 3600 annClocks fun _ => ⟨1, 10, 7, "ann", "socket-a"⟩)
    (fun s => s.reached.length ≤ 1) (.start ⟨[], 0⟩) annTwice ↔
      Along (interceptStep ⟨1, 10⟩ 3600 annClocks fun _ => ⟨1, 10, 7, "ann", "socket-a"⟩)
        (fun s a _ => ¬ AddsStale ⟨1, 10⟩ 5000 s a) (.start ⟨[], 0⟩) annTwice) ∧
    Always (interceptStep ⟨1, 10⟩ 3600 annClocks fun _ => ⟨1, 10, 7, "ann", "socket-a"⟩)
      (fun s => s.reached.length ≤ 1) (.start ⟨[], 0⟩) annOneByOne :=
  ⟨concurrent_cap_iff ⟨1, 10⟩ 3600 annClocks (by decide) 5000 (by decide) _ ⟨[], 0⟩ (by simp) 5000 annTwice
      (by decide),
    (concurrent_cap_iff ⟨1, 10⟩ 3600 annClocks (by decide) 5000 (by decide) _ ⟨[], 0⟩ (by simp) 5000
      annOneByOne (by decide)).mpr (by decide +kernel)⟩

end CarAuction
