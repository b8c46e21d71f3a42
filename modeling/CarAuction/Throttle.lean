import CarAuction.Lib.Machine
import CarAuction.Lib.Window
import CarAuction.Gateway

/- The bid throttle over time: each user's sorted set of timestamps with the time to
   live that `RedisService.zadd` sets on it, and every user's attempts, handled one
   after another. The member of an entry is the decimal text of its score, so a
   second bid in one millisecond adds none.

   `throttle_caps_iff`: no window has more than `MAX_BIDS` bids exactly when no bid
   finds room only because earlier ones of its window were not counted.
   `throttle_eq_window`: where a user's times increase strictly, the pruned and
   elapsing set decides as the whole history would. -/
namespace CarAuction

open Machine Window

/-- `user:<u>:bid_timestamps`, and when it elapses. -/
structure TimestampKey where
  scores : List Time
  deadline : Time

/-- The entries that are there at a time. -/
def TimestampKey.live (key : TimestampKey) (now : Time) : List Time :=
  if key.deadline ≤ now then [] else key.scores

def Throttle.window (throttle : Throttle) : Time := throttle.windowSeconds * 1000

/-- The entries once those older than the window are removed. -/
def TimestampKey.pruned (key : TimestampKey) (throttle : Throttle) (now : Time) : List Time :=
  zremrangebyscore 0 (now - throttle.window) (key.live now)

/-- `BidThrottleInterceptor.intercept` of the key's user: the key afterwards, and whether the handler
    is reached. -/
def intercept (throttle : Throttle) (ttl : ℕ) (now : Time) (key : TimestampKey) : TimestampKey × Bool :=
  if throttle.maxBids ≤ zcard (key.pruned throttle now) then
    (⟨key.pruned throttle now, key.deadline⟩, false)
  else (⟨zadd now (key.pruned throttle now), now + ttl * 1000⟩, true)

/-- A message alone with the timestamps, driven by clock readings. -/
def gatewayAlone (throttle : Throttle) (m : BidMessage) (s : BidTimestamps × GatewayPc) (now : Time) :
    Option (BidTimestamps × GatewayPc) :=
  (gatewayStep throttle now m s.1 s.2).map fun t => (t.1, t.2.1)

/-- The statements of the interceptor, undisturbed, do what the function does. -/
theorem intercept_statements (throttle : Throttle) (ttl : ℕ) (now : Time) (m : BidMessage)
    (keys : String → TimestampKey) :
    exec (gatewayAlone throttle m) (fun username => (keys username).live now, .received) [now, now, now] =
      some (Function.update (fun username => (keys username).live now) m.bidderUsername
          (intercept throttle ttl now (keys m.bidderUsername)).1.scores,
        if (intercept throttle ttl now (keys m.bidderUsername)).2 then .passed else .finished) := by
  have hpruned : zremrangebyscore 0 (now - throttle.windowSeconds * 1000)
      ((keys m.bidderUsername).live now) = (keys m.bidderUsername).pruned throttle now := rfl
  unfold intercept
  by_cases hfull : throttle.maxBids ≤ zcard ((keys m.bidderUsername).pruned throttle now)
  · simp [exec, gatewayAlone, gatewayStep, hpruned, hfull]
  · simp [exec, gatewayAlone, gatewayStep, hpruned, hfull]

/-- One user's attempts so far: the key, the time of the last one, those let through, and those among
    them whose `zadd` added no entry. -/
structure BidHistory where
  key : TimestampKey
  last : Time
  passed : List Time
  uncounted : List Time

def BidHistory.start : BidHistory := ⟨⟨[], 0⟩, 0, [], []⟩

def BidHistory.attempt (throttle : Throttle) (ttl : ℕ) (h : BidHistory) (now : Time) : BidHistory where
  key := (intercept throttle ttl now h.key).1
  last := now
  passed := if (intercept throttle ttl now h.key).2 then h.passed ++ [now] else h.passed
  uncounted :=
    if (intercept throttle ttl now h.key).2 ∧ now ∈ h.key.pruned throttle now then
      h.uncounted ++ [now]
    else h.uncounted

abbrev Attempt := String × Time

/-- An attempt of a user, not before that user's last one. -/
def throttleStep (throttle : Throttle) (ttl : ℕ) (s : String → BidHistory) :
    Attempt → Option (String → BidHistory)
  | (username, now) =>
    if now < (s username).last then none
    else some (Function.update s username ((s username).attempt throttle ttl now))

/-- The set has room in the window of the attempt, and would have none with an entry for every bid that
    was let through. -/
def RunsOver (throttle : Throttle) (s : String → BidHistory) : Attempt → Prop
  | (username, now) =>
    (recent throttle.window now (s username).key.scores).length < throttle.maxBids ∧
      throttle.maxBids ≤ (recent throttle.window now (s username).key.scores).length +
        (recent throttle.window now (s username).uncounted).length

instance {throttle : Throttle} {s : String → BidHistory} : DecidablePred (RunsOver throttle s)
  | (_, _) => inferInstanceAs (Decidable (_ ∧ _))

variable {throttle : Throttle} {ttl : ℕ} {h : BidHistory} {now t x : Time} {scores : List Time}
  {s s' : String → BidHistory} {a : Attempt}

/-! One attempt. -/

/-- The set against the history: every bid let through is an entry as long as it is recent, unless it
    was not counted. -/
structure HistoryOk (throttle : Throttle) (h : BidHistory) : Prop where
  scores_nonneg : ∀ x ∈ h.key.scores, 0 ≤ x
  scores_le : ∀ x ∈ h.key.scores, x ≤ h.last
  scores_kept : ∀ x ∈ h.key.scores, x + throttle.window ≤ h.key.deadline
  passed_le : ∀ x ∈ h.passed, x ≤ h.last
  last_nonneg : 0 ≤ h.last
  counted : ∀ t, h.last ≤ t → (recent throttle.window t h.passed).length =
    (recent throttle.window t h.key.scores).length + (recent throttle.window t h.uncounted).length

theorem historyOk_start : HistoryOk throttle .start where
  scores_nonneg _ hx := absurd hx List.not_mem_nil
  scores_le _ hx := absurd hx List.not_mem_nil
  scores_kept _ hx := absurd hx List.not_mem_nil
  passed_le _ hx := absurd hx List.not_mem_nil
  last_nonneg := le_rfl
  counted _ _ := rfl

theorem mem_zadd : x ∈ zadd now scores ↔ x = now ∨ x ∈ scores := by
  unfold zadd
  split
  · next hmem => exact ⟨.inr, fun hx => hx.elim (fun heq => heq ▸ hmem) id⟩
  · simp [or_comm]

/-- Neither the lower end of the range nor the time to live changes what the pruning leaves. -/
theorem HistoryOk.pruned_eq (hok : HistoryOk throttle h) :
    h.key.pruned throttle now = recent throttle.window now h.key.scores := by
  unfold TimestampKey.pruned TimestampKey.live
  split
  · next helapsed =>
    -- the key outlives the window of its entries
    rw [recent_eq_nil fun x hx => (hok.scores_kept x hx).trans helapsed]
    rfl
  · apply List.filter_congr
    intro x hx
    simp [hok.scores_nonneg x hx]

theorem HistoryOk.zcard_pruned (hok : HistoryOk throttle h) :
    zcard (h.key.pruned throttle now) = (recent throttle.window now h.key.scores).length :=
  congrArg List.length hok.pruned_eq

theorem intercept_pass (hroom : zcard (h.key.pruned throttle now) < throttle.maxBids) :
    intercept throttle ttl now h.key =
      (⟨zadd now (h.key.pruned throttle now), now + ttl * 1000⟩, true) :=
  if_neg (not_le.mpr hroom)

theorem intercept_reject (hfull : throttle.maxBids ≤ zcard (h.key.pruned throttle now)) :
    intercept throttle ttl now h.key = (⟨h.key.pruned throttle now, h.key.deadline⟩, false) :=
  if_pos hfull

theorem HistoryOk.reject (hok : HistoryOk throttle h) (hlast : h.last ≤ now)
    (hfull : throttle.maxBids ≤ zcard (h.key.pruned throttle now)) :
    HistoryOk throttle (h.attempt throttle ttl now) := by
  have hattempt : h.attempt throttle ttl now =
      ⟨⟨recent throttle.window now h.key.scores, h.key.deadline⟩, now, h.passed, h.uncounted⟩ := by
    simp [BidHistory.attempt, intercept_reject hfull, hok.pruned_eq]
  rw [hattempt]
  refine ⟨fun x hx => ?_, fun x hx => ?_, fun x hx => ?_, fun x hx => ?_, ?_, fun t ht => ?_⟩
  · exact hok.scores_nonneg x (mem_recent.mp hx).1
  · exact (hok.scores_le x (mem_recent.mp hx).1).trans hlast
  · exact hok.scores_kept x (mem_recent.mp hx).1
  · exact (hok.passed_le x hx).trans hlast
  · exact hok.last_nonneg.trans hlast
  · rw [recent_recent ht]
    exact hok.counted t (hlast.trans ht)

theorem HistoryOk.pass (hok : HistoryOk throttle h) (httl : throttle.windowSeconds ≤ ttl)
    (hlast : h.last ≤ now) (hroom : zcard (h.key.pruned throttle now) < throttle.maxBids) :
    HistoryOk throttle (h.attempt throttle ttl now) := by
  have hkept : now + throttle.window ≤ now + (ttl * 1000 : ℤ) := by
    apply add_le_add_right
    simpa [Throttle.window] using httl
  have hattempt : h.attempt throttle ttl now =
      ⟨⟨zadd now (recent throttle.window now h.key.scores), now + ttl * 1000⟩, now,
        h.passed ++ [now], if now ∈ recent throttle.window now h.key.scores then
          h.uncounted ++ [now] else h.uncounted⟩ := by
    simp [BidHistory.attempt, intercept_pass hroom, hok.pruned_eq]
  have hscores : ∀ x ∈ zadd now (recent throttle.window now h.key.scores),
      0 ≤ x ∧ x ≤ now := by
    intro x hx
    rcases mem_zadd.mp hx with rfl | hx
    · exact ⟨hok.last_nonneg.trans hlast, le_rfl⟩
    · have hmem := (mem_recent.mp hx).1
      exact ⟨hok.scores_nonneg x hmem, (hok.scores_le x hmem).trans hlast⟩
  rw [hattempt]
  refine ⟨fun x hx => (hscores x hx).1, fun x hx => (hscores x hx).2, fun x hx => ?_, fun x hx => ?_,
    hok.last_nonneg.trans hlast, fun t ht => ?_⟩
  · exact (add_le_add_left (hscores x hx).2 _).trans hkept
  · rcases List.mem_append.mp hx with hx | hx
    · exact (hok.passed_le x hx).trans hlast
    · exact (List.mem_singleton.mp hx).le
  · -- one more entry, or one more bid that was not counted
    have hcounted := hok.counted t (hlast.trans ht)
    unfold zadd
    split
    · simp only [recent_append, List.length_append, recent_recent ht, hcounted]
      omega
    · simp only [recent_append, List.length_append, recent_recent ht, hcounted]
      omega

theorem HistoryOk.attempt (hok : HistoryOk throttle h) (httl : throttle.windowSeconds ≤ ttl)
    (hlast : h.last ≤ now) : HistoryOk throttle (h.attempt throttle ttl now) := by
  by_cases hroom : zcard (h.key.pruned throttle now) < throttle.maxBids
  · exact hok.pass httl hlast hroom
  · exact hok.reject hlast (not_lt.mp hroom)

theorem throttleStep_inv {username : String} (hstep : throttleStep throttle ttl s (username, now) = some s') :
    (s username).last ≤ now ∧
      s' = Function.update s username ((s username).attempt throttle ttl now) := by
  simp only [throttleStep] at hstep
  split at hstep
  · cases hstep
  · next hlast => exact ⟨not_lt.mp hlast, (Option.some_inj.mp hstep).symm⟩

/-- Every user's set against the history. -/
def HistoriesOk (throttle : Throttle) (s : String → BidHistory) : Prop :=
  ∀ username, HistoryOk throttle (s username)

theorem historiesOk_step (httl : throttle.windowSeconds ≤ ttl) (hok : HistoriesOk throttle s)
    (hstep : throttleStep throttle ttl s a = some s') : HistoriesOk throttle s' := by
  obtain ⟨username, now⟩ := a
  obtain ⟨hlast, rfl⟩ := throttleStep_inv hstep
  intro u
  by_cases hu : u = username
  · rw [hu, Function.update_self]
    exact (hok username).attempt httl hlast
  · rw [Function.update_of_ne hu]
    exact hok u

/-! The cap. -/

theorem attempt_passed : (h.attempt throttle ttl now).passed =
    if zcard (h.key.pruned throttle now) < throttle.maxBids then h.passed ++ [now] else h.passed := by
  unfold BidHistory.attempt
  by_cases hroom : zcard (h.key.pruned throttle now) < throttle.maxBids
  · simp [intercept_pass hroom, hroom]
  · simp [intercept_reject (not_lt.mp hroom), hroom]

/-- What the window of an attempt has let through, in terms of the set. -/
theorem HistoryOk.recent_passed (hok : HistoryOk throttle h) (hlast : h.last ≤ now) :
    (recent throttle.window now h.passed).length =
      zcard (h.key.pruned throttle now) + (recent throttle.window now h.uncounted).length := by
  rw [hok.counted now hlast, hok.zcard_pruned]

theorem HistoryOk.capped_iff (hok : HistoryOk throttle h) (hwindow : 1 ≤ throttle.windowSeconds)
    (hlast : h.last ≤ now) (hcapped : Capped throttle.window throttle.maxBids h.passed) :
    Capped throttle.window throttle.maxBids (h.attempt throttle ttl now).passed ↔
      ¬ ((recent throttle.window now h.key.scores).length < throttle.maxBids ∧
        throttle.maxBids ≤ (recent throttle.window now h.key.scores).length +
          (recent throttle.window now h.uncounted).length) := by
  have hwidth : 0 < throttle.window := by
    unfold Throttle.window
    positivity
  rw [← hok.zcard_pruned]
  rw [attempt_passed]
  by_cases hroom : zcard (h.key.pruned throttle now) < throttle.maxBids
  · rw [if_pos hroom, capped_concat_iff hwidth hcapped fun x hx => (hok.passed_le x hx).trans hlast,
      hok.recent_passed hlast]
    omega
  · rw [if_neg hroom]
    exact iff_of_true hcapped fun hover => hroom hover.1

/-- No window of any user has more than `MAX_BIDS` bids along a run exactly when no bid finds room only
    because earlier ones were not counted. -/
theorem throttle_caps_iff (throttle : Throttle) (ttl : ℕ) (hwindow : 1 ≤ throttle.windowSeconds)
    (httl : throttle.windowSeconds ≤ ttl) (attempts : List Attempt) :
    Always (throttleStep throttle ttl)
        (fun s => ∀ username, Capped throttle.window throttle.maxBids (s username).passed)
        (fun _ => .start) attempts ↔
      Along (throttleStep throttle ttl) (fun s a _ => ¬ RunsOver throttle s a) (fun _ => .start)
        attempts := by
  refine always_iff_of_inv (D := fun _ _ _ => True) (I := fun s => HistoriesOk throttle s ∧
      ∀ username, Capped throttle.window throttle.maxBids (s username).passed)
    (fun s hs => hs.2) ?_ ?_ attempts ⟨fun _ => historyOk_start, fun _ => capped_nil⟩ (along_true attempts)
  · rintro s ⟨username, now⟩ s' ⟨hok, hcapped⟩ - hstep hroom
    refine ⟨historiesOk_step httl hok hstep, fun u => ?_⟩
    obtain ⟨hlast, rfl⟩ := throttleStep_inv hstep
    by_cases hu : u = username
    · rw [hu, Function.update_self]
      exact ((hok username).capped_iff hwindow hlast (hcapped username)).mpr hroom
    · rw [Function.update_of_ne hu]
      exact hcapped u
  · rintro s ⟨username, now⟩ s' ⟨hok, hcapped⟩ - hstep hover hall
    obtain ⟨hlast, rfl⟩ := throttleStep_inv hstep
    have hself := hall username
    rw [Function.update_self, (hok username).capped_iff hwindow hlast (hcapped username)] at hself
    exact hself hover

/-- Five bids may pass in ten seconds; Ann sends six in one millisecond. -/
def annBursts : List Attempt := List.replicate 6 ("ann", 1000)

theorem burst_passes : ¬ Always (throttleStep ⟨5, 10⟩ 3600)
    (fun s => ∀ username, Capped (Throttle.window ⟨5, 10⟩) 5 (s username).passed)
    (fun _ => .start) annBursts := by
  intro hall
  obtain ⟨s, hs, hsix⟩ : ∃ s ∈ exec (throttleStep ⟨5, 10⟩ 3600) (fun _ => .start) annBursts,
      (window (Throttle.window ⟨5, 10⟩) 1000 (s "ann").passed).length = 6 := by decide +kernel
  have hfive := hall.last hs "ann" 1000
  rw [hsix] at hfive
  exact absurd hfive (by decide)

/-- Six bids in six milliseconds; the last one is refused. -/
def annHurries : List Attempt :=
  [("ann", 1000), ("ann", 1001), ("ann", 1002), ("ann", 1003), ("ann", 1004), ("ann", 1005)]

theorem throttle_caps_iff_burst : (Always (throttleStep ⟨5, 10⟩ 3600)
    (fun s => ∀ username, Capped (Throttle.window ⟨5, 10⟩) 5 (s username).passed)
    (fun _ => .start) annBursts ↔
      Along (throttleStep ⟨5, 10⟩ 3600) (fun s a _ => ¬ RunsOver ⟨5, 10⟩ s a) (fun _ => .start)
        annBursts) ∧
    Always (throttleStep ⟨5, 10⟩ 3600)
      (fun s => ∀ username, Capped (Throttle.window ⟨5, 10⟩) 5 (s username).passed)
      (fun _ => .start) annHurries :=
  ⟨throttle_caps_iff ⟨5, 10⟩ 3600 (by decide) (by decide) annBursts,
    (throttle_caps_iff ⟨5, 10⟩ 3600 (by decide) (by decide) annHurries).mpr (by decide +kernel)⟩

/-! Strictly increasing times. -/

/-- The user's attempts come one after another. -/
def StrictlyLater (s : String → BidHistory) (a : Attempt) (_ : String → BidHistory) : Prop :=
  (s a.1).last < a.2

instance : Decidable (StrictlyLater s a s') := inferInstanceAs (Decidable (_ < _))

theorem HistoryOk.all_counted (hok : HistoryOk throttle h) (hlater : h.last < now)
    (hcounted : h.uncounted = []) : (h.attempt throttle ttl now).uncounted = [] := by
  have hnew : now ∉ h.key.pruned throttle now := by
    rw [hok.pruned_eq]
    intro hmem
    exact not_lt.mpr (hok.scores_le now (mem_recent.mp hmem).1) hlater
  simp [BidHistory.attempt, hnew, hcounted]

/-- The interceptor lets an attempt through exactly when fewer than `MAX_BIDS` of that user's attempts
    were let through in the window before it. -/
theorem throttle_eq_window (throttle : Throttle) (ttl : ℕ) (httl : throttle.windowSeconds ≤ ttl)
    (attempts : List Attempt)
    (hlater : Along (throttleStep throttle ttl) StrictlyLater (fun _ => .start) attempts) :
    Along (throttleStep throttle ttl) (fun s a _ => (intercept throttle ttl a.2 (s a.1).key).2 = true ↔
        (recent throttle.window a.2 (s a.1).passed).length < throttle.maxBids)
      (fun _ => .start) attempts := by
  refine along_of_inv (I := fun s => HistoriesOk throttle s ∧ ∀ username, (s username).uncounted = [])
    ?_ attempts ⟨fun _ => historyOk_start, fun _ => rfl⟩ hlater
  rintro s ⟨username, now⟩ s' ⟨hok, hcounted⟩ hlater hstep
  refine ⟨⟨historiesOk_step httl hok hstep, fun u => ?_⟩, ?_⟩
  · obtain ⟨-, rfl⟩ := throttleStep_inv hstep
    by_cases hu : u = username
    · rw [hu, Function.update_self]
      exact (hok username).all_counted hlater (hcounted username)
    · rw [Function.update_of_ne hu]
      exact hcounted u
  · have hlast : (s username).last ≤ now := (throttleStep_inv hstep).1
    have hrecent := (hok username).recent_passed hlast
    rw [hcounted username] at hrecent
    rw [hrecent]
    by_cases hroom : zcard ((s username).key.pruned throttle now) < throttle.maxBids
    · simp [intercept_pass hroom, recent, hroom]
    · simp [intercept_reject (not_lt.mp hroom), recent, hroom]

/-- Ann's third bid is over the limit, Bob's first is not, and Ann's fourth has room again. -/
def spacedBids : List Attempt :=
  [("ann", 1000), ("ann", 1001), ("ann", 1002), ("bob", 1002), ("ann", 2000)]

theorem throttle_eq_window_spaced : Along (throttleStep ⟨2, 1⟩ 1)
    (fun s a _ => (intercept ⟨2, 1⟩ 1 a.2 (s a.1).key).2 = true ↔
      (recent (Throttle.window ⟨2, 1⟩) a.2 (s a.1).passed).length < 2)
    (fun _ => .start) spacedBids :=
  throttle_eq_window ⟨2, 1⟩ 1 (by decide) spacedBids (by decide +kernel)

end CarAuction
