import CarAuction.Mediation

/- Is every handled message freshly authenticated and counted? The auth guard trusts
   a `client.user` that an earlier message left behind. When the token has expired
   since, the rate-limit guard verifies nothing and counts no sockets of the user,
   and the message is handled all the same: `expired_token_is_handled`. In a run
   where the auth guard takes no such branch every handled message has been verified
   and counted, and a token that does not verify is refused: `handled_freshly`. -/
namespace CarAuction

open Pool Machine

/-- The token verified in the guard pass of the message, and the user had no more sockets than the
    limit. -/
def HandledFreshly (limits : Limits) (s : GuardState) (m : Message) : Prop :=
  (∃ t ∈ m.pass.verifiedAt, GuardEvent.verified m.socket t ∈ s.log ∧
    (verifyAsync t (s.world.socket m.socket).token).isSome) ∧
  ∃ n ∈ m.pass.userSockets, n ≤ limits.maxSocketsPerUser

/-- Why a guard refuses a message whose token it has not verified. -/
def Unverified (token : Option Token) : GuardError → Prop
  | .maxUserSockets _ => False
  | .maxIpSockets _ => True
  | .noAuthToken => token = none
  | .invalidToken => True

/-- A message whose token did not verify has not been handled, and a refused client has been told
    why. -/
def ExpiredRefused (s : GuardState) : Prop :=
  ∀ m ∈ s.procs, (m.pass.verifiedAt = none → m.pc ≠ .handled) ∧
    ∀ error, m.pc = .refused error → GuardEvent.rejected m.socket error ∈ s.log ∧
      (m.pass.verifiedAt = none → Unverified (s.world.socket m.socket).token error)

/-- The auth guard lets a message through for the user an earlier message has attached, when its own
    guard pass has not verified the token. -/
def TrustsStaleUser (s : GuardState) (act : GuardAction) : Prop :=
  ∃ m ∈ moving s act, m.pc = .rateLimited ∧ m.pass.verifiedAt = none ∧
    (s.world.socket m.socket).user.isSome

/-! What a message has been counted for. -/

/-- The count of the user's sockets lies behind the message. -/
@[simp] def GuardPc.counted : GuardPc → Bool
  | userCounted => true
  | rateLimited => true
  | unverified => true
  | authenticated => true
  | allowed => true
  | handled => true
  | _ => false

/-- The auth guard lies behind the message. -/
@[simp] def GuardPc.trusted : GuardPc → Bool
  | authenticated => true
  | allowed => true
  | handled => true
  | _ => false

@[simp] def GuardPc.error : GuardPc → Option GuardError
  | rejecting error => some error
  | refused error => some error
  | _ => none

structure FreshOk (limits : Limits) (w : GuardWorld) (log : List GuardEvent) (m : Message) :
    Prop where
  verifying : ∀ user, m.pc = .verified user → m.pass.verifiedAt.isSome
  counted : m.pc.counted = true → m.pass.verifiedAt.isSome →
    ∃ n ∈ m.pass.userSockets, n ≤ limits.maxSocketsPerUser
  trusted : m.pc.trusted = true → m.pass.verifiedAt.isSome
  refused : ∀ error, m.pc.error = some error → GuardEvent.rejected m.socket error ∈ log ∧
    (m.pass.verifiedAt = none → Unverified (w.socket m.socket).token error)

variable {limits : Limits} {count : ℕ} {w w' : GuardWorld} {log log' es : List GuardEvent}
  {m m' : Message} {s t : GuardState} {act : GuardAction} {id : SocketId}

theorem FreshOk.later (h : FreshOk limits w log m) (hl : Later w w' log log') :
    FreshOk limits w' log' m := by
  refine ⟨h.verifying, h.counted, h.trusted, fun error he => ?_⟩
  rw [hl.token]
  exact ⟨hl.log (h.refused error he).1, (h.refused error he).2⟩

/-- The token of a message that asks again has verified: its own check came before, and a token
    that verifies now has verified then. -/
theorem verified_before (hm : PassOk w log m) (hpc : m.pc = .unverified) {user : JwtPayload}
    (hv : verifyAsync w.now (w.socket m.socket).token = some user) :
    m.pass.verifiedAt.isSome := by
  by_contra hnot
  have hnone : m.pass.verifiedAt = none := Option.not_isSome_iff_eq_none.mp hnot
  cases hchecked : m.pass.checkedAt with
  | none =>
    have hbegun := hm.begun hchecked
    simp [hpc] at hbegun
  | some began =>
    obtain ⟨hle, hfailed⟩ := hm.expired hnone began hchecked
    rw [verifyAsync_mono hv hle] at hfailed
    cases hfailed

/-- A guard that refuses tells the client why. -/
theorem freshOk_rejecting {error : GuardError} {pass : GuardPass}
    (hlog : GuardEvent.rejected m.socket error ∈ log)
    (hwhy : pass.verifiedAt = none → Unverified (w.socket m.socket).token error) :
    FreshOk limits w log { m with pass := pass, pc := .rejecting error } := by
  refine ⟨by simp, by simp, by simp, fun error' he => ?_⟩
  cases he
  exact ⟨hlog, hwhy⟩

/-- A statement keeps the message fresh, unless the auth guard trusts a stale user. -/
theorem GuardStep.freshOk (h : GuardStep limits count w m w' m' es) (hu : UsersVerified w log)
    (hp : PassOk w log m) (hm : FreshOk limits w log m)
    (hquiet : m.pc = .rateLimited → (w.socket m.socket).user.isSome → m.pass.verifiedAt.isSome) :
    FreshOk limits w' (log ++ es) m' := by
  have hm' : FreshOk limits w' (log ++ es) m := hm.later (h.later hu)
  cases h with
  | verifies hpc hv => exact ⟨by simp, by simp, by simp, by simp⟩
  | staysUnverified hpc hv =>
    exact ⟨by simp, by simp, by simp, by simp⟩
  | countsUser hpc hc =>
    exact ⟨by simp, fun _ _ => ⟨count, rfl, hc⟩, by simp, by simp⟩
  | rejectsUser hpc hc =>
    refine freshOk_rejecting (List.mem_append_right _ List.mem_cons_self) fun hnone => ?_
    have hsome := hm.verifying _ hpc
    rw [hnone] at hsome
    cases hsome
  | countsIp hpc hc =>
    refine ⟨by simp, fun _ => ?_, by simp, by simp⟩
    exact hm.counted (by rw [hpc]; rfl)
  | rejectsIp hpc hc =>
    exact freshOk_rejecting (List.mem_append_right _ List.mem_cons_self) fun _ => trivial
  | trustsUser hpc huser =>
    refine ⟨by simp, fun _ => ?_, fun _ => hquiet hpc huser, by simp⟩
    exact hm.counted (by rw [hpc]; rfl)
  | rejectsNoToken hpc ht =>
    exact freshOk_rejecting (List.mem_append_right _ List.mem_cons_self) fun _ => ht
  | asksAgain hpc =>
    refine ⟨by simp, fun _ => ?_, by simp, by simp⟩
    exact hm.counted (by rw [hpc]; rfl)
  | verifiesAgain hpc hv =>
    refine ⟨by simp, fun _ _ => ?_, fun _ => rfl, by simp⟩
    exact hm.counted (by rw [hpc]; rfl) (verified_before hp hpc hv)
  | rejectsToken hpc hv =>
    exact freshOk_rejecting (List.mem_append_right _ List.mem_cons_self) fun _ => trivial
  | allows hpc hr =>
    refine ⟨by simp, fun _ => ?_, fun _ => ?_, by simp⟩
    · exact hm.counted (by rw [hpc]; rfl)
    · exact hm.trusted (by rw [hpc]; rfl)
  | forbids hpc =>
    exact ⟨by simp, by simp, by simp, by simp⟩
  | handles hpc =>
    refine ⟨by simp, fun _ => ?_, fun _ => ?_, by simp⟩
    · exact hm.counted (by rw [hpc]; rfl)
    · exact hm.trusted (by rw [hpc]; rfl)
  | refuses hpc =>
    refine ⟨by simp, by simp, by simp, fun error he => ?_⟩
    cases he
    exact hm'.refused _ (by rw [hpc]; rfl)

theorem FreshOk.throw (h : m.throw = some m') : FreshOk limits w log m' := by
  rw [throw_eq h]
  exact ⟨by simp, by simp, by simp, by simp⟩

/-- The whole invariant, while no message is let through for a stale user. -/
def FreshState (limits : Limits) (s : GuardState) : Prop :=
  GuardsOk s ∧ ∀ m ∈ s.procs, FreshOk limits s.world s.log m

theorem freshState_step (hs : FreshState limits s) (hquiet : ¬ TrustsStaleUser s act)
    (ht : Pool.step (guards limits) s act = some t) : FreshState limits t := by
  obtain ⟨hok, hm⟩ := hs
  refine ⟨guardsOk_step hok ht, ?_⟩
  cases Pool.step_inv ht with
  | @start w procs log m hb =>
    have hb : m = .arrive m.socket m.handler := of_decide_eq_true hb
    intro m' hm'
    rcases List.mem_append.mp hm' with hm' | hm'
    · exact hm m' hm'
    · rw [List.mem_singleton.mp hm', hb]
      exact ⟨by simp [Message.arrive], by simp [Message.arrive], by simp [Message.arrive],
        by simp [Message.arrive]⟩
  | @run w w' l r log m m' es count hstep =>
    have hg := guardStep_inv hstep
    intro q hq
    rcases mem_split.mp hq with rfl | hq
    · have hmem : m ∈ l ++ m :: r := mem_split.mpr (.inl rfl)
      apply hg.freshOk hok.1 (hok.2 m hmem) (hm m hmem)
      intro hpc huser
      by_contra hnot
      apply hquiet
      exact ⟨m, moving_run, hpc, Option.not_isSome_iff_eq_none.mp hnot, huser⟩
    · exact (hm q (mem_split.mpr (.inr hq))).later (hg.later hok.1)
  | @env w procs log k =>
    exact fun m hm' => (hm m hm').later (later_wait k)
  | kill hk => exact forall_replace hm fun h => FreshOk.throw hk

theorem handledFreshly_of_freshState (hs : FreshState limits s) {m : Message} (hm : m ∈ s.procs)
    (hpc : m.pc = .allowed) : HandledFreshly limits s m := by
  have hfresh := hs.2 m hm
  have hverified : m.pass.verifiedAt.isSome := hfresh.trusted (by rw [hpc]; rfl)
  obtain ⟨t, ht⟩ := Option.isSome_iff_exists.mp hverified
  exact ⟨⟨t, ht, (hs.1.2 m hm).verified t ht⟩, hfresh.counted (by rw [hpc]; rfl) hverified⟩

theorem expiredRefused_of_freshState (hs : FreshState limits s) : ExpiredRefused s := by
  intro m hm
  have hfresh := hs.2 m hm
  refine ⟨fun hnone hpc => ?_, fun error hpc => hfresh.refused error (by rw [hpc]; rfl)⟩
  have hverified := hfresh.trusted (by rw [hpc]; rfl)
  rw [hnone] at hverified
  cases hverified

/-- Where the auth guard trusts no stale user, every handled message has been verified and counted,
    and every message with a token that does not verify is refused. -/
theorem handled_freshly (limits : Limits) (w : GuardWorld) (schedule : List GuardAction)
    (hfresh : ∀ id, (w.socket id).user = none)
    (hquiet : Along (Pool.step (guards limits)) (fun s act _ => ¬ TrustsStaleUser s act)
      ⟨w, [], []⟩ schedule) :
    Along (Pool.step (guards limits)) (fun s act _ => ∀ m ∈ bodyRun s act, HandledFreshly limits s m)
      ⟨w, [], []⟩ schedule ∧
    Always (Pool.step (guards limits)) ExpiredRefused ⟨w, [], []⟩ schedule := by
  refine run_of_inv (I := FreshState limits) ?_ (fun s => expiredRefused_of_freshState) schedule
    ⟨guardsOk_start hfresh, fun m hm => nomatch hm⟩ hquiet
  intro s act t hs hq ht
  refine ⟨freshState_step hs hq ht, fun m hbody => ?_⟩
  obtain ⟨hmoving, hpc⟩ := Option.mem_filter_iff.mp hbody
  exact handledFreshly_of_freshState hs (mem_of_moving hmoving) (of_decide_eq_true hpc)

/-- Bob joins, his token expires, and then he bids. -/
def expiredSchedule : List GuardAction :=
  [.start (.arrive bobSocket .joinAuction)] ++ List.replicate 6 (.run 0 1) ++ [.env 10] ++
    [.start (.arrive bobSocket .placeBid)] ++ List.replicate 5 (.run 1 1)

theorem expired_token_is_handled :
    ¬ (Along (Pool.step (guards ⟨3, 10⟩))
        (fun s act _ => ∀ m ∈ bodyRun s act, HandledFreshly ⟨3, 10⟩ s m)
        ⟨connectedWorld, [], []⟩ expiredSchedule ∧
      Always (Pool.step (guards ⟨3, 10⟩)) ExpiredRefused ⟨connectedWorld, [], []⟩ expiredSchedule) := by
  intro h
  exact absurd h.1 (by unfold HandledFreshly; decide +kernel)

/-- Ann joins, and Bob's first message comes when his token has expired. -/
def refusedSchedule : List GuardAction :=
  [.start (.arrive annSocket .joinAuction)] ++ List.replicate 6 (.run 0 1) ++ [.env 10] ++
    [.start (.arrive bobSocket .placeBid)] ++ List.replicate 5 (.run 1 1)

theorem handled_freshly_refused :
    (Along (Pool.step (guards ⟨3, 10⟩))
        (fun s act _ => ∀ m ∈ bodyRun s act, HandledFreshly ⟨3, 10⟩ s m)
        ⟨connectedWorld, [], []⟩ refusedSchedule ∧
      Always (Pool.step (guards ⟨3, 10⟩)) ExpiredRefused
        ⟨connectedWorld, [], []⟩ refusedSchedule) ∧
    (exec (Pool.step (guards ⟨3, 10⟩)) ⟨connectedWorld, [], []⟩ refusedSchedule).map
      (fun s => s.procs.map Message.pc) = some [.handled, .refused .invalidToken] := by
  refine ⟨handled_freshly _ _ _ connectedWorld_user ?_, by decide +kernel⟩
  unfold TrustsStaleUser
  decide +kernel

end CarAuction
