import CarAuction.Guards

/- What the guards promise the handlers. `guards_mediate`: whenever a handler body
   runs, all its guards have returned `true` in their order, `client.user` is the
   payload of the socket's own token, which verified in this guard pass or before it
   began, and for `endAuction` its role is `admin`.

   Both class-level guards write `client.user`, and the auth guard trusts what an
   earlier message left there. The invariant `GuardsOk` therefore speaks of every
   message ever sent: an attached user has always come from the socket's own token,
   so that attaching it again changes nothing for the messages that have read it. -/
namespace CarAuction

open Pool Machine

/-- All guards of the handler have returned `true`, in their order, and the client's user is the
    payload of its own token, which verified in the guard pass of the message or before it began. -/
def Mediated (s : GuardState) (m : Message) : Prop :=
  m.pass.passed = classGuards ++ m.handler.methodGuards ∧
  ∃ token ∈ (s.world.socket m.socket).token,
    (s.world.socket m.socket).user = some token.payload ∧
    (∃ t, GuardEvent.verified m.socket t ∈ s.log ∧ verifyAsync t (some token) = some token.payload ∧
      (m.pass.verifiedAt = some t ∨ ∃ began ∈ m.pass.checkedAt, t < began)) ∧
    (m.handler = .endAuction → token.payload.role = some "admin")

/-! What stays as it is while other messages move. -/

structure Later (w w' : GuardWorld) (log log' : List GuardEvent) : Prop where
  now : w.now ≤ w'.now
  token : ∀ id, (w'.socket id).token = (w.socket id).token
  user : ∀ id user, (w.socket id).user = some user → (w'.socket id).user = some user
  log : log ⊆ log'

/-- A user that has been attached is the payload of a token that has verified. -/
def UsersVerified (w : GuardWorld) (log : List GuardEvent) : Prop :=
  ∀ id user, (w.socket id).user = some user → ∃ t ≤ w.now, GuardEvent.verified id t ∈ log ∧
    verifyAsync t (w.socket id).token = some user

/-- The guards that have returned `true` for a message that is there. -/
def GuardPc.passed (handler : Handler) : GuardPc → Option (List Guard)
  | arrived => some []
  | verified _ => some []
  | userCounted => some []
  | rateLimited => some [.connectionRateLimit]
  | unverified => some [.connectionRateLimit]
  | authenticated => some classGuards
  | allowed => some (classGuards ++ handler.methodGuards)
  | _ => none

/-- What a message has observed. -/
structure PassOk (w : GuardWorld) (log : List GuardEvent) (m : Message) : Prop where
  begun : m.pass.checkedAt = none → m.pc = .arrived ∨ m.pc = .threw
  verified : ∀ t ∈ m.pass.verifiedAt, GuardEvent.verified m.socket t ∈ log ∧
    (verifyAsync t (w.socket m.socket).token).isSome
  expired : m.pass.verifiedAt = none → ∀ t ∈ m.pass.checkedAt, t ≤ w.now ∧
    verifyAsync t (w.socket m.socket).token = none
  attached : m.pc = .authenticated ∨ m.pc = .allowed → (w.socket m.socket).user.isSome
  role : m.pc = .allowed → rolesGuard m.handler (w.socket m.socket).user = .ok ()
  passed : ∀ guards ∈ m.pc.passed m.handler, m.pass.passed = guards

variable {limits : Limits} {count : ℕ} {w w' : GuardWorld} {log log' es : List GuardEvent}
  {m m' : Message} {s t : GuardState} {act : GuardAction} {id : SocketId} {user : JwtPayload}

/-- Attaching the payload of the token again changes nothing. -/
theorem later_setUser (h : UsersVerified w log)
    (hv : verifyAsync w.now (w.socket id).token = some user) :
    Later w (w.setUser id user) log (log ++ [.verified id w.now]) := by
  refine ⟨le_rfl, fun id' => setUser_token, fun id' user' huser => ?_, List.subset_append_left _ _⟩
  by_cases hid : id' = id
  · subst hid
    obtain ⟨t, -, -, ht⟩ := h id' user' huser
    obtain ⟨token, htoken, hpayload⟩ := verifyAsync_payload hv
    obtain ⟨token', htoken', hpayload'⟩ := verifyAsync_payload ht
    cases htoken.symm.trans htoken'
    rw [setUser_user_self, hpayload, hpayload']
  · rw [setUser_user_of_ne hid]
    exact huser

theorem PassOk.later (h : PassOk w log m) (hl : Later w w' log log') : PassOk w' log' m := by
  refine ⟨h.begun, fun t ht => ?_, fun hnone t ht => ?_, fun hpc => ?_, fun hpc => ?_, h.passed⟩
  · rw [hl.token]
    exact ⟨hl.log (h.verified t ht).1, (h.verified t ht).2⟩
  · rw [hl.token]
    exact ⟨(h.expired hnone t ht).1.trans hl.now, (h.expired hnone t ht).2⟩
  · obtain ⟨user, huser⟩ := Option.isSome_iff_exists.mp (h.attached hpc)
    rw [hl.user _ _ huser]
    rfl
  · obtain ⟨user, huser⟩ := Option.isSome_iff_exists.mp (h.attached (.inr hpc))
    rw [hl.user _ _ huser, ← huser]
    exact h.role hpc

theorem later_emit : Later w w log (log ++ es) :=
  ⟨le_rfl, fun _ => rfl, fun _ _ h => h, List.subset_append_left _ _⟩

theorem later_wait (k : ℕ) : Later w { w with now := w.now + k } log log :=
  ⟨Int.le_add_of_nonneg_right (Int.natCast_nonneg k), fun _ => rfl, fun _ _ h => h,
    List.Subset.refl log⟩

theorem UsersVerified.later (h : UsersVerified w log) (hl : Later w w' log log')
    (huser : ∀ id, (w'.socket id).user = (w.socket id).user) : UsersVerified w' log' := by
  intro id user hu
  rw [huser] at hu
  obtain ⟨t, ht, hlog, hv⟩ := h id user hu
  rw [← hl.token] at hv
  exact ⟨t, ht.trans hl.now, hl.log hlog, hv⟩

theorem UsersVerified.setUser (h : UsersVerified w log)
    (hv : verifyAsync w.now (w.socket id).token = some user) :
    UsersVerified (w.setUser id user) (log ++ [.verified id w.now]) := by
  intro id' user' hu
  by_cases hid : id' = id
  · subst hid
    rw [setUser_user_self] at hu
    cases hu
    refine ⟨w.now, le_rfl, List.mem_append_right _ List.mem_cons_self, ?_⟩
    rw [setUser_token]
    exact hv
  · rw [setUser_user_of_ne hid] at hu
    obtain ⟨t, ht, hlog, hv'⟩ := h id' user' hu
    refine ⟨t, ht, List.mem_append_left _ hlog, ?_⟩
    rw [setUser_token]
    exact hv'

/-! What a statement of the guards keeps. -/

theorem GuardStep.later (h : GuardStep limits count w m w' m' es) (hu : UsersVerified w log) :
    Later w w' log (log ++ es) := by
  cases h with
  | verifies _ hv => exact later_setUser hu hv
  | verifiesAgain _ hv => exact later_setUser hu hv
  | _ => exact later_emit

theorem GuardStep.usersVerified (h : GuardStep limits count w m w' m' es)
    (hu : UsersVerified w log) : UsersVerified w' (log ++ es) := by
  cases h with
  | verifies _ hv => exact hu.setUser hv
  | verifiesAgain _ hv => exact hu.setUser hv
  | _ => exact hu.later later_emit fun _ => rfl

/-- The observations of a message that has begun. -/
theorem PassOk.observed (h : PassOk w log m) {pass : GuardPass}
    (hbegun : m.pc ≠ .arrived ∧ m.pc ≠ .threw) (hchecked : pass.checkedAt = m.pass.checkedAt)
    (hverified : pass.verifiedAt = m.pass.verifiedAt) :
    pass.checkedAt ≠ none ∧
    (∀ t ∈ pass.verifiedAt, GuardEvent.verified m.socket t ∈ log ∧
      (verifyAsync t (w.socket m.socket).token).isSome) ∧
    (pass.verifiedAt = none → ∀ t ∈ pass.checkedAt, t ≤ w.now ∧
      verifyAsync t (w.socket m.socket).token = none) := by
  rw [hchecked, hverified]
  refine ⟨fun hnone => ?_, h.verified, h.expired⟩
  rcases h.begun hnone with hpc | hpc
  · exact hbegun.1 hpc
  · exact hbegun.2 hpc

/-- A message moves on, with its observations as they are and the guards `gs` behind it besides. -/
theorem PassOk.move (h : PassOk w log m) {pc : GuardPc} {pass : GuardPass} {before gs : List Guard}
    (hbegun : m.pc ≠ .arrived ∧ m.pc ≠ .threw) (hchecked : pass.checkedAt = m.pass.checkedAt)
    (hverified : pass.verifiedAt = m.pass.verifiedAt)
    (hbefore : m.pc.passed m.handler = some before)
    (hafter : pc.passed m.handler = some (before ++ gs)) (hpassed : pass.passed = m.pass.passed ++ gs)
    (hattached : pc = .authenticated ∨ pc = .allowed → (w.socket m.socket).user.isSome)
    (hrole : pc = .allowed → rolesGuard m.handler (w.socket m.socket).user = .ok ()) :
    PassOk w log { m with pass := pass, pc := pc } := by
  obtain ⟨hsome, hv, he⟩ := h.observed hbegun hchecked hverified
  refine ⟨fun hnone => absurd hnone hsome, hv, he, hattached, hrole, fun guards hg => ?_⟩
  dsimp only at hg ⊢
  rw [hafter] at hg
  cases hg
  rw [hpassed, h.passed before hbefore]

/-- A guard has returned `false` or thrown, or the handler has run. -/
theorem PassOk.stop (h : PassOk w log m) {pc : GuardPc} {pass : GuardPass}
    (hbegun : m.pc ≠ .arrived ∧ m.pc ≠ .threw) (hchecked : pass.checkedAt = m.pass.checkedAt)
    (hverified : pass.verifiedAt = m.pass.verifiedAt) (hpc : pc.passed m.handler = none) :
    PassOk w log { m with pass := pass, pc := pc } := by
  obtain ⟨hsome, hv, he⟩ := h.observed hbegun hchecked hverified
  refine ⟨fun hnone => absurd hnone hsome, hv, he, ?_, ?_, ?_⟩
  · rintro (rfl | rfl)
    · cases hpc
    · cases hpc
  · rintro rfl
    cases hpc
  · intro guards hg
    dsimp only at hg
    rw [hpc] at hg
    cases hg

/-- The rate-limit guard begins, and its own check yields the payload or fails. -/
theorem passOk_arrived {pass : GuardPass} {pc : GuardPc} (hchecked : pass.checkedAt = some w.now)
    (hverified : ∀ t ∈ pass.verifiedAt, GuardEvent.verified m.socket t ∈ log ∧
      (verifyAsync t (w.socket m.socket).token).isSome)
    (hexpired : pass.verifiedAt = none → verifyAsync w.now (w.socket m.socket).token = none)
    (hpc : pc.passed m.handler = some []) (hpassed : pass.passed = [])
    (hguard : pc ≠ .authenticated ∧ pc ≠ .allowed) :
    PassOk w log { m with pass := pass, pc := pc } := by
  refine ⟨fun hnone => ?_, hverified, fun hnone t ht => ?_, fun h => ?_, fun h => ?_,
    fun guards hg => ?_⟩
  · dsimp only at hnone
    rw [hchecked] at hnone
    cases hnone
  · dsimp only at ht
    rw [hchecked] at ht
    cases ht
    exact ⟨le_rfl, hexpired hnone⟩
  · rcases h with h | h
    · exact absurd h hguard.1
    · exact absurd h hguard.2
  · exact absurd h hguard.2
  · dsimp only at hg ⊢
    rw [hpc] at hg
    cases hg
    exact hpassed

theorem GuardStep.passOk (h : GuardStep limits count w m w' m' es) (hu : UsersVerified w log)
    (hm : PassOk w log m) : PassOk w' (log ++ es) m' := by
  have hm' : PassOk w' (log ++ es) m := hm.later (h.later hu)
  cases h with
  | verifies hpc hv =>
    refine passOk_arrived rfl (fun t ht => ?_) (by simp) rfl rfl (by simp)
    cases ht
    rw [setUser_token, hv]
    exact ⟨List.mem_append_right _ List.mem_cons_self, rfl⟩
  | staysUnverified hpc hv => exact passOk_arrived rfl (by simp) (fun _ => hv) rfl rfl (by simp)
  | countsUser hpc _ =>
    exact hm'.move (by simp [hpc]) rfl rfl (by rw [hpc]; rfl) rfl (List.append_nil _).symm (by simp)
      (by simp)
  | countsIp hpc _ =>
    exact hm'.move (by simp [hpc]) rfl rfl (by rw [hpc]; rfl) rfl rfl (by simp) (by simp)
  | trustsUser hpc huser =>
    exact hm'.move (by simp [hpc]) rfl rfl (by rw [hpc]; rfl) rfl rfl (fun _ => huser) (by simp)
  | asksAgain hpc =>
    exact hm'.move (by simp [hpc]) rfl rfl (by rw [hpc]; rfl) rfl (List.append_nil _).symm (by simp)
      (by simp)
  | verifiesAgain hpc hv =>
    refine ⟨fun hnone => ?_, fun t ht => ?_, by simp [GuardPass.pass], fun _ => ?_, by simp, ?_⟩
    · have hbegun := hm.begun hnone
      simp [hpc] at hbegun
    · cases ht
      rw [setUser_token, hv]
      exact ⟨List.mem_append_right _ List.mem_cons_self, rfl⟩
    · rw [setUser_user_self]
      rfl
    · intro guards hg
      cases hg
      rw [GuardPass.pass, hm.passed [.connectionRateLimit] (by rw [hpc]; rfl)]
      rfl
  | allows hpc hrole =>
    exact hm'.move (by simp [hpc]) rfl rfl (by rw [hpc]; rfl) rfl rfl
      (fun _ => hm'.attached (.inl hpc)) (fun _ => hrole)
  | rejectsUser hpc _ => exact hm'.stop (by simp [hpc]) rfl rfl rfl
  | rejectsIp hpc _ => exact hm'.stop (by simp [hpc]) rfl rfl rfl
  | rejectsNoToken hpc _ => exact hm'.stop (by simp [hpc]) rfl rfl rfl
  | rejectsToken hpc _ => exact hm'.stop (by simp [hpc]) rfl rfl rfl
  | forbids hpc => exact hm'.stop (by simp [hpc]) rfl rfl rfl
  | handles hpc => exact hm'.stop (by simp [hpc]) rfl rfl rfl
  | refuses hpc => exact hm'.stop (by simp [hpc]) rfl rfl rfl

/-- The invariant of the guards. -/
def GuardsOk (s : GuardState) : Prop :=
  UsersVerified s.world s.log ∧ ∀ m ∈ s.procs, PassOk s.world s.log m

theorem passOk_arrive {handler : Handler} : PassOk w log (.arrive id handler) := by
  refine ⟨fun _ => .inl rfl, ?_, ?_, ?_, ?_, ?_⟩
  · simp [Message.arrive]
  · simp [Message.arrive]
  · simp [Message.arrive]
  · simp [Message.arrive]
  · intro guards hg
    cases hg
    rfl

theorem throw_eq (h : m.throw = some m') : m' = { m with pc := .threw } := by
  unfold Message.throw at h
  split at h
  all_goals cases h
  rfl

theorem PassOk.throw (h : PassOk w log m) (hm : m.throw = some m') : PassOk w log m' := by
  rw [throw_eq hm]
  refine ⟨fun _ => .inr rfl, h.verified, h.expired, ?_, ?_, ?_⟩
  · simp
  · simp
  · simp [GuardPc.passed]

/-- Every statement keeps what the messages have observed. -/
theorem guardsOk_step (hs : GuardsOk s) (ht : Pool.step (guards limits) s act = some t) :
    GuardsOk t := by
  obtain ⟨hu, hm⟩ := hs
  cases Pool.step_inv ht with
  | @start w procs log m hb =>
    have hb : m = .arrive m.socket m.handler := of_decide_eq_true hb
    refine ⟨hu, fun m' hm' => ?_⟩
    rcases List.mem_append.mp hm' with hm' | hm'
    · exact hm m' hm'
    · rw [List.mem_singleton.mp hm', hb]
      exact passOk_arrive
  | @run w w' l r log m m' es count hstep =>
    have hg := guardStep_inv hstep
    refine ⟨hg.usersVerified hu, fun q hq => ?_⟩
    rcases mem_split.mp hq with rfl | hq
    · exact hg.passOk hu (hm m (mem_split.mpr (.inl rfl)))
    · exact (hm q (mem_split.mpr (.inr hq))).later (hg.later hu)
  | @env w procs log k =>
    exact ⟨hu.later (later_wait k) fun _ => rfl, fun m hm' => (hm m hm').later (later_wait k)⟩
  | kill hk => exact ⟨hu, forall_replace hm fun h => h.throw hk⟩

theorem guardsOk_start (hfresh : ∀ id, (w.socket id).user = none) : GuardsOk ⟨w, [], []⟩ := by
  refine ⟨fun id user hu => ?_, fun m hm => nomatch hm⟩
  rw [hfresh id] at hu
  cases hu

/-! Complete mediation. -/

theorem rolesGuard_admin (h : rolesGuard .endAuction (some user) = .ok ()) :
    user.role = some "admin" := by
  unfold rolesGuard at h
  cases hrole : user.role with
  | none => simp [Handler.requiredRole, hrole] at h
  | some role =>
    simp only [Handler.requiredRole, Option.bind_some, hrole] at h
    split at h
    · cases h
    · split at h
      · cases h
      · next hne => rw [not_not.mp hne]

theorem mediated_of_passOk (hu : UsersVerified s.world s.log) (hm : PassOk s.world s.log m)
    (hpc : m.pc = .allowed) : Mediated s m := by
  obtain ⟨user, huser⟩ := Option.isSome_iff_exists.mp (hm.attached (.inr hpc))
  obtain ⟨t, -, hlog, hv⟩ := hu m.socket user huser
  obtain ⟨token, htoken, rfl⟩ := verifyAsync_payload hv
  have hrole := hm.role hpc
  rw [huser] at hrole
  refine ⟨hm.passed _ (by rw [hpc]; rfl), token, htoken, huser, ?_, fun hend => ?_⟩
  · cases hverified : m.pass.verifiedAt with
    | some t' =>
      obtain ⟨hlog', hv'⟩ := hm.verified t' hverified
      obtain ⟨user', hv'⟩ := Option.isSome_iff_exists.mp hv'
      rw [htoken] at hv'
      obtain ⟨token', htoken', rfl⟩ := verifyAsync_payload hv'
      cases htoken'
      exact ⟨t', hlog', hv', .inl rfl⟩
    | none =>
      -- the own verification has failed, so the one that attached the user came before
      rw [htoken] at hv
      refine ⟨t, hlog, hv, .inr ?_⟩
      cases hchecked : m.pass.checkedAt with
      | none =>
        rcases hm.begun hchecked with h | h
        · cases hpc.symm.trans h
        · cases hpc.symm.trans h
      | some began =>
        have hnot := (hm.expired hverified began hchecked).2
        rw [htoken] at hnot
        exact ⟨began, rfl, lt_of_expired hv hnot⟩
  · rw [hend] at hrole
    exact rolesGuard_admin hrole

/-- Complete mediation: no handler body runs without a user that its own socket's token has
    verified, nor that of `endAuction` for a role other than `admin`. -/
theorem guards_mediate (limits : Limits) (w : GuardWorld) (schedule : List GuardAction)
    (hfresh : ∀ id, (w.socket id).user = none) :
    Along (Pool.step (guards limits)) (fun s act _ => ∀ m ∈ bodyRun s act, Mediated s m)
      ⟨w, [], []⟩ schedule := by
  apply along_of_inv (I := GuardsOk) (P := fun _ _ _ => True) _ schedule _ (along_true schedule)
  · intro s act t hs _ ht
    refine ⟨guardsOk_step hs ht, fun m hbody => ?_⟩
    obtain ⟨hmoving, hpc⟩ := Option.mem_filter_iff.mp hbody
    exact mediated_of_passOk hs.1 (hs.2 m (mem_of_moving hmoving)) (of_decide_eq_true hpc)
  · exact guardsOk_start hfresh

/-- Ann is an admin, Bob a bidder, and both tokens expire. -/
def connectedWorld : GuardWorld :=
  { now := 0
    socket := fun id =>
      if id = annSocket then ⟨"10.0.0.1", some ⟨⟨1, "ann", some "admin"⟩, true, some 1000⟩, none⟩
      else ⟨"10.0.0.2", some ⟨⟨2, "bob", some "user"⟩, true, some 5⟩, none⟩ }

theorem connectedWorld_user (id : SocketId) : (connectedWorld.socket id).user = none := by
  simp only [connectedWorld]
  split
  · rfl
  · rfl

/-- Both ask to end an auction. -/
def mediatedSchedule : List GuardAction :=
  [.start (.arrive annSocket .endAuction), .start (.arrive bobSocket .endAuction)] ++
    (List.range 5).flatMap (fun _ => [.run 0 1, .run 1 1]) ++ [.run 0 0]

theorem guards_mediate_two_sockets :
    Along (Pool.step (guards ⟨3, 10⟩)) (fun s act _ => ∀ m ∈ bodyRun s act, Mediated s m)
      ⟨connectedWorld, [], []⟩ mediatedSchedule ∧
    (exec (Pool.step (guards ⟨3, 10⟩)) ⟨connectedWorld, [], []⟩ mediatedSchedule).map
      (fun s => s.procs.map Message.pc) = some [.handled, .forbidden .insufficientPermissions] :=
  ⟨guards_mediate _ _ _ connectedWorld_user, by decide +kernel⟩

end CarAuction
