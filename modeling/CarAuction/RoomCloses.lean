import CarAuction.Presence

/- What becomes of the room of an auction that is over. Each gateway instance that handles
   the `auctionEnd` message disconnects the sockets it has in the room, and handles each of
   these disconnects some time later; meanwhile joins go on, with a state of the auction
   that may have been read before the close. A socket that enters with such a state when
   its instance has handled the end is never disconnected by it.

   The machine is that of `Presence`. A client does not go away in the middle of its own
   join, and does not begin one when it is gone. What is left of the room is then known by
   its sockets. Its names are those of these sockets, but one of them may be missing: the
   one that a late `srem` has taken out (`presence_settles_iff`). -/
namespace CarAuction

open Machine Registry

/-- No join is running, but for the report of an auction that does not exist. -/
def JoinPc.idle : JoinPc → Bool
  | begin => true
  | notFound => true
  | finished => true
  | _ => false

/-- The socket is registered, and its join not over. -/
def JoinPc.holding : JoinPc → Bool
  | registered _ => true
  | announced _ => true
  | _ => false

variable {ι : Type}

/-- A client goes away when no join of its socket runs, and begins none after that. -/
def Undisturbed (s : Presence ι) : PresenceAction ι → Presence ι → Prop
  | .join id _ _, _ => s.join id = .begin → s.leave id = none
  | .disconnect id, _ => (s.join id).idle = true
  | _, _ => True

instance {s t : Presence ι} {act : PresenceAction ι} : Decidable (Undisturbed s act t) := by
  unfold Undisturbed
  split <;> infer_instance

/-- All instances have handled the end of the auction, and all joins and disconnects of its sockets
    are over. -/
def EndHandled (config : PresenceConfig ι) (a : ℤ) (s : Presence ι) : Prop :=
  (∀ i, s.ended i a = true) ∧ ∀ id, config.auction id = a →
    (s.join id).idle = true ∧ (s.leave id = none ∨ s.leave id = some .finished)

/-- Of an auction whose end is handled the registered sockets are those still in the room, these have
    entered late, and only their names are online. -/
structure OnlyLatecomers (config : PresenceConfig ι) (s : Presence ι) : Prop where
  sockets : ∀ a, EndHandled config a s → ∀ u id, id ∈ s.registry.userAuction u (some a) ↔
    (config.client id).username = u ∧ config.auction id = a ∧ s.inRoom id a
  late : ∀ a, EndHandled config a s → ∀ id, config.auction id = a → s.inRoom id a →
    (s.view id).late = true
  names : ∀ a, EndHandled config a s → ∀ u ∈ s.registry.onlineInAuctionID a,
    (s.registry.userAuction u (some a)).Nonempty

/-- What a leave holds in its local variables: of a socket that is registered until it is removed. -/
def UnregisterPc.LeavesOf (username : String) (auctionId : ℤ) (named : Prop) : UnregisterPc → Prop
  | begin => True
  | foundUsername u => u = username ∧ named
  | foundIp u _ => u = username ∧ named
  | foundAuctionId u _ a => u = username ∧ a = some auctionId ∧ named
  | removed u a => u = username ∧ a = some auctionId ∧ ¬ named
  | offline u a => u = username ∧ a = some auctionId ∧ ¬ named
  | forgotten u a => u = username ∧ a = some auctionId ∧ ¬ named
  | finished => ¬ named

/-- How far a socket is: whether its username is registered, its join, its leave, the rooms it is in, and
    whether it entered late. -/
structure PhaseOk (config : PresenceConfig ι) (id : SocketId) (named : Prop) (pc : JoinPc)
    (leave : Option UnregisterPc) (joined : List ℤ) (late closed : Bool) : Prop where
  quiet : leave ≠ none → pc.idle = true
  holding : pc.holding = true → named
  inside : ∀ c ∈ joined, c = config.auction id ∧ named ∧ leave = none ∧ pc = .finished
  registered : named → pc.holding = true ∨ joined ≠ [] ∨ leave ≠ none
  leaving : ∀ pc ∈ leave, pc.LeavesOf (config.client id).username (config.auction id) named
  late : joined ≠ [] → (late = true ↔ closed = true)

/-- The phase of a socket in a state. -/
def Presence.PhaseOf (config : PresenceConfig ι) (s : Presence ι) (id : SocketId) : Prop :=
  PhaseOk config id (s.registry.socketUsername id ≠ none) (s.join id) (s.leave id) (s.view id).joined
    (s.view id).late (s.ended (config.gateway id) (config.auction id))

/-- The keys and the sets say the same of every socket. -/
structure KeysOk (config : PresenceConfig ι) (r : Registry) : Prop where
  members : ∀ u a id, id ∈ r.userAuction u a →
    r.socketUsername id = some u ∧ a = some (config.auction id)
  keys : ∀ id u, r.socketUsername id = some u → u = (config.client id).username ∧
    r.socketAuctionId id = some (config.auction id) ∧
    id ∈ r.userAuction u (some (config.auction id))

/-- A socket has seen that none is left, or is about to. -/
def EmptiedBy (a : ℤ) (u : String) (s : Presence ι) : Prop :=
  ∃ id, s.leave id = some (.removed u (some a)) ∨ s.leave id = some (.offline u (some a))

structure CloseoutInv (config : PresenceConfig ι) (s : Presence ι) : Prop where
  keys : KeysOk config s.registry
  names : ∀ a u, u ∈ s.registry.onlineInAuctionID a → s.registry.userAuction u (some a) = ∅ →
    EmptiedBy a u s
  phases : ∀ id, s.PhaseOf config id

variable {config : PresenceConfig ι} {s t : Presence ι} {act : PresenceAction ι} {id : SocketId}
  {room : AuctionRoom} {a : ℤ} {u : String} {now : Time} {r : Registry} {pc : JoinPc}
  {leave : Option UnregisterPc} {joined : List ℤ} {named named' : Prop} {late closed closed' : Bool}
  {us : List SessionUpdate}

/-! One socket. -/

theorem JoinPc.idle_of_holding (h : pc.holding = true) : pc.idle = false := by
  cases pc with
  | registered => rfl
  | announced => rfl
  | _ => cases h

theorem PhaseOk.waits (h : PhaseOk config id named pc leave joined late closed) (pc' : JoinPc)
    (hrunning : pc ≠ .finished) (hholding : pc'.holding = pc.holding)
    (hidle : pc'.idle = true ∨ pc.idle = false ∨ leave = none) :
    PhaseOk config id named pc' leave joined late closed := by
  obtain ⟨hquiet, hheld, hinside, hregistered, hleaving, hlate⟩ := h
  refine ⟨fun hleave => ?_, by rwa [hholding], fun c hc => ?_, by rwa [hholding], hleaving, hlate⟩
  · rcases hidle with hidle | hbusy | hnone
    · exact hidle
    · rw [hquiet hleave] at hbusy
      cases hbusy
    · exact absurd hnone hleave
  · exact absurd (hinside c hc).2.2.2 hrunning

/-- The MULTI block of the join. -/
theorem PhaseOk.registers (h : PhaseOk config id named (.listed room) leave joined late closed) :
    PhaseOk config id True (.registered room) leave joined late closed := by
  have hnone : leave = none := by
    by_contra hleave
    cases h.quiet hleave
  subst hnone
  refine ⟨fun hleave => absurd rfl hleave, fun _ => trivial, fun c hc => ?_, fun _ => .inl rfl,
    fun pc hpc => (by cases hpc), h.late⟩
  cases (h.inside c hc).2.2.2

theorem PhaseOk.enters (h : PhaseOk config id named (.announced room) leave joined late closed) :
    PhaseOk config id named .finished leave (config.auction id :: joined) closed closed := by
  have hnone : leave = none := by
    by_contra hleave
    cases h.quiet hleave
  subst hnone
  have hempty : joined = [] := by
    by_contra hne
    obtain ⟨c, hc⟩ := List.exists_mem_of_ne_nil joined hne
    cases (h.inside c hc).2.2.2
  subst hempty
  refine ⟨fun hleave => absurd rfl hleave, fun hholding => (by cases hholding), fun c hc => ?_,
    fun _ => .inr (.inl (List.cons_ne_nil _ _)), fun pc hpc => (by cases hpc), fun _ => Iff.rfl⟩
  exact ⟨List.mem_singleton.mp hc, h.holding rfl, rfl, rfl⟩

/-- A socket that is connected is gone. -/
theorem PhaseOk.drops (h : PhaseOk config id named pc none joined late closed)
    (hidle : pc.idle = true) (closed' : Bool) :
    PhaseOk config id named pc (some .begin) [] late closed' := by
  refine ⟨fun _ => hidle, h.holding, fun c hc => (by cases hc), fun _ => .inr (.inr (by simp)),
    fun pc hpc => ?_, fun hne => absurd rfl hne⟩
  cases hpc
  trivial

/-- A statement of the leave. -/
theorem PhaseOk.leaves {pc' pc'' : UnregisterPc}
    (h : PhaseOk config id named pc (some pc') joined late closed)
    (hpc : pc''.LeavesOf (config.client id).username (config.auction id) named') :
    PhaseOk config id named' pc (some pc'') joined late closed := by
  have hidle : pc.idle = true := h.quiet (by simp)
  refine ⟨fun _ => hidle, fun hholding => ?_, fun c hc => ?_, fun _ => .inr (.inr (by simp)),
    fun pc hpc' => ?_, h.late⟩
  · rw [JoinPc.idle_of_holding hholding] at hidle
    cases hidle
  · cases (h.inside c hc).2.2.1
  · cases hpc'
    exact hpc

/-- The end of the auction, for a socket that is not in its room. -/
theorem PhaseOk.ends (h : PhaseOk config id named pc leave joined late closed)
    (hclosed : joined ≠ [] → closed' = closed) :
    PhaseOk config id named pc leave joined late closed' := by
  refine ⟨h.quiet, h.holding, h.inside, h.registered, h.leaving, fun hne => ?_⟩
  rw [hclosed hne]
  exact h.late hne

/-! The keys and the names. -/

theorem KeysOk.registers (h : KeysOk config r) (id : SocketId) :
    KeysOk config (r.registerMulti (config.client id).username id (config.client id).ip
      (config.auction id)) := by
  refine ⟨fun u a other hother => ?_, fun other u hother => ?_⟩
  · rcases mem_registerMulti_userAuction.mp hother with ⟨⟨rfl, rfl⟩, rfl⟩ | hold
    · exact ⟨Function.update_self .., rfl⟩
    · obtain ⟨hname, hauction⟩ := h.members u a other hold
      refine ⟨?_, hauction⟩
      by_cases hself : other = id
      · subst hself
        rw [(h.keys other u hname).1]
        exact Function.update_self ..
      · exact (Function.update_of_ne hself ..).trans hname
  · rw [mem_registerMulti_userAuction]
    by_cases hself : other = id
    · subst hself
      cases (Function.update_self ..).symm.trans hother
      exact ⟨rfl, Function.update_self .., .inl ⟨⟨rfl, rfl⟩, rfl⟩⟩
    · obtain ⟨hname, hauction, hmem⟩ :=
        h.keys other u ((Function.update_of_ne hself ..).symm.trans hother)
      exact ⟨hname, (Function.update_of_ne hself ..).trans hauction, .inr hmem⟩

/-- The MULTI block of the leave, with what its reads have returned. -/
theorem KeysOk.removes (h : KeysOk config r) (id : SocketId) (ip : Option String) :
    KeysOk config (r.unregisterMulti id (config.client id).username ip (some (config.auction id))) := by
  refine ⟨fun u a other hother => ?_, fun other u hother => ?_⟩
  · obtain ⟨hnot, hold⟩ := mem_unregisterMulti_userAuction.mp hother
    obtain ⟨hname, hauction⟩ := h.members u a other hold
    have hne : other ≠ id := by
      rintro rfl
      exact hnot ⟨⟨(h.keys other u hname).1, hauction⟩, rfl⟩
    exact ⟨(Function.update_of_ne hne ..).trans hname, hauction⟩
  · have hne : other ≠ id := by
      rintro rfl
      cases (Function.update_self ..).symm.trans hother
    obtain ⟨hname, hauction, hmem⟩ := h.keys other u ((Function.update_of_ne hne ..).symm.trans hother)
    refine ⟨hname, (Function.update_of_ne hne ..).trans hauction, ?_⟩
    exact mem_unregisterMulti_userAuction.mpr ⟨fun hself => hne hself.2, hmem⟩

theorem EmptiedBy.kept (h : EmptiedBy a u s)
    (hleave : ∀ id, s.leave id = some (.removed u (some a)) ∨ s.leave id = some (.offline u (some a)) →
      t.leave id = some (.removed u (some a)) ∨ t.leave id = some (.offline u (some a))) :
    EmptiedBy a u t := by
  obtain ⟨id, hid⟩ := h
  exact ⟨id, hleave id hid⟩

/-! One step. -/

/-- A step that moves one socket, and keeps the usernames of the others. -/
theorem CloseoutInv.moved (h : CloseoutInv config s) (id : SocketId) (hkeys : KeysOk config t.registry)
    (hnames : ∀ a u, u ∈ t.registry.onlineInAuctionID a → t.registry.userAuction u (some a) = ∅ →
      EmptiedBy a u t)
    (hothers : ∀ other, other ≠ id → t.registry.socketUsername other = s.registry.socketUsername other ∧
      t.join other = s.join other ∧ t.leave other = s.leave other ∧
      (t.view other).joined = (s.view other).joined ∧ (t.view other).late = (s.view other).late)
    (hended : t.ended = s.ended) (hself : t.PhaseOf config id) : CloseoutInv config t := by
  refine ⟨hkeys, hnames, fun other => ?_⟩
  by_cases hne : other = id
  · subst hne
    exact hself
  · obtain ⟨husername, hjoin, hleave, hjoined, hlate⟩ := hothers other hne
    unfold Presence.PhaseOf
    rw [husername, hjoin, hleave, hjoined, hlate, hended]
    exact h.phases other

/-- A statement of a join that leaves the registry alone. -/
theorem CloseoutInv.states (h : CloseoutInv config s) (id : SocketId) (hr : t.registry = s.registry)
    (hleave : t.leave = s.leave) (hended : t.ended = s.ended)
    (hothers : ∀ other, other ≠ id → t.join other = s.join other ∧
      (t.view other).joined = (s.view other).joined ∧ (t.view other).late = (s.view other).late)
    (hself : t.PhaseOf config id) : CloseoutInv config t := by
  refine h.moved id (by rw [hr]; exact h.keys) ?_ ?_ hended hself
  · intro a u
    rw [hr]
    intro honline hempty
    exact (h.names a u honline hempty).kept fun other hother => by rwa [hleave]
  · intro other hne
    exact ⟨by rw [hr], (hothers other hne).1, by rw [hleave], (hothers other hne).2⟩

theorem CloseoutInv.waits (h : CloseoutInv config s) (hrunning : s.join id ≠ .finished)
    (hholding : pc.holding = (s.join id).holding)
    (hidle : pc.idle = true ∨ (s.join id).idle = false ∨ s.leave id = none) :
    CloseoutInv config { s with join := Function.update s.join id pc } := by
  refine h.states id rfl rfl rfl (fun other hne => ⟨Function.update_of_ne hne .., rfl, rfl⟩) ?_
  have hwaits := (h.phases id).waits pc hrunning hholding hidle
  simpa [Presence.PhaseOf] using hwaits

theorem CloseoutInv.disconnect (h : CloseoutInv config s) (hidle : (s.join id).idle = true) :
    CloseoutInv config (s.disconnect id) := by
  by_cases hnone : s.leave id = none
  · refine h.moved id (by simpa using h.keys) ?_ (fun other hne => ?_) (by simp) ?_
    · intro a u
      rw [Presence.disconnect_registry]
      intro honline hempty
      refine (h.names a u honline hempty).kept fun other hother => ?_
      rw [Presence.disconnect_leave, if_neg]
      · exact hother
      · rintro ⟨rfl, -⟩
        rw [hnone] at hother
        rcases hother with hother | hother <;> cases hother
    · simp [Presence.disconnect_leave, Presence.disconnect_view, hne]
    · have hphase := h.phases id
      unfold Presence.PhaseOf at hphase ⊢
      rw [hnone] at hphase
      simpa [Presence.disconnect_leave, Presence.disconnect_view, hnone] using hphase.drops hidle _
  · unfold Presence.disconnect
    rw [if_neg hnone]
    exact h

theorem CloseoutInv.enters (h : CloseoutInv config s) (hid : s.join id = .announced room) :
    CloseoutInv config (({ s with join := Function.update s.join id .finished } : Presence ι).perform
      config id (.joined (config.auction id))) := by
  refine h.states id rfl rfl rfl (fun other hne => ?_) ?_
  · simp [Presence.perform, Presence.setView, hne]
  · have hphase := h.phases id
    unfold Presence.PhaseOf at hphase
    rw [hid] at hphase
    simpa [Presence.PhaseOf, Presence.perform, Presence.setView] using hphase.enters

/-- A statement of a leave that leaves the sets of sockets alone. -/
theorem CloseoutInv.left {pc' pc'' : UnregisterPc} (h : CloseoutInv config s)
    (hid : s.leave id = some pc') (hkeys : KeysOk config t.registry)
    (hname : t.registry.socketUsername = s.registry.socketUsername)
    (hset : t.registry.userAuction = s.registry.userAuction)
    (hleave : t.leave = Function.update s.leave id (some pc'')) (hjoin : t.join = s.join)
    (hview : t.view = s.view) (hended : t.ended = s.ended)
    (hpc : pc''.LeavesOf (config.client id).username (config.auction id)
      (s.registry.socketUsername id ≠ none))
    (honline : ∀ a u, u ∈ t.registry.onlineInAuctionID a → s.registry.userAuction u (some a) = ∅ →
      u ∈ s.registry.onlineInAuctionID a ∧
        (pc' = .removed u (some a) ∨ pc' = .offline u (some a) → pc'' = .offline u (some a))) :
    CloseoutInv config t := by
  refine h.moved id hkeys ?_ (fun other hne => ?_) hended ?_
  · intro a u hu hempty
    rw [hset] at hempty
    obtain ⟨hu, hself⟩ := honline a u hu hempty
    refine (h.names a u hu hempty).kept fun other hother => ?_
    rw [hleave]
    by_cases hne : other = id
    · subst hne
      rw [Function.update_self]
      rw [hid, Option.some_inj, Option.some_inj] at hother
      exact .inr (congrArg some (hself hother))
    · rw [Function.update_of_ne hne]
      exact hother
  · rw [hname, hjoin, hleave, hview, Function.update_of_ne hne]
    exact ⟨rfl, rfl, rfl, rfl, rfl⟩
  · have hphase := h.phases id
    unfold Presence.PhaseOf at hphase ⊢
    rw [hid] at hphase
    rw [hname, hjoin, hleave, hview, hended, Function.update_self]
    exact hphase.leaves hpc

/-- The MULTI block of a leave. -/
theorem CloseoutInv.removes {ip : Option String} {auctionId : Option ℤ} (h : CloseoutInv config s)
    (hid : s.leave id = some (.foundAuctionId u ip auctionId)) :
    CloseoutInv config { s with
      registry := s.registry.unregisterMulti id u ip auctionId
      leave := Function.update s.leave id (some (.removed u auctionId)) } := by
  have hphase := h.phases id
  unfold Presence.PhaseOf at hphase
  rw [hid] at hphase
  obtain ⟨rfl, rfl, -⟩ := hphase.leaving _ rfl
  refine h.moved id (h.keys.removes id ip) ?_ (fun other hne => ?_) rfl ?_
  · intro a u honline hempty
    by_cases hself : u = (config.client id).username ∧ some a = some (config.auction id)
    · obtain ⟨rfl, hauction⟩ := hself
      rw [← hauction]
      exact ⟨id, .inl (Function.update_self ..)⟩
    · rw [unregisterMulti_userAuction, if_neg hself] at hempty
      refine (h.names a u honline hempty).kept fun other hother => ?_
      rcases hother with hother | hother
      · exact .inl (update_kept (by simp [hid]) hother)
      · exact .inr (update_kept (by simp [hid]) hother)
  · simp [unregisterMulti, hne]
  · have hleaves : UnregisterPc.LeavesOf (config.client id).username (config.auction id) False
        (.removed (config.client id).username (some (config.auction id))) := ⟨rfl, rfl, fun h => h⟩
    simpa [Presence.PhaseOf, unregisterMulti] using hphase.leaves hleaves

theorem CloseoutInv.leaves {pc' pc'' : UnregisterPc} {r' : Registry} (h : CloseoutInv config s)
    (hid : s.leave id = some pc') (hstep : LeaveStep id now s.registry pc' r' pc'' us) :
    CloseoutInv config (us.foldl Presence.publish
      { s with registry := r', leave := Function.update s.leave id (some pc'') }) := by
  have hphase := h.phases id
  unfold Presence.PhaseOf at hphase
  have hpc := hphase.leaving pc' hid
  -- a statement that neither counts nor writes
  have hquiet : (∀ a u, ¬ (pc' = .removed u (some a) ∨ pc' = .offline u (some a))) → ∀ a u,
      u ∈ s.registry.onlineInAuctionID a → s.registry.userAuction u (some a) = ∅ →
        u ∈ s.registry.onlineInAuctionID a ∧
          (pc' = .removed u (some a) ∨ pc' = .offline u (some a) → pc'' = .offline u (some a)) :=
    fun hnot a u hu _ => ⟨hu, fun hself => absurd hself (hnot a u)⟩
  cases hstep with
  | unknown hnone =>
    refine h.left hid h.keys rfl rfl rfl rfl rfl rfl ?_ (hquiet (by simp))
    rintro hnamed
    rcases hnone with hnone | hempty
    · exact hnamed hnone
    · exact (config.client id).nonempty (h.keys.keys id "" hempty).1.symm
  | findsUsername hname =>
    refine h.left hid h.keys rfl rfl rfl rfl rfl rfl ?_ (hquiet (by simp))
    exact ⟨(h.keys.keys id _ hname).1, by simp [hname]⟩
  | findsIp => exact h.left hid h.keys rfl rfl rfl rfl rfl rfl hpc (hquiet (by simp))
  | findsAuctionId =>
    obtain ⟨huser, hnamed⟩ := hpc
    obtain ⟨name, hname⟩ := Option.ne_none_iff_exists'.mp hnamed
    refine h.left hid h.keys rfl rfl rfl rfl rfl rfl ?_ (hquiet (by simp))
    exact ⟨huser, (h.keys.keys id name hname).2.1, hnamed⟩
  | removes => exact h.removes hid
  | counts hlast =>
    refine h.left hid h.keys rfl rfl rfl rfl rfl rfl hpc fun a u hu _ => ⟨hu, ?_⟩
    rintro (heq | heq) <;> cases heq
    rfl
  | remains hmore =>
    refine h.left hid h.keys rfl rfl rfl rfl rfl rfl hpc.2.2 fun a u hu hempty => ⟨hu, ?_⟩
    rintro (heq | heq) <;> cases heq
    exact absurd hempty hmore
  | forgets =>
    refine h.left hid ⟨h.keys.members, h.keys.keys⟩ rfl rfl rfl rfl rfl rfl hpc fun a u hu _ => ?_
    obtain ⟨hu, hother⟩ := forgetUsername_online.mp hu
    refine ⟨hu, ?_⟩
    rintro (heq | heq) <;> cases heq
    exact absurd ⟨rfl, rfl⟩ hother
  | announces => exact h.left hid h.keys rfl rfl rfl rfl rfl rfl hpc.2.2 (hquiet (by simp))

/-- An instance disconnects the sockets it has in the room. -/
theorem CloseoutInv.ends [DecidableEq ι] (h : CloseoutInv config s) (i : ι) (a : ℤ) :
    CloseoutInv config (s.auctionEnd config i a) := by
  refine ⟨h.keys, fun a' u honline hempty => ?_, fun id => ?_⟩
  · refine (h.names a' u honline hempty).kept fun other hother => ?_
    have hout : ¬ (config.gateway other = i ∧ s.inRoom other a) := by
      rintro ⟨-, hnone, -⟩
      rw [hnone] at hother
      rcases hother with hother | hother <;> cases hother
    simpa only [Presence.auctionEnd, if_neg hout] using hother
  · have hphase := h.phases id
    unfold Presence.PhaseOf at hphase ⊢
    by_cases hhit : config.gateway id = i ∧ s.inRoom id a
    · obtain ⟨hnone, hmem⟩ := Presence.inRoom_iff.mp hhit.2
      obtain ⟨-, -, -, hfinished⟩ := hphase.inside a hmem
      rw [hnone] at hphase
      simpa only [Presence.auctionEnd, if_pos hhit] using hphase.drops (by rw [hfinished]; rfl) _
    · have hclosed : (s.view id).joined ≠ [] →
          (s.auctionEnd config i a).ended (config.gateway id) (config.auction id) =
            s.ended (config.gateway id) (config.auction id) := by
        intro hne
        obtain ⟨c, hc⟩ := List.exists_mem_of_ne_nil _ hne
        obtain ⟨rfl, -, hnone, -⟩ := hphase.inside c hc
        have hother : config.gateway id = i → config.auction id ≠ a := by
          rintro hgateway rfl
          exact hhit ⟨hgateway, Presence.inRoom_iff.mpr ⟨hnone, hc⟩⟩
        by_cases hgateway : config.gateway id = i
        · simp [Presence.auctionEnd, hgateway, Function.update_of_ne (hother hgateway)]
        · simp [Presence.auctionEnd, Function.update_of_ne hgateway]
      simpa only [Presence.auctionEnd, if_neg hhit] using hphase.ends hclosed

theorem CloseoutInv.registers (h : CloseoutInv config s) (hid : s.join id = .listed room) :
    CloseoutInv config { s with
      registry := s.registry.registerMulti (config.client id).username id (config.client id).ip
        (config.auction id)
      join := Function.update s.join id (.registered room) } := by
  refine h.moved id (h.keys.registers id) ?_ (fun other hne => ?_) rfl ?_
  · intro a u honline hempty
    rw [registerMulti_userAuction] at hempty
    rw [registerMulti_online] at honline
    split at hempty
    · simp at hempty
    · next hself =>
      have hold : u ∈ s.registry.onlineInAuctionID a :=
        honline.resolve_left fun hboth => hself ⟨hboth.1, congrArg some hboth.2⟩
      exact (h.names a u hold hempty).kept fun other hother => hother
  · simp [registerMulti, hne]
  · have hphase := h.phases id
    unfold Presence.PhaseOf at hphase
    rw [hid] at hphase
    simpa [Presence.PhaseOf, registerMulti] using hphase.registers

theorem closeoutInv_step [DecidableEq ι] (s : Presence ι) (act : PresenceAction ι) (t : Presence ι)
    (h : CloseoutInv config s) (hclient : Undisturbed s act t)
    (ht : presenceStep config s act = some t) : CloseoutInv config t := by
  cases presenceStep_inv ht with
  | finds hid =>
    exact h.waits (by simp [hid]) (by rw [hid]; rfl) (.inr (.inr (hclient hid)))
  | @refuses id _ _ hid =>
    have hwaits : CloseoutInv config { s with join := Function.update s.join id .notFound } :=
      h.waits (by simp [hid]) (by rw [hid]; rfl) (.inl rfl)
    exact hwaits.disconnect (by simp [JoinPc.idle])
  | reports hid => exact h.waits (by simp [hid]) (by rw [hid]; rfl) (.inl rfl)
  | @lists id room room' now hid =>
    refine h.states id rfl rfl rfl (fun other hne => ?_) ?_
    · simp [Presence.setView, hne]
    · have hphase := h.phases id
      unfold Presence.PhaseOf at hphase
      rw [hid] at hphase
      have hlisted := hphase.waits (.listed room') (by simp) rfl (.inr (.inl rfl))
      simpa [Presence.PhaseOf, Presence.setView] using hlisted
  | registers hid => exact h.registers hid
  | @announces id room room' now hid =>
    have hwaits : CloseoutInv config { s with join := Function.update s.join id (.announced room') } :=
      h.waits (by simp [hid]) (by rw [hid]; rfl) (.inr (.inl (by rw [hid]; rfl)))
    exact ⟨hwaits.keys, hwaits.names, hwaits.phases⟩
  | enters hid => exact h.enters hid
  | turnsAway hid => exact (h.enters hid).disconnect (by simp [Presence.perform, Presence.setView, JoinPc.idle])
  | disconnects => exact h.disconnect hclient
  | leaves hid hstep => exact h.leaves hid hstep
  | @delivers i p a _ _ =>
    refine ⟨h.keys, h.names, fun id => ?_⟩
    have hphase := h.phases id
    unfold Presence.PhaseOf at hphase ⊢
    by_cases htold : config.gateway id = i ∧ s.inRoom id a
    · simpa only [if_pos htold] using hphase
    · simpa only [if_neg htold] using hphase
  | @ends i a => exact h.ends i a

theorem closeoutInv_start : CloseoutInv config .start := by
  refine ⟨⟨fun u a id hid => ?_, fun id u hid => ?_⟩, fun a u hu => ?_, fun id => ?_⟩
  · exact absurd hid (Finset.notMem_empty _)
  · cases hid
  · exact absurd hu (Finset.notMem_empty _)
  · exact ⟨fun hleave => absurd rfl hleave, fun hholding => (by cases hholding),
      fun c hc => absurd hc List.not_mem_nil, fun hnamed => absurd rfl hnamed,
      fun pc hpc => (by cases hpc), fun hne => absurd rfl hne⟩

/-- A registered socket whose join and disconnect are not running is in its room. -/
theorem CloseoutInv.inRoom (h : CloseoutInv config s) (hname : s.registry.socketUsername id ≠ none)
    (hidle : (s.join id).idle = true) (hleave : s.leave id = none ∨ s.leave id = some .finished) :
    s.inRoom id (config.auction id) := by
  have hphase := h.phases id
  have hnone : s.leave id = none := by
    rcases hleave with hnone | hfinished
    · exact hnone
    · exact absurd hname (hphase.leaving .finished hfinished)
  rcases hphase.registered hname with hholding | hne | hgone
  · rw [JoinPc.idle_of_holding hholding] at hidle
    cases hidle
  · obtain ⟨c, hc⟩ := List.exists_mem_of_ne_nil _ hne
    obtain ⟨rfl, -⟩ := hphase.inside c hc
    exact Presence.inRoom_iff.mpr ⟨hnone, hc⟩
  · exact absurd hnone hgone

theorem CloseoutInv.onlyLatecomers (h : CloseoutInv config s) : OnlyLatecomers config s := by
  constructor
  case sockets =>
    rintro a ⟨-, hover⟩ u id
    constructor
    · intro hid
      obtain ⟨hname, hauction⟩ := h.keys.members u (some a) id hid
      cases hauction
      obtain ⟨hidle, hleave⟩ := hover id rfl
      exact ⟨(h.keys.keys id u hname).1.symm, rfl, h.inRoom (by simp [hname]) hidle hleave⟩
    · rintro ⟨rfl, rfl, hin⟩
      obtain ⟨-, hmem⟩ := Presence.inRoom_iff.mp hin
      obtain ⟨-, hnamed, -⟩ := (h.phases id).inside _ hmem
      obtain ⟨username, hname⟩ := Option.ne_none_iff_exists'.mp hnamed
      obtain ⟨rfl, -, hset⟩ := h.keys.keys id username hname
      exact hset
  case late =>
    rintro a ⟨hended, -⟩ id rfl hin
    obtain ⟨-, hmem⟩ := Presence.inRoom_iff.mp hin
    exact ((h.phases id).late (List.ne_nil_of_mem hmem)).mpr (hended _)
  case names =>
    rintro a ⟨-, hover⟩ u hu
    by_contra hempty
    rw [Finset.not_nonempty_iff_eq_empty] at hempty
    -- the leave that has emptied the set would still be running
    obtain ⟨id, hid⟩ := h.names a u hu hempty
    have hauction : config.auction id = a := by
      rcases hid with hid | hid
      · obtain ⟨-, hauction, -⟩ := (h.phases id).leaving _ hid
        exact (Option.some.inj hauction).symm
      · obtain ⟨-, hauction, -⟩ := (h.phases id).leaving _ hid
        exact (Option.some.inj hauction).symm
    obtain ⟨-, hnone | hfinished⟩ := hover id hauction
    · rw [hnone] at hid
      rcases hid with hid | hid <;> cases hid
    · rw [hfinished] at hid
      rcases hid with hid | hid <;> cases hid

/-- In every run: when all instances have handled the end of an auction, and no join or disconnect for it
    is running, the registered sockets are exactly those still in its room, all of which entered after
    their instance had handled the end, and no name is online but theirs. -/
theorem only_latecomers_remain [DecidableEq ι] (config : PresenceConfig ι)
    (schedule : List (PresenceAction ι))
    (hclient : Along (presenceStep config) Undisturbed .start schedule) :
    Always (presenceStep config) (OnlyLatecomers config) .start schedule :=
  always_of_inv closeoutInv_step (fun _ hs => hs.onlyLatecomers) schedule closeoutInv_start hclient

/-- Bob's join has read the auction before its end, and enters after it. Ann is put out. -/
def bobEntersLate : List (PresenceAction Unit) :=
  joins annSocket 5 ++ joins bobSocket 4 ++ [.auctionEnd () 1] ++ leaves annSocket 7 ++
    joins bobSocket 1

theorem only_latecomers_remain_bob :
    Always (presenceStep annAndBob) (OnlyLatecomers annAndBob) .start bobEntersLate :=
  only_latecomers_remain annAndBob bobEntersLate (by decide +kernel)

/-- It ends with the leave of Ann over and Bob in the room. -/
example : (exec (presenceStep annAndBob) .start bobEntersLate).map (fun s =>
    (s.leave annSocket, s.leave bobSocket, (s.view bobSocket).late, s.registry.onlineInAuctionID 1)) =
    some (some .finished, none, true, {"bob"}) := by
  decide +kernel

end CarAuction
