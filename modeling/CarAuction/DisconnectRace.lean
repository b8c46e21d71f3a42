import CarAuction.JoinAuction

/- Does a disconnect free the slots of a socket that is still joining? The statements
   of the socket's `handleJoinAuction` and of its `handleDisconnect` interleave.
   `unregisterSocket` gives up when it finds no username, so a join whose MULTI block
   runs after that read registers a socket that is gone, and nothing removes it again.
   `disconnect_frees_iff`: the slots are free in the end exactly when the block does
   not run that late. -/
namespace CarAuction

open Machine Registry

/-- The two handlers of one socket, and what they have emitted. -/
structure JoinRace where
  registry : Registry
  join : JoinPc
  leave : UnregisterPc
  log : List JoinEffect

def JoinRace.start (r : Registry) : JoinRace := ⟨r, .begin, .begin, []⟩

inductive RaceAction where
  | join (room : AuctionRoom) (now : Time)
  | disconnect (now : Time)

def raceStep (client : Client) (id : SocketId) (auctionId : ℤ) (s : JoinRace) :
    RaceAction → Option JoinRace
  | .join room now =>
    (joinStep client id auctionId room now s.registry s.join).map fun t =>
      { s with registry := t.1, join := t.2.1, log := s.log ++ t.2.2 }
  | .disconnect now =>
    (unregisterStep id now s.registry s.leave).map fun t =>
      { s with registry := t.1, leave := t.2.1, log := s.log ++ t.2.2.map .sessionUpdate }

/-- The MULTI block of the join is still to come, if the auction exists. -/
def JoinPc.unregistered : JoinPc → Bool
  | begin => true
  | foundRoom _ => true
  | listed _ => true
  | _ => false

/-- The MULTI block runs when the disconnect has looked for the username. -/
def RegistersLate (s : JoinRace) : RaceAction → Prop
  | .join _ _ => (∃ room, s.join = .listed room) ∧ s.leave ≠ .begin
  | .disconnect _ => False

/-- The disconnect has read nothing of the socket, or has removed it. -/
def UnregisterPc.idle : UnregisterPc → Prop
  | foundUsername _ => False
  | foundIp _ _ => False
  | foundAuctionId _ _ _ => False
  | _ => True

/-- The disconnect has read, so far, what the join has registered. -/
def UnregisterPc.hasRead (username ip : String) (auctionId : ℤ) : UnregisterPc → Prop
  | begin => True
  | foundUsername u => u = username
  | foundIp u i => u = username ∧ i = some ip
  | foundAuctionId u i a => u = username ∧ i = some ip ∧ a = some auctionId
  | _ => False

/-- Registered or not, the disconnect knows it. -/
def Orderly (client : Client) (id : SocketId) (auctionId : ℤ) (s : JoinRace) : Prop :=
  (Freed s.registry id ∧ s.leave.idle ∧
    (s.join.unregistered = true → s.leave = .begin ∨ s.leave = .finished)) ∨
  (Holds s.registry id client.username client.ip auctionId ∧
    s.leave.hasRead client.username client.ip auctionId ∧ s.join.unregistered = false)

/-- The socket is registered and its disconnect is over. -/
def Leaked (client : Client) (id : SocketId) (s : JoinRace) : Prop :=
  s.leave = .finished ∧ id ∈ s.registry.userSockets client.username

variable {client : Client} {id : SocketId} {auctionId : ℤ} {s t : JoinRace} {act : RaceAction}
  {room : AuctionRoom} {now : Time} {r r' : Registry} {pc pc' : JoinPc} {lv lv' : UnregisterPc}
  {es : List JoinEffect} {us : List SessionUpdate}

/-! One statement. -/

/-- A statement of the join registers the socket, or leaves the registry alone. -/
theorem joinStep_registry (h : joinStep client id auctionId room now r pc = some (r', pc', es)) :
    ((∃ room, pc = .listed room) ∧ pc'.unregistered = false ∧
      r' = r.registerMulti client.username id client.ip auctionId) ∨
    (r' = r ∧ (pc'.unregistered = true → pc.unregistered = true)) := by
  cases pc with
  | begin =>
    simp only [joinStep] at h
    split at h
    · cases h
      exact .inr ⟨rfl, fun _ => rfl⟩
    · cases h
      exact .inr ⟨rfl, fun h => by cases h⟩
  | notFound => cases h; exact .inr ⟨rfl, fun h => by cases h⟩
  | foundRoom room => cases h; exact .inr ⟨rfl, fun _ => rfl⟩
  | listed room => cases h; exact .inl ⟨⟨room, rfl⟩, rfl, rfl⟩
  | registered room => cases h; exact .inr ⟨rfl, fun h => by cases h⟩
  | announced room => cases h; exact .inr ⟨rfl, fun h => by cases h⟩
  | finished => cases h

/-- While nothing of the socket is there, the disconnect finds nothing. -/
theorem unregisterStep_freed (hfree : Freed r id) (hidle : lv.idle)
    (h : unregisterStep id now r lv = some (r', lv', us)) :
    Freed r' id ∧ lv'.idle ∧ (lv = .begin → lv' = .finished) := by
  cases lv with
  | begin =>
    simp only [unregisterStep, hfree.socketUsername] at h
    cases h
    exact ⟨hfree, trivial, fun _ => rfl⟩
  | removed username auctionId =>
    simp only [unregisterStep] at h
    split at h
    · cases h
      exact ⟨hfree, trivial, fun h => by cases h⟩
    · cases h
      exact ⟨hfree, trivial, fun h => by cases h⟩
  | offline username auctionId => cases h; exact ⟨hfree.forget, trivial, fun h => by cases h⟩
  | forgotten username auctionId => cases h; exact ⟨hfree, trivial, fun h => by cases h⟩
  | finished => cases h
  | foundUsername username => exact hidle.elim
  | foundIp username ip => exact hidle.elim
  | foundAuctionId username ip auctionId => exact hidle.elim

/-- What the join has registered the disconnect reads, and then removes. -/
theorem unregisterStep_holds (hhold : Holds r id client.username client.ip auctionId)
    (hread : lv.hasRead client.username client.ip auctionId)
    (h : unregisterStep id now r lv = some (r', lv', us)) :
    (r' = r ∧ lv'.hasRead client.username client.ip auctionId) ∨ (Freed r' id ∧ lv'.idle) := by
  cases lv with
  | begin =>
    simp only [unregisterStep, hhold.socketUsername, if_neg client.nonempty] at h
    cases h
    exact .inl ⟨rfl, rfl⟩
  | foundUsername username =>
    cases h
    exact .inl ⟨rfl, hread, hhold.socketIp⟩
  | foundIp username ip =>
    cases h
    exact .inl ⟨rfl, hread.1, hread.2, hhold.socketAuctionId⟩
  | foundAuctionId username ip auctionId =>
    obtain ⟨rfl, rfl, rfl⟩ := hread
    cases h
    exact .inr ⟨hhold.unregister, trivial⟩
  | removed username auctionId => exact hread.elim
  | offline username auctionId => exact hread.elim
  | forgotten username auctionId => exact hread.elim
  | finished => exact hread.elim

/-! The race. -/

theorem orderly_step (hs : Orderly client id auctionId s)
    (h : raceStep client id auctionId s act = some t) (hlate : ¬ RegistersLate s act) :
    Orderly client id auctionId t := by
  cases act with
  | join room now =>
    obtain ⟨⟨r, pc, es⟩, hstep, rfl⟩ := Option.map_eq_some_iff.mp h
    rcases joinStep_registry hstep with ⟨⟨room, hlisted⟩, hpc, rfl⟩ | ⟨rfl, hpc⟩
    · have hbegin : s.leave = .begin := by
        by_contra hne
        exact hlate ⟨⟨room, hlisted⟩, hne⟩
      rcases hs with ⟨hfree, -, -⟩ | ⟨-, -, hjoin⟩
      · refine .inr ⟨hfree.register, ?_, hpc⟩
        dsimp only
        rw [hbegin]
        trivial
      · rw [hlisted] at hjoin
        cases hjoin
    · rcases hs with ⟨hfree, hidle, hjoin⟩ | ⟨hhold, hread, hjoin⟩
      · exact .inl ⟨hfree, hidle, fun h => hjoin (hpc h)⟩
      · refine .inr ⟨hhold, hread, ?_⟩
        by_contra hne
        rw [hpc (Bool.not_eq_false _ ▸ hne)] at hjoin
        cases hjoin
  | disconnect now =>
    obtain ⟨⟨r, lv, us⟩, hstep, rfl⟩ := Option.map_eq_some_iff.mp h
    rcases hs with ⟨hfree, hidle, hjoin⟩ | ⟨hhold, hread, hjoin⟩
    · obtain ⟨hfree, hidle, hbegin⟩ := unregisterStep_freed hfree hidle hstep
      refine .inl ⟨hfree, hidle, fun h => ?_⟩
      rcases hjoin h with hl | hl
      · exact .inr (hbegin hl)
      · rw [hl] at hstep
        cases hstep
    · rcases unregisterStep_holds hhold hread hstep with ⟨rfl, hread⟩ | ⟨hfree, hidle⟩
      · exact .inr ⟨hhold, hread, hjoin⟩
      · refine .inl ⟨hfree, hidle, fun h => ?_⟩
        rw [hjoin] at h
        cases h

theorem leaked_of_late (hs : Orderly client id auctionId s)
    (h : raceStep client id auctionId s act = some t) (hlate : RegistersLate s act) :
    Leaked client id t := by
  cases act with
  | disconnect now => exact hlate.elim
  | join room now =>
    obtain ⟨⟨room, hlisted⟩, hbegun⟩ := hlate
    obtain ⟨⟨r, pc, es⟩, hstep, rfl⟩ := Option.map_eq_some_iff.mp h
    rcases hs with ⟨-, -, hjoin⟩ | ⟨-, -, hjoin⟩
    · rw [hlisted] at hstep hjoin
      cases hstep
      refine ⟨(hjoin rfl).resolve_left hbegun, ?_⟩
      simp
    · rw [hlisted] at hjoin
      cases hjoin

/-- No later event of the socket removes it. -/
theorem leaked_step (hs : Leaked client id s) (h : raceStep client id auctionId s act = some t) :
    Leaked client id t := by
  obtain ⟨hover, hmem⟩ := hs
  cases act with
  | disconnect now =>
    obtain ⟨t, hstep, -⟩ := Option.map_eq_some_iff.mp h
    rw [hover] at hstep
    cases hstep
  | join room now =>
    obtain ⟨⟨r, pc, es⟩, hstep, rfl⟩ := Option.map_eq_some_iff.mp h
    refine ⟨hover, ?_⟩
    rcases joinStep_registry hstep with ⟨-, -, rfl⟩ | ⟨rfl, -⟩
    · simp
    · exact hmem

/-- When both handlers of a new socket have finished, it is in no set and has no key exactly when
    the join's MULTI block did not run after the disconnect had looked for the username. -/
theorem disconnect_frees_iff (client : Client) (id : SocketId) (auctionId : ℤ) (r : Registry)
    (schedule : List RaceAction) (s : JoinRace) (hnew : Freed r id)
    (hrun : exec (raceStep client id auctionId) (.start r) schedule = some s)
    (hdone : s.join = .finished ∧ s.leave = .finished) :
    Freed s.registry id ↔
      Along (raceStep client id auctionId) (fun s act _ => ¬ RegistersLate s act)
        (.start r) schedule := by
  refine last_iff_of_inv (I := Orderly client id auctionId) (J := Leaked client id)
    (fun _ _ _ hs h hlate => orderly_step hs h hlate) (fun _ _ _ hs h hlate => leaked_of_late hs h hlate)
    (fun _ _ _ hs h => leaked_step hs h) ?_ ?_ schedule ?_ hrun
  · intro hs
    rcases hs with ⟨hfree, -, -⟩ | ⟨-, hread, -⟩
    · exact hfree
    · rw [hdone.2] at hread
      exact hread.elim
  · intro hs hfree
    exact hfree.userSockets _ hs.2
  · exact .inl ⟨hnew, trivial, fun _ => .inl rfl⟩

/-- The disconnect looks for the username while the join is about to register the socket. -/
def lateRegistration : List RaceAction :=
  [.join openRoom 0, .join openRoom 0, .disconnect 1, .join openRoom 2, .join openRoom 2,
    .join openRoom 2]

theorem disconnect_leaks : ∃ s, exec (raceStep annClient annSocket 1) (.start .empty)
    lateRegistration = some s ∧ s.join = .finished ∧ s.leave = .finished ∧
      ¬ Freed s.registry annSocket := by
  obtain ⟨s, hs, hjoin, hleave, hmem⟩ : ∃ s ∈ exec (raceStep annClient annSocket 1)
      (.start .empty) lateRegistration,
      s.join = .finished ∧ s.leave = .finished ∧ annSocket ∈ s.registry.userSockets "ann" := by
    decide +kernel
  exact ⟨s, hs, hjoin, hleave, fun h => h.userSockets _ hmem⟩

/-- The same with the MULTI block in time. -/
def timelyRegistration : List RaceAction :=
  List.replicate 3 (.join openRoom 0) ++ List.replicate 4 (.disconnect 1) ++
    List.replicate 2 (.join openRoom 2) ++ List.replicate 3 (.disconnect 2)

theorem disconnect_frees_iff_timely : ∃ s, exec (raceStep annClient annSocket 1) (.start .empty)
    timelyRegistration = some s ∧
      (Freed s.registry annSocket ↔ Along (raceStep annClient annSocket 1)
        (fun s act _ => ¬ RegistersLate s act) (.start .empty) timelyRegistration) := by
  obtain ⟨s, hs, hend⟩ : ∃ s ∈ exec (raceStep annClient annSocket 1) (.start .empty) timelyRegistration,
      s.join = .finished ∧ s.leave = .finished := by decide +kernel
  refine ⟨s, hs, disconnect_frees_iff annClient annSocket 1 .empty timelyRegistration s ?_ hs hend⟩
  exact ⟨fun _ => Finset.notMem_empty _, fun _ => Finset.notMem_empty _,
    fun _ _ => Finset.notMem_empty _, rfl, rfl, rfl⟩

end CarAuction
