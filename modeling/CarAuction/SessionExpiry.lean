import CarAuction.Sessions

/- The same keys with their time to live. `registerSocket` sets it on every key it
   writes; `unregisterSocket` refreshes none, though its comment says that the sets of
   a user who still has sockets are. So a set lives as long as sockets keep joining
   it, and a socket's own keys until `REDIS_TTL` seconds after its join.

   `counts_right_iff`: the sets hold the connected sockets along a run exactly when no
   set is dropped under a connected socket, and no socket leaves after its own keys. -/
namespace CarAuction

open Machine Registry

/-- When the keys elapse, where they are present. -/
structure Deadlines where
  ipSockets : String → Time
  userSockets : String → Time
  userAuction : String → Option ℤ → Time
  auctionUsername : Option ℤ → Time
  socketIp : SocketId → Time
  socketUsername : SocketId → Time
  socketAuctionId : SocketId → Time

/-- The `expire` commands and `EX` options in the MULTI block of `registerSocket`. -/
def Deadlines.registerMulti (d : Deadlines) (username : String) (id : SocketId) (ip : String)
    (auctionId : ℤ) (deadline : Time) : Deadlines where
  ipSockets := Function.update d.ipSockets ip deadline
  socketIp := Function.update d.socketIp id deadline
  userSockets := Function.update d.userSockets username deadline
  socketUsername := Function.update d.socketUsername id deadline
  socketAuctionId := Function.update d.socketAuctionId id deadline
  auctionUsername := Function.update d.auctionUsername (some auctionId) deadline
  userAuction := Function.update d.userAuction username
    (Function.update (d.userAuction username) (some auctionId) deadline)

/-- Redis drops what has elapsed. -/
def Registry.expire (r : Registry) (d : Deadlines) (now : Time) : Registry where
  ipSockets ip := if d.ipSockets ip ≤ now then ∅ else r.ipSockets ip
  userSockets username := if d.userSockets username ≤ now then ∅ else r.userSockets username
  userAuction username auctionId :=
    if d.userAuction username auctionId ≤ now then ∅ else r.userAuction username auctionId
  auctionUsername auctionId :=
    if d.auctionUsername auctionId ≤ now then ∅ else r.auctionUsername auctionId
  socketIp id := if d.socketIp id ≤ now then none else r.socketIp id
  socketUsername id := if d.socketUsername id ≤ now then none else r.socketUsername id
  socketAuctionId id := if d.socketAuctionId id ≤ now then none else r.socketAuctionId id

/-- The registry at a time, and the sockets that have joined and are still connected. -/
structure TimedSessions where
  now : Time
  registry : Registry
  deadlines : Deadlines
  connected : Finset SocketId

def TimedSessions.start (now : Time) : TimedSessions :=
  ⟨now, .empty, ⟨fun _ => now, fun _ => now, fun _ _ => now, fun _ => now, fun _ => now, fun _ => now,
    fun _ => now⟩, ∅⟩

inductive TimedEvent where
  | wait (ms : ℕ)
  | join (id : SocketId) (auctionId : ℤ)
  | leave (id : SocketId)
  deriving DecidableEq

/-- Time passes, or a socket joins an auction or disconnects. -/
def timedStep (ttl : ℕ) (owner : SocketId → Owner) (s : TimedSessions) :
    TimedEvent → Option TimedSessions
  | .wait ms =>
    some { s with now := s.now + ms, registry := s.registry.expire s.deadlines (s.now + ms) }
  | .join id auctionId =>
    if id ∈ s.connected then none
    else some
      { s with
        registry :=
          (s.registry.registerSocket s.now (owner id).username id (owner id).ip auctionId).1
        deadlines := s.deadlines.registerMulti (owner id).username id (owner id).ip auctionId
          (s.now + 1000 * ttl)
        connected := insert id s.connected }
  | .leave id =>
    if id ∉ s.connected then none
    else some
      { s with
        registry := (s.registry.unregisterSocket s.now id).1
        connected := s.connected.erase id }

/-- The sets whose sizes the guard compares hold the connected sockets. -/
structure CountsRight (owner : SocketId → Owner) (s : TimedSessions) : Prop where
  userSockets : ∀ u, s.registry.userSockets u = s.connected.filter fun id => (owner id).username = u
  ipSockets : ∀ i, s.registry.ipSockets i = s.connected.filter fun id => (owner id).ip = i

/-- The set of a connected socket's user or address elapses, or a socket leaves whose keys have. -/
def Overstays (owner : SocketId → Owner) (s : TimedSessions) : TimedEvent → Prop
  | .wait ms => ∃ id ∈ s.connected, s.deadlines.userSockets (owner id).username ≤ s.now + ms ∨
      s.deadlines.ipSockets (owner id).ip ≤ s.now + ms
  | .join _ _ => False
  | .leave id => s.deadlines.socketUsername id ≤ s.now

instance {owner : SocketId → Owner} {s : TimedSessions} : DecidablePred (Overstays owner s)
  | .wait ms => inferInstanceAs (Decidable (∃ id ∈ s.connected,
      s.deadlines.userSockets (owner id).username ≤ s.now + ms ∨
        s.deadlines.ipSockets (owner id).ip ≤ s.now + ms))
  | .join _ _ => inferInstanceAs (Decidable False)
  | .leave id => inferInstanceAs (Decidable (s.deadlines.socketUsername id ≤ s.now))

/-- The keys of the connected sockets, as long as they live. -/
structure TimedInv (owner : SocketId → Owner) (s : TimedSessions) : Prop extends
    CountsRight owner s where
  together : ∀ id ∈ s.connected, s.deadlines.socketIp id = s.deadlines.socketUsername id
  present : ∀ id ∈ s.connected, s.now < s.deadlines.socketUsername id →
    s.registry.socketUsername id = some (owner id).username ∧
      s.registry.socketIp id = some (owner id).ip
  elapsed : ∀ id ∈ s.connected, s.deadlines.socketUsername id ≤ s.now →
    s.registry.socketUsername id = none

variable {ttl : ℕ} {owner : SocketId → Owner} {s t : TimedSessions} {e : TimedEvent}
  {id : SocketId} {auctionId : ℤ} {ms : ℕ} {now : Time}

theorem timedInv_start : TimedInv owner (.start now) where
  userSockets _ := (Finset.filter_empty _).symm
  ipSockets _ := (Finset.filter_empty _).symm
  together id hid := absurd hid (Finset.notMem_empty id)
  present id hid := absurd hid (Finset.notMem_empty id)
  elapsed id hid := absurd hid (Finset.notMem_empty id)

/-! Time passes. -/

/-- A set that elapses is right afterwards exactly when it has no connected socket. -/
theorem expired_eq_filter (deadline now : Time) {sockets : Finset SocketId} {p : SocketId → Prop}
    [DecidablePred p] (h : sockets = s.connected.filter p) :
    (if deadline ≤ now then ∅ else sockets) = s.connected.filter p ↔
      ∀ id ∈ s.connected, p id → now < deadline := by
  by_cases helapsed : deadline ≤ now
  · rw [if_pos helapsed, eq_comm, Finset.filter_eq_empty_iff]
    refine forall₂_congr fun id _ => ?_
    rw [imp_iff_not_or, or_iff_left (not_lt.mpr helapsed)]
  · rw [if_neg helapsed]
    exact iff_of_true h fun _ _ _ => not_le.mp helapsed

theorem countsRight_wait (hs : CountsRight owner s) (ht : timedStep ttl owner s (.wait ms) = some t) :
    CountsRight owner t ↔ ¬ Overstays owner s (.wait ms) := by
  cases ht
  have husers := fun u =>
    expired_eq_filter (s.deadlines.userSockets u) (s.now + ms) (hs.userSockets u)
  have hips := fun i =>
    expired_eq_filter (s.deadlines.ipSockets i) (s.now + ms) (hs.ipSockets i)
  refine ⟨fun h => ?_, fun h => ⟨fun u => (husers u).mpr ?_, fun i => (hips i).mpr ?_⟩⟩
  · rintro ⟨id, hid, helapsed | helapsed⟩
    · exact not_lt.mpr helapsed ((husers _).mp (h.userSockets _) id hid rfl)
    · exact not_lt.mpr helapsed ((hips _).mp (h.ipSockets _) id hid rfl)
  · rintro id hid rfl
    exact not_le.mp fun helapsed => h ⟨id, hid, .inl helapsed⟩
  · rintro id hid rfl
    exact not_le.mp fun helapsed => h ⟨id, hid, .inr helapsed⟩

theorem timedInv_wait (hs : TimedInv owner s) (ht : timedStep ttl owner s (.wait ms) = some t)
    (hkept : ¬ Overstays owner s (.wait ms)) : TimedInv owner t := by
  refine ⟨(countsRight_wait hs.toCountsRight ht).mpr hkept, ?_, ?_, ?_⟩
  all_goals cases ht
  · exact hs.together
  · intro id hid hlive
    have hlive : s.now + ms < s.deadlines.socketUsername id := hlive
    have hsooner : s.now ≤ s.now + ms := le_add_of_nonneg_right (Int.natCast_nonneg ms)
    obtain ⟨husername, hip⟩ := hs.present id hid (hsooner.trans_lt hlive)
    have hipLive : ¬ s.deadlines.socketIp id ≤ s.now + ms := by
      rw [hs.together id hid]
      exact not_le.mpr hlive
    exact ⟨(if_neg (not_le.mpr hlive)).trans husername, (if_neg hipLive).trans hip⟩
  · exact fun id _ helapsed => if_pos helapsed

/-! A socket joins. -/

theorem timedInv_join (httl : 0 < ttl) (hs : TimedInv owner s)
    (ht : timedStep ttl owner s (.join id auctionId) = some t) : TimedInv owner t := by
  simp only [timedStep] at ht
  split at ht
  · cases ht
  · cases ht
    have hlater : s.now < s.now + 1000 * (ttl : ℤ) := by
      apply lt_add_of_pos_right
      positivity
    refine ⟨⟨fun u => ?_, fun i => ?_⟩, fun id' hid' => ?_, fun id' hid' hlive => ?_,
      fun id' hid' helapsed => ?_⟩
    · ext id'
      simp only [registerSocket, mem_registerMulti_userSockets, hs.userSockets, Finset.mem_filter,
        Finset.mem_insert]
      grind
    · ext id'
      simp only [registerSocket, mem_registerMulti_ipSockets, hs.ipSockets, Finset.mem_filter,
        Finset.mem_insert]
      grind
    · by_cases hself : id' = id
      · simp [Deadlines.registerMulti, hself]
      · simpa [Deadlines.registerMulti, hself] using
          hs.together id' (Finset.mem_of_mem_insert_of_ne hid' hself)
    · by_cases hself : id' = id
      · simp [registerSocket, registerMulti, hself]
      · have hlive : s.now < s.deadlines.socketUsername id' := by
          simpa [Deadlines.registerMulti, hself] using hlive
        simpa [registerSocket, registerMulti, hself] using
          hs.present id' (Finset.mem_of_mem_insert_of_ne hid' hself) hlive
    · by_cases hself : id' = id
      · simp only [Deadlines.registerMulti, hself, Function.update_self] at helapsed
        exact absurd hlater (not_lt.mpr helapsed)
      · have helapsed : s.deadlines.socketUsername id' ≤ s.now := by
          simpa [Deadlines.registerMulti, hself] using helapsed
        simpa [registerSocket, registerMulti, hself] using
          hs.elapsed id' (Finset.mem_of_mem_insert_of_ne hid' hself) helapsed

/-! A socket leaves. -/

/-- The sets after an `unregisterSocket` that finds the keys of the socket. -/
theorem unregisterSocket_found (now : Time) {r : Registry} {o : Owner}
    (husername : r.socketUsername id = some o.username)
    (hip : r.socketIp id = some o.ip) :
    (r.unregisterSocket now id).1.userSockets =
        (r.unregisterMulti id o.username (some o.ip) (r.socketAuctionId id)).userSockets ∧
      (r.unregisterSocket now id).1.ipSockets =
        (r.unregisterMulti id o.username (some o.ip) (r.socketAuctionId id)).ipSockets := by
  obtain ⟨-, heq⟩ | ⟨-, heq⟩ := unregisterSocket_registered now husername o.nonempty rfl
  · rw [heq, hip]
    exact ⟨rfl, rfl⟩
  · rw [heq, hip]
    exact ⟨rfl, rfl⟩

theorem timedStep_leave (ht : timedStep ttl owner s (.leave id) = some t) : id ∈ s.connected ∧
    t = { s with
      registry := (s.registry.unregisterSocket s.now id).1
      connected := s.connected.erase id } := by
  simp only [timedStep] at ht
  split at ht
  · cases ht
  · next hin => exact ⟨not_not.mp hin, (Option.some_inj.mp ht).symm⟩

theorem TimedInv.nonempty (hs : TimedInv owner s) (hin : id ∈ s.connected) :
    s.registry.socketUsername id ≠ some "" := by
  by_cases hlive : s.now < s.deadlines.socketUsername id
  · rw [(hs.present id hin hlive).1]
    exact fun hempty => (owner id).nonempty (Option.some_inj.mp hempty)
  · simp [hs.elapsed id hin (not_lt.mp hlive)]

theorem countsRight_leave (hs : TimedInv owner s) (ht : timedStep ttl owner s (.leave id) = some t) :
    CountsRight owner t ↔ ¬ Overstays owner s (.leave id) := by
  obtain ⟨hin, rfl⟩ := timedStep_leave ht
  refine ⟨fun h helapsed => ?_, fun hlive => ?_⟩
  · -- the keys are gone, and nothing is removed
    have hnoop := unregisterSocket_gone s.now (hs.elapsed id hin helapsed)
    have hstill : id ∈ (s.registry.unregisterSocket s.now id).1.userSockets (owner id).username := by
      rw [hnoop, hs.userSockets]
      exact Finset.mem_filter.mpr ⟨hin, rfl⟩
    rw [h.userSockets] at hstill
    exact Finset.notMem_erase id _ (Finset.mem_filter.mp hstill).1
  · obtain ⟨husername, hip⟩ := hs.present id hin (not_le.mp hlive)
    obtain ⟨husers, hips⟩ := unregisterSocket_found s.now husername hip
    refine ⟨fun u => ?_, fun i => ?_⟩
    · ext id'
      simp only [husers, mem_unregisterMulti_userSockets, hs.userSockets, Finset.mem_filter,
        Finset.mem_erase]
      grind
    · ext id'
      simp only [hips, mem_unregisterMulti_ipSockets, hs.ipSockets, Finset.mem_filter,
        Finset.mem_erase, Option.getD_some]
      grind

theorem timedInv_leave (hs : TimedInv owner s) (ht : timedStep ttl owner s (.leave id) = some t)
    (hlive : ¬ Overstays owner s (.leave id)) : TimedInv owner t := by
  refine ⟨(countsRight_leave hs ht).mpr hlive, ?_, ?_, ?_⟩
  all_goals obtain ⟨hin, rfl⟩ := timedStep_leave ht
  all_goals obtain ⟨husernames, hkeys⟩ := unregisterSocket_keys s.registry s.now id (hs.nonempty hin)
  · exact fun id' hid' => hs.together id' (Finset.mem_of_mem_erase hid')
  · intro id' hid' hliving
    obtain ⟨hne, hin'⟩ := Finset.mem_erase.mp hid'
    rw [husernames, Function.update_of_ne hne, (hkeys id' hne).1]
    exact hs.present id' hin' hliving
  · intro id' hid' helapsed
    obtain ⟨hne, hin'⟩ := Finset.mem_erase.mp hid'
    rw [husernames, Function.update_of_ne hne]
    exact hs.elapsed id' hin' helapsed

/-! Whole runs. -/

theorem timedInv_step (httl : 0 < ttl) (hs : TimedInv owner s) (ht : timedStep ttl owner s e = some t)
    (hkept : ¬ Overstays owner s e) : TimedInv owner t := by
  cases e with
  | wait ms => exact timedInv_wait hs ht hkept
  | join id auctionId => exact timedInv_join httl hs ht
  | leave id => exact timedInv_leave hs ht hkept

/-- The sets are right along a run exactly when nobody stays longer than the keys. -/
theorem counts_right_iff (ttl : ℕ) (httl : 0 < ttl) (owner : SocketId → Owner) (now : Time)
    (run : List TimedEvent) :
    Always (timedStep ttl owner) (CountsRight owner) (.start now) run ↔
      Along (timedStep ttl owner) (fun s e _ => ¬ Overstays owner s e) (.start now) run := by
  refine always_iff_of_inv (I := TimedInv owner) (D := fun _ _ _ => True) (fun s hs => hs.toCountsRight)
    (fun s e t hs _ ht hkept => timedInv_step httl hs ht hkept) ?_ run timedInv_start (along_true run)
  intro s e t hs _ ht hstays hright
  cases e with
  | wait ms => exact (countsRight_wait hs.toCountsRight ht).mp hright hstays
  | join id auctionId => exact hstays
  | leave id => exact (countsRight_leave hs ht).mp hright hstays

/-- Ann joins, and an hour passes. -/
def annStays : List TimedEvent := [.join annSocket 1, .wait 3600000]

theorem connected_socket_missed : ¬ Always (timedStep 3600 fun _ => annOwner)
    (CountsRight fun _ => annOwner) (.start 0) annStays := by
  intro h
  obtain ⟨s, hs, hin, hempty⟩ : ∃ s ∈ exec (timedStep 3600 fun _ => annOwner) (.start 0) annStays,
      s.connected = {annSocket} ∧ s.registry.userSockets "ann" = ∅ := by decide +kernel
  have hright := (h.last hs).userSockets "ann"
  rw [hin, hempty] at hright
  exact Finset.notMem_empty annSocket (hright ▸ Finset.mem_filter.mpr ⟨Finset.mem_singleton_self _, rfl⟩)

/-- Ann leaves in time, and comes back. -/
def annComesTwice : List TimedEvent :=
  [.join annSocket 1, .wait 3599999, .leave annSocket, .wait 3600000, .join annSocket 1]

theorem counts_right_iff_hour : (Always (timedStep 3600 fun _ => annOwner)
    (CountsRight fun _ => annOwner) (.start 0) annStays ↔
      Along (timedStep 3600 fun _ => annOwner) (fun s e _ => ¬ Overstays (fun _ => annOwner) s e)
        (.start 0) annStays) ∧
    Always (timedStep 3600 fun _ => annOwner) (CountsRight fun _ => annOwner) (.start 0) annComesTwice :=
  ⟨counts_right_iff 3600 (by decide) _ 0 annStays,
    (counts_right_iff 3600 (by decide) _ 0 annComesTwice).mpr (by decide +kernel)⟩

end CarAuction
