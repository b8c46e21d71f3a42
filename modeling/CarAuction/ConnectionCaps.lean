import CarAuction.JoinAuction

/- Do `MAX_SOCKETS_PER_USER` and `MAX_SOCKETS_PER_IP` bound the registered sockets?
   The guard rejects a message when a set has more members than the limit. The
   socket of a first `joinAuction` is in no set yet, so a set that is full lets it
   in and then has one member too many. `caps_hold_iff`: the caps hold along a run
   exactly when no new socket joins with a full set; `caps_exceeded_by_one`: one too
   many is the most there can be.

   Tokens are valid here, so `rateLimit` is what the guards of a message amount to:
   `guards_allow` and `guards_refuse` run them statement by statement. -/
namespace CarAuction

open Machine

/-- `WsConnectionRateLimitGuard.canActivate` for a client with a valid token. -/
def rateLimit (limits : Limits) (r : Registry) (client : Client) : Option GuardError :=
  if limits.maxSocketsPerUser < (r.userSockets client.username).card then
    some (.maxUserSockets client.username)
  else if limits.maxSocketsPerIp < (r.ipSockets client.ip).card then
    some (.maxIpSockets client.address)
  else none

/-- The gateways as one: the registry, the sockets that are connected, and what has been published
    on `session_updates`. -/
structure Connections where
  registry : Registry
  connected : Finset SocketId
  updates : List SessionUpdate

def Connections.start : Connections := ⟨.empty, ∅, []⟩

inductive ConnectionEvent where
  | connect (id : SocketId)
  | joinAuction (id : SocketId) (auctionId : ℤ) (now : Time) (room : AuctionRoom)
  | placeBid (id : SocketId) (now : Time)
  | disconnect (id : SocketId) (now : Time)

def Connections.disconnect (s : Connections) (id : SocketId) (now : Time) : Connections where
  registry := (handleDisconnect id now s.registry).1
  connected := s.connected.erase id
  updates := s.updates ++ (handleDisconnect id now s.registry).2

/-- A message, its guards and its handler, or a disconnection. A socket told to leave a closed
    auction stays connected until its `disconnect`. -/
def connectionStep (limits : Limits) (client : SocketId → Client) (s : Connections) :
    ConnectionEvent → Option Connections
  | .connect id => some { s with connected := insert id s.connected }
  | .joinAuction id auctionId now room =>
    if id ∉ s.connected then none
    else if (rateLimit limits s.registry (client id)).isSome then some (s.disconnect id now)
    else
      let (r, effects) := handleJoinAuction (client id) id auctionId now room s.registry
      let s := { s with registry := r, updates := s.updates ++ effects.filterMap JoinEffect.update }
      if room.exist then some s else some (s.disconnect id now)
  | .placeBid id now =>
    if id ∉ s.connected then none
    else if (rateLimit limits s.registry (client id)).isSome then some (s.disconnect id now)
    else some s
  | .disconnect id now => if id ∉ s.connected then none else some (s.disconnect id now)

/-- No set has more members than the limits, and `k` more. -/
def CapsWithin (k : ℕ) (limits : Limits) (r : Registry) : Prop :=
  (∀ username, (r.userSockets username).card ≤ limits.maxSocketsPerUser + k) ∧
    ∀ ip, (r.ipSockets ip).card ≤ limits.maxSocketsPerIp + k

abbrev Caps : Limits → Registry → Prop := CapsWithin 0

/-- A socket that is not in its user's or its address's set joins an auction that exists while that
    set is full. -/
def JoinsFull (limits : Limits) (client : SocketId → Client) (s : Connections) :
    ConnectionEvent → Prop
  | .joinAuction id _ _ room => room.exist = true ∧
    (id ∉ s.registry.userSockets (client id).username ∧
        limits.maxSocketsPerUser ≤ (s.registry.userSockets (client id).username).card ∨
      id ∉ s.registry.ipSockets (client id).ip ∧
        limits.maxSocketsPerIp ≤ (s.registry.ipSockets (client id).ip).card)
  | _ => False

variable {limits : Limits} {client : SocketId → Client} {s t : Connections} {e : ConnectionEvent}
  {r : Registry} {k : ℕ} {id : SocketId} {auctionId : ℤ} {now : Time} {room : AuctionRoom}

/-! What an event does to the registry. -/

theorem rateLimit_eq_none {c : Client} : rateLimit limits r c = none ↔
    (r.userSockets c.username).card ≤ limits.maxSocketsPerUser ∧
      (r.ipSockets c.ip).card ≤ limits.maxSocketsPerIp := by
  unfold rateLimit
  split
  · next h => simp [h]
  · split
    · next h => simp [h]
    · next hu hi => simp [not_lt.mp hu, not_lt.mp hi]

/-- The event ends with the socket gone: it disconnects, or is turned away. -/
def Leaves (limits : Limits) (client : SocketId → Client) (s : Connections) (id : SocketId) :
    ConnectionEvent → Prop
  | .connect _ => False
  | .joinAuction id' _ _ room =>
    id' = id ∧ ((rateLimit limits s.registry (client id)).isSome ∨ room.exist = false)
  | .placeBid id' _ => id' = id ∧ (rateLimit limits s.registry (client id)).isSome
  | .disconnect id' _ => id' = id

/-- A join that is let in. -/
def Connections.letIn (client : SocketId → Client) (s : Connections) (id : SocketId)
    (auctionId : ℤ) (now : Time) : Connections :=
  { s with
    registry := s.registry.registerMulti (client id).username id (client id).ip auctionId
    updates := s.updates ++ [⟨.userOnline, some auctionId, (client id).username, now⟩] }

/-- A join of an auction that exists registers the socket and says so. -/
theorem handleJoinAuction_found {c : Client} (hexist : room.exist = true) :
    (handleJoinAuction c id auctionId now room r).1 =
      r.registerMulti c.username id c.ip auctionId ∧
    (handleJoinAuction c id auctionId now room r).2.filterMap JoinEffect.update =
      [⟨.userOnline, some auctionId, c.username, now⟩] := by
  simp only [handleJoinAuction, hexist, if_true, Registry.registerSocket, enterRoom]
  refine ⟨trivial, ?_⟩
  split <;> rfl

theorem handleJoinAuction_missing {c : Client} (hexist : room.exist = false) :
    (handleJoinAuction c id auctionId now room r).1 = r ∧
    (handleJoinAuction c id auctionId now room r).2.filterMap JoinEffect.update = [] := by
  simp only [handleJoinAuction, hexist, Bool.false_eq_true, if_false]
  exact ⟨trivial, rfl⟩

/-- The outcomes of an event. -/
theorem connectionStep_cases (h : connectionStep limits client s e = some t) :
    (∃ id, e = .connect id ∧ t = { s with connected := insert id s.connected }) ∨
    (∃ id now, e = .placeBid id now ∧ rateLimit limits s.registry (client id) = none ∧ t = s) ∨
    (∃ id now, id ∈ s.connected ∧ Leaves limits client s id e ∧ t = s.disconnect id now) ∨
    ∃ id auctionId now room, e = .joinAuction id auctionId now room ∧ id ∈ s.connected ∧
      room.exist = true ∧ rateLimit limits s.registry (client id) = none ∧
      t = s.letIn client id auctionId now := by
  cases e with
  | connect id => cases h; exact .inl ⟨id, rfl, rfl⟩
  | joinAuction id auctionId now room =>
    simp only [connectionStep] at h
    split at h
    · cases h
    · next hin =>
      split at h
      · next hrefused =>
        cases h
        exact .inr (.inr (.inl ⟨id, now, not_not.mp hin, ⟨rfl, .inl hrefused⟩, rfl⟩))
      · next hnone =>
        split at h
        · next hexist =>
          cases h
          refine .inr (.inr (.inr ⟨id, auctionId, now, room, rfl, not_not.mp hin, hexist, ?_, ?_⟩))
          · exact Option.not_isSome_iff_eq_none.mp hnone
          · obtain ⟨hregistry, hupdates⟩ := handleJoinAuction_found hexist
            rw [hregistry, hupdates, Connections.letIn]
        · next hexist =>
          cases h
          have hmissing : room.exist = false := by simpa using hexist
          obtain ⟨hregistry, hupdates⟩ := handleJoinAuction_missing hmissing
          refine .inr (.inr (.inl ⟨id, now, not_not.mp hin, ⟨rfl, .inr hmissing⟩, ?_⟩))
          rw [hregistry, hupdates, List.append_nil]
  | placeBid id now =>
    simp only [connectionStep] at h
    split at h
    · cases h
    · next hin =>
      split at h
      · next hrefused =>
        cases h
        exact .inr (.inr (.inl ⟨id, now, not_not.mp hin, ⟨rfl, hrefused⟩, rfl⟩))
      · next hnone =>
        cases h
        exact .inr (.inl ⟨id, now, rfl, Option.not_isSome_iff_eq_none.mp hnone, rfl⟩)
  | disconnect id now =>
    simp only [connectionStep] at h
    split at h
    · cases h
    · next hin =>
      cases h
      exact .inr (.inr (.inl ⟨id, now, not_not.mp hin, rfl, rfl⟩))

theorem connectionStep_registry (h : connectionStep limits client s e = some t) :
    t.registry = s.registry ∨
    (∃ now id, t.registry = (s.registry.unregisterSocket now id).1) ∨
    ∃ id auctionId now room, e = .joinAuction id auctionId now room ∧ room.exist = true ∧
      rateLimit limits s.registry (client id) = none ∧
      t.registry = s.registry.registerMulti (client id).username id (client id).ip auctionId := by
  obtain ⟨id, -, rfl⟩ | ⟨id, now, -, -, rfl⟩ | ⟨id, now, -, -, rfl⟩ |
    ⟨id, auctionId, now, room, he, -, hexist, hguard, rfl⟩ := connectionStep_cases h
  · exact .inl rfl
  · exact .inl rfl
  · exact .inr (.inl ⟨now, id, rfl⟩)
  · exact .inr (.inr ⟨id, auctionId, now, room, he, hexist, hguard, rfl⟩)

theorem CapsWithin.unregister (h : CapsWithin k limits r) :
    CapsWithin k limits (r.unregisterSocket now id).1 := by
  refine ⟨fun u => ?_, fun i => ?_⟩
  · exact (Finset.card_le_card (Registry.unregisterSocket_userSockets_subset r now id u)).trans (h.1 u)
  · exact (Finset.card_le_card (Registry.unregisterSocket_ipSockets_subset r now id i)).trans (h.2 i)

/-- A set that is not full, or holds the socket already, keeps its bound. -/
theorem card_insert_le_of_room {sockets : Finset SocketId} {n : ℕ} (h : sockets.card ≤ n)
    (hfull : id ∉ sockets → ¬ n ≤ sockets.card) : (insert id sockets).card ≤ n := by
  by_cases hmem : id ∈ sockets
  · rw [Finset.insert_eq_of_mem hmem]
    exact h
  · have hroom := hfull hmem
    rw [Finset.card_insert_of_notMem hmem]
    omega

/-- The caps survive every event but a new socket that joins with a full set. -/
theorem caps_step (hs : Caps limits s.registry) (h : connectionStep limits client s e = some t)
    (hroom : ¬ JoinsFull limits client s e) : Caps limits t.registry := by
  obtain heq | ⟨now, id, heq⟩ | ⟨id, auctionId, now, room, rfl, hexist, hguard, heq⟩ :=
    connectionStep_registry h
  · rw [heq]; exact hs
  · rw [heq]; exact hs.unregister
  · rw [heq]
    simp only [JoinsFull, hexist, true_and, not_or, not_and] at hroom
    refine ⟨fun u => ?_, fun i => ?_⟩
    · rw [Registry.registerMulti_userSockets]
      split
      · next hu =>
        subst hu
        exact card_insert_le_of_room (hs.1 _) hroom.1
      · exact hs.1 u
    · rw [Registry.registerMulti_ipSockets]
      split
      · next hi =>
        subst hi
        exact card_insert_le_of_room (hs.2 _) hroom.2
      · exact hs.2 i

/-- Such a join is let in, and makes the set too large. -/
theorem caps_break (hs : Caps limits s.registry) (h : connectionStep limits client s e = some t)
    (hfull : JoinsFull limits client s e) : ¬ Caps limits t.registry := by
  cases e with
  | joinAuction id auctionId now room =>
    obtain ⟨hexist, hfull⟩ := hfull
    have hguard : rateLimit limits s.registry (client id) = none :=
      rateLimit_eq_none.mpr ⟨hs.1 _, hs.2 _⟩
    have hregistry : t.registry =
        s.registry.registerMulti (client id).username id (client id).ip auctionId := by
      simp only [connectionStep, hguard, hexist, handleJoinAuction, Registry.registerSocket] at h
      split at h
      · cases h
      · simp only [Option.isSome_none, Bool.false_eq_true, if_false, if_true] at h
        cases h
        rfl
    rw [hregistry]
    intro hcaps
    rcases hfull with ⟨hnew, hle⟩ | ⟨hnew, hle⟩
    · have hcard := hcaps.1 (client id).username
      rw [Registry.registerMulti_userSockets, if_pos rfl, Finset.card_insert_of_notMem hnew] at hcard
      omega
    · have hcard := hcaps.2 (client id).ip
      rw [Registry.registerMulti_ipSockets, if_pos rfl, Finset.card_insert_of_notMem hnew] at hcard
      omega
  | connect id => exact hfull.elim
  | placeBid id now => exact hfull.elim
  | disconnect id now => exact hfull.elim

theorem caps_start : CapsWithin k limits Connections.start.registry :=
  ⟨fun _ => Nat.zero_le _, fun _ => Nat.zero_le _⟩

/-- The caps hold along a run exactly when no new socket joins with a full set. -/
theorem caps_hold_iff (limits : Limits) (client : SocketId → Client)
    (schedule : List ConnectionEvent) :
    Always (connectionStep limits client) (fun s => Caps limits s.registry) .start schedule ↔
      Along (connectionStep limits client) (fun s e _ => ¬ JoinsFull limits client s e)
        .start schedule :=
  always_iff_of_inv (I := fun s => Caps limits s.registry) (D := fun _ _ _ => True)
    (fun _ h => h) (fun _ _ _ hs _ h hroom => caps_step hs h hroom)
    (fun _ _ _ hs _ h hfull => caps_break hs h hfull) schedule caps_start (along_true schedule)

/-- Two sockets of Ann where one is allowed. -/
def capOfOne : Limits := ⟨1, 1⟩

def twoJoins : List ConnectionEvent :=
  [.connect annSocket, .connect bobSocket, .joinAuction annSocket 1 0 openRoom,
    .joinAuction bobSocket 1 0 openRoom]

theorem caps_exceeded : ¬ Always (connectionStep capOfOne fun _ => annClient)
    (fun s => Caps capOfOne s.registry) .start twoJoins := by
  intro h
  obtain ⟨s, hs, hcard⟩ : ∃ s ∈ exec (connectionStep capOfOne fun _ => annClient) .start twoJoins,
      (s.registry.userSockets "ann").card = 2 := by decide +kernel
  have hcap := (h.last hs).1 "ann"
  rw [hcard] at hcap
  simp [capOfOne] at hcap

/-- One socket too many is the most there can be. -/
theorem caps_exceeded_by_one (limits : Limits) (client : SocketId → Client)
    (schedule : List ConnectionEvent) :
    Always (connectionStep limits client) (fun s => CapsWithin 1 limits s.registry) .start schedule := by
  refine always_of_inv (I := fun s : Connections => CapsWithin 1 limits s.registry)
    (P := fun _ _ _ => True) ?_ (fun _ h => h) schedule caps_start (along_true schedule)
  intro s e t hs _ h
  obtain heq | ⟨now, id, heq⟩ | ⟨id, auctionId, now, room, rfl, -, hguard, heq⟩ :=
    connectionStep_registry h
  · rw [heq]; exact hs
  · rw [heq]; exact hs.unregister
  · obtain ⟨huser, hip⟩ := rateLimit_eq_none.mp hguard
    rw [heq]
    refine ⟨fun u => ?_, fun i => ?_⟩
    · rw [Registry.registerMulti_userSockets]
      split
      · next hu =>
        subst hu
        exact (Finset.card_insert_le _ _).trans (Nat.add_le_add_right huser 1)
      · exact hs.1 u
    · rw [Registry.registerMulti_ipSockets]
      split
      · next hi =>
        subst hi
        exact (Finset.card_insert_le _ _).trans (Nat.add_le_add_right hip 1)
      · exact hs.2 i

/-! The guards of a message with a valid token, statement by statement. -/

/-- The guards of one message alone, driven by what the counts return. -/
def guardRun (limits : Limits) (s : GuardWorld × Message) (count : ℕ) :
    Option (GuardWorld × Message) :=
  (guardStep limits count s.1 s.2).map fun t => (t.1, t.2.1)

section Guards

variable {w : GuardWorld} {user : JwtPayload} {c : Client} {handler : Handler} {error : GuardError}

/-- What the guards read of the registry, in their order; the other statements read nothing. -/
def guardCounts (r : Registry) (c : Client) : List ℕ :=
  [0, (r.userSockets c.username).card, (r.ipSockets c.ip).card, 0, 0]

theorem guards_allow (hhandler : handler ≠ .endAuction)
    (htoken : verifyAsync w.now (w.socket id).token = some user)
    (h : rateLimit limits r c = none) :
    ∃ w' m, exec (guardRun limits) (w, .arrive id handler) (guardCounts r c) = some (w', m) ∧
      m.pc = .allowed := by
  obtain ⟨huser, hip⟩ := rateLimit_eq_none.mp h
  have hrole : ∀ user, rolesGuard handler user = .ok () := by
    intro user
    cases handler with
    | endAuction => exact absurd rfl hhandler
    | joinAuction => rfl
    | placeBid => rfl
  simp [guardCounts, exec, guardRun, guardStep, Message.arrive, htoken, not_lt.mpr huser,
    not_lt.mpr hip, hrole]

theorem guards_refuse (htoken : verifyAsync w.now (w.socket id).token = some user)
    (husername : user.username = c.username) (haddress : (w.socket id).address = c.address)
    (h : rateLimit limits r c = some error) :
    ∃ n w' m, exec (guardRun limits) (w, .arrive id handler) ((guardCounts r c).take n) =
      some (w', m) ∧ m.pc = .refused error := by
  unfold rateLimit at h
  split at h
  · next hlt =>
    cases h
    refine ⟨3, ?_⟩
    simp [guardCounts, exec, guardRun, guardStep, Message.arrive, htoken, hlt, husername]
  · next hle =>
    split at h
    · next hlt =>
      cases h
      refine ⟨4, ?_⟩
      simp [guardCounts, exec, guardRun, guardStep, Message.arrive, htoken, hle, hlt, haddress,
        GuardWorld.setUser]
    · cases h

end Guards

end CarAuction
