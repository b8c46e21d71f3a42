import CarAuction.SessionLaw
import CarAuction.JoinAuction
import CarAuction.KeySchema

/- Who is shown as online. `handleJoinAuction` sends the names that are online when it
   reads them (`onlineUsers`), registers the socket, and takes it into the room; from
   then on the socket gets a `presenceDelta` for each message of `session_updates` that
   its gateway instance handles. An instance handles the messages in the order of their
   publication, and may be behind. Joins and disconnects are taken statement by
   statement, any number of them at the same time, those of one socket included. Each
   socket joins one auction. No key expires.

   Correspondence (TypeScript ↔ Lean):
     `client.emit("onlineUsers", ...)`                ↔ `PresenceView.listed`
     the names after the `presenceDelta` events       ↔ `PresenceView.shown`, `applyDelta`
     `client.join`, `client.disconnect()`             ↔ `Presence.perform`, `Presence.disconnect`
     `handleDisconnect`, of a socket that is gone     ↔ `Presence.leave`, `unregisterStep`
     the `message` handler on `session_updates`       ↔ `Presence.deliver`
     what Redis has delivered to an instance          ↔ `Presence.delivered`
     `in(auctionId.toString()).disconnectSockets()`   ↔ `Presence.auctionEnd` -/
namespace CarAuction

open Machine Registry

/-- What a socket has been told of the names online, where its instance was then, and its rooms.
    `late`: it entered when its instance had handled the end of the auction. -/
structure PresenceView where
  listed : Finset String
  shown : Finset String
  joined : List ℤ
  readAt : ℕ
  joinedAt : ℕ
  late : Bool

/-- The clients, the auction each of them joins, and the gateway instances they are connected to. -/
structure PresenceConfig (ι : Type) where
  client : SocketId → Client
  auction : SocketId → ℤ
  gateway : SocketId → ι

/-- `leave`: where the `unregisterSocket` call of a socket is, once it has disconnected. `truthful`: the
    last message about the name said what was the case when it was published. -/
structure Presence (ι : Type) where
  registry : Registry
  updates : List SessionUpdate
  delivered : ι → ℕ
  ended : ι → ℤ → Bool
  join : SocketId → JoinPc
  leave : SocketId → Option UnregisterPc
  view : SocketId → PresenceView
  truthful : ℤ → String → Bool

inductive PresenceAction (ι : Type) where
  | join (id : SocketId) (room : AuctionRoom) (now : Time)
  | disconnect (id : SocketId)
  | leave (id : SocketId) (now : Time)
  | deliver (i : ι)
  | auctionEnd (i : ι) (a : ℤ)

/-- The names after a `presenceDelta` event. -/
def applyDelta (names : Finset String) (event : PresenceEvent) (username : String) : Finset String :=
  match event with
  | .userOnline => insert username names
  | .userOffline => names.erase username

/-- The presence of a name in a list, and after the events of an auction. -/
def presenceIn (names : Finset String) (u : String) : PresenceEvent :=
  if u ∈ names then .userOnline else .userOffline

def presenceAfter (before : PresenceEvent) (a : ℤ) (u : String) (updates : List SessionUpdate) :
    PresenceEvent :=
  (presenceEvents a u updates).getLast?.getD before

namespace Presence

variable {ι : Type}

def start : Presence ι where
  registry := .empty
  updates := []
  delivered := fun _ => 0
  ended := fun _ _ => false
  join := fun _ => .begin
  leave := fun _ => none
  view := fun _ => ⟨∅, ∅, [], 0, 0, false⟩
  truthful := fun _ _ => true

def setView (s : Presence ι) (id : SocketId) (v : PresenceView) : Presence ι :=
  { s with view := Function.update s.view id v }

/-- A message on `session_updates`. -/
def publish (s : Presence ι) (update : SessionUpdate) : Presence ι :=
  { s with
    updates := s.updates ++ [update]
    truthful := fun a u =>
      if update.auctionId = some a ∧ update.username = u then
        presenceIn (s.registry.onlineInAuctionID a) u = update.event
      else s.truthful a u }

/-- The socket is gone from its rooms, and its disconnect is to be handled. -/
def disconnect (s : Presence ι) (id : SocketId) : Presence ι :=
  if s.leave id = none then
    ({ s with leave := Function.update s.leave id (some .begin) } : Presence ι).setView id
      { s.view id with joined := [] }
  else s

/-- What the join handler of a socket does outside Redis keys. -/
def perform (config : PresenceConfig ι) (id : SocketId) (s : Presence ι) : JoinEffect → Presence ι
  | .onlineUsers usernames =>
    s.setView id { s.view id with listed := usernames, shown := usernames, readAt := s.updates.length }
  | .sessionUpdate update => s.publish update
  | .joined auctionId =>
    s.setView id { s.view id with
      joined := auctionId :: (s.view id).joined
      joinedAt := s.delivered (config.gateway id)
      late := s.ended (config.gateway id) auctionId }
  | .disconnected => s.disconnect id
  | _ => s

/-- The socket is connected, and in the room of the auction. -/
def inRoom (s : Presence ι) (id : SocketId) (auctionId : ℤ) : Prop :=
  s.leave id = none ∧ toString auctionId ∈ (Socket.mk id (s.view id).joined).rooms

instance {s : Presence ι} {id : SocketId} {auctionId : ℤ} : Decidable (s.inRoom id auctionId) :=
  inferInstanceAs (Decidable (_ ∧ _))

/-- The instance handles its next message. -/
def deliver [DecidableEq ι] (config : PresenceConfig ι) (s : Presence ι) (i : ι) :
    Option (Presence ι) := do
  let update ← s.updates[s.delivered i]?
  -- `auctionId.toString()` throws on `null`
  let auctionId ← update.auctionId
  return { s with
    delivered := Function.update s.delivered i (s.delivered i + 1)
    view := fun id =>
      if config.gateway id = i ∧ s.inRoom id auctionId then
        { s.view id with shown := applyDelta (s.view id).shown update.event update.username }
      else s.view id }

/-- The instance handles the end of the auction. -/
def auctionEnd [DecidableEq ι] (config : PresenceConfig ι) (s : Presence ι) (i : ι) (a : ℤ) :
    Presence ι :=
  { s with
    ended := Function.update s.ended i (Function.update (s.ended i) a true)
    leave := fun id => if config.gateway id = i ∧ s.inRoom id a then some .begin else s.leave id
    view := fun id =>
      if config.gateway id = i ∧ s.inRoom id a then { s.view id with joined := [] } else s.view id }

end Presence

variable {ι : Type}

def presenceStep [DecidableEq ι] (config : PresenceConfig ι) (s : Presence ι) :
    PresenceAction ι → Option (Presence ι)
  | .join id room now =>
    (joinStep (config.client id) id (config.auction id) room now s.registry (s.join id)).map fun t =>
      t.2.2.foldl (Presence.perform config id)
        { s with registry := t.1, join := Function.update s.join id t.2.1 }
  | .disconnect id => if s.leave id = none then some (s.disconnect id) else none
  | .leave id now =>
    (s.leave id).bind fun pc => (unregisterStep id now s.registry pc).map fun t =>
      t.2.2.foldl Presence.publish
        { s with registry := t.1, leave := Function.update s.leave id (some t.2.1) }
  | .deliver i => s.deliver config i
  | .auctionEnd i a => some (s.auctionEnd config i a)

variable {config : PresenceConfig ι} {s t : Presence ι} {act : PresenceAction ι} {id : SocketId}
  {a : ℤ} {now : Time} {us : List SessionUpdate} {r : Registry}

/-! One step. -/

theorem update_kept {α β : Type} [DecidableEq α] {f : α → β} {k x : α} {y z : β} (hk : f k ≠ z)
    (hx : f x = z) : Function.update f k y x = z := by
  have hne : x ≠ k := by
    rintro rfl
    exact hk hx
  rw [Function.update_of_ne hne]
  exact hx

@[simp] theorem Presence.setView_view {v : PresenceView} : (s.setView id v).view id = v := by
  simp [Presence.setView]

theorem Presence.inRoom_iff : s.inRoom id a ↔ s.leave id = none ∧ a ∈ (s.view id).joined := by
  unfold Presence.inRoom Socket.rooms
  rw [List.mem_cons, List.mem_map]
  refine and_congr_right fun _ => ⟨?_, fun ha => .inr ⟨a, ha, rfl⟩⟩
  rintro (hself | ⟨c, hc, heq⟩)
  · exact absurd hself.symm (id.notRoom a)
  · rw [← toString_inj heq]
    exact hc

@[simp] theorem Presence.disconnect_registry : (s.disconnect id).registry = s.registry := by
  unfold Presence.disconnect
  split <;> rfl

@[simp] theorem Presence.disconnect_updates : (s.disconnect id).updates = s.updates := by
  unfold Presence.disconnect
  split <;> rfl

@[simp] theorem Presence.disconnect_truthful : (s.disconnect id).truthful = s.truthful := by
  unfold Presence.disconnect
  split <;> rfl

@[simp] theorem Presence.disconnect_join : (s.disconnect id).join = s.join := by
  unfold Presence.disconnect
  split <;> rfl

@[simp] theorem Presence.disconnect_delivered : (s.disconnect id).delivered = s.delivered := by
  unfold Presence.disconnect
  split <;> rfl

@[simp] theorem Presence.disconnect_ended : (s.disconnect id).ended = s.ended := by
  unfold Presence.disconnect
  split <;> rfl

/-- Only a socket that is connected disconnects. -/
theorem Presence.disconnect_leave {other : SocketId} : (s.disconnect id).leave other =
    if other = id ∧ s.leave id = none then some .begin else s.leave other := by
  unfold Presence.disconnect
  by_cases hleave : s.leave id = none
  · rw [if_pos hleave]
    by_cases hother : other = id
    · simp [Presence.setView, hother, hleave]
    · simp [Presence.setView, hother]
  · rw [if_neg hleave, if_neg fun hboth => hleave hboth.2]

theorem Presence.disconnect_view {other : SocketId} : (s.disconnect id).view other =
    if other = id ∧ s.leave id = none then { s.view id with joined := [] } else s.view other := by
  unfold Presence.disconnect
  by_cases hleave : s.leave id = none
  · rw [if_pos hleave]
    by_cases hother : other = id
    · simp [Presence.setView, hother, hleave]
    · simp [Presence.setView, hother]
  · rw [if_neg hleave, if_neg fun hboth => hleave hboth.2]

/-- What a statement of an `unregisterSocket` call does. -/
inductive LeaveStep (id : SocketId) (now : Time) (r : Registry) :
    UnregisterPc → Registry → UnregisterPc → List SessionUpdate → Prop where
  | unknown : r.socketUsername id = none ∨ r.socketUsername id = some "" →
      LeaveStep id now r .begin r .finished []
  | findsUsername {username : String} : r.socketUsername id = some username →
      LeaveStep id now r .begin r (.foundUsername username) []
  | findsIp {username : String} :
      LeaveStep id now r (.foundUsername username) r (.foundIp username (r.socketIp id)) []
  | findsAuctionId {username : String} {ip : Option String} :
      LeaveStep id now r (.foundIp username ip) r
        (.foundAuctionId username ip (r.socketAuctionId id)) []
  | removes {username : String} {ip : Option String} {auctionId : Option ℤ} :
      LeaveStep id now r (.foundAuctionId username ip auctionId)
        (r.unregisterMulti id username ip auctionId) (.removed username auctionId) []
  | counts {username : String} {auctionId : Option ℤ} : r.userAuction username auctionId = ∅ →
      LeaveStep id now r (.removed username auctionId) r (.offline username auctionId) []
  | remains {username : String} {auctionId : Option ℤ} : r.userAuction username auctionId ≠ ∅ →
      LeaveStep id now r (.removed username auctionId) r .finished []
  | forgets {username : String} {auctionId : Option ℤ} :
      LeaveStep id now r (.offline username auctionId) (r.forgetUsername username auctionId)
        (.forgotten username auctionId) []
  | announces {username : String} {auctionId : Option ℤ} :
      LeaveStep id now r (.forgotten username auctionId) r .finished
        [⟨.userOffline, auctionId, username, now⟩]

theorem unregisterStep_inv {r' : Registry} {pc pc' : UnregisterPc}
    (h : unregisterStep id now r pc = some (r', pc', us)) : LeaveStep id now r pc r' pc' us := by
  cases pc with
  | begin =>
    simp only [unregisterStep] at h
    split at h
    · next hnone => cases h; exact .unknown (.inl hnone)
    · next username hname =>
      split at h
      · next hempty => cases h; exact .unknown (.inr (by rw [hname, hempty]))
      · cases h; exact .findsUsername hname
  | foundUsername username => cases h; exact .findsIp
  | foundIp username ip => cases h; exact .findsAuctionId
  | foundAuctionId username ip auctionId => cases h; exact .removes
  | removed username auctionId =>
    simp only [unregisterStep, Finset.card_eq_zero] at h
    split at h
    · next hlast => cases h; exact .counts hlast
    · next hmore => cases h; exact .remains hmore
  | offline username auctionId => cases h; exact .forgets
  | forgotten username auctionId => cases h; exact .announces
  | finished => cases h

/-- What a step does to the state. -/
inductive PresenceStep [DecidableEq ι] (config : PresenceConfig ι) (s : Presence ι) :
    PresenceAction ι → Presence ι → Prop where
  | finds {id : SocketId} {room room' : AuctionRoom} {now : Time} : s.join id = .begin →
      PresenceStep config s (.join id room now)
        { s with join := Function.update s.join id (.foundRoom room') }
  | refuses {id : SocketId} {room : AuctionRoom} {now : Time} : s.join id = .begin →
      PresenceStep config s (.join id room now)
        (({ s with join := Function.update s.join id .notFound } : Presence ι).disconnect id)
  | reports {id : SocketId} {room : AuctionRoom} {now : Time} : s.join id = .notFound →
      PresenceStep config s (.join id room now)
        { s with join := Function.update s.join id .finished }
  | lists {id : SocketId} {room room' : AuctionRoom} {now : Time} : s.join id = .foundRoom room' →
      PresenceStep config s (.join id room now)
        (({ s with join := Function.update s.join id (.listed room') } : Presence ι).setView id
          { s.view id with
            listed := s.registry.onlineInAuctionID (config.auction id)
            shown := s.registry.onlineInAuctionID (config.auction id)
            readAt := s.updates.length })
  | registers {id : SocketId} {room room' : AuctionRoom} {now : Time} : s.join id = .listed room' →
      PresenceStep config s (.join id room now)
        { s with
          registry := s.registry.registerMulti (config.client id).username id (config.client id).ip
            (config.auction id)
          join := Function.update s.join id (.registered room') }
  | announces {id : SocketId} {room room' : AuctionRoom} {now : Time} : s.join id = .registered room' →
      PresenceStep config s (.join id room now)
        (({ s with join := Function.update s.join id (.announced room') } : Presence ι).publish
          ⟨.userOnline, some (config.auction id), (config.client id).username, now⟩)
  | enters {id : SocketId} {room room' : AuctionRoom} {now : Time} : s.join id = .announced room' →
      PresenceStep config s (.join id room now)
        (({ s with join := Function.update s.join id .finished } : Presence ι).perform config id
          (.joined (config.auction id)))
  | turnsAway {id : SocketId} {room room' : AuctionRoom} {now : Time} : s.join id = .announced room' →
      PresenceStep config s (.join id room now)
        ((({ s with join := Function.update s.join id .finished } : Presence ι).perform config id
          (.joined (config.auction id))).disconnect id)
  | disconnects {id : SocketId} : PresenceStep config s (.disconnect id) (s.disconnect id)
  | leaves {id : SocketId} {now : Time} {pc pc' : UnregisterPc} {r : Registry}
      {us : List SessionUpdate} : s.leave id = some pc → LeaveStep id now s.registry pc r pc' us →
      PresenceStep config s (.leave id now)
        (us.foldl Presence.publish
          { s with registry := r, leave := Function.update s.leave id (some pc') })
  | delivers {i : ι} {p : SessionUpdate} {a : ℤ} : s.updates[s.delivered i]? = some p →
      p.auctionId = some a →
      PresenceStep config s (.deliver i)
        { s with
          delivered := Function.update s.delivered i (s.delivered i + 1)
          view := fun id =>
            if config.gateway id = i ∧ s.inRoom id a then
              { s.view id with shown := applyDelta (s.view id).shown p.event p.username }
            else s.view id }
  | ends {i : ι} {a : ℤ} : PresenceStep config s (.auctionEnd i a) (s.auctionEnd config i a)

theorem presenceStep_inv [DecidableEq ι] (h : presenceStep config s act = some t) :
    PresenceStep config s act t := by
  cases act with
  | join id room now =>
    obtain ⟨⟨r, pc, effects⟩, hstep, ht⟩ := Option.map_eq_some_iff.mp h
    rw [← ht]
    cases hpc : s.join id with
    | begin =>
      rw [hpc, joinStep] at hstep
      split at hstep
      · cases hstep; exact .finds hpc
      · cases hstep; exact .refuses hpc
    | notFound => rw [hpc] at hstep; cases hstep; exact .reports hpc
    | foundRoom room' => rw [hpc] at hstep; cases hstep; exact .lists hpc
    | listed room' => rw [hpc] at hstep; cases hstep; exact .registers hpc
    | registered room' => rw [hpc] at hstep; cases hstep; exact .announces hpc
    | announced room' =>
      rw [hpc] at hstep
      cases hstep
      unfold enterRoom
      split
      · exact .enters hpc
      · exact .turnsAway hpc
    | finished => rw [hpc] at hstep; cases hstep
  | disconnect id =>
    obtain ⟨-, heq⟩ := Option.ite_none_right_eq_some.mp h
    cases heq
    exact .disconnects
  | leave id now =>
    obtain ⟨pc, hpc, h⟩ := Option.bind_eq_some_iff.mp h
    obtain ⟨⟨r, pc', us⟩, hstep, ht⟩ := Option.map_eq_some_iff.mp h
    rw [← ht]
    exact .leaves hpc (unregisterStep_inv hstep)
  | deliver i =>
    obtain ⟨p, hp, h⟩ := Option.bind_eq_some_iff.mp h
    obtain ⟨a, ha, h⟩ := Option.bind_eq_some_iff.mp h
    cases h
    exact .delivers hp ha
  | auctionEnd i a =>
    cases h
    exact .ends

/-! Ann and Bob, in the same auction on the same instance. -/

theorem bob_nonempty : "bob" ≠ "" := by decide

def annAndBob : PresenceConfig Unit where
  client := fun id => if id = bobSocket then ⟨2, "bob", bob_nonempty, "10.0.0.2"⟩ else annClient
  auction := fun _ => 1
  gateway := fun _ => ()

def joins (id : SocketId) (n : ℕ) : List (PresenceAction Unit) := List.replicate n (.join id openRoom 0)

def leaves (id : SocketId) (n : ℕ) : List (PresenceAction Unit) := List.replicate n (.leave id 1)

end CarAuction
