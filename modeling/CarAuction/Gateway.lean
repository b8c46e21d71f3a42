import CarAuction.Routing

/- A gateway instance: the handling of a `placeBid` message up to Kafka, the audit
   consumer, and what the instance's Redis subscriber emits to its sockets.

   Correspondence (TypeScript ↔ Lean):
     `BidThrottleInterceptor.intercept`, `handlePlaceBid`   ↔ `gatewayStep`
     `user:${username}:bid_timestamps`                      ↔ `BidTimestamps` at `username`
     `KafkaProducerService.rateLimitExceeded`               ↔ `rateLimitExceeded`
     `eachMessage` of `AuditLogsConsumerService`            ↔ `auditPublications`
     `pmessage` and `message` handlers of `RedisService`    ↔ `handleMessage`
     `client.join(auctionId.toString())`                    ↔ `Socket.rooms`
   A member of a user's sorted set is the decimal text of its score, so the set is
   the list of the scores. The notifications consumer only logs, and so do the
   branches of the audit consumer other than the rate limit's. For `presenceDelta`
   events see `Presence`. -/
namespace CarAuction

/-- The id of a socket, which is not the name of an auction's room. -/
structure SocketId where
  text : String
  nonempty : text ≠ ""
  notRoom : ∀ auctionId : ℤ, text ≠ toString auctionId
  deriving DecidableEq

/-- A connected socket and the auctions it has joined. -/
structure Socket where
  id : SocketId
  joined : List ℤ
  deriving DecidableEq

/-- Every socket is in the room with its own id. -/
def Socket.rooms (socket : Socket) : List String := socket.id.text :: socket.joined.map toString

inductive ClientEvent where
  | newBid (auctionId : ℤ) (newBid : NewBid)
  | auctionEnd (auctionId : ℤ) (winningBid : WinningBidSummary) (message : EndMessage)
  | bidRejected (auctionId : ℤ) (message : RejectReason)
  deriving DecidableEq

/-- `server.to(room).emit(event)`, to the sockets of this instance. -/
def emitTo (room : String) (event : ClientEvent) (sockets : List Socket) :
    List (SocketId × ClientEvent) :=
  (sockets.filter (room ∈ ·.rooms)).map fun socket => (socket.id, event)

/-- What an instance with these sockets emits for a message, and the sockets it keeps. -/
def handleMessage (sockets : List Socket) (p : Publication) :
    List (SocketId × ClientEvent) × List Socket :=
  match p.channel, p.payload with
  | .auctionUpdates _, .newBid auctionId newBid =>
    (emitTo (toString auctionId) (.newBid auctionId newBid) sockets, sockets)
  | .auctionUpdates _, .auctionEnd auctionId winningBid message =>
    (emitTo (toString auctionId) (.auctionEnd auctionId winningBid message) sockets,
      sockets.filter (toString auctionId ∉ ·.rooms))
  | .emitToSocket, .bidError auctionId errorMessage socketId =>
    (emitTo socketId (.bidRejected auctionId errorMessage) sockets, sockets)
  | _, _ => ([], sockets)

/-- `MAX_BIDS` and `WINDOW_SECONDS`. -/
structure Throttle where
  maxBids : ℕ
  windowSeconds : ℕ

abbrev BidTimestamps := String → List Time

def zremrangebyscore (min max : Time) (scores : List Time) : List Time :=
  scores.filter fun t => ¬ (min ≤ t ∧ t ≤ max)

def zcard (scores : List Time) : ℕ := scores.length

def zadd (score : Time) (scores : List Time) : List Time :=
  if score ∈ scores then scores else scores ++ [score]

/-- `KafkaAuditRateLimitExceeded`, less the date, which nothing reads. -/
structure RateLimitPayload where
  bidderId : ℤ
  bidderUsername : String
  auctionId : ℤ
  errorMessage : RejectReason
  socketId : String
  deriving DecidableEq

/-- The value of a message of the audit topic. -/
inductive AuditPayload where
  | newBid (payload : BidMessage)
  | rateLimitExceeded (payload : RateLimitPayload)
  deriving DecidableEq

def auditLogsPartitions : ℕ := 10

def rateLimitKey : String := "rate_limit_exceeded"

/-- The audit message of a bid over the limit, to partition 0. -/
def rateLimitExceeded (m : BidMessage) : KafkaMessage AuditPayload where
  key := rateLimitKey
  value := .rateLimitExceeded
    ⟨m.bidderId, m.bidderUsername, m.auctionId, .rateLimitExceeded, m.socketId⟩
  partition := 0

/-- The audit message of a bid, keyed and routed as the bid event. -/
def produceAuditEvent (auctionId : ℤ) (payload : BidMessage) : KafkaMessage AuditPayload where
  key := (produce auctionId payload).key
  value := .newBid payload
  partition := (produce auctionId payload).partition

/-- What the audit consumer publishes for a message. -/
def auditPublications (message : KafkaMessage AuditPayload) : List Publication :=
  if message.key = rateLimitKey then
    match message.value with
    | .rateLimitExceeded payload =>
      [⟨.emitToSocket, .bidError payload.auctionId payload.errorMessage payload.socketId⟩]
    -- no bid event has this key
    | .newBid _ => []
  else []

/-- Where a `placeBid` message is at its gateway. -/
inductive GatewayPc where
  | received
  | pruned (now : Time)
  | counted (now : Time) (count : ℕ)
  | passed
  | bidProduced
  | notified
  | finished
  deriving DecidableEq

/-- A message the gateway sends, by topic. -/
inductive Produced where
  | bidEvents (message : KafkaMessage BidMessage)
  | auctionNotifications (message : KafkaMessage BidMessage)
  | auditLogs (message : KafkaMessage AuditPayload)

/-- The next statement for a message that passed the guards, with the clock reading `now`. -/
def gatewayStep (throttle : Throttle) (now : Time) (m : BidMessage) (timestamps : BidTimestamps) :
    GatewayPc → Option (BidTimestamps × GatewayPc × Option Produced)
  | .received =>
    let scores := zremrangebyscore 0 (now - throttle.windowSeconds * 1000)
      (timestamps m.bidderUsername)
    some (Function.update timestamps m.bidderUsername scores, .pruned now, none)
  | .pruned now => some (timestamps, .counted now (zcard (timestamps m.bidderUsername)), none)
  | .counted now count =>
    -- over the limit the interceptor throws, and the handler is not reached
    if throttle.maxBids ≤ count then
      some (timestamps, .finished, some (.auditLogs (rateLimitExceeded m)))
    else
      let scores := zadd now (timestamps m.bidderUsername)
      some (Function.update timestamps m.bidderUsername scores, .passed, none)
  | .passed => some (timestamps, .bidProduced, some (.bidEvents (produce m.auctionId m)))
  | .bidProduced =>
    some (timestamps, .notified, some (.auctionNotifications (produce m.auctionId m)))
  | .notified =>
    some (timestamps, .finished, some (.auditLogs (produceAuditEvent m.auctionId m)))
  | .finished => none

/-! What the consumers and handlers make of a bid. -/

variable {m : BidMessage} {sockets : List Socket} {auctionId : ℤ}

/-- A text with a character that is no digit and no sign is not that of a number. -/
theorem ne_toString {text : String} {c : Char} (hmem : c ∈ text.toList) (hdigit : c.isDigit = false)
    (hsign : c ≠ '-') (n : ℤ) : text ≠ toString n := by
  intro h
  have digits : ∀ k : ℕ, c ∉ Nat.toDigits 10 k := by
    intro k hk
    rw [Nat.isDigit_of_mem_toDigits (by decide) (by decide) hk] at hdigit
    cases hdigit
  rw [h] at hmem
  cases n with
  | ofNat k =>
    apply digits k
    simpa [Int.repr, Nat.toList_repr] using hmem
  | negSucc k =>
    apply digits (k + 1)
    simpa [Int.repr, Nat.toList_repr, hsign] using hmem

theorem toString_ne_rateLimitKey (auctionId : ℤ) : toString auctionId ≠ rateLimitKey :=
  (ne_toString (show '_' ∈ rateLimitKey.toList by decide) rfl (by decide) auctionId).symm

@[simp] theorem auditPublications_bid : auditPublications (produceAuditEvent auctionId m) = [] :=
  if_neg (toString_ne_rateLimitKey auctionId)

/-- A room with the id of a socket holds that socket alone. -/
theorem mem_rooms_id {socket : Socket} {id : SocketId} :
    id.text ∈ socket.rooms ↔ socket.id = id := by
  refine ⟨fun h => ?_, fun h => h ▸ List.mem_cons_self⟩
  rcases List.mem_cons.mp h with heq | hroom
  · obtain ⟨a, _, _⟩ := id
    obtain ⟨⟨b, _, _⟩, joined⟩ := socket
    cases heq
    rfl
  · obtain ⟨a, -, ha⟩ := List.mem_map.mp hroom
    exact absurd ha.symm (id.notRoom a)

/-- What is emitted to a socket id reaches the socket with that id, if it is there. -/
theorem emitTo_id (hnodup : (sockets.map Socket.id).Nodup) (id : SocketId) (event : ClientEvent) :
    emitTo id.text event sockets =
      if id ∈ sockets.map Socket.id then [(id, event)] else [] := by
  unfold emitTo
  induction sockets with
  | nil => rfl
  | cons socket sockets ih =>
    obtain ⟨hnotin, hrest⟩ := List.nodup_cons.mp (List.map_cons ▸ hnodup)
    have hrec := ih hrest
    by_cases hid : socket.id = id
    · subst hid
      rw [if_neg hnotin] at hrec
      simp [mem_rooms_id.mpr rfl, hrec]
    · have hroom : id.text ∉ socket.rooms := fun h => hid (mem_rooms_id.mp h)
      simp [hroom, hrec, Ne.symm hid]

/-! Two socket ids. -/

def annSocket : SocketId where
  text := "socket-a"
  nonempty := by decide
  notRoom := ne_toString (show 's' ∈ "socket-a".toList by decide) rfl (by decide)

def bobSocket : SocketId where
  text := "socket-b"
  nonempty := by decide
  notRoom := ne_toString (show 's' ∈ "socket-b".toList by decide) rfl (by decide)

end CarAuction
