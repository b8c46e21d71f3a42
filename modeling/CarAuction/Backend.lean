import CarAuction.Accounts
import CarAuction.Calls

/- The server from the login to the bid. Its parts are those of the other modules: the
   registrations and logins, the guards in front of the handlers, the interceptor and
   `handlePlaceBid`, the calls of the services. Here they run concurrently over one
   user table, one clock and one set of stores, and each hands on to the next.

   A message that has passed its guards runs the handler with the `user` of its
   client: a `placeBid` becomes a bid event, an `endAuction` a call of the service. The
   consumer starts a call for an event of the topic, any number of times. What
   `handleJoinAuction` does after it has read the state of the auction is left to
   `JoinAuction.lean`, and the audit topic to `Gateway.lean`.

   `ServerStep` lists what one statement does; `serverStep_inv` says the list is
   complete. -/
namespace CarAuction

open SerialTable Pool Machine

/-- What the statements share: the `User` table, the sockets and the clock, the throttle's sorted
    sets, the bid events produced, and the other tables and the cache. -/
structure Backend where
  users : UserTable
  gate : GuardWorld
  timestamps : BidTimestamps
  bidEvents : List (KafkaMessage BidMessage)
  auction : ℤ → Option Auction
  bid : List Bid
  cache : ℤ → Option AuctionRoom

/-- The `User` rows as the services read them. -/
def userRows (users : UserTable) (id : ℤ) : Option User := (users.findId id).map fun r => ⟨r.2.username⟩

namespace Backend

/-- The stores the services see. -/
def stores (b : Backend) : World := ⟨⟨userRows b.users, b.auction, b.bid⟩, b.cache⟩

/-- The services write no `User` row. -/
def withStores (b : Backend) (w : World) : Backend :=
  { b with auction := w.db.auction, bid := w.db.bid, cache := w.cache }

/-- The topics other than that of the bid events are not read here. -/
def send (b : Backend) : Option Produced → Backend
  | some (.bidEvents message) => { b with bidEvents := b.bidEvents ++ [message] }
  | _ => b

end Backend

/-- A handler body as it begins: the data of the message and the user of the client. -/
structure HandledMessage where
  socket : SocketId
  handler : Handler
  auctionId : ℤ
  amount : Number
  user : JwtPayload
  deriving DecidableEq

/-- The event `handlePlaceBid` sends. -/
def HandledMessage.bidMessage (m : HandledMessage) : BidMessage :=
  ⟨m.auctionId, m.amount, m.user.sub, m.user.username, m.socket.text⟩

/-- A request, a message with its data, a bid on its way to Kafka, or a call of a service. -/
inductive Process where
  | auth (call : AuthCall)
  | message (m : Message) (auctionId : ℤ) (amount : Number)
  | bidding (m : BidMessage) (pc : GatewayPc)
  | call (c : Call)

inductive ServerEvent where
  | issued (i : Issued)
  | guarded (e : GuardEvent)
  | handled (m : HandledMessage)
  | published (p : Publication)

structure ServerConfig where
  auth : AuthConfig
  limits : Limits
  throttle : Throttle

/-- What a statement reads besides the state: a salt, the size of a set, and which of several equal
    top bids the database returns. -/
structure ServerInput where
  salt : String
  count : ℕ
  pick : ℕ

/-- What runs after the guards. -/
def HandledMessage.body (m : HandledMessage) : Process :=
  match m.handler with
  | .joinAuction => .call (.getAuctionState m.auctionId .begin)
  | .placeBid => .bidding m.bidMessage .received
  | .endAuction => .call (.endAuction m.auctionId .begin)

/-- The next statement of a process. -/
def serverStep (config : ServerConfig) (i : ServerInput) (b : Backend) :
    Process → Option (Backend × Process × List ServerEvent)
  | .auth c =>
    (authStep config.auth ⟨b.gate.now, i.salt⟩ b.users c).map fun r =>
      ({ b with users := r.1 }, .auth r.2.1, r.2.2.map .issued)
  | .message m auctionId amount =>
    if m.pc = .allowed then
      match (b.gate.socket m.socket).user with
      | some user =>
        let handled : HandledMessage := ⟨m.socket, m.handler, auctionId, amount, user⟩
        some (b, handled.body, [.handled handled])
      -- every handler reads a property of the user
      | none => some (b, .message { m with pc := .threw } auctionId amount, [])
    else
      (guardStep config.limits i.count b.gate m).map fun r =>
        ({ b with gate := r.1 }, .message r.2.1 auctionId amount, r.2.2.map .guarded)
  | .bidding m pc =>
    (gatewayStep config.throttle b.gate.now m b.timestamps pc).map fun r =>
      ({ b with timestamps := r.1 }.send r.2.2, .bidding m r.2.1, [])
  | .call c =>
    (callStep ⟨b.gate.now, i.pick⟩ b.stores c).map fun r =>
      (b.withStores r.1, .call r.2.1, r.2.2.map .published)

namespace Process

def begins : Process → Bool
  | auth c => c.begins
  | message m _ _ => m = .arrive m.socket m.handler
  | bidding _ _ => false
  | call (.placeBid _ .begin) => true
  | call (.getAuctionState _ .begin) => true
  | call _ => false

/-- The process after an exception at the `await` it is in. -/
def throw : Process → Option Process
  | auth c => c.throw.map auth
  | message m auctionId amount => m.throw.map fun m => message m auctionId amount
  | bidding _ .finished => none
  | bidding m _ => some (bidding m .finished)
  | call c => c.throw.map call

end Process

/-- Time passes, or a key in Redis expires. -/
inductive ServerEnv where
  | elapse (k : ℕ)
  | expireCache (auctionId : ℤ)
  | expireTimestamps (username : String)

def ServerEnv.run : ServerEnv → Backend → Backend
  | elapse k, b => { b with gate := { b.gate with now := b.gate.now + k } }
  | expireCache auctionId, b => { b with cache := Function.update b.cache auctionId none }
  | expireTimestamps username, b => { b with timestamps := Function.update b.timestamps username [] }

def server (config : ServerConfig) :
    Pool.Program Backend Process ServerEvent ServerInput ServerEnv where
  begins := Process.begins
  step := serverStep config
  env := ServerEnv.run
  kill := Process.throw

abbrev ServerState := Pool.State Backend Process ServerEvent
abbrev ServerAction := Pool.Action Process ServerInput ServerEnv

/-- The tokens given out. -/
def issuedTokens (log : List ServerEvent) : List Token :=
  log.filterMap fun | .issued i => some i.token | _ => none

/-- The socket's token was given out by this server, if its signature is valid. -/
def TokenGenuine (gate : GuardWorld) (log : List ServerEvent) (id : SocketId) : Prop :=
  ∀ token ∈ (gate.socket id).token, token.valid = true → token ∈ issuedTokens log

/-- The client cannot sign a token, and Kafka makes up no event. -/
def Process.Honest (s : ServerState) : Process → Prop
  | message m _ _ => TokenGenuine s.world.gate s.log m.socket
  | call (.placeBid m _) => m ∈ s.world.bidEvents.map KafkaMessage.value
  | _ => True

def Unforged : ServerState → ServerAction → ServerState → Prop := OnStart Process.Honest

instance {gate : GuardWorld} {log : List ServerEvent} {id : SocketId} :
    Decidable (TokenGenuine gate log id) := by
  unfold TokenGenuine
  infer_instance

instance (s : ServerState) (p : Process) : Decidable (p.Honest s) := by
  unfold Process.Honest
  split <;> infer_instance

instance {s t : ServerState} {act : ServerAction} : Decidable (Unforged s act t) :=
  inferInstanceAs (Decidable (OnStart _ s act t))

/-! What one statement does. -/

inductive ServerStep (config : ServerConfig) (i : ServerInput) (b : Backend) :
    Process → Backend → Process → List ServerEvent → Prop where
  | auth {c users c' es} : AuthStep config.auth ⟨b.gate.now, i.salt⟩ b.users c users c' es →
      ServerStep config i b (.auth c) { b with users := users } (.auth c') (es.map .issued)
  | guards {m gate m' es auctionId amount} : GuardStep config.limits i.count b.gate m gate m' es →
      ServerStep config i b (.message m auctionId amount)
        { b with gate := gate } (.message m' auctionId amount) (es.map .guarded)
  | handles {m user auctionId amount} : m.pc = .allowed →
      (b.gate.socket m.socket).user = some user →
      ServerStep config i b (.message m auctionId amount) b
        (HandledMessage.body ⟨m.socket, m.handler, auctionId, amount, user⟩)
        [.handled ⟨m.socket, m.handler, auctionId, amount, user⟩]
  | hasNoUser {m auctionId amount} : m.pc = .allowed → (b.gate.socket m.socket).user = none →
      ServerStep config i b (.message m auctionId amount) b
        (.message { m with pc := .threw } auctionId amount) []
  | bids {m pc timestamps pc' produced} :
      gatewayStep config.throttle b.gate.now m b.timestamps pc = some (timestamps, pc', produced) →
      ServerStep config i b (.bidding m pc) ({ b with timestamps := timestamps }.send produced)
        (.bidding m pc') []
  | calls {c w c' pubs} : CallStep ⟨b.gate.now, i.pick⟩ b.stores c w c' pubs →
      ServerStep config i b (.call c) (b.withStores w) (.call c') (pubs.map .published)

theorem serverStep_inv {config : ServerConfig} {i : ServerInput} {b b' : Backend} {p p' : Process}
    {es : List ServerEvent} (h : serverStep config i b p = some (b', p', es)) :
    ServerStep config i b p b' p' es := by
  cases p with
  | auth c =>
    obtain ⟨⟨users, c', es'⟩, hs, heq⟩ := Option.map_eq_some_iff.mp h
    cases heq
    exact .auth (authStep_inv hs)
  | message m auctionId amount =>
    simp only [serverStep] at h
    split at h
    · next hpc =>
      split at h
      · next user huser => cases h; exact .handles hpc huser
      · next huser => cases h; exact .hasNoUser hpc huser
    · obtain ⟨⟨gate, m', es'⟩, hs, heq⟩ := Option.map_eq_some_iff.mp h
      cases heq
      exact .guards (guardStep_inv hs)
  | bidding m pc =>
    obtain ⟨⟨timestamps, pc', produced⟩, hs, heq⟩ := Option.map_eq_some_iff.mp h
    cases heq
    exact .bids hs
  | call c =>
    obtain ⟨⟨w, c', pubs⟩, hs, heq⟩ := Option.map_eq_some_iff.mp h
    cases heq
    exact .calls (callStep_inv hs)

end CarAuction
