import CarAuction.Guards
import CarAuction.Sessions

/- `AuctionGateway.handleJoinAuction` and `handleDisconnect`, whole and statement by
   statement.

   The state of the auction is read first. A client that names no auction is told
   so and disconnected. Any other gets the names that are online, is registered, and
   joins the room in one step with the emission of the state read at the start.
   `handleDisconnect` is `unregisterSocket`, and the client's own disconnection, which
   it begins with, changes nothing of a client that is gone. -/
namespace CarAuction

open Machine

/-- A client that has passed the guards. -/
structure Client where
  sub : ℤ
  username : String
  nonempty : username ≠ ""
  address : String

def Client.ip (client : Client) : String := normalizeIp client.address

/-- The data of an `auctionState` event. -/
structure AuctionStateEvent where
  auctionId : ℤ
  amount : Field Number
  bidderId : Field ℤ
  bidderUsername : Field String
  isClosed : Bool
  deriving DecidableEq

/-- `isOpen` is `true`; a field that is missing is falsy. -/
def AuctionRoom.open? (room : AuctionRoom) : Bool := room.isOpen = .val true

def auctionStateEvent (auctionId : ℤ) (room : AuctionRoom) : AuctionStateEvent where
  auctionId := auctionId
  amount := room.currentHighestBid
  bidderId := room.winnerId
  bidderUsername := room.winnerUsername
  isClosed := !room.open?

/-- What the handler does outside Redis keys. -/
inductive JoinEffect where
  | connectionRejected (auctionId : ℤ) (message : String)
  | noAuctionRoom (auctionId : ℤ) (userId : ℤ) (username : String) (normalizedIp : String) (error : String)
  | onlineUsers (usernames : Finset String)
  | sessionUpdate (update : SessionUpdate)
  | joined (auctionId : ℤ)
  | auctionState (event : AuctionStateEvent)
  | disconnected
  deriving DecidableEq

def JoinEffect.update : JoinEffect → Option SessionUpdate
  | sessionUpdate update => some update
  | _ => none

def notFoundMessage (auctionId : ℤ) : String := s!"Auction with auctionId: {auctionId} not found."

/-- The last synchronous part of the handler. -/
def enterRoom (auctionId : ℤ) (room : AuctionRoom) : List JoinEffect :=
  [.joined auctionId, .auctionState (auctionStateEvent auctionId room)] ++
    if room.open? then [] else [.disconnected]

/-- `handleJoinAuction`, where `room` is what `getAuctionState` returns. -/
def handleJoinAuction (client : Client) (id : SocketId) (auctionId : ℤ) (now : Time)
    (room : AuctionRoom) (r : Registry) : Registry × List JoinEffect :=
  if room.exist then
    let (r', updates) := r.registerSocket now client.username id client.ip auctionId
    (r', [.onlineUsers (r.onlineInAuctionID auctionId)] ++ updates.map .sessionUpdate ++
      enterRoom auctionId room)
  else
    (r, [.connectionRejected auctionId (notFoundMessage auctionId), .disconnected,
      .noAuctionRoom auctionId client.sub client.username client.ip (notFoundMessage auctionId)])

def handleDisconnect (id : SocketId) (now : Time) (r : Registry) : Registry × List SessionUpdate :=
  r.unregisterSocket now id

/-- Where a `handleJoinAuction` call is. -/
inductive JoinPc where
  | begin
  | notFound
  | foundRoom (room : AuctionRoom)
  | listed (room : AuctionRoom)
  | registered (room : AuctionRoom)
  | announced (room : AuctionRoom)
  | finished
  deriving DecidableEq

/-- The next statement of the handler, where `room` is what `getAuctionState` returns. -/
def joinStep (client : Client) (id : SocketId) (auctionId : ℤ) (room : AuctionRoom) (now : Time)
    (r : Registry) : JoinPc → Option (Registry × JoinPc × List JoinEffect)
  | .begin =>
    if room.exist then some (r, .foundRoom room, [])
    else some (r, .notFound,
      [.connectionRejected auctionId (notFoundMessage auctionId), .disconnected])
  | .notFound =>
    some (r, .finished,
      [.noAuctionRoom auctionId client.sub client.username client.ip (notFoundMessage auctionId)])
  | .foundRoom room => some (r, .listed room, [.onlineUsers (r.onlineInAuctionID auctionId)])
  | .listed room =>
    some (r.registerMulti client.username id client.ip auctionId, .registered room, [])
  | .registered room =>
    some (r, .announced room, [.sessionUpdate ⟨.userOnline, some auctionId, client.username, now⟩])
  | .announced room =>
    -- the room may have heard of bids and of the end since its state was read
    some (r, .finished, enterRoom auctionId room)
  | .finished => none

/-- The statements of the handler, undisturbed, do what the function does. -/
theorem handleJoinAuction_statements (client : Client) (id : SocketId) (auctionId : ℤ) (now : Time)
    (room : AuctionRoom) (r : Registry) :
    ∃ n, exec (driven (joinStep client id auctionId room)) (r, .begin, []) (List.replicate n now) =
      some ((handleJoinAuction client id auctionId now room r).1, .finished,
        (handleJoinAuction client id auctionId now room r).2) := by
  by_cases hexist : room.exist = true
  · refine ⟨5, ?_⟩
    simp [List.replicate, exec, driven, joinStep, handleJoinAuction, hexist, Registry.registerSocket]
  · refine ⟨2, ?_⟩
    simp [List.replicate, exec, driven, joinStep, handleJoinAuction, hexist]

/-! A client, and an auction without bids. -/

def annClient : Client := ⟨1, "ann", by decide, "10.0.0.1"⟩

def openRoom : AuctionRoom := ⟨true, .val 0, .undefined, .undefined, .val true⟩

end CarAuction
