import CarAuction.Schema

/- What the services hand to each other: bid events (Kafka), the cached auction
   state and the published events (Redis). JSON keeps `null` and drops a property
   that is `undefined`, so a property that may be missing is a `Field`.

   Correspondence (TypeScript ↔ Lean):
     `PlaceBidDto & {...}`, `KafkaNewBid`    ↔ `BidMessage`
     `AuctionRoom`                           ↔ `AuctionRoom`
     `PlaceBidResult.error`, rejections      ↔ `RejectReason`
     `EndAuctionSummary`                     ↔ `EndAuctionSummary`
     `RedisService.publish`                  ↔ a `Publication`
     `auction:${auctionId}:state`            ↔ the key `auctionId` of `World.cache`
   The texts of the messages interpolate numbers; `num` is the rendering of a
   number (`Number.prototype.toString`, which the `Decimal` of a column shares
   below its bound). -/
namespace CarAuction

/-- A property of an object that JSON has carried. -/
inductive Field (α : Type) where
  | undefined
  | null
  | val (a : α)
  deriving DecidableEq

namespace Field

variable {α : Type}

/-- The value, with `null` and absent identified. -/
def toOption : Field α → Option α
  | val a => some a
  | _ => none

/-- A nullable column read into a property. -/
def ofOption : Option α → Field α
  | some a => val a
  | none => null

@[simp] theorem toOption_undefined : (undefined : Field α).toOption = none := rfl
@[simp] theorem toOption_null : (null : Field α).toOption = none := rfl
@[simp] theorem toOption_val (a : α) : (val a).toOption = some a := rfl
@[simp] theorem toOption_ofOption (o : Option α) : (ofOption o).toOption = o := by cases o <;> rfl

end Field

/-- The payload of a bid event. -/
structure BidMessage where
  auctionId : ℤ
  amount : Number
  bidderId : ℤ
  bidderUsername : String
  socketId : String
  deriving DecidableEq

/-- The state of an auction as it is cached and returned. -/
structure AuctionRoom where
  exist : Bool
  currentHighestBid : Field Number
  winnerUsername : Field String
  winnerId : Field ℤ
  isOpen : Field Bool
  deriving DecidableEq

/-- Why a bid is rejected: the error codes of `placeBid`, and the throttle's. -/
inductive RejectReason where
  | auctionNotFound (auctionId : ℤ)
  | auctionClosed (auctionId : ℤ)
  | bidTooLow (amount : Number) (currentHighestBid : Decimal)
  | rateLimitExceeded
  deriving DecidableEq

namespace RejectReason

def code : RejectReason → String
  | auctionNotFound _ => "AUCTION_NOT_FOUND"
  | auctionClosed _ => "AUCTION_CLOSED"
  | bidTooLow _ _ => "BID_TOO_LOW"
  | rateLimitExceeded => "rate_limit_exceeded"

def message (num : Number → String) : RejectReason → String
  | auctionNotFound auctionId => s!"Auction not found | Auction ID: {auctionId}"
  | auctionClosed auctionId => s!"Auction closed | Auction ID: {auctionId}"
  | bidTooLow amount currentHighestBid =>
    s!"Bid too low | Amount: {num amount} | Current Highest Bid: {num currentHighestBid.toRat}"
  | rateLimitExceeded => "Rate limit exceeded | Too many bids, please slow down."

end RejectReason

/-- The `message` of an `EndAuctionSummary`. -/
inductive EndMessage where
  | notFound (auctionId : ℤ)
  | alreadyClosed (auctionId : ℤ) (endTime : Time)
  | noBids (auctionId : ℤ)
  | winner (auctionId : ℤ) (username : String) (amount : Decimal)
  deriving DecidableEq

/-- `date` renders a `Date`. -/
def EndMessage.text (num : Number → String) (date : Time → String) : EndMessage → String
  | notFound auctionId => s!"Auction not found | Auction ID: {auctionId}"
  | alreadyClosed auctionId endTime =>
    s!"Auction already closed | Auction ID: {auctionId} | End Time: {date endTime}"
  | noBids auctionId => s!"Auction closed | Auction ID: {auctionId} | No bids found."
  | winner auctionId username amount =>
    s!"Auction closed | Auction ID: {auctionId} | Winner: {username} | Amount: {num amount.toRat}"

structure WinningBidSummary where
  amount : Number
  userId : Field ℤ
  username : Field String
  deriving DecidableEq

structure EndAuctionSummary where
  success : Bool
  message : EndMessage
  winningBidSummary : Option WinningBidSummary
  deriving DecidableEq

/-- The channels published to. -/
inductive Channel where
  | auctionUpdates (auctionId : ℤ)
  | emitToSocket
  | sessionUpdates
  deriving DecidableEq

def Channel.name : Channel → String
  | auctionUpdates auctionId => s!"auction_updates:{auctionId}"
  | emitToSocket => "emit-to-socket"
  | sessionUpdates => "session_updates"

/-- The `newBid` object of a `newBid` event. -/
structure NewBid where
  amount : Number
  bidderId : ℤ
  bidderUsername : String
  timestamp : Time
  deriving DecidableEq

/-- The event and its data. -/
inductive Payload where
  | newBid (auctionId : ℤ) (newBid : NewBid)
  | auctionEnd (auctionId : ℤ) (winningBid : WinningBidSummary) (message : EndMessage)
  | bidError (auctionId : ℤ) (reason : RejectReason) (socketId : String)
  deriving DecidableEq

/-- The name of the event: the error code for a rejection. -/
def Payload.event : Payload → String
  | newBid _ _ => "newBid"
  | auctionEnd _ _ _ => "auctionEnd"
  | bidError _ reason _ => reason.code

/-- A message handed to `RedisService.publish`. -/
structure Publication where
  channel : Channel
  payload : Payload
  deriving DecidableEq

/-- The `auctionId` of the data. -/
def Payload.auctionId : Payload → ℤ
  | newBid auctionId _ => auctionId
  | auctionEnd auctionId _ _ => auctionId
  | bidError auctionId _ _ => auctionId

/-- The `newBid` objects published for an auction, in order. -/
def newBidsOf (a : ℤ) (log : List Publication) : List NewBid :=
  log.filterMap fun p => match p.channel, p.payload with
    | .auctionUpdates auctionId, .newBid _ newBid => if auctionId = a then some newBid else none
    | _, _ => none

/-- The winning bids announced for an auction, in order. -/
def auctionEndsOf (a : ℤ) (log : List Publication) : List WinningBidSummary :=
  log.filterMap fun p => match p.channel, p.payload with
    | .auctionUpdates auctionId, .auctionEnd _ winningBid _ =>
      if auctionId = a then some winningBid else none
    | _, _ => none

/-- What was published on the channel of an auction, in order. -/
def channelEvents (a : ℤ) (log : List Publication) : List Payload :=
  (log.filter (·.channel = .auctionUpdates a)).map Publication.payload

theorem channelEvents_append {a : ℤ} {log pubs : List Publication} :
    channelEvents a (log ++ pubs) = channelEvents a log ++ channelEvents a pubs := by
  simp [channelEvents]

@[simp] theorem newBidsOf_append {a : ℤ} {log pubs : List Publication} :
    newBidsOf a (log ++ pubs) = newBidsOf a log ++ newBidsOf a pubs :=
  List.filterMap_append

@[simp] theorem auctionEndsOf_append {a : ℤ} {log pubs : List Publication} :
    auctionEndsOf a (log ++ pubs) = auctionEndsOf a log ++ auctionEndsOf a pubs :=
  List.filterMap_append

/-- The stores the services share. -/
structure World where
  db : Database
  cache : ℤ → Option AuctionRoom

namespace World

variable {w : World} {a id : ℤ} {room : AuctionRoom}

def getCache (w : World) (auctionId : ℤ) : Option AuctionRoom := w.cache auctionId

def setCache (w : World) (auctionId : ℤ) (room : AuctionRoom) : World :=
  { w with cache := Function.update w.cache auctionId (some room) }

/-- The time to live of a cache entry elapses. -/
def expireCache (w : World) (auctionId : ℤ) : World :=
  { w with cache := Function.update w.cache auctionId none }

@[simp] theorem setCache_db : (w.setCache id room).db = w.db := rfl

@[simp] theorem setCache_cache_self : (w.setCache id room).cache id = some room := by
  simp [setCache]

@[simp] theorem setCache_cache_of_ne (h : a ≠ id) : (w.setCache id room).cache a = w.cache a := by
  simp [setCache, h]

@[simp] theorem expireCache_cache_self : (w.expireCache id).cache id = none := by
  simp [expireCache]

@[simp] theorem expireCache_cache_of_ne (h : a ≠ id) :
    (w.expireCache id).cache a = w.cache a := by
  simp [expireCache, h]

end World

end CarAuction
