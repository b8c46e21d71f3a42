import CarAuction.Messages

/- `AuctionService.getAuctionState` and `AuctionService.endAuction`, statement by
   statement.

   `getAuctionState` returns the cached state if there is one; otherwise it reads
   the auction row, then the winner's user row if the row names a winner, writes
   the cache and returns what it wrote. `endAuction` reads the row, closes it,
   reads the highest bid with its user, publishes `auctionEnd` and writes the
   cache. The include of the update (`bids`, with `user`) is a separate statement
   after the update, which sees whatever is committed by then. -/
namespace CarAuction

/-- The state `getAuctionState` builds from the row and the winner's user name. -/
def rowRoom (auction : Auction) (winnerUsername : Field String) : AuctionRoom where
  exist := true
  currentHighestBid := .val auction.currentHighestBid.toRat
  winnerUsername := winnerUsername
  winnerId := .ofOption auction.winnerId
  isOpen := .val auction.isOpen

def missingRoom : AuctionRoom := ⟨false, .undefined, .undefined, .undefined, .undefined⟩

/-- Where a `getAuctionState` call is. -/
inductive GetStatePc where
  | begin
  | missed
  | foundRow (auction : Auction) (winnerId : ℤ)
  | resolved (room : AuctionRoom)
  | returned (room : AuctionRoom)
  | threw
  deriving DecidableEq

/-- The next statement of a `getAuctionState` call. A `winnerId` of `0` is falsy. -/
def getAuctionStateStep (auctionId : ℤ) (w : World) : GetStatePc → Option (World × GetStatePc)
  | .begin =>
    match w.getCache auctionId with
    | some room => some (w, .returned room)
    | none => some (w, .missed)
  | .missed =>
    -- what is read here is cached by a later statement, whatever is committed in between
    match w.db.auctionFindUnique auctionId with
    | none => some (w, .returned missingRoom)
    | some auction =>
      match auction.winnerId with
      | none => some (w, .resolved (rowRoom auction .undefined))
      | some winnerId =>
        if winnerId = 0 then some (w, .resolved (rowRoom auction .undefined))
        else some (w, .foundRow auction winnerId)
  | .foundRow auction winnerId =>
    match w.db.userFindUnique winnerId with
    | none => some (w, .threw)
    | some winner => some (w, .resolved (rowRoom auction (.val winner.username)))
  | .resolved room => some (w.setCache auctionId room, .returned room)
  | .returned _ => none
  | .threw => none

/-- The summary of an auction closed without a bid. -/
def noBidsSummary : WinningBidSummary := ⟨0, .null, .null⟩

def winnerSummary (winningBid : Bid) (user : User) : WinningBidSummary :=
  ⟨winningBid.amount.toRat, .val winningBid.userId, .val user.username⟩

def auctionEndPublication (auctionId : ℤ) (winningBid : WinningBidSummary) (message : EndMessage) :
    Publication :=
  ⟨.auctionUpdates auctionId, .auctionEnd auctionId winningBid message⟩

/-- The state a closed auction caches. -/
def closedRoom (winningBid : WinningBidSummary) : AuctionRoom where
  exist := true
  currentHighestBid := .val winningBid.amount
  winnerUsername := winningBid.username
  winnerId := winningBid.userId
  isOpen := .val false

/-- Where an `endAuction` call is. -/
inductive EndAuctionPc where
  | begin
  | foundOpen
  | closed
  | summarised (winningBid : WinningBidSummary) (message : EndMessage)
  | announced (winningBid : WinningBidSummary) (message : EndMessage)
  | returned (summary : EndAuctionSummary)
  | threw
  deriving DecidableEq

/-- The next statement of an `endAuction` call, with the clock reading `now`. `pick` chooses
    among the bids of the highest amount. -/
def endAuctionStep (auctionId : ℤ) (now : Time) (pick : ℕ) (w : World) :
    EndAuctionPc → Option (World × EndAuctionPc × List Publication)
  | .begin =>
    match w.db.auctionFindUnique auctionId with
    | none => some (w, .returned ⟨false, .notFound auctionId, none⟩, [])
    | some currentState =>
      if !currentState.isOpen then
        some (w, .returned ⟨false, .alreadyClosed auctionId currentState.endTime, none⟩, [])
      else some (w, .foundOpen, [])
  | .foundOpen =>
    -- `isOpen` is not looked at again
    match w.db.auctionUpdateClosed auctionId now with
    | .ok db => some ({ w with db := db }, .closed, [])
    | .error _ => some (w, .threw, [])
  | .closed =>
    -- the include of the update sees the bids committed by now
    match w.db.topBids auctionId with
    | [] => some (w, .summarised noBidsSummary (.noBids auctionId), [])
    | b :: bs =>
      match (b :: bs)[pick]? with
      | none => none
      | some winningBid =>
        match w.db.userFindUnique winningBid.userId with
        | none => some (w, .threw, [])
        | some user =>
          some (w, .summarised (winnerSummary winningBid user)
            (.winner auctionId user.username winningBid.amount), [])
  | .summarised winningBid message =>
    some (w, .announced winningBid message, [auctionEndPublication auctionId winningBid message])
  | .announced winningBid message =>
    some (w.setCache auctionId (closedRoom winningBid),
      .returned ⟨true, message, some winningBid⟩, [])
  | .returned _ => none
  | .threw => none

end CarAuction
