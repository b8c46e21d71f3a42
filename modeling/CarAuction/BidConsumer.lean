import CarAuction.Messages

/- `BidEventsConsumerService.placeBid`, statement by statement. The transaction
   body reads the auction row and checks the bid against it; if the checks pass it
   inserts the `Bid` row and updates the auction row, which become visible
   together at the commit. Then the bid is published and the cache written, or the
   rejection is published to the sender. `placeBidStep` is one such statement,
   between two `await`s; `placeBid` is the whole call with nothing in between, and
   `placeBid_steps` says that the statements run one after another are the call.

   Correspondence (TypeScript ↔ Lean):
     the checks of the transaction body         ↔ `checkBid`
     `bid.create`, `auction.update`, the commit ↔ `Database.commitBid`
     `prisma.$transaction(...)`                 ↔ `placeBidTransaction`
     `placeBid`                                 ↔ `placeBid`, `placeBidStep` -/
namespace CarAuction

open Sql

/-- The checks on the row the transaction read. -/
def checkBid (m : BidMessage) : Option Auction → Except RejectReason Auction
  | none => .error (.auctionNotFound m.auctionId)
  | some auction =>
    if !auction.isOpen then .error (.auctionClosed m.auctionId)
    else if m.amount ≤ auction.currentHighestBid.toRat then
      .error (.bidTooLow m.amount auction.currentHighestBid)
    else .ok auction

/-- The two writes of an accepted bid, committed together. -/
def Database.commitBid (db : Database) (m : BidMessage) (now : Time) :
    Except DbError (Database × Bid) :=
  match db.bidCreate m.amount now m.bidderId m.auctionId with
  | .error e => .error e
  | .ok (db', newBid) =>
    match db'.auctionUpdateBid m.auctionId m.amount m.bidderId with
    | .error e => .error e
    | .ok db'' => .ok (db'', newBid)

/-- The result of the transaction; the row is the one it read. -/
inductive PlaceBidResult where
  | success (auction : Auction) (newBid : Bid)
  | failure (error : RejectReason)

def placeBidTransaction (db : Database) (m : BidMessage) (now : Time) :
    Except DbError (Database × PlaceBidResult) :=
  match checkBid m (db.auctionFindUnique m.auctionId) with
  | .error e => .ok (db, .failure e)
  | .ok auction =>
    match db.commitBid m now with
    | .error e => .error e
    | .ok (db', newBid) => .ok (db', .success auction newBid)

/-- The `newBid` event of an accepted bid. -/
def newBidPublication (m : BidMessage) (newBid : Bid) : Publication :=
  ⟨.auctionUpdates m.auctionId,
    .newBid m.auctionId ⟨m.amount, m.bidderId, m.bidderUsername, newBid.timestamp⟩⟩

/-- The state an accepted bid caches; `isOpen` is the one the transaction read. -/
def newBidRoom (m : BidMessage) (isOpen : Bool) : AuctionRoom where
  exist := true
  currentHighestBid := .val m.amount
  winnerUsername := .val m.bidderUsername
  winnerId := .val m.bidderId
  isOpen := .val isOpen

def rejectPublication (m : BidMessage) (e : RejectReason) : Publication :=
  ⟨.emitToSocket, .bidError m.auctionId e m.socketId⟩

/-- Where a `placeBid` call is. -/
inductive PlaceBidPc where
  | begin
  | checked (auction : Auction)
  | committed (newBid : Bid) (isOpen : Bool)
  | announced (isOpen : Bool)
  | rejected (e : RejectReason)
  | returned
  | threw
  deriving DecidableEq

/-- The next statement of a `placeBid` call, with the clock reading `now`; the publications it
    makes come last. -/
def placeBidStep (m : BidMessage) (now : Time) (w : World) :
    PlaceBidPc → Option (World × PlaceBidPc × List Publication)
  | .begin =>
    -- a rejected bid without a socket to answer to returns at once
    match checkBid m (w.db.auctionFindUnique m.auctionId) with
    | .ok auction => some (w, .checked auction, [])
    | .error e => some (w, if m.socketId = "" then .returned else .rejected e, [])
  | .checked auction =>
    -- the row may have changed since it was read: the update goes by `id` alone
    match w.db.commitBid m now with
    | .ok (db, newBid) => some ({ w with db := db }, .committed newBid auction.isOpen, [])
    | .error _ => some (w, .threw, [])
  | .committed newBid isOpen => some (w, .announced isOpen, [newBidPublication m newBid])
  | .announced isOpen => some (w.setCache m.auctionId (newBidRoom m isOpen), .returned, [])
  | .rejected e => some (w, .returned, [rejectPublication m e])
  | .returned => none
  | .threw => none

/-- The whole call. `none` is an exception: the transaction has rolled back and nothing else
    has happened. -/
def placeBid (w : World) (m : BidMessage) (now : Time) : Option (World × List Publication) :=
  match placeBidTransaction w.db m now with
  | .error _ => none
  | .ok (db, .success auction newBid) =>
    some ({ w with db := db }.setCache m.auctionId (newBidRoom m auction.isOpen),
      [newBidPublication m newBid])
  | .ok (db, .failure e) =>
    some ({ w with db := db }, if m.socketId = "" then [] else [rejectPublication m e])

/-! What the statements do. -/

variable {m : BidMessage} {now : Time} {db db' : Database} {w w' : World} {auction row : Auction}
  {newBid : Bid} {e : RejectReason} {pubs : List Publication} {pc pc' : PlaceBidPc}

theorem newBidsOf_newBidPublication {a : ℤ} : newBidsOf a [newBidPublication m newBid] =
    if m.auctionId = a then [⟨m.amount, m.bidderId, m.bidderUsername, newBid.timestamp⟩] else [] := by
  unfold newBidsOf newBidPublication
  split <;> simp_all

theorem checkBid_closed (h : row.isOpen = false) :
    checkBid m (some row) = .error (.auctionClosed m.auctionId) := by
  simp [checkBid, h]

theorem checkBid_low (h : row.isOpen = true) (hlow : m.amount ≤ row.currentHighestBid.toRat) :
    checkBid m (some row) = .error (.bidTooLow m.amount row.currentHighestBid) := by
  simp [checkBid, h, hlow]

theorem checkBid_pass (h : row.isOpen = true) (hhigh : row.currentHighestBid.toRat < m.amount) :
    checkBid m (some row) = .ok row := by
  simp [checkBid, h, not_le.mpr hhigh]

/-- The bid passes exactly when the row exists, is open and is below the amount. -/
theorem checkBid_ok {found : Option Auction} : checkBid m found = .ok auction ↔
    found = some auction ∧ auction.isOpen = true ∧ auction.currentHighestBid.toRat < m.amount := by
  constructor
  · intro h
    cases found with
    | none => cases h
    | some row =>
      cases hopen : row.isOpen
      · rw [checkBid_closed hopen] at h; cases h
      · rcases le_or_gt m.amount row.currentHighestBid.toRat with hlow | hhigh
        · rw [checkBid_low hopen hlow] at h; cases h
        · rw [checkBid_pass hopen hhigh] at h
          cases h
          exact ⟨rfl, hopen, hhigh⟩
  · rintro ⟨rfl, hopen, hhigh⟩
    exact checkBid_pass hopen hhigh

namespace Database

/-- Everything a commit does and needs. -/
theorem commitBid_eq_ok : db.commitBid m now = .ok (db', newBid) ↔
    ∃ row, db.auction m.auctionId = some row ∧ (db.user m.bidderId).isSome ∧
      Numeric.ofRat 14 2 m.amount = some newBid.amount ∧ row.version < maxInteger ∧
      newBid = ⟨newBid.amount, now, m.bidderId, m.auctionId⟩ ∧
      db' = (db.addBid newBid).setAuction m.auctionId (row.withBid newBid.amount m.bidderId) := by
  unfold commitBid
  constructor
  · intro h
    cases hc : db.bidCreate m.amount now m.bidderId m.auctionId with
    | error e => rw [hc] at h; cases h
    | ok r =>
      obtain ⟨db₁, b⟩ := r
      rw [hc] at h
      cases hu : db₁.auctionUpdateBid m.auctionId m.amount m.bidderId with
      | error e => simp only [hu] at h; cases h
      | ok db₂ =>
        simp only [hu, Except.ok.injEq, Prod.mk.injEq] at h
        obtain ⟨rfl, rfl⟩ := h
        obtain ⟨⟨huser, -, hamount⟩, hb, rfl⟩ := bidCreate_eq_ok.mp hc
        obtain ⟨row, stored, hrow, hs, hv, rfl⟩ := auctionUpdateBid_eq_ok.mp hu
        rw [hs, Option.some.injEq] at hamount
        exact ⟨row, hrow, huser, hamount ▸ hs, hv, hb, by rw [hamount]⟩
  · rintro ⟨row, hrow, huser, hamount, hv, hb, rfl⟩
    have hc : db.bidCreate m.amount now m.bidderId m.auctionId = .ok (db.addBid newBid, newBid) :=
      bidCreate_eq_ok.mpr ⟨⟨huser, by simp [hrow], hamount⟩, hb, rfl⟩
    have hu : (db.addBid newBid).auctionUpdateBid m.auctionId m.amount m.bidderId =
        .ok ((db.addBid newBid).setAuction m.auctionId (row.withBid newBid.amount m.bidderId)) :=
      auctionUpdateBid_eq_ok.mpr ⟨row, newBid.amount, hrow, hamount, hv, rfl⟩
    simp only [hc, hu]

variable {a : ℤ}

/-- A commit adds one bid to its auction and writes its amount and bidder to the row. -/
theorem commitBid_self (h : db.commitBid m now = .ok (db', newBid)) (ha : m.auctionId = a) :
    ∃ row, db.auction a = some row ∧ Numeric.ofRat 14 2 m.amount = some newBid.amount ∧
      (db.user newBid.userId).isSome ∧ newBid = ⟨newBid.amount, now, m.bidderId, a⟩ ∧
      db'.auction a = some (row.withBid newBid.amount newBid.userId) ∧
      db'.bidsOf a = db.bidsOf a ++ [newBid] := by
  obtain ⟨row, hrow, huser, hamount, -, hb, rfl⟩ := commitBid_eq_ok.mp h
  subst ha
  have hid : newBid.auctionId = m.auctionId := by rw [hb]
  have hu : newBid.userId = m.bidderId := by rw [hb]
  refine ⟨row, hrow, hamount, hu ▸ huser, hb, by rw [hu]; simp, ?_⟩
  rw [setAuction_bidsOf, ← hid, addBid_bidsOf_self]

theorem commitBid_of_ne (h : db.commitBid m now = .ok (db', newBid)) (ha : m.auctionId ≠ a) :
    db'.auction a = db.auction a ∧ db'.bidsOf a = db.bidsOf a := by
  obtain ⟨row, -, -, -, -, hb, rfl⟩ := commitBid_eq_ok.mp h
  have hid : newBid.auctionId ≠ a := by rw [hb]; exact ha
  exact ⟨by simp [Ne.symm ha], by simp [hid]⟩

theorem commitBid_user (h : db.commitBid m now = .ok (db', newBid)) : db'.user = db.user := by
  obtain ⟨row, -, -, -, -, -, rfl⟩ := commitBid_eq_ok.mp h
  rfl

end Database

/-- The three outcomes of a transaction: it rejects the bid on the row it read and changes nothing,
    it commits, or the database raises an error. -/
theorem placeBidTransaction_cases (db : Database) (m : BidMessage) (now : Time) :
    (∃ e, checkBid m (db.auction m.auctionId) = .error e ∧
      placeBidTransaction db m now = .ok (db, .failure e)) ∨
    (∃ auction newBid db', checkBid m (db.auction m.auctionId) = .ok auction ∧
      db.commitBid m now = .ok (db', newBid) ∧
      placeBidTransaction db m now = .ok (db', .success auction newBid)) ∨
    (∃ auction e, checkBid m (db.auction m.auctionId) = .ok auction ∧
      db.commitBid m now = .error e ∧ placeBidTransaction db m now = .error e) := by
  cases hcheck : checkBid m (db.auction m.auctionId) with
  | error e =>
    refine .inl ⟨e, rfl, ?_⟩
    simp [placeBidTransaction, Database.auctionFindUnique, hcheck]
  | ok auction =>
    cases hcommit : db.commitBid m now with
    | error e =>
      refine .inr (.inr ⟨auction, e, rfl, rfl, ?_⟩)
      simp [placeBidTransaction, Database.auctionFindUnique, hcheck, hcommit]
    | ok r =>
      obtain ⟨db', newBid⟩ := r
      refine .inr (.inl ⟨auction, newBid, db', rfl, rfl, ?_⟩)
      simp [placeBidTransaction, Database.auctionFindUnique, hcheck, hcommit]

/-- The three outcomes of a call. -/
theorem placeBid_cases (w : World) (m : BidMessage) (now : Time) :
    (∃ e, checkBid m (w.db.auction m.auctionId) = .error e ∧
      placeBidTransaction w.db m now = .ok (w.db, .failure e) ∧
      placeBid w m now = some (w, if m.socketId = "" then [] else [rejectPublication m e])) ∨
    (∃ auction newBid db', checkBid m (w.db.auction m.auctionId) = .ok auction ∧
      w.db.commitBid m now = .ok (db', newBid) ∧
      placeBidTransaction w.db m now = .ok (db', .success auction newBid) ∧
      placeBid w m now = some ({ w with db := db' }.setCache m.auctionId
        (newBidRoom m auction.isOpen), [newBidPublication m newBid])) ∨
    (∃ auction e, checkBid m (w.db.auction m.auctionId) = .ok auction ∧
      w.db.commitBid m now = .error e ∧ placeBidTransaction w.db m now = .error e ∧
      placeBid w m now = none) := by
  rcases placeBidTransaction_cases w.db m now with ⟨e, hcheck, htx⟩ |
    ⟨auction, newBid, db', hcheck, hcommit, htx⟩ | ⟨auction, e, hcheck, hcommit, htx⟩
  · exact .inl ⟨e, hcheck, htx, by simp [placeBid, htx]⟩
  · exact .inr (.inl ⟨auction, newBid, db', hcheck, hcommit, htx, by simp [placeBid, htx]⟩)
  · exact .inr (.inr ⟨auction, e, hcheck, hcommit, htx, by simp [placeBid, htx]⟩)

/-- At most `n` statements of a call, one after another. -/
def placeBidRun (m : BidMessage) (now : Time) : ℕ → World → PlaceBidPc →
    World × PlaceBidPc × List Publication
  | 0, w, pc => (w, pc, [])
  | n + 1, w, pc =>
    match placeBidStep m now w pc with
    | none => (w, pc, [])
    | some (w', pc', pubs) =>
      let r := placeBidRun m now n w' pc'
      (r.1, r.2.1, pubs ++ r.2.2)

/-- The statements one after another are the call. -/
theorem placeBid_steps : placeBidRun m now 4 w .begin =
    match placeBid w m now with
    | some (w', pubs) => (w', .returned, pubs)
    | none => (w, .threw, []) := by
  rcases placeBid_cases w m now with ⟨e, hcheck, -, heq⟩ | ⟨auction, b, db, hcheck, hcommit, -, heq⟩ |
    ⟨auction, e, hcheck, hcommit, -, heq⟩
  · rw [heq]
    by_cases hs : m.socketId = "" <;>
      simp [placeBidRun, placeBidStep, Database.auctionFindUnique, hcheck, hs]
  · rw [heq]
    simp [placeBidRun, placeBidStep, Database.auctionFindUnique, hcheck, hcommit]
  · rw [heq]
    simp [placeBidRun, placeBidStep, Database.auctionFindUnique, hcheck, hcommit]

end CarAuction
