import CarAuction.Lib.Numeric
import CarAuction.Lib.Ledger
import Mathlib.Logic.Function.Basic

/- The tables of `prisma/schema.prisma` and the statements the services issue on
   them. Columns no service reads (`carId`, `email`, `fullName`, `password`,
   `role`, the `Bid` primary key) are left out; a table with a primary key is the
   map from the key to the row, the `Bid` table is the list of its rows in commit
   order.

   Correspondence (Prisma ↔ Lean):
     `Decimal @db.Decimal(14, 2)`                     ↔ `Decimal`
     `prisma.auction.findUnique({ where: { id } })`   ↔ `Database.auctionFindUnique`
     `prisma.bid.create`                              ↔ `Database.bidCreate`
     `prisma.auction.update` of `placeBid`            ↔ `Database.auctionUpdateBid`
     `prisma.auction.update` of `endAuction`          ↔ `Database.auctionUpdateClosed`
     `bids: { orderBy: { amount: "desc" }, take: 1 }` ↔ an entry of `Database.topBids`
   PostgreSQL rounds a number written to a `Decimal(14,2)` column half away from
   zero and raises an error when it does not fit; `version` is an `INTEGER`, whose
   increment raises an error at its maximum; the order among equal amounts is not
   specified, so every top bid may be the one returned. -/
namespace CarAuction

open Sql

abbrev Decimal := Numeric 14 2

/-- A JavaScript `number` that is finite: the decimal it prints as. -/
abbrev Number := ℚ

/-- A `Date`, in milliseconds. -/
abbrev Time := ℤ

structure User where
  username : String
  deriving DecidableEq

structure Auction where
  startTime : Time
  endTime : Time
  startingBid : Decimal
  currentHighestBid : Decimal
  isOpen : Bool
  version : ℤ
  winnerId : Option ℤ
  deriving DecidableEq

/-- `data: { currentHighestBid: amount, winnerId: bidderId, version: { increment: 1 } }`. -/
def Auction.withBid (row : Auction) (amount : Decimal) (bidderId : ℤ) : Auction :=
  { row with currentHighestBid := amount, winnerId := some bidderId, version := row.version + 1 }

/-- `data: { isOpen: false, endTime: new Date() }`. -/
def Auction.closedAt (row : Auction) (endTime : Time) : Auction :=
  { row with isOpen := false, endTime := endTime }

structure Bid where
  amount : Decimal
  timestamp : Time
  userId : ℤ
  auctionId : ℤ
  deriving DecidableEq

structure Database where
  user : ℤ → Option User
  auction : ℤ → Option Auction
  bid : List Bid

/-- The errors PostgreSQL raises for these statements; each rolls the transaction back. -/
inductive DbError where
  | numericFieldOverflow
  | integerOutOfRange
  | foreignKeyViolation
  | recordNotFound
  deriving DecidableEq

/-- The largest value of an `INTEGER` column. -/
def maxInteger : ℤ := 2147483647

namespace Database

def auctionFindUnique (db : Database) (id : ℤ) : Option Auction := db.auction id

def userFindUnique (db : Database) (id : ℤ) : Option User := db.user id

/-- The committed `Bid` rows of an auction, in commit order. -/
def bidsOf (db : Database) (id : ℤ) : List Bid := db.bid.filter (fun b => b.auctionId = id)

/-- The rows a query for the highest bid of an auction may return. -/
def topBids (db : Database) (id : ℤ) : List Bid :=
  (db.bidsOf id).filter (fun b => (db.bidsOf id).all (fun c => c.amount ≤ b.amount))

def setAuction (db : Database) (id : ℤ) (row : Auction) : Database :=
  { db with auction := Function.update db.auction id (some row) }

def addBid (db : Database) (newBid : Bid) : Database := { db with bid := db.bid ++ [newBid] }

def bidCreate (db : Database) (amount : Number) (timestamp : Time) (userId auctionId : ℤ) :
    Except DbError (Database × Bid) :=
  match Numeric.ofRat 14 2 amount with
  | none => .error .numericFieldOverflow
  | some stored =>
    if (db.user userId).isNone || (db.auction auctionId).isNone then .error .foreignKeyViolation
    else
      let newBid : Bid := ⟨stored, timestamp, userId, auctionId⟩
      .ok (db.addBid newBid, newBid)

def auctionUpdateBid (db : Database) (id : ℤ) (amount : Number) (bidderId : ℤ) :
    Except DbError Database :=
  match db.auction id with
  | none => .error .recordNotFound
  | some row =>
    match Numeric.ofRat 14 2 amount with
    | none => .error .numericFieldOverflow
    | some stored =>
      if row.version < maxInteger then .ok (db.setAuction id (row.withBid stored bidderId))
      else .error .integerOutOfRange

def auctionUpdateClosed (db : Database) (id : ℤ) (endTime : Time) : Except DbError Database :=
  match db.auction id with
  | none => .error .recordNotFound
  | some row => .ok (db.setAuction id (row.closedAt endTime))

/-! What the statements do. -/

variable {db db' : Database} {a id userId auctionId bidderId : ℤ} {row : Auction}
  {amount : Number} {now : Time} {newBid : Bid}

@[simp] theorem setAuction_bidsOf : (db.setAuction id row).bidsOf a = db.bidsOf a := rfl
@[simp] theorem setAuction_topBids : (db.setAuction id row).topBids a = db.topBids a := rfl
@[simp] theorem setAuction_user : (db.setAuction id row).user = db.user := rfl
@[simp] theorem addBid_auction : (db.addBid newBid).auction = db.auction := rfl

@[simp] theorem setAuction_auction_self : (db.setAuction id row).auction id = some row := by
  simp [setAuction]

@[simp] theorem setAuction_auction_of_ne (h : a ≠ id) :
    (db.setAuction id row).auction a = db.auction a := by
  simp [setAuction, h]

@[simp] theorem addBid_bidsOf_self : (db.addBid newBid).bidsOf newBid.auctionId =
    db.bidsOf newBid.auctionId ++ [newBid] := by
  simp [addBid, bidsOf, List.filter_append]

@[simp] theorem addBid_bidsOf_of_ne (h : newBid.auctionId ≠ a) :
    (db.addBid newBid).bidsOf a = db.bidsOf a := by
  simp [addBid, bidsOf, List.filter_append, h]

theorem mem_topBids : newBid ∈ db.topBids a ↔ Ledger.Top Bid.amount (db.bidsOf a) newBid := by
  simp [topBids, Ledger.Top]

theorem topBids_eq_nil : db.topBids a = [] ↔ db.bidsOf a = [] := by
  constructor
  · intro h
    by_contra hne
    obtain ⟨b, hb⟩ := Ledger.exists_top Bid.amount hne
    rw [← mem_topBids, h] at hb
    cases hb
  · intro h; simp [topBids, h]

theorem bidCreate_eq_ok : db.bidCreate amount now userId auctionId = .ok (db', newBid) ↔
    ((db.user userId).isSome ∧ (db.auction auctionId).isSome ∧
      Numeric.ofRat 14 2 amount = some newBid.amount) ∧
    newBid = ⟨newBid.amount, now, userId, auctionId⟩ ∧ db' = db.addBid newBid := by
  unfold bidCreate
  cases hs : Numeric.ofRat 14 2 amount with
  | none => simp
  | some stored =>
    cases db.user userId <;> cases db.auction auctionId <;> simp
    constructor
    · rintro ⟨rfl, rfl⟩; simp
    · rintro ⟨rfl, hb, rfl⟩; exact ⟨by rw [← hb], hb.symm⟩

theorem auctionUpdateBid_eq_ok : db.auctionUpdateBid id amount bidderId = .ok db' ↔
    ∃ row stored, db.auction id = some row ∧ Numeric.ofRat 14 2 amount = some stored ∧
      row.version < maxInteger ∧ db' = db.setAuction id (row.withBid stored bidderId) := by
  unfold auctionUpdateBid
  cases db.auction id with
  | none => simp
  | some row =>
    cases Numeric.ofRat 14 2 amount with
    | none => simp
    | some stored =>
      by_cases hv : row.version < maxInteger <;> simp [hv, eq_comm]

theorem auctionUpdateClosed_eq_ok : db.auctionUpdateClosed id now = .ok db' ↔
    ∃ row, db.auction id = some row ∧ db' = db.setAuction id (row.closedAt now) := by
  unfold auctionUpdateClosed
  cases db.auction id <;> simp [eq_comm]

end Database

end CarAuction
