import CarAuction.AuctionRow

/- At-least-once delivery. There is no deduplication id: what keeps a bid event that
   is delivered again from adding a second bid is that the row only moves away from
   it. `Spent` says that the row refuses the bid, or the database its writes; every
   operation keeps it (`spent_apply`), and every delivery of a bid in whole cents
   brings it about (`spent_self`), whatever its outcome.

   The rows are reached by `placeBid` transactions and by the update of an
   `endAuction` call, which may come any time after the read that found the auction
   open. -/
namespace CarAuction

open Sql

inductive DbOp where
  | placeBid (m : BidMessage) (now : Time)
  | close (auctionId : ℤ) (now : Time)

namespace DbOp

/-- What the operation leaves in the database; an error rolls it back. -/
def apply (db : Database) : DbOp → Database
  | placeBid m now =>
    match placeBidTransaction db m now with
    | .ok (db', _) => db'
    | .error _ => db
  | close auctionId now =>
    match db.auctionUpdateClosed auctionId now with
    | .ok db' => db'
    | .error _ => db

/-- The bid event processed. -/
def message : DbOp → Option BidMessage
  | placeBid m _ => some m
  | close _ _ => none

end DbOp

def runOps (db : Database) (ops : List DbOp) : Database := ops.foldl DbOp.apply db

/-- The second run is the first with bid events among them processed again, after they were
    processed for the first time; `done` are those processed before. -/
inductive Redelivers : List BidMessage → List DbOp → List DbOp → Prop where
  | nil {done} : Redelivers done [] []
  | keep {done op ops ops'} : Redelivers (op.message.toList ++ done) ops ops' →
      Redelivers done (op :: ops) (op :: ops')
  | again {done m now ops ops'} : m ∈ done → Redelivers done ops ops' →
      Redelivers done ops (.placeBid m now :: ops')

/-- No transaction of the bid commits: the auction is unknown or closed, its amount is at least the
    bid's, or the database does not take the writes. -/
def Spent (db : Database) (m : BidMessage) : Prop :=
  ∀ row ∈ db.auction m.auctionId, row.isOpen = true → row.currentHighestBid.toRat < m.amount →
    ∀ amount, ¬ db.Accepts m row amount

variable {db db' : Database} {m m' : BidMessage} {now : Time} {row : Auction} {newBid : Bid}

/-- A transaction leaves the database alone, or commits. -/
theorem apply_placeBid_cases (db : Database) (m : BidMessage) (now : Time) :
    (DbOp.apply db (.placeBid m now) = db ∧ Spent db m) ∨
    ∃ row newBid, checkBid m (db.auction m.auctionId) = .ok row ∧
      db.commitBid m now = .ok (DbOp.apply db (.placeBid m now), newBid) := by
  rcases placeBidTransaction_cases db m now with ⟨e, hcheck, htx⟩ |
    ⟨row, newBid, db', hcheck, hcommit, htx⟩ | ⟨row, e, -, hcommit, htx⟩
  · refine .inl ⟨by simp [DbOp.apply, htx], fun row hrow hopen hhigh => ?_⟩
    rw [Option.mem_def.mp hrow, checkBid_pass hopen hhigh] at hcheck
    cases hcheck
  · exact .inr ⟨row, newBid, hcheck, by simp [DbOp.apply, htx, hcommit]⟩
  · refine .inl ⟨by simp [DbOp.apply, htx], fun row hrow hopen hhigh amount haccept => ?_⟩
    obtain ⟨r, hr⟩ := commitBid_of_accepts now haccept
    cases hcommit.symm.trans hr

/-- A spent bid changes nothing. -/
theorem apply_spent (h : Spent db m) (now : Time) : DbOp.apply db (.placeBid m now) = db := by
  rcases apply_placeBid_cases db m now with ⟨heq, -⟩ | ⟨row, newBid, hcheck, hcommit⟩
  · exact heq
  · obtain ⟨hrow, hopen, hhigh⟩ := checkBid_ok.mp hcheck
    obtain ⟨row', haccept⟩ := accepts_of_commitBid hcommit
    cases hrow.symm.trans haccept.1
    exact absurd haccept (h row hrow hopen hhigh _)

/-- A commit raises the row, keeps it open or closed, and increments the version. -/
theorem spent_commit (h : Spent db m) (hcheck : checkBid m' (db.auction m'.auctionId) = .ok row)
    (hcommit : db.commitBid m' now = .ok (db', newBid)) : Spent db' m := by
  by_cases ha : m'.auctionId = m.auctionId
  · obtain ⟨hrow, hopen, hhigh⟩ := checkBid_ok.mp hcheck
    obtain ⟨row₁, hrow₁, hamount, -, -, hrow', -⟩ := Database.commitBid_self hcommit ha
    cases (ha ▸ hrow).symm.trans hrow₁
    have hraised : row.currentHighestBid ≤ newBid.amount :=
      Numeric.ofRat_mono (Numeric.ofRat_toRat _) hamount hhigh.le
    intro row' hr hopen' hhigh' amount haccept
    cases hrow'.symm.trans hr
    -- a bid above the raised row was above the old one, and the old version was lower
    obtain ⟨-, hstored, huser, hv⟩ := haccept
    rw [Database.commitBid_user hcommit] at huser
    refine h row hrow₁ hopen ?_ amount ⟨hrow₁, hstored, huser, ?_⟩
    · exact (Numeric.toRat_le.mpr hraised).trans_lt hhigh'
    · have hnext : row.version + 1 < maxInteger := hv
      omega
  · obtain ⟨hrow, -⟩ := Database.commitBid_of_ne hcommit ha
    intro row' hr hopen hhigh amount ⟨hr', hstored, huser, hv⟩
    rw [hrow] at hr hr'
    rw [Database.commitBid_user hcommit] at huser
    exact h row' hr hopen hhigh amount ⟨hr', hstored, huser, hv⟩

theorem spent_close (h : Spent db m) (auctionId : ℤ) :
    Spent (DbOp.apply db (.close auctionId now)) m := by
  cases hclose : db.auctionUpdateClosed auctionId now with
  | error e => simpa only [DbOp.apply, hclose] using h
  | ok db' =>
    simp only [DbOp.apply, hclose]
    obtain ⟨row, hrow, rfl⟩ := Database.auctionUpdateClosed_eq_ok.mp hclose
    by_cases ha : m.auctionId = auctionId
    · intro row' hr hopen
      rw [ha, Database.setAuction_auction_self] at hr
      cases hr
      cases hopen
    · intro row' hr hopen hhigh amount ⟨hr', hmore⟩
      rw [Database.setAuction_auction_of_ne ha] at hr hr'
      exact h row' hr hopen hhigh amount ⟨hr', hmore⟩

theorem spent_apply (h : Spent db m) (op : DbOp) : Spent (op.apply db) m := by
  cases op with
  | placeBid m' now =>
    rcases apply_placeBid_cases db m' now with ⟨heq, -⟩ | ⟨row, newBid, hcheck, hcommit⟩
    · rwa [heq]
    · exact spent_commit h hcheck hcommit
  | close auctionId now => exact spent_close h auctionId

/-- Once processed, a bid in whole cents is spent. -/
theorem spent_self (hm : Numeric.HasScale 2 m.amount) :
    Spent (DbOp.apply db (.placeBid m now)) m := by
  rcases apply_placeBid_cases db m now with ⟨heq, hspent⟩ | ⟨row, newBid, hcheck, hcommit⟩
  · rwa [heq]
  · obtain ⟨row₁, hrow₁, hamount, -, -, hrow', -⟩ := Database.commitBid_self hcommit rfl
    intro row' hr _ hhigh
    cases hrow'.symm.trans hr
    -- the row now has the bid's own amount
    have heq : newBid.amount.toRat = m.amount := (Numeric.toRat_ofRat_eq hamount).mpr hm
    exact absurd heq hhigh.ne

/-- From a database in which the bids done are spent, redeliveries make no difference. -/
theorem runOps_redelivers {done : List BidMessage} {ops ops' : List DbOp}
    (h : Redelivers done ops ops') (hdone : ∀ m ∈ done, Spent db m)
    (hexact : ∀ op ∈ ops, ∀ m ∈ op.message, Numeric.HasScale 2 m.amount) :
    runOps db ops' = runOps db ops := by
  induction h generalizing db with
  | nil => rfl
  | @keep done op ops ops' _ ih =>
    apply ih
    · intro m hm
      rcases List.mem_append.mp hm with hm | hm
      · cases op with
        | placeBid m' now =>
          cases List.mem_singleton.mp hm
          exact spent_self (hexact _ List.mem_cons_self m rfl)
        | close auctionId now => cases hm
      · exact spent_apply (hdone m hm) op
    · exact fun op' hop => hexact op' (List.mem_cons_of_mem op hop)
  | @again done m now ops ops' hm _ ih =>
    show runOps (DbOp.apply db (.placeBid m now)) ops' = runOps db ops
    rw [apply_spent (hdone m hm) now]
    exact ih hdone hexact

theorem spent_runOps {ops : List DbOp} (h : Spent db m) : Spent (runOps db ops) m := by
  induction ops generalizing db with
  | nil => exact h
  | cons op ops ih => exact ih (spent_apply h op)

/-- In every run with redeliveries, of bids in whole cents, the database ends as without them, and
    processing any bid of the run once more changes nothing. -/
theorem redelivery_adds_no_bid (db : Database) (ops ops' : List DbOp)
    (hredelivers : Redelivers [] ops ops')
    (hexact : ∀ op ∈ ops, ∀ m ∈ op.message, Numeric.HasScale 2 m.amount) :
    runOps db ops' = runOps db ops ∧
      ∀ op ∈ ops, ∀ m ∈ op.message, ∀ now,
        DbOp.apply (runOps db ops') (.placeBid m now) = runOps db ops' := by
  have heq : runOps db ops' = runOps db ops := runOps_redelivers hredelivers (by simp) hexact
  refine ⟨heq, fun op hop m hm now => ?_⟩
  rw [heq]
  apply apply_spent
  obtain ⟨before, after, rfl⟩ := List.append_of_mem hop
  cases op with
  | placeBid m' now' =>
    cases hm
    unfold runOps
    rw [List.foldl_append, List.foldl_cons]
    exact spent_runOps (spent_self (hexact _ hop _ rfl))
  | close auctionId now' => cases hm

/-- Ann's bid is delivered again after Bob's, and Bob's after the close. -/
theorem redelivery_adds_no_bid_sample :
    let ann : BidMessage := ⟨1, 10, 7, "ann", "socket-a"⟩
    let bob : BidMessage := ⟨1, 20, 8, "bob", "socket-b"⟩
    let ops : List DbOp := [.placeBid ann 1, .placeBid bob 2, .close 1 4]
    let ops' : List DbOp :=
      [.placeBid ann 1, .placeBid bob 2, .placeBid ann 3, .close 1 4, .placeBid bob 5]
    runOps sampleWorld.db ops' = runOps sampleWorld.db ops ∧
      ∀ op ∈ ops, ∀ m ∈ op.message, ∀ now,
        DbOp.apply (runOps sampleWorld.db ops') (.placeBid m now) = runOps sampleWorld.db ops' :=
  redelivery_adds_no_bid _ _ _
    (.keep (.keep (.again (by simp [DbOp.message]) (.keep (.again (by simp [DbOp.message]) .nil)))))
    (by decide +kernel)

end CarAuction
