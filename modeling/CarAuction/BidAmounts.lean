import CarAuction.AuctionRow

/- What the `Decimal(14,2)` columns do to an amount. `placeBid` compares the number
   of the event with the stored one, hands the number to two columns, which round
   it, and publishes and caches the number itself. `amount_kept_iff` says that a
   run keeps the four in step exactly when every bid it accepts is in whole cents.
   `placeBid_returns_iff` says when a call returns: unless the number passes the
   comparison and is too large for the columns, or the row's `version` is at its
   maximum; then the transaction fails, and fails again on every redelivery. -/
namespace CarAuction

open Sql Machine

variable {w w' : World} {m : BidMessage} {now : Time} {row auction : Auction} {newBid : Bid}
  {db' : Database} {pubs : List Publication} {amount : Decimal}

/-- One call after another; a call that throws leaves everything as it was. -/
def bidStep (w : World) (b : BidMessage × Time) : Option World :=
  some ((placeBid w b.1 b.2).elim w Prod.fst)

/-- What an accepted bid leaves behind, and publishes, is one amount above the one it found. -/
def AmountKept (w : World) (b : BidMessage × Time) (w' : World) : Prop :=
  match placeBidTransaction w.db b.1 b.2, placeBid w b.1 b.2 with
  | .ok (_, .success auction newBid), some (_, pubs) =>
    (∃ row ∈ w'.db.auction b.1.auctionId, auction.currentHighestBid < row.currentHighestBid ∧
      row.currentHighestBid = newBid.amount) ∧
    newBid ∈ w'.db.bidsOf b.1.auctionId ∧
    (newBidsOf b.1.auctionId pubs).map NewBid.amount = [newBid.amount.toRat] ∧
    (w'.cache b.1.auctionId).map AuctionRoom.currentHighestBid = some (.val newBid.amount.toRat)
  | _, _ => True

/-- The bid, if the auction takes it, is in whole cents. -/
def TakenExact (w : World) (b : BidMessage × Time) : Prop :=
  ∀ row ∈ w.db.auction b.1.auctionId, row.isOpen = true → row.currentHighestBid.toRat < b.1.amount →
    (∃ amount, w.db.Accepts b.1 row amount) → Numeric.HasScale 2 b.1.amount

theorem amountKept_iff_exact (b : BidMessage × Time) (h : bidStep w b = some w') :
    AmountKept w b w' ↔ TakenExact w b := by
  obtain ⟨m, now⟩ := b
  simp only [bidStep, Option.some.injEq] at h
  rcases placeBid_cases w m now with ⟨e, hcheck, htx, hcall⟩ |
    ⟨auction, newBid, db', hcheck, hcommit, htx, hcall⟩ | ⟨auction, e, hcheck, hcommit, htx, hcall⟩
  · refine iff_of_true (by simp [AmountKept, htx]) ?_
    intro row hrow hopen hhigh _
    rw [Option.mem_def.mp hrow, checkBid_pass hopen hhigh] at hcheck
    cases hcheck
  · obtain ⟨hrow, hopen, hhigh⟩ := checkBid_ok.mp hcheck
    obtain ⟨row, haccept⟩ := accepts_of_commitBid hcommit
    obtain ⟨row₁, hrow₁, hamount, -, hb, hrow', hbids⟩ := Database.commitBid_self hcommit rfl
    cases hrow.symm.trans hrow₁
    cases hrow.symm.trans haccept.1
    have htaken : TakenExact w (m, now) ↔ newBid.amount.toRat = m.amount := by
      rw [Numeric.toRat_ofRat_eq hamount]
      refine ⟨fun ht => ht _ hrow hopen hhigh ⟨_, haccept⟩, fun hs row₂ hrow₂ _ _ _ => hs⟩
    rw [htaken]
    rw [hcall, Option.elim_some] at h
    subst h
    simp only [AmountKept, htx, hcall, World.setCache_db, hrow', hbids, newBidsOf_newBidPublication,
      World.setCache_cache_self]
    refine ⟨fun hkept => ?_, fun heq => ?_⟩
    · simpa using hkept.2.2.1.symm
    · refine ⟨⟨_, rfl, ?_, rfl⟩, by simp, by simp [heq], by simp [newBidRoom, heq]⟩
      show auction.currentHighestBid < newBid.amount
      rw [← Numeric.toRat_lt, heq]
      exact hhigh
  · refine iff_of_true (by simp [AmountKept, htx]) ?_
    intro row hrow hopen hhigh ⟨amount, haccept⟩
    obtain ⟨r, hr⟩ := commitBid_of_accepts now haccept
    cases hcommit.symm.trans hr

/-- In a run of calls one after another every accepted bid strictly raises the stored amount, and
    keeps, publishes and caches that amount, exactly when every bid taken is in whole cents. -/
theorem amount_kept_iff (w : World) (bids : List (BidMessage × Time)) :
    Along bidStep AmountKept w bids ↔ Along bidStep (fun w b _ => TakenExact w b) w bids := by
  apply along_iff_of_inv (I := fun _ => True) _ bids trivial
  intro w b w' _ hstep
  exact ⟨amountKept_iff_exact b hstep, fun _ => trivial⟩

instance {b : BidMessage × Time} : Decidable (AmountKept w b w') := by
  unfold AmountKept; split <;> infer_instance

/-- A bid of `10.004` beats the stored `10.00`, is stored as `10.00` and announced as `10.004`. -/
theorem rounded_bid_does_not_raise :
    ¬ Along bidStep AmountKept sampleWorld
      [(⟨1, 10, 7, "ann", "socket-a"⟩, 1), (⟨1, 10004 / 1000, 8, "bob", "socket-b"⟩, 2)] := by
  decide +kernel

/-! Which calls return. -/

/-- What the gateway and the partitions let through: a partition `0` to `9`, an existing user and a
    socket to answer to. -/
def Admitted (db : Database) (m : BidMessage) : Prop :=
  (0 ≤ m.auctionId ∧ m.auctionId < 10) ∧ (db.user m.bidderId).isSome ∧ m.socketId ≠ ""

/-- The call returns after accepting or rejecting the bid. -/
def Returns (w : World) (m : BidMessage) (now : Time) : Prop :=
  (∃ w' newBid, placeBid w m now = some (w', [newBidPublication m newBid]) ∧
    newBid ∈ w'.db.bidsOf m.auctionId) ∨
  (∃ w' e, placeBid w m now = some (w', [rejectPublication m e]) ∧ w'.db = w.db)

/-- A number above a stored amount fits the column exactly below `10^12 - 0.005`. -/
theorem ofRat_isSome_of_lt (h : amount.toRat < m.amount) :
    (Numeric.ofRat 14 2 m.amount).isSome ↔ m.amount < 10 ^ 12 - 5 / 1000 := by
  have hlow : (-99999999999999 : ℚ) ≤ amount.toRat * 10 ^ 2 := by
    have hfits := amount.fits
    have hunits : (-99999999999999 : ℤ) ≤ amount.units := by omega
    rw [Numeric.toRat_mul_pow]
    exact_mod_cast hunits
  rw [Numeric.ofRat_isSome]
  refine ⟨fun hfit => ?_, fun hfit => ?_⟩
  · have habs := le_abs_self m.amount
    norm_num at hfit ⊢
    linarith
  · have habs : |m.amount| < 10 ^ 12 - 5 / 1000 := by
      rw [abs_lt]
      refine ⟨?_, hfit⟩
      norm_num at hlow ⊢
      linarith
    norm_num at habs ⊢
    linarith

theorem not_returns (h : placeBid w m now = none) : ¬ Returns w m now := by
  rintro (⟨w', newBid, hsome, -⟩ | ⟨w', e, hsome, -⟩)
  · cases h.symm.trans hsome
  · cases h.symm.trans hsome

/-- A call that throws throws whenever it is tried again: the rollback leaves what it failed on. -/
theorem placeBid_none_forever (h : placeBid w m now = none) (later : Time) :
    placeBid w m later = none := by
  rcases placeBid_cases w m now with ⟨e, -, -, hcall⟩ | ⟨_, _, _, -, -, -, hcall⟩ |
    ⟨auction, e, hcheck, hcommit, -, -⟩
  · cases h.symm.trans hcall
  · cases h.symm.trans hcall
  · rcases placeBid_cases w m later with ⟨e', hcheck', -, -⟩ |
      ⟨auction', newBid, db', -, hcommit', -, -⟩ | ⟨_, _, -, -, -, hcall'⟩
    · cases hcheck.symm.trans hcheck'
    · obtain ⟨row, haccept⟩ := accepts_of_commitBid hcommit'
      obtain ⟨r, hr⟩ := commitBid_of_accepts now haccept
      cases hcommit.symm.trans hr
    · exact hcall'

/-- For every admitted bid and every state of the stores the call returns exactly when the number,
    if it passes the comparison, fits the columns and the row's version can be incremented. -/
theorem placeBid_returns_iff (w : World) (m : BidMessage) (now : Time) (h : Admitted w.db m) :
    Returns w m now ↔
      ∀ row ∈ w.db.auction m.auctionId, row.isOpen = true → row.currentHighestBid.toRat < m.amount →
        m.amount < 10 ^ 12 - 5 / 1000 ∧ row.version < maxInteger := by
  obtain ⟨-, huser, hsocket⟩ := h
  rcases placeBid_cases w m now with ⟨e, hcheck, -, hcall⟩ |
    ⟨auction, newBid, db', hcheck, hcommit, -, hcall⟩ | ⟨auction, e, hcheck, hcommit, -, hcall⟩
  · rw [if_neg hsocket] at hcall
    refine iff_of_true (.inr ⟨w, e, hcall, rfl⟩) ?_
    intro row hrow hopen hhigh
    rw [Option.mem_def.mp hrow, checkBid_pass hopen hhigh] at hcheck
    cases hcheck
  · obtain ⟨hrow, hopen, hhigh⟩ := checkBid_ok.mp hcheck
    obtain ⟨row, hrow', hamount, -, hv⟩ := accepts_of_commitBid hcommit
    obtain ⟨-, -, -, -, -, -, hbids⟩ := Database.commitBid_self hcommit rfl
    refine iff_of_true (.inl ⟨_, newBid, hcall, by simp [hbids]⟩) ?_
    intro row₁ hrow₁ _ _
    cases hrow'.symm.trans hrow₁
    exact ⟨(ofRat_isSome_of_lt hhigh).mp (by rw [hamount]; rfl), hv⟩
  · obtain ⟨hrow, hopen, hhigh⟩ := checkBid_ok.mp hcheck
    refine iff_of_false (not_returns hcall) fun hfits => ?_
    obtain ⟨hfit, hv⟩ := hfits auction hrow hopen hhigh
    obtain ⟨stored, hstored⟩ := Option.isSome_iff_exists.mp ((ofRat_isSome_of_lt hhigh).mpr hfit)
    have haccept : w.db.Accepts m auction stored := ⟨hrow, hstored, huser, hv⟩
    obtain ⟨r, hr⟩ := commitBid_of_accepts now haccept
    cases hcommit.symm.trans hr

theorem placeBid_returns_iff_sample :
    Returns sampleWorld ⟨1, 20, 7, "ann", "socket-a"⟩ 1 ↔
      ∀ row ∈ sampleWorld.db.auction 1, row.isOpen = true → row.currentHighestBid.toRat < 20 →
        (20 : ℚ) < 10 ^ 12 - 5 / 1000 ∧ row.version < maxInteger :=
  placeBid_returns_iff sampleWorld ⟨1, 20, 7, "ann", "socket-a"⟩ 1
    ⟨by decide, by decide, by decide⟩

/-- An admitted bid of `10^12` on an open auction: the call throws, whenever it is tried. -/
theorem placeBid_poisoned : Admitted sampleWorld.db ⟨1, 10 ^ 12, 7, "ann", "socket-a"⟩ ∧
    ∀ now, ¬ Returns sampleWorld ⟨1, 10 ^ 12, 7, "ann", "socket-a"⟩ now := by
  refine ⟨⟨by decide, by decide, by decide⟩, fun now => not_returns ?_⟩
  have hnone : (placeBid sampleWorld ⟨1, 10 ^ 12, 7, "ann", "socket-a"⟩ 1).isNone := by
    decide +kernel
  exact placeBid_none_forever (Option.isNone_iff_eq_none.mp hnone) now

end CarAuction
