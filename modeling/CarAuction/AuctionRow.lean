import CarAuction.Schedule

/- The auction row against the `Bid` rows. `TopMatches` is what the row is for:
   it names the amount and the bidder of the highest bid, of every highest bid if
   there are several. `top_matches_commit` says exactly which commits keep it
   without lowering `currentHighestBid`, whatever transaction they come from;
   `Agrees` is the stronger relation that bids placed one after another keep. -/
namespace CarAuction

open Sql

/-- Every highest bid has the amount and the bidder the row names. -/
def TopMatches (row : Auction) (bids : List Bid) : Prop :=
  ∀ b ∈ bids, Ledger.Top Bid.amount bids b →
    row.currentHighestBid = b.amount ∧ row.winnerId = some b.userId

/-- The amount is the highest one already, and the row names someone else for it. -/
def Ties (row : Auction) (bids : List Bid) (amount : Decimal) (bidderId : ℤ) : Prop :=
  bids ≠ [] ∧ amount = row.currentHighestBid ∧ row.winnerId ≠ some bidderId

instance {row : Auction} {bids : List Bid} : Decidable (TopMatches row bids) := by
  unfold TopMatches; infer_instance

instance {row : Auction} {bids : List Bid} {amount : Decimal} {bidderId : ℤ} :
    Decidable (Ties row bids amount bidderId) := by
  unfold Ties; infer_instance

/-- The database takes the writes of the bid and stores it as `amount`. -/
def Database.Accepts (db : Database) (m : BidMessage) (row : Auction) (amount : Decimal) : Prop :=
  db.auction m.auctionId = some row ∧ Numeric.ofRat 14 2 m.amount = some amount ∧
    (db.user m.bidderId).isSome ∧ row.version < maxInteger

/-- The call is about to commit a bid on the auction, which the database takes; `P` tells the row it
    updates, the amount stored and the bidder. -/
def Call.Commits (a : ℤ) (db : Database) (P : Auction → Decimal → ℤ → Prop) (c : Call) : Prop :=
  ∃ m row amount, c.checkedBid a = some m ∧ db.Accepts m row amount ∧ P row amount m.bidderId

instance {a : ℤ} {db : Database} {c : Call} {P : Auction → Decimal → ℤ → Prop}
    [∀ row amount bidderId, Decidable (P row amount bidderId)] : Decidable (c.Commits a db P) :=
  decidable_of_iff (∃ m ∈ c.checkedBid a, ∃ row ∈ db.auction m.auctionId,
      ∃ amount ∈ Numeric.ofRat 14 2 m.amount,
        ((db.user m.bidderId).isSome ∧ row.version < maxInteger) ∧ P row amount m.bidderId)
    ⟨fun ⟨m, hm, row, hrow, amount, hamount, hmore, hP⟩ =>
        ⟨m, row, amount, hm, ⟨hrow, hamount, hmore⟩, hP⟩,
      fun ⟨m, row, amount, hm, ⟨hrow, hamount, hmore⟩, hP⟩ =>
        ⟨m, hm, row, hrow, amount, hamount, hmore, hP⟩⟩

variable {row : Auction} {bids : List Bid} {b : Bid} {amount : Decimal} {bidderId a : ℤ}
  {db db' : Database} {m : BidMessage} {now : Time} {newBid : Bid}

theorem accepts_of_commitBid (h : db.commitBid m now = .ok (db', newBid)) :
    ∃ row, db.Accepts m row newBid.amount := by
  obtain ⟨row, hrow, huser, hamount, hv, -, -⟩ := Database.commitBid_eq_ok.mp h
  exact ⟨row, hrow, hamount, huser, hv⟩

theorem commitBid_of_accepts (now : Time) (h : db.Accepts m row amount) :
    ∃ r, db.commitBid m now = .ok r := by
  obtain ⟨hrow, hamount, huser, hv⟩ := h
  let b : Bid := ⟨amount, now, m.bidderId, m.auctionId⟩
  exact ⟨((db.addBid b).setAuction m.auctionId (row.withBid amount m.bidderId), b),
    Database.commitBid_eq_ok.mpr ⟨row, hrow, huser, hamount, hv, rfl, rfl⟩⟩

theorem TopMatches.nil : TopMatches row [] := nofun

theorem TopMatches.closedAt (h : TopMatches row bids) : TopMatches (row.closedAt now) bids := h

/-- A commit keeps the row right and does not lower it exactly when it does not write less than
    the row's amount and does not take a tie over. -/
theorem topMatches_commit (h : TopMatches row bids) :
    (TopMatches (row.withBid b.amount b.userId) (bids ++ [b]) ∧ row.currentHighestBid ≤ b.amount) ↔
      ¬ (b.amount < row.currentHighestBid ∨ Ties row bids b.amount b.userId) := by
  constructor
  · rintro ⟨hkeep, hle⟩ (hlow | ⟨hne, heq, hother⟩)
    · exact absurd hle (not_le.mpr hlow)
    · obtain ⟨c, hc⟩ := Ledger.exists_top Bid.amount hne
      obtain ⟨hamount, hwinner⟩ := h c hc.1 hc
      have htop : Ledger.Top Bid.amount (bids ++ [b]) c := by
        refine ⟨by simp [hc.1], fun d hd => ?_⟩
        rcases List.mem_append.mp hd with hd | hd
        · exact hc.2 d hd
        · rw [List.mem_singleton.mp hd, heq, hamount]
      have := (hkeep c htop.1 htop).2
      rw [Auction.withBid, ← hwinner] at this
      exact hother this.symm
  · intro hgood
    obtain ⟨hlow, htie⟩ := not_or.mp hgood
    have hle := not_lt.mp hlow
    refine ⟨fun c hmem hc => ?_, hle⟩
    rcases List.mem_append.mp hmem with hold | hnew
    · -- an older bid stays on top only in a tie, with the bidder the row names
      have hcb : b.amount ≤ c.amount := hc.2 b (by simp)
      have hctop : Ledger.Top Bid.amount bids c :=
        ⟨hold, fun d hd => hc.2 d (List.mem_append_left _ hd)⟩
      obtain ⟨hamount, hwinner⟩ := h c hold hctop
      have heq : b.amount = row.currentHighestBid := le_antisymm (hamount ▸ hcb) hle
      refine ⟨heq.trans hamount, ?_⟩
      have hsame : row.winnerId = some b.userId := by
        by_contra hne
        exact htie ⟨List.ne_nil_of_mem hold, heq, hne⟩
      exact hsame.symm.trans hwinner
    · rw [List.mem_singleton.mp hnew]
      exact ⟨rfl, rfl⟩

end CarAuction
