import CarAuction.AuctionRow

/- Overlapping `placeBid` transactions. The row carries a `version` for optimistic
   locking, and the update increments it but does not compare it with the one that
   was read: the update goes by `id`. So a transaction that read an older row still
   commits. `no_lost_update_iff` says which schedules keep the row naming the
   highest bid: those in which no commit goes below the stored amount or takes a
   tie over (`Overwrites`); `overlapping_bids_lose_an_update` is one that does not. -/
namespace CarAuction

open Sql Pool Machine

/-- The row names the highest bid, or keeps its first amount when there are no bids. -/
def RowAgrees (a : ℤ) (initial : Decimal) (db : Database) : Prop :=
  ∃ row ∈ db.auction a, (db.bidsOf a = [] → row.currentHighestBid = initial) ∧
    TopMatches row (db.bidsOf a)

/-- `currentHighestBid` does not go down. -/
def NeverLower (a : ℤ) (db db' : Database) : Prop :=
  ∀ row ∈ db.auction a, ∀ row' ∈ db'.auction a, row.currentHighestBid ≤ row'.currentHighestBid

/-- The call is about to commit a bid on the auction over a row that is as high by now: it would
    write a lower amount, or the same amount for another bidder. -/
def Call.Overwrites (a : ℤ) (db : Database) (c : Call) : Prop :=
  c.Commits a db fun row amount bidderId =>
    amount < row.currentHighestBid ∨ Ties row (db.bidsOf a) amount bidderId

def Overwrites (a : ℤ) (s : State) (act : Action) : Prop :=
  ∃ c ∈ moving s act, c.Overwrites a s.world.db

instance {a : ℤ} {s : State} {act : Action} : Decidable (Overwrites a s act) := by
  unfold Overwrites Call.Overwrites; infer_instance

instance {a : ℤ} {initial : Decimal} {db : Database} : Decidable (RowAgrees a initial db) := by
  unfold RowAgrees; infer_instance

instance {a : ℤ} {db db' : Database} : Decidable (NeverLower a db db') := by
  unfold NeverLower; infer_instance

variable {a : ℤ} {initial : Decimal} {db db' : Database} {m : BidMessage} {now : Time}
  {row seen : Auction} {newBid : Bid} {s t : State} {act : Action}

theorem rowAgrees_frame (h : RowAgrees a initial db) (hrow : db'.auction a = db.auction a)
    (hbids : db'.bidsOf a = db.bidsOf a) : RowAgrees a initial db' ∧ NeverLower a db db' := by
  refine ⟨by unfold RowAgrees; rwa [hrow, hbids], ?_⟩
  intro row hr row' hr'
  rw [hrow, Option.mem_def.mp hr] at hr'
  cases hr'
  exact le_rfl

theorem rowAgrees_close (h : RowAgrees a initial db) (hrow : db.auction a = some row)
    (hrow' : db'.auction a = some (row.closedAt now)) (hbids : db'.bidsOf a = db.bidsOf a) :
    RowAgrees a initial db' ∧ NeverLower a db db' := by
  obtain ⟨row₀, hrow₀, hempty, htop⟩ := h
  cases hrow.symm.trans hrow₀
  refine ⟨⟨row.closedAt now, hrow', hbids ▸ hempty, hbids ▸ htop.closedAt⟩, ?_⟩
  intro row₁ hr row₂ hr'
  cases hrow.symm.trans hr
  cases hrow'.symm.trans hr'
  exact le_rfl

/-- A commit keeps the row right exactly when it does not overwrite, whatever row the transaction
    has seen. -/
theorem rowAgrees_commit (h : RowAgrees a initial db) (ha : m.auctionId = a)
    (hcommit : db.commitBid m now = .ok (db', newBid)) :
    (RowAgrees a initial db' ∧ NeverLower a db db') ↔
      ¬ (Call.placeBid m (.checked seen)).Overwrites a db := by
  obtain ⟨row, haccept⟩ := accepts_of_commitBid hcommit
  obtain ⟨row₁, hrow, -, -, hb, hrow', hbids⟩ := Database.commitBid_self hcommit ha
  obtain ⟨row₀, hrow₀, hempty, htop⟩ := h
  cases hrow.symm.trans hrow₀
  cases hrow.symm.trans (ha ▸ haccept.1)
  have hbidder : newBid.userId = m.bidderId := by rw [hb]
  have hafter : (RowAgrees a initial db' ∧ NeverLower a db db') ↔
      (TopMatches (row.withBid newBid.amount newBid.userId) (db.bidsOf a ++ [newBid]) ∧
        row.currentHighestBid ≤ newBid.amount) := by
    simp [RowAgrees, NeverLower, hrow, hrow', hbids, Auction.withBid]
  rw [hafter, topMatches_commit htop, hbidder]
  refine not_congr ⟨fun hover => ?_, ?_⟩
  · exact ⟨m, row, newBid.amount, by simp [Call.checkedBid, ha], haccept, hover⟩
  · rintro ⟨m₁, row₁, amount, hm, haccept₁, hover⟩
    obtain ⟨-, seen₁, e⟩ := Call.checkedBid_eq_some.mp hm
    cases e
    cases haccept.1.symm.trans haccept₁.1
    cases haccept.2.1.symm.trans haccept₁.2.1
    exact hover

/-- One step keeps the row right exactly when it does not overwrite. -/
theorem rowAgrees_step (h : RowAgrees a initial s.world.db) (hstep : Pool.Step system s act t) :
    (RowAgrees a initial t.world.db ∧ NeverLower a s.world.db t.world.db) ↔
      ¬ Overwrites a s act := by
  cases hstep with
  | @run w w' l r log c c' pubs i hc =>
    have hmove : Overwrites a ⟨w, l ++ c :: r, log⟩ (.run l.length i) ↔ c.Overwrites a w.db := by
      simp [Overwrites]
    rw [hmove]
    rcases (callStep_inv hc).rows_cases a with
      ⟨hrow, hbids, hthrow⟩ | ⟨m, seen, newBid, ha, rfl, rfl, rfl, hcommit⟩ |
      ⟨row, rfl, rfl, rfl, hrow, hrow', hbids⟩
    · -- a checked bid that changes no row is one the database does not take
      refine iff_of_true (rowAgrees_frame h hrow hbids) ?_
      rintro ⟨m, row, amount, hm, haccept, -⟩
      obtain ⟨e, he⟩ := hthrow m hm
      obtain ⟨r, hr⟩ := commitBid_of_accepts i.now haccept
      cases he.symm.trans hr
    · exact rowAgrees_commit h ha hcommit
    · refine iff_of_true (rowAgrees_close h hrow hrow' hbids) ?_
      rintro ⟨m, row, amount, hm, -⟩
      cases hm
  | _ =>
    refine iff_of_true (rowAgrees_frame h rfl rfl) ?_
    rintro ⟨c, hc, -⟩
    cases hc

/-- Along any schedule the row names the highest bid and `currentHighestBid` does not go down
    exactly when no commit overwrites. -/
theorem no_lost_update_iff (s : State) (schedule : List Action)
    (hs : RowAgrees a initial s.world.db) :
    Along poolStep (fun s _ t => RowAgrees a initial t.world.db ∧
        NeverLower a s.world.db t.world.db) s schedule ↔
      Along poolStep (fun s act _ => ¬ Overwrites a s act) s schedule := by
  apply along_iff_of_inv (I := fun s => RowAgrees a initial s.world.db) _ schedule hs
  intro s act t hs ht
  exact ⟨rowAgrees_step hs (step_inv ht), fun hP => hP.1⟩

/-- Two transactions read the open row at `0`; the bid of `20` commits, then the bid of `15`. -/
def overlappingBids : List Action :=
  [.start (annBids 20), .start (bobBids 15), stmt 0 1, stmt 1 2, stmt 0 3, stmt 1 4]

theorem no_lost_update_iff_overlapping :
    Along poolStep (fun s _ t => RowAgrees 1 0 t.world.db ∧
        NeverLower 1 s.world.db t.world.db) ⟨sampleWorld, [], []⟩ overlappingBids ↔
      Along poolStep (fun s act _ => ¬ Overwrites 1 s act) ⟨sampleWorld, [], []⟩
        overlappingBids :=
  no_lost_update_iff ⟨sampleWorld, [], []⟩ overlappingBids (by decide +kernel)

theorem overlapping_bids_lose_an_update :
    RowAgrees 1 0 sampleWorld.db ∧
      Along poolStep (ExactAmounts 1) ⟨sampleWorld, [], []⟩ overlappingBids ∧
      Along poolStep NoKill ⟨sampleWorld, [], []⟩ overlappingBids ∧
      ¬ Along poolStep (fun s _ t => RowAgrees 1 0 t.world.db ∧
        NeverLower 1 s.world.db t.world.db) ⟨sampleWorld, [], []⟩ overlappingBids := by
  decide +kernel

end CarAuction
