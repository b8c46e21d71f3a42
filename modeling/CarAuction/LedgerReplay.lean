import CarAuction.Schedule

/- An auction row is its ledger replayed. The bids of an auction may be placed in any
   order of their statements, may overlap, may fail, and may be committed after the
   close. Whatever they do, the row holds what the committed bids leave when they are
   written to the initial row one after another in their commit order: the amount and
   the bidder of the last one, and a version that counts them. A close shows in
   `isOpen` and `endTime` alone. -/
namespace CarAuction

open Pool Machine

/-- The row after the bids, in their order. -/
def Auction.replay (row : Auction) (bids : List Bid) : Auction :=
  bids.foldl (fun row b => row.withBid b.amount b.userId) row

/-- The bids of the auction since `w₀`, and its row as they leave it, possibly closed. An auction
    that does not exist has none. -/
def ReplaysLedger (a : ℤ) (w₀ w : World) : Prop :=
  match w₀.db.auction a with
  | none => w.db.auction a = none ∧ w.db.bidsOf a = w₀.db.bidsOf a
  | some row => ∃ added, w.db.bidsOf a = w₀.db.bidsOf a ++ added ∧
      (w.db.auction a = some (row.replay added) ∨
        ∃ endTime, w.db.auction a = some ((row.replay added).closedAt endTime))

variable {row : Auction} {bids : List Bid} {b : Bid} {a : ℤ} {w₀ w w' : World} {i : Input}
  {c c' : Call} {pubs : List Publication}

theorem replay_concat : row.replay (bids ++ [b]) = (row.replay bids).withBid b.amount b.userId := by
  rw [Auction.replay, List.foldl_append]
  rfl

theorem replaysLedger_refl (a : ℤ) (w : World) : ReplaysLedger a w w := by
  unfold ReplaysLedger
  split
  · next hnone => exact ⟨hnone, rfl⟩
  · next row hrow => exact ⟨[], (List.append_nil _).symm, .inl hrow⟩

/-- A statement of any call keeps the row the replay of the ledger. -/
theorem CallStep.replaysLedger (h : CallStep i w c w' c' pubs) (hw : ReplaysLedger a w₀ w) :
    ReplaysLedger a w₀ w' := by
  unfold ReplaysLedger at hw ⊢
  obtain ⟨hrow, hbids, -⟩ | ⟨m, seen, newBid, hm, -, -, -, hc⟩ | ⟨row', -, -, -, hrow, hclosed, hbids⟩ :=
    h.rows_cases a
  · rw [hrow, hbids]
    exact hw
  · obtain ⟨row', hrow, -, -, -, hwritten, hadded⟩ := Database.commitBid_self hc hm
    split at hw
    · rw [hw.1] at hrow
      cases hrow
    · next row₀ _ =>
      obtain ⟨added, hbids, hreplay⟩ := hw
      refine ⟨added ++ [newBid], by rw [hadded, hbids, List.append_assoc], ?_⟩
      rw [hwritten, replay_concat]
      -- a bid and a close write different columns
      rcases hreplay with hopen | ⟨endTime, hclosed⟩
      · cases hrow.symm.trans hopen
        exact .inl rfl
      · cases hrow.symm.trans hclosed
        exact .inr ⟨endTime, rfl⟩
  · split at hw
    · rw [hw.1] at hrow
      cases hrow
    · next row₀ _ =>
      obtain ⟨added, hbefore, hreplay⟩ := hw
      refine ⟨added, by rw [hbids, hbefore], .inr ⟨i.now, ?_⟩⟩
      rw [hclosed]
      rcases hreplay with hopen | ⟨endTime, hended⟩
      · cases hrow.symm.trans hopen
        rfl
      · cases hrow.symm.trans hended
        rfl

/-- In every interleaving of calls, serialised or not and with any failures, the row of every
    auction is the replay of the bids committed for it, and no committed bid is lost or reordered. -/
theorem rows_replay_ledger (w₀ : World) (schedule : List Action) :
    Always (Pool.step system) (fun s => ∀ a, ReplaysLedger a w₀ s.world) ⟨w₀, [], []⟩ schedule := by
  refine always_of_inv (I := fun s : State => ∀ a, ReplaysLedger a w₀ s.world)
    (P := fun _ _ _ => True) ?_ (fun s hs => hs) schedule ?_ (along_true schedule)
  case refine_2 =>
    intro a
    exact replaysLedger_refl a w₀
  intro s act t hs _ ht a
  cases Pool.step_inv ht with
  | start _ => exact hs a
  | run hstep => exact (callStep_inv hstep).replaysLedger (hs a)
  | env auctionId => exact hs a
  | kill _ => exact hs a

/-- Two overlapping bids: the later commit is the lower amount, and the row shows it. -/
example :
    (exec (Pool.step system) ⟨sampleWorld, [], []⟩
      [.start (annBids 200), .start (bobBids 120), stmt 0 1, stmt 1 1, stmt 0 2, stmt 1 3]).map
      (fun s => s.world.db.auction 1) =
    some (some (sampleRow.replay [⟨⟨20000, by decide⟩, 2, 7, 1⟩, ⟨⟨12000, by decide⟩, 3, 8, 1⟩])) := by
  decide +kernel

end CarAuction
