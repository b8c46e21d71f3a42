import CarAuction.WholeCalls

/- What an auction is sold on. The row has a `startTime`, an `endTime` and a
   `startingBid`, which nothing reads but the message of an auction that is closed
   already: `placeBid` looks at `isOpen` and `currentHighestBid`, and `endAuction`
   writes the time of the close to `endTime`. `sold_outside_terms` sells a car below
   its starting bid and outside its hours.

   `sold_while_open`: what holds instead. Bids are recorded while the row is open, not
   below its `currentHighestBid`, and not after the `endTime` of the close, and the
   winner that is announced has made a highest bid. -/
namespace CarAuction

open Sql Machine

/-- The services, with the time of the last request. -/
abbrev Sale := Services × Time

def saleStep : Sale → Request × Time → Option Sale := clocked serve Prod.snd

/-- A bid that the request records on the auction, and a winner it announces, are within the terms of
    the row as it was then. -/
def OnTerms (a : ℤ) (s : Sale) (_ : Request × Time) (t : Sale) : Prop :=
  ∀ row, s.1.world.db.auction a = some row →
    (∀ b, t.1.world.db.bidsOf a = s.1.world.db.bidsOf a ++ [b] →
      row.startingBid ≤ b.amount ∧ row.startTime ≤ b.timestamp ∧ b.timestamp ≤ row.endTime) ∧
    ∀ winningBid message userId, winningBid.userId = .val userId →
      channelEvents a t.1.log = channelEvents a s.1.log ++ [.auctionEnd a winningBid message] →
        row.startingBid.toRat ≤ winningBid.amount

/-- A bid that the request records on the auction found the row open and at most at its amount. -/
def OnOpenRow (a : ℤ) (s : Sale) (act : Request × Time) (t : Sale) : Prop :=
  ∀ b, t.1.world.db.bidsOf a = s.1.world.db.bidsOf a ++ [b] →
    b.timestamp = act.2 ∧ ∃ row, s.1.world.db.auction a = some row ∧ row.isOpen = true ∧
      0 ≤ row.currentHighestBid ∧ row.currentHighestBid ≤ b.amount

/-- No bid is later than the close, and the winner that was announced has made a highest bid. -/
structure SoldInTime (a : ℤ) (s : Sale) : Prop where
  hours : ∀ row, s.1.world.db.auction a = some row → row.isOpen = false →
    ∀ b ∈ s.1.world.db.bidsOf a, b.timestamp ≤ row.endTime
  winner : ∀ winningBid message userId, winningBid.userId = .val userId →
    .auctionEnd a winningBid message ∈ channelEvents a s.1.log →
      ∃ b, Ledger.Top Bid.amount (s.1.world.db.bidsOf a) b ∧ b.userId = userId ∧
        winningBid.amount = b.amount.toRat

/-- An open auction has announced no winner and is at or above its bids; a closed one has its winner. -/
structure SaleInv (a : ℤ) (clock : Time) (row : Auction) (v : AuctionSlice) : Prop where
  found : v.row = some row
  nonneg : 0 ≤ row.currentHighestBid
  past : ∀ b ∈ v.bids, b.timestamp ≤ clock
  hours : row.isOpen = false → ∀ b ∈ v.bids, b.timestamp ≤ row.endTime
  unannounced : row.isOpen = true → ∀ winningBid message, .auctionEnd a winningBid message ∉ v.events
  winner : ∀ winningBid message userId, winningBid.userId = .val userId →
    .auctionEnd a winningBid message ∈ v.events →
      ∃ b, Ledger.Top Bid.amount v.bids b ∧ b.userId = userId ∧ winningBid.amount = b.amount.toRat

variable {a : ℤ} {clock now : Time} {row : Auction} {v v' : AuctionSlice} {user : ℤ → Option User}
  {act : Request × Time} {s t : Sale}

theorem SaleInv.later (h : SaleInv a clock row v) (hclock : clock ≤ now) : SaleInv a now row v :=
  { h with past := fun b hb => (h.past b hb).trans hclock }

/-- The close, after which the row keeps the time and no bid is added. -/
theorem SaleInv.closedAt (h : SaleInv a clock row v) (hopen : row.isOpen = true) (hclock : clock ≤ now)
    {cache : Option AuctionRoom} {events : List Payload} (hevents : ∀ winningBid message userId,
      winningBid.userId = .val userId → .auctionEnd a winningBid message ∈ events →
        .auctionEnd a winningBid message ∈ v.events ∨ ∃ b, Ledger.Top Bid.amount v.bids b ∧
          b.userId = userId ∧ winningBid.amount = b.amount.toRat) :
    SaleInv a now (row.closedAt now) ⟨some (row.closedAt now), v.bids, cache, events⟩ where
  found := rfl
  nonneg := h.nonneg
  past b hb := (h.past b hb).trans hclock
  hours _ b hb := (h.past b hb).trans hclock
  unannounced hopen' := by cases hopen'
  winner winningBid message userId hval hmem := by
    rcases hevents winningBid message userId hval hmem with hbefore | htop
    · exact absurd hbefore (h.unannounced hopen winningBid message)
    · exact htop

theorem saleInv_step (h : SaleInv a clock row v) (hclock : clock ≤ act.2)
    (hstep : SliceStep user a v act v') : ∃ row', SaleInv a act.2 row' v' := by
  cases hstep with
  | keeps _ => exact ⟨row, h.later hclock⟩
  | @accepts m now row' stored ha haccepts =>
    cases h.found.symm.trans haccepts.found
    have habove : row.currentHighestBid ≤ stored :=
      Numeric.ofRat_mono (Numeric.ofRat_toRat _) haccepts.fits haccepts.above.le
    have hunannounced : ∀ winningBid message, Payload.auctionEnd a winningBid message ∉
        v.events ++ [.newBid a ⟨m.amount, m.bidderId, m.bidderUsername, now⟩] := by
      intro winningBid message hmem
      exact h.unannounced haccepts.isOpen winningBid message (by simpa using hmem)
    refine ⟨row.withBid stored m.bidderId, rfl, h.nonneg.trans habove, fun b hb => ?_,
      fun hclosed => ?_, fun _ => hunannounced, fun winningBid message _ _ hmem => ?_⟩
    · rcases List.mem_append.mp hb with hb | hb
      · exact (h.past b hb).trans hclock
      · rw [List.mem_singleton.mp hb]
    · cases haccepts.isOpen.symm.trans hclosed
    · exact absurd hmem (hunannounced winningBid message)
  | @closesEmpty pick now row' hrow hopen hbids =>
    cases h.found.symm.trans hrow
    refine ⟨_, h.closedAt hopen hclock fun winningBid message userId hval hmem => ?_⟩
    rcases List.mem_append.mp hmem with hmem | hmem
    · exact .inl hmem
    · cases List.mem_singleton.mp hmem
      cases hval
  | @closesWon pick now row' b winner hrow hopen htop huser =>
    cases h.found.symm.trans hrow
    refine ⟨_, h.closedAt hopen hclock fun winningBid message userId hval hmem => ?_⟩
    rcases List.mem_append.mp hmem with hmem | hmem
    · exact .inl hmem
    · cases List.mem_singleton.mp hmem
      cases hval
      exact .inr ⟨b, htop, rfl, rfl⟩
  | throws hrow hopen _ _ =>
    cases h.found.symm.trans hrow
    exact ⟨_, h.closedAt hopen hclock fun _ _ _ _ hmem => .inl hmem⟩
  | fills _ hrow _ => exact ⟨row, { h.later hclock with found := h.found }⟩
  | expires => exact ⟨row, { h.later hclock with found := h.found }⟩

/-- A request that adds a bid to the auction is one that the row accepts. -/
theorem SaleInv.onOpenRow (h : SaleInv a clock row (s.1.slice a))
    (hstep : SliceStep user a (s.1.slice a) act (t.1.slice a)) : OnOpenRow a s act t := by
  intro b hb
  have hbids : (t.1.slice a).bids = (s.1.slice a).bids ++ [b] := hb
  generalize hv : t.1.slice a = v at hstep hbids
  cases hstep with
  | accepts ha haccepts =>
    cases h.found.symm.trans haccepts.found
    cases List.singleton_inj.mp (List.append_cancel_left hbids)
    exact ⟨rfl, row, h.found, haccepts.isOpen, h.nonneg,
      Numeric.ofRat_mono (Numeric.ofRat_toRat _) haccepts.fits haccepts.above.le⟩
  | _ => simp at hbids

/-- Bids are recorded on an open row, not below its amount and not after its close, and the winner that
    is announced has made a highest bid. -/
theorem sold_while_open (a : ℤ) (w : World) (now : Time) (row : Auction)
    (hrow : w.db.auction a = some row) (hamount : row.currentHighestBid = 0)
    (hbids : w.db.bidsOf a = []) (schedule : List (Request × Time)) :
    Along saleStep (OnOpenRow a) (⟨w, []⟩, now) schedule ∧
      Always saleStep (SoldInTime a) (⟨w, []⟩, now) schedule := by
  have hslice : (Services.slice a ⟨w, []⟩) = ⟨some row, [], w.cache a, []⟩ := by
    simp [Services.slice, hrow, hbids, channelEvents]
  have hstart : SaleInv a now row (Services.slice a ⟨w, []⟩) := by
    rw [hslice]
    refine ⟨rfl, hamount.ge, ?_, fun _ => ?_, fun _ _ _ => ?_, fun _ _ _ _ hmem => ?_⟩
    · exact fun b hb => absurd hb List.not_mem_nil
    · exact fun b hb => absurd hb List.not_mem_nil
    · exact List.not_mem_nil
    · exact absurd hmem List.not_mem_nil
  refine run_of_inv (I := fun s : Sale => ∃ row, SaleInv a s.2 row (s.1.slice a))
    (P := fun _ _ _ => True) ?_ ?_ schedule ⟨row, hstart⟩ (along_true schedule)
  · rintro ⟨s, clock⟩ act ⟨t, clock'⟩ ⟨row, hs⟩ - hstep
    obtain ⟨hclock, hserve, rfl⟩ := clocked_eq_some.mp hstep
    have hslice := (serve_slice (a := a) hserve).2
    exact ⟨saleInv_step hs hclock hslice, hs.onOpenRow hslice⟩
  · rintro s ⟨row, hs⟩
    refine ⟨fun row' hrow' => ?_, hs.winner⟩
    cases hs.found.symm.trans hrow'
    exact hs.hours

/-- A car to be sold from second 1 to second 2, from 100 upwards. -/
def termsRow : Auction := ⟨1000, 2000, ⟨10000, by decide⟩, 0, true, 1, none⟩

def termsWorld : World := { sampleWorld with db := sampleWorld.db.setAuction 1 termsRow }

/-- Ann bids 50 before the start, Bob 60 after the end, and the auction is closed. -/
def outsideTerms : List (Request × Time) :=
  [(.placeBid ⟨1, 50, 7, "ann", "socket-a"⟩, 500), (.placeBid ⟨1, 60, 8, "bob", "socket-b"⟩, 2500),
    (.endAuction 1 0, 3000)]

theorem sold_outside_terms : ¬ Along saleStep (OnTerms 1) (⟨termsWorld, []⟩, 0) outsideTerms ∧
    ∃ s, exec saleStep (⟨termsWorld, []⟩, 0) outsideTerms = some s ∧
      s.1.world.db.bidsOf 1 = [⟨⟨5000, by decide⟩, 500, 7, 1⟩, ⟨⟨6000, by decide⟩, 2500, 8, 1⟩] ∧
      auctionEndsOf 1 s.1.log = [⟨60, .val 8, .val "bob"⟩] := by
  constructor
  · intro h
    have hfirst : ∃ t ∈ saleStep (⟨termsWorld, []⟩, 0)
        (.placeBid ⟨1, 50, 7, "ann", "socket-a"⟩, 500), t.1.world.db.bidsOf 1 =
          termsWorld.db.bidsOf 1 ++ [⟨⟨5000, by decide⟩, 500, 7, 1⟩] := by decide +kernel
    obtain ⟨t, ht, hbid⟩ := hfirst
    obtain ⟨hlow, -, -⟩ := ((h t ht).1 termsRow rfl).1 _ hbid
    exact absurd hlow (by decide)
  · have hend : ∃ s ∈ exec saleStep (⟨termsWorld, []⟩, 0) outsideTerms,
        s.1.world.db.bidsOf 1 = [⟨⟨5000, by decide⟩, 500, 7, 1⟩, ⟨⟨6000, by decide⟩, 2500, 8, 1⟩] ∧
          auctionEndsOf 1 s.1.log = [⟨60, .val 8, .val "bob"⟩] := by decide +kernel
    exact hend

theorem sold_while_open_outside : Along saleStep (OnOpenRow 1) (⟨termsWorld, []⟩, 0) outsideTerms ∧
    Always saleStep (SoldInTime 1) (⟨termsWorld, []⟩, 0) outsideTerms :=
  sold_while_open 1 termsWorld 0 termsRow rfl rfl rfl outsideTerms

end CarAuction
