import CarAuction.WholeCalls
import CarAuction.SerialBids

/- Does the cache answer as the database would? Three operations build the cached
   state, from the bid event, from the highest bid and from the row, and with bids in
   whole cents they agree as long as the auction has a bid. `endAuction` without one
   caches the amount 0, whatever the row says.

   `cached_answer_iff`: the answers are alike along a run exactly when the auction is
   not closed without a bid while its row has an amount. -/
namespace CarAuction

open Sql Machine

/-- The same to a client that does not look at the name, `null` and absent identified. -/
structure AnswersAlike (room room' : AuctionRoom) : Prop where
  currentHighestBid : room.currentHighestBid = room'.currentHighestBid
  winnerId : room.winnerId.toOption = room'.winnerId.toOption
  isOpen : room.isOpen = room'.isOpen

/-- `getAuctionState` returns what it would with an empty cache. -/
def CachedAnswerRight (a : ℤ) (s : Services) : Prop :=
  ∃ w room w' room', getAuctionState s.world a = some (w, room) ∧
    getAuctionState (s.world.expireCache a) a = some (w', room') ∧ AnswersAlike room room'

/-- A bid on the auction is in whole cents. -/
def Request.ExactOn (a : ℤ) : Request → Prop
  | .placeBid m => m.auctionId = a → Numeric.HasScale 2 m.amount
  | _ => True

instance {a : ℤ} : DecidablePred (Request.ExactOn a) := fun request => by
  cases request <;> unfold Request.ExactOn <;> infer_instance

/-- The auction is closed without a bid while its row has an amount. -/
def ClosesWithAmount (a : ℤ) (s : Services) (act : Request × Time) : Prop :=
  ∃ pick row, act.1 = .endAuction a pick ∧ s.world.db.auction a = some row ∧ row.isOpen = true ∧
    s.world.db.bidsOf a = [] ∧ row.currentHighestBid ≠ 0

instance {a : ℤ} {s : Services} : DecidablePred (ClosesWithAmount a s)
  | (.endAuction b _, _) =>
    decidable_of_iff (b = a ∧ ∃ row ∈ s.world.db.auction a, row.isOpen = true ∧
      s.world.db.bidsOf a = [] ∧ row.currentHighestBid ≠ 0) (by simp [ClosesWithAmount])
  | (.placeBid _, _) => .isFalse (by simp [ClosesWithAmount])
  | (.getAuctionState _, _) => .isFalse (by simp [ClosesWithAmount])
  | (.expire _, _) => .isFalse (by simp [ClosesWithAmount])

/-- The row carries the last bid, every bidder is a user, and the cache is empty or says what the row
    does. -/
structure AnswerInv (user : ℤ → Option User) (initial row : Auction) (v : AuctionSlice) : Prop where
  found : v.row = some row
  agrees : Agrees initial row v.bids
  bidders : ∀ b ∈ v.bids, (user b.userId).isSome
  cached : ∀ room, v.cache = some room → AnswersAlike room (rowRoom row .undefined)

variable {a : ℤ} {user : ℤ → Option User} {initial row : Auction} {v v' : AuctionSlice}
  {s t : Services} {act : Request × Time} {w : World} {username : Field String}

theorem answersAlike_rowRoom : AnswersAlike (rowRoom row username) (rowRoom row .undefined) :=
  ⟨rfl, rfl, rfl⟩

theorem getAuctionState_uncached (hcache : w.cache a = none) (hrow : w.db.auction a = some row)
    (hname : winnerName w.db.user row = some username) :
    getAuctionState w a = some (w.setCache a (rowRoom row username), rowRoom row username) := by
  obtain ⟨room, hcached, -⟩ | ⟨-, ⟨hnone, -⟩ | ⟨row', hrow', ⟨hnone, -⟩ | ⟨username', hname', heq⟩⟩⟩ :=
    getAuctionState_cases w a
  · cases hcache.symm.trans hcached
  · cases hrow.symm.trans hnone
  · cases hrow.symm.trans hrow'
    cases hname.symm.trans hnone
  · cases hrow.symm.trans hrow'
    cases hname.symm.trans hname'
    exact heq

/-- The winner has a name to be found. -/
theorem AnswerInv.winnerName (h : AnswerInv user initial row v) :
    ∃ username, winnerName user row = some username := by
  unfold CarAuction.winnerName
  rw [h.agrees.winner]
  cases hlast : v.bids.getLast? with
  | none => exact ⟨_, rfl⟩
  | some b =>
    obtain ⟨winner, hwinner⟩ :=
      Option.isSome_iff_exists.mp (h.bidders b (List.mem_of_getLast? hlast))
    by_cases hzero : b.userId = 0
    · exact ⟨_, if_pos hzero⟩
    · exact ⟨.val winner.username, by simp [hzero, hwinner]⟩

theorem AnswerInv.right (h : AnswerInv s.world.db.user initial row (s.slice a)) :
    CachedAnswerRight a s := by
  obtain ⟨username, hname⟩ := h.winnerName
  have hafresh : getAuctionState (s.world.expireCache a) a = some
      ((s.world.expireCache a).setCache a (rowRoom row username), rowRoom row username) :=
    getAuctionState_uncached (by simp) h.found hname
  cases hcache : s.world.cache a with
  | none =>
    exact ⟨_, _, _, _, getAuctionState_uncached hcache h.found hname, hafresh, ⟨rfl, rfl, rfl⟩⟩
  | some room =>
    have hcached : getAuctionState s.world a = some (s.world, room) := by
      simp [getAuctionState, World.getCache, hcache]
    obtain ⟨hamount, hwinner, hopen⟩ := h.cached room hcache
    exact ⟨_, _, _, _, hcached, hafresh, ⟨hamount, hwinner, hopen⟩⟩

theorem answerInv_step (h : AnswerInv user initial row v) (hstep : SliceStep user a v act v')
    (hexact : act.1.ExactOn a)
    (hcloses : ∀ pick, act.1 = .endAuction a pick → row.isOpen = true → v.bids = [] →
      row.currentHighestBid = 0) :
    ∃ row', AnswerInv user initial row' v' := by
  cases hstep with
  | keeps _ => exact ⟨row, h⟩
  | @accepts m now row' stored ha haccepts =>
    cases h.found.symm.trans haccepts.found
    have hstored : stored.toRat = m.amount := (Numeric.toRat_ofRat_eq haccepts.fits).mpr (hexact ha)
    have habove : row.currentHighestBid < stored := by
      rw [← Numeric.toRat_lt, hstored]
      exact haccepts.above
    refine ⟨_, rfl, h.agrees.withBid (b := ⟨stored, now, m.bidderId, a⟩) habove, fun b hb => ?_, ?_⟩
    · rcases List.mem_append.mp hb with hb | hb
      · exact h.bidders b hb
      · rw [List.mem_singleton.mp hb]
        exact haccepts.bidder
    · rintro room hroom
      cases hroom
      exact ⟨by simp [newBidRoom, rowRoom, Auction.withBid, hstored], rfl,
        by simp [newBidRoom, rowRoom, Auction.withBid, haccepts.isOpen]⟩
  | @closesEmpty pick now row' hrow hopen hbids =>
    cases h.found.symm.trans hrow
    -- the summary says 0, and so does the row
    have hzero := hcloses pick rfl hopen hbids
    refine ⟨_, rfl, h.agrees.closedAt, h.bidders, ?_⟩
    rintro room hroom
    cases hroom
    have hnone : row.winnerId = none := by rw [h.agrees.winner, hbids]; rfl
    exact ⟨by simp [closedRoom, noBidsSummary, rowRoom, Auction.closedAt, hzero],
      by simp [closedRoom, noBidsSummary, rowRoom, Auction.closedAt, hnone], rfl⟩
  | @closesWon pick now row' b winner hrow hopen htop huser =>
    cases h.found.symm.trans hrow
    obtain ⟨hamount, hwinner⟩ := h.agrees.top htop
    refine ⟨_, rfl, h.agrees.closedAt, h.bidders, ?_⟩
    rintro room hroom
    cases hroom
    exact ⟨by simp [closedRoom, winnerSummary, rowRoom, Auction.closedAt, hamount],
      by simp [closedRoom, winnerSummary, rowRoom, Auction.closedAt, hwinner], rfl⟩
  | throws hrow hopen htop huser =>
    have hsome := h.bidders _ htop.1
    rw [huser] at hsome
    cases hsome
  | fills hcache hrow hname =>
    cases h.found.symm.trans hrow
    refine ⟨row, h.found, h.agrees, h.bidders, ?_⟩
    rintro room hroom
    cases hroom
    exact answersAlike_rowRoom
  | expires => exact ⟨row, h.found, h.agrees, h.bidders, fun room hroom => by cases hroom⟩

/-- The close without a bid caches the amount 0, and leaves that of the row. -/
theorem closesWithAmount_slice (hstep : serve s act = some t) (hcloses : ClosesWithAmount a s act) :
    ∃ row, t.world.cache a = some (closedRoom noBidsSummary) ∧ t.world.db.auction a = some row ∧
      row.currentHighestBid ≠ 0 := by
  obtain ⟨pick, row, hact, hrow, hopen, hbids, hamount⟩ := hcloses
  obtain ⟨request, now⟩ := act
  cases hact
  have hslice := (serve_slice (a := a) hstep).2
  generalize hv' : t.slice a = v' at hslice
  have hnone : ∀ b, ¬ Ledger.Top Bid.amount (s.slice a).bids b := by
    intro b htop
    rw [Services.slice, hbids] at htop
    exact absurd htop.1 List.not_mem_nil
  cases hslice with
  | keeps hnot => exact absurd ⟨rfl, row, hrow, hopen⟩ hnot
  | closesEmpty hrow' _ _ =>
    cases hrow.symm.trans hrow'
    exact ⟨_, congrArg AuctionSlice.cache hv', congrArg AuctionSlice.row hv', hamount⟩
  | closesWon _ _ htop _ => exact absurd htop (hnone _)
  | throws _ _ htop _ => exact absurd htop (hnone _)

theorem closesWithAmount_wrong (hstep : serve s act = some t) (hcloses : ClosesWithAmount a s act) :
    ¬ CachedAnswerRight a t := by
  obtain ⟨row, hcache, hrow, hamount⟩ := closesWithAmount_slice hstep hcloses
  rintro ⟨w, room, w', room', hcached, hfresh, halike, -, -⟩
  have hroom : getAuctionState t.world a = some (t.world, closedRoom noBidsSummary) := by
    simp [getAuctionState, World.getCache, hcache]
  cases hcached.symm.trans hroom
  obtain ⟨room, hcached, -⟩ | ⟨-, ⟨hnone, -⟩ | ⟨row', hrow', ⟨-, hthrew⟩ | ⟨username, -, heq⟩⟩⟩ :=
    getAuctionState_cases (t.world.expireCache a) a
  · simp at hcached
  · cases hrow.symm.trans hnone
  · cases hthrew.symm.trans hfresh
  · cases hrow.symm.trans hrow'
    cases heq.symm.trans hfresh
    have hzero : (0 : Decimal).toRat = row.currentHighestBid.toRat := by
      simpa [closedRoom, noBidsSummary, rowRoom] using halike
    exact hamount (le_antisymm (Numeric.toRat_le.mp hzero.ge) (Numeric.toRat_le.mp hzero.le))

/-- `getAuctionState` answers along a run as it would with an empty cache exactly when the auction is not
    closed without a bid while its row has an amount. -/
theorem cached_answer_iff (a : ℤ) (s : Services) (initial : Auction)
    (hrow : s.world.db.auction a = some initial) (hwinner : initial.winnerId = none)
    (hbids : s.world.db.bidsOf a = [])
    (hcache : ∀ room, s.world.cache a = some room → AnswersAlike room (rowRoom initial .undefined))
    (schedule : List (Request × Time)) (hexact : ∀ act ∈ schedule, act.1.ExactOn a) :
    Always serve (CachedAnswerRight a) s schedule ↔
      Along serve (fun s act _ => ¬ ClosesWithAmount a s act) s schedule := by
  have hstart : AnswerInv s.world.db.user initial initial (s.slice a) := by
    refine ⟨hrow, ?_, ?_, hcache⟩
    · rw [Services.slice, hbids]
      exact .start hwinner
    · rw [Services.slice, hbids]
      exact fun b hb => absurd hb List.not_mem_nil
  refine always_iff_of_inv
    (I := fun s => ∃ row, AnswerInv s.world.db.user initial row (s.slice a))
    (fun s hs => hs.elim fun _ h => h.right) ?_ ?_ schedule ⟨initial, hstart⟩ (along_of_forall hexact)
  · rintro s act t ⟨row, hs⟩ hexact hstep hcloses
    obtain ⟨huser, hslice⟩ := serve_slice hstep
    rw [huser]
    refine answerInv_step hs hslice hexact fun pick hact hopen hbids => ?_
    by_contra hamount
    exact hcloses ⟨pick, row, hact, hs.found, hopen, hbids, hamount⟩
  · exact fun s act t _ _ hstep hcloses => closesWithAmount_wrong hstep hcloses

/-- An auction whose row starts with 500 is closed before anyone bids. -/
def closedUnsold : List (Request × Time) := [(.endAuction 1 0, 0)]

def startedRow : Auction := { sampleRow with currentHighestBid := ⟨50000, by decide⟩ }

def startedServices : Services :=
  ⟨{ sampleWorld with db := sampleWorld.db.setAuction 1 startedRow }, []⟩

theorem unsold_answers_differ : ¬ Always serve (CachedAnswerRight 1) startedServices closedUnsold := by
  intro h
  obtain ⟨s, hs⟩ := Option.isSome_iff_exists.mp
    (show (serve startedServices (.endAuction 1 0, 0)).isSome by decide +kernel)
  exact closesWithAmount_wrong hs ⟨0, startedRow, rfl, rfl, rfl, rfl, by decide⟩ (h.2 s hs).1

/-- It is closed after a bid of Ann. -/
def closedSold : List (Request × Time) :=
  [(.getAuctionState 1, 0), (.placeBid ⟨1, 501, 7, "ann", "socket-a"⟩, 1), (.expire 1, 2),
    (.getAuctionState 1, 3), (.endAuction 1 0, 4), (.getAuctionState 1, 5)]

theorem cached_answer_iff_unsold : (Always serve (CachedAnswerRight 1) startedServices closedUnsold ↔
    Along serve (fun s act _ => ¬ ClosesWithAmount 1 s act) startedServices closedUnsold) ∧
    Always serve (CachedAnswerRight 1) startedServices closedSold :=
  ⟨cached_answer_iff 1 startedServices startedRow rfl rfl rfl (fun _ hroom => by cases hroom)
      closedUnsold (by decide),
    (cached_answer_iff 1 startedServices startedRow rfl rfl rfl (fun _ hroom => by cases hroom)
      closedSold (by decide +kernel)).mpr (by decide +kernel)⟩

end CarAuction
