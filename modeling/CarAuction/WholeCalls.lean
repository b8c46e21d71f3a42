import CarAuction.AuctionRow
import CarAuction.Lib.Machine

/- The calls of the services one at a time, each as a whole. `getAuctionState` and
   `endAuction` are the functions of the source, and `getAuctionState_steps` and
   `endAuction_steps` say that their statements run one after another are the call,
   as `placeBid_steps` does for `placeBid`. Between calls a cache entry may elapse.

   `AuctionSlice` is the part of the stores and of what has been published that
   belongs to one auction. `serve_slice` is the lemma that looks into the calls:
   every request moves the slice of an auction along `SliceStep`. -/
namespace CarAuction

open Sql Machine

/-- The name that `getAuctionState` finds for the winner of the row. -/
def winnerName (user : ℤ → Option User) (auction : Auction) : Option (Field String) :=
  match auction.winnerId with
  | none => some .undefined
  | some winnerId =>
    -- a `winnerId` of `0` is falsy
    if winnerId = 0 then some .undefined
    else (user winnerId).map fun winner => .val winner.username

/-- `AuctionService.getAuctionState`; `none` is an exception. -/
def getAuctionState (w : World) (auctionId : ℤ) : Option (World × AuctionRoom) :=
  match w.getCache auctionId with
  | some room => some (w, room)
  | none =>
    match w.db.auctionFindUnique auctionId with
    | none => some (w, missingRoom)
    | some auction => (winnerName w.db.userFindUnique auction).map fun winnerUsername =>
      (w.setCache auctionId (rowRoom auction winnerUsername), rowRoom auction winnerUsername)

/-- What follows the selection of the winning bid: the summary is published, cached and returned. -/
def concludeAuction (w : World) (auctionId : ℤ) (winningBid : WinningBidSummary) (message : EndMessage) :
    World × Option EndAuctionSummary × List Publication :=
  (w.setCache auctionId (closedRoom winningBid), some ⟨true, message, some winningBid⟩,
    [auctionEndPublication auctionId winningBid message])

/-- `AuctionService.endAuction`; a call without a summary has thrown, and one whose `pick` is not among
    the highest bids does not exist. -/
def endAuction (w : World) (auctionId : ℤ) (now : Time) (pick : ℕ) :
    Option (World × Option EndAuctionSummary × List Publication) :=
  match w.db.auctionFindUnique auctionId with
  | none => some (w, some ⟨false, .notFound auctionId, none⟩, [])
  | some currentState =>
    if !currentState.isOpen then
      some (w, some ⟨false, .alreadyClosed auctionId currentState.endTime, none⟩, [])
    else
      match w.db.auctionUpdateClosed auctionId now with
      | .error _ => some (w, none, [])
      | .ok db =>
        match db.topBids auctionId with
        | [] => some (concludeAuction { w with db := db } auctionId noBidsSummary (.noBids auctionId))
        | b :: bs =>
          match (b :: bs)[pick]? with
          | none => none
          | some winningBid =>
            match db.userFindUnique winningBid.userId with
            | none => some ({ w with db := db }, none, [])
            | some user =>
              some (concludeAuction { w with db := db } auctionId (winnerSummary winningBid user)
                (.winner auctionId user.username winningBid.amount))

/-! The statements one after another. -/

/-- A call alone with the stores. -/
def readerAlone (auctionId : ℤ) (s : World × GetStatePc) (_ : Unit) : Option (World × GetStatePc) :=
  getAuctionStateStep auctionId s.1 s.2

theorem getAuctionState_steps (w : World) (auctionId : ℤ) :
    ∃ n, exec (readerAlone auctionId) (w, .begin) (List.replicate n ()) =
      match getAuctionState w auctionId with
      | some (w', room) => some (w', .returned room)
      | none => some (w, .threw) := by
  unfold getAuctionState winnerName
  cases hcache : w.getCache auctionId with
  | some room => exact ⟨1, by simp [readerAlone, getAuctionStateStep, hcache]⟩
  | none =>
    cases hrow : w.db.auctionFindUnique auctionId with
    | none => exact ⟨2, by simp [List.replicate, exec, readerAlone, getAuctionStateStep, hcache, hrow]⟩
    | some auction =>
      cases hwinner : auction.winnerId with
      | none =>
        refine ⟨3, ?_⟩
        simp [List.replicate, exec, readerAlone, getAuctionStateStep, hcache, hrow, hwinner]
      | some winnerId =>
        by_cases hzero : winnerId = 0
        · refine ⟨3, ?_⟩
          simp [List.replicate, exec, readerAlone, getAuctionStateStep, hcache, hrow, hwinner, hzero]
        · cases huser : w.db.userFindUnique winnerId with
          | none =>
            refine ⟨3, ?_⟩
            simp [List.replicate, exec, readerAlone, getAuctionStateStep, hcache, hrow, hwinner, hzero,
              huser]
          | some winner =>
            refine ⟨4, ?_⟩
            simp [List.replicate, exec, readerAlone, getAuctionStateStep, hcache, hrow, hwinner, hzero,
              huser]

/-- A call alone with the stores, with what it has published. -/
def enderAlone (auctionId : ℤ) (now : Time) (pick : ℕ) (s : World × EndAuctionPc × List Publication)
    (_ : Unit) : Option (World × EndAuctionPc × List Publication) :=
  (endAuctionStep auctionId now pick s.1 s.2.1).map fun t => (t.1, t.2.1, s.2.2 ++ t.2.2)

/-- The outcomes of a call: no auction, closed already, closed without bids, closed with a winner who is
    a user, and the exception for one who is not. -/
inductive EndAuctionCase (w : World) (auctionId : ℤ) (now : Time) (pick : ℕ) :
    World × Option EndAuctionSummary × List Publication → Prop where
  | missing : w.db.auction auctionId = none →
      EndAuctionCase w auctionId now pick (w, some ⟨false, .notFound auctionId, none⟩, [])
  | closed {row} : w.db.auction auctionId = some row → row.isOpen = false →
      EndAuctionCase w auctionId now pick
        (w, some ⟨false, .alreadyClosed auctionId row.endTime, none⟩, [])
  | noBids {row} : w.db.auction auctionId = some row → row.isOpen = true →
      w.db.topBids auctionId = [] → EndAuctionCase w auctionId now pick
        (concludeAuction { w with db := w.db.setAuction auctionId (row.closedAt now) } auctionId
          noBidsSummary (.noBids auctionId))
  | won {row b user} : w.db.auction auctionId = some row → row.isOpen = true →
      (w.db.topBids auctionId)[pick]? = some b → w.db.user b.userId = some user →
      EndAuctionCase w auctionId now pick
        (concludeAuction { w with db := w.db.setAuction auctionId (row.closedAt now) } auctionId
          (winnerSummary b user) (.winner auctionId user.username b.amount))
  | threw {row b} : w.db.auction auctionId = some row → row.isOpen = true →
      (w.db.topBids auctionId)[pick]? = some b → w.db.user b.userId = none →
      EndAuctionCase w auctionId now pick
        ({ w with db := w.db.setAuction auctionId (row.closedAt now) }, none, [])

variable {w : World} {auctionId a : ℤ} {now : Time} {pick : ℕ}
  {r : World × Option EndAuctionSummary × List Publication}

theorem endAuction_inv (h : endAuction w auctionId now pick = some r) :
    EndAuctionCase w auctionId now pick r := by
  unfold endAuction Database.auctionFindUnique Database.auctionUpdateClosed at h
  cases hrow : w.db.auction auctionId with
  | none =>
    rw [hrow] at h
    cases h
    exact .missing hrow
  | some row =>
    simp only [hrow] at h
    cases hopen : row.isOpen with
    | false =>
      simp only [hopen, Bool.not_false, if_true] at h
      cases h
      exact .closed hrow hopen
    | true =>
      simp only [hopen, Bool.not_true, Bool.false_eq_true, if_false] at h
      rw [Database.setAuction_topBids] at h
      cases htop : w.db.topBids auctionId with
      | nil =>
        simp only [htop] at h
        cases h
        exact .noBids hrow hopen htop
      | cons b bs =>
        simp only [htop] at h
        cases hpick : (b :: bs)[pick]? with
        | none => simp only [hpick] at h; cases h
        | some winningBid =>
          simp only [hpick] at h
          cases huser : w.db.user winningBid.userId with
          | none =>
            simp only [Database.userFindUnique, Database.setAuction_user, huser] at h
            cases h
            exact .threw hrow hopen (htop ▸ hpick) huser
          | some user =>
            simp only [Database.userFindUnique, Database.setAuction_user, huser] at h
            cases h
            exact .won hrow hopen (htop ▸ hpick) huser

theorem endAuction_steps (h : endAuction w auctionId now pick = some r) :
    ∃ n, exec (enderAlone auctionId now pick) (w, .begin, []) (List.replicate n ()) =
      some (r.1, match r.2.1 with | some summary => .returned summary | none => .threw, r.2.2) := by
  cases endAuction_inv h with
  | missing hrow =>
    exact ⟨1, by simp [enderAlone, endAuctionStep, Database.auctionFindUnique, hrow]⟩
  | closed hrow hopen =>
    exact ⟨1, by simp [enderAlone, endAuctionStep, Database.auctionFindUnique, hrow, hopen]⟩
  | noBids hrow hopen htop =>
    refine ⟨5, ?_⟩
    simp [List.replicate, exec, enderAlone, endAuctionStep, Database.auctionFindUnique,
      Database.auctionUpdateClosed, hrow, hopen, htop, concludeAuction]
  | won hrow hopen hpick huser =>
    obtain ⟨b, bs, htop⟩ := List.exists_cons_of_ne_nil (List.ne_nil_of_mem (List.mem_of_getElem? hpick))
    rw [htop] at hpick
    refine ⟨5, ?_⟩
    simp [List.replicate, exec, enderAlone, endAuctionStep, Database.auctionFindUnique,
      Database.auctionUpdateClosed, Database.userFindUnique, hrow, hopen, htop, hpick, huser,
      concludeAuction]
  | threw hrow hopen hpick huser =>
    obtain ⟨b, bs, htop⟩ := List.exists_cons_of_ne_nil (List.ne_nil_of_mem (List.mem_of_getElem? hpick))
    rw [htop] at hpick
    refine ⟨3, ?_⟩
    simp [List.replicate, exec, enderAlone, endAuctionStep, Database.auctionFindUnique,
      Database.auctionUpdateClosed, Database.userFindUnique, hrow, hopen, htop, hpick, huser]

/-! One request after another. -/

/-- The stores, and what has been published. -/
structure Services where
  world : World
  log : List Publication

inductive Request where
  | placeBid (m : BidMessage)
  | endAuction (auctionId : ℤ) (pick : ℕ)
  | getAuctionState (auctionId : ℤ)
  | expire (auctionId : ℤ)
  deriving DecidableEq

/-- The whole call with the clock reading of the action, or the end of a cache entry. -/
def serve (s : Services) : Request × Time → Option Services
  | (.placeBid m, now) =>
    match placeBid s.world m now with
    | none => some s
    | some (w, pubs) => some ⟨w, s.log ++ pubs⟩
  | (.endAuction auctionId pick, now) =>
    (endAuction s.world auctionId now pick).map fun r => ⟨r.1, s.log ++ r.2.2⟩
  | (.getAuctionState auctionId, _) =>
    match getAuctionState s.world auctionId with
    | none => some s
    | some (w, _) => some { s with world := w }
  | (.expire auctionId, _) => some { s with world := s.world.expireCache auctionId }

/-- What there is of one auction. -/
structure AuctionSlice where
  row : Option Auction
  bids : List Bid
  cache : Option AuctionRoom
  events : List Payload

def Services.slice (a : ℤ) (s : Services) : AuctionSlice where
  row := s.world.db.auction a
  bids := s.world.db.bidsOf a
  cache := s.world.cache a
  events := channelEvents a s.log

/-- The bid passes the checks, and the database takes it and stores it as `stored`. -/
structure AuctionSlice.Accepts (user : ℤ → Option User) (v : AuctionSlice) (m : BidMessage)
    (row : Auction) (stored : Decimal) : Prop where
  found : v.row = some row
  isOpen : row.isOpen = true
  above : row.currentHighestBid.toRat < m.amount
  fits : Numeric.ofRat 14 2 m.amount = some stored
  bidder : (user m.bidderId).isSome
  version : row.version < maxInteger

/-- The request writes the rows of the auction. -/
def Moves (user : ℤ → Option User) (a : ℤ) (v : AuctionSlice) : Request → Prop
  | .placeBid m => m.auctionId = a ∧ ∃ row stored, v.Accepts user m row stored
  | .endAuction auctionId _ => auctionId = a ∧ ∃ row, v.row = some row ∧ row.isOpen = true
  | _ => False

inductive SliceStep (user : ℤ → Option User) (a : ℤ) (v : AuctionSlice) :
    Request × Time → AuctionSlice → Prop where
  | keeps {act} : ¬ Moves user a v act.1 → SliceStep user a v act v
  | accepts {m now row stored} : m.auctionId = a → v.Accepts user m row stored →
      SliceStep user a v (.placeBid m, now)
        ⟨some (row.withBid stored m.bidderId), v.bids ++ [⟨stored, now, m.bidderId, a⟩],
          some (newBidRoom m true),
          v.events ++ [.newBid a ⟨m.amount, m.bidderId, m.bidderUsername, now⟩]⟩
  | closesEmpty {pick now row} : v.row = some row → row.isOpen = true → v.bids = [] →
      SliceStep user a v (.endAuction a pick, now)
        ⟨some (row.closedAt now), v.bids, some (closedRoom noBidsSummary),
          v.events ++ [.auctionEnd a noBidsSummary (.noBids a)]⟩
  | closesWon {pick now row b winner} : v.row = some row → row.isOpen = true →
      Ledger.Top Bid.amount v.bids b → user b.userId = some winner →
      SliceStep user a v (.endAuction a pick, now)
        ⟨some (row.closedAt now), v.bids, some (closedRoom (winnerSummary b winner)),
          v.events ++ [.auctionEnd a (winnerSummary b winner) (.winner a winner.username b.amount)]⟩
  | throws {pick now row b} : v.row = some row → row.isOpen = true →
      Ledger.Top Bid.amount v.bids b → user b.userId = none →
      SliceStep user a v (.endAuction a pick, now) { v with row := some (row.closedAt now) }
  | fills {now row username} : v.cache = none → v.row = some row → winnerName user row = some username →
      SliceStep user a v (.getAuctionState a, now) { v with cache := some (rowRoom row username) }
  | expires {now : Time} : SliceStep user a v (.expire a, now) { v with cache := none }

variable {s t : Services} {act : Request × Time} {m : BidMessage} {user : ℤ → Option User}
  {v v₁ v₂ : AuctionSlice}

theorem SliceStep.congr (h : SliceStep user a v act v₁) (heq : v₂ = v₁) : SliceStep user a v act v₂ :=
  heq ▸ h

theorem placeBid_slice (h : serve s (.placeBid m, now) = some t) : t.world.db.user = s.world.db.user ∧
    SliceStep s.world.db.user a (s.slice a) (.placeBid m, now) (t.slice a) := by
  rcases placeBid_cases s.world m now with ⟨e, hcheck, -, heq⟩ |
    ⟨row, newBid, db, hcheck, hcommit, -, heq⟩ | ⟨row, e, hcheck, hcommit, -, heq⟩
  · rw [serve, heq] at h
    cases h
    refine ⟨rfl, SliceStep.congr (.keeps ?_) ?_⟩
    · -- a bid that is accepted passes the check
      rintro ⟨rfl, row, stored, haccepts⟩
      have hpass := checkBid_ok.mpr ⟨haccepts.found, haccepts.isOpen, haccepts.above⟩
      cases hcheck.symm.trans hpass
    · simp only [Services.slice, channelEvents_append, AuctionSlice.mk.injEq, true_and]
      split <;> simp [channelEvents, rejectPublication]
  · rw [serve, heq] at h
    cases h
    obtain ⟨hfound, hopen, habove⟩ := checkBid_ok.mp hcheck
    refine ⟨Database.commitBid_user hcommit, ?_⟩
    by_cases ha : m.auctionId = a
    · obtain ⟨row', hrow, huser, hfits, hversion, hnew, -⟩ := Database.commitBid_eq_ok.mp hcommit
      cases hrow.symm.trans hfound
      obtain ⟨row', hrow', -, -, -, hauction, hbids⟩ := Database.commitBid_self hcommit ha
      subst ha
      cases hrow'.symm.trans hfound
      refine SliceStep.congr (.accepts rfl ⟨hfound, hopen, habove, hfits, huser, hversion⟩) ?_
      rw [hnew] at hauction hbids ⊢
      simp [Services.slice, channelEvents, newBidPublication, hauction, hbids, hopen]
    · obtain ⟨hauction, hbids⟩ := Database.commitBid_of_ne hcommit ha
      refine SliceStep.congr (.keeps fun hmoves => ha hmoves.1) ?_
      simp [Services.slice, channelEvents, newBidPublication, hauction, hbids, ha, Ne.symm ha]
  · rw [serve, heq] at h
    cases h
    refine ⟨rfl, .keeps ?_⟩
    -- nor does the database refuse it
    rintro ⟨rfl, row', stored, haccepts⟩
    obtain ⟨r, hr⟩ := commitBid_of_accepts now
      ⟨haccepts.found, haccepts.fits, haccepts.bidder, haccepts.version⟩
    cases hcommit.symm.trans hr

theorem endAuction_slice {auctionId : ℤ} (h : serve s (.endAuction auctionId pick, now) = some t) :
    t.world.db.user = s.world.db.user ∧
      SliceStep s.world.db.user a (s.slice a) (.endAuction auctionId pick, now) (t.slice a) := by
  obtain ⟨r, hr, rfl⟩ := Option.map_eq_some_iff.mp h
  cases endAuction_inv hr with
  | missing hrow =>
    refine ⟨rfl, SliceStep.congr (.keeps ?_) (by simp [Services.slice])⟩
    rintro ⟨rfl, row, hfound, -⟩
    cases hrow.symm.trans hfound
  | closed hrow hopen =>
    refine ⟨rfl, SliceStep.congr (.keeps ?_) (by simp [Services.slice])⟩
    rintro ⟨rfl, row, hfound, hopen'⟩
    cases hrow.symm.trans hfound
    cases hopen.symm.trans hopen'
  | noBids hrow hopen htop =>
    refine ⟨rfl, ?_⟩
    by_cases ha : auctionId = a
    · subst ha
      refine SliceStep.congr (.closesEmpty hrow hopen (Database.topBids_eq_nil.mp htop)) ?_
      simp [Services.slice, concludeAuction, channelEvents, auctionEndPublication]
    · refine SliceStep.congr (.keeps fun hmoves => ha hmoves.1) ?_
      simp [Services.slice, concludeAuction, channelEvents, auctionEndPublication, ha, Ne.symm ha]
  | won hrow hopen hpick huser =>
    refine ⟨rfl, ?_⟩
    by_cases ha : auctionId = a
    · subst ha
      have htop := Database.mem_topBids.mp (List.mem_of_getElem? hpick)
      refine SliceStep.congr (.closesWon hrow hopen htop huser) ?_
      simp [Services.slice, concludeAuction, channelEvents, auctionEndPublication]
    · refine SliceStep.congr (.keeps fun hmoves => ha hmoves.1) ?_
      simp [Services.slice, concludeAuction, channelEvents, auctionEndPublication, ha, Ne.symm ha]
  | threw hrow hopen hpick huser =>
    refine ⟨rfl, ?_⟩
    by_cases ha : auctionId = a
    · subst ha
      have htop := Database.mem_topBids.mp (List.mem_of_getElem? hpick)
      refine SliceStep.congr (.throws hrow hopen htop huser) ?_
      simp [Services.slice]
    · refine SliceStep.congr (.keeps fun hmoves => ha hmoves.1) ?_
      simp [Services.slice, Ne.symm ha]

/-- The outcomes of `getAuctionState`: the cached state, none for an auction that does not exist, what
    the row and its winner give, and the exception for a winner who is not a user. -/
theorem getAuctionState_cases (w : World) (auctionId : ℤ) :
    (∃ room, w.cache auctionId = some room ∧ getAuctionState w auctionId = some (w, room)) ∨
    (w.cache auctionId = none ∧
      ((w.db.auction auctionId = none ∧ getAuctionState w auctionId = some (w, missingRoom)) ∨
      ∃ row, w.db.auction auctionId = some row ∧
        ((winnerName w.db.user row = none ∧ getAuctionState w auctionId = none) ∨
        ∃ username, winnerName w.db.user row = some username ∧ getAuctionState w auctionId =
          some (w.setCache auctionId (rowRoom row username), rowRoom row username)))) := by
  unfold getAuctionState World.getCache Database.auctionFindUnique Database.userFindUnique
  cases hcache : w.cache auctionId with
  | some room => exact .inl ⟨room, rfl, rfl⟩
  | none =>
    refine .inr ⟨rfl, ?_⟩
    cases hrow : w.db.auction auctionId with
    | none => exact .inl ⟨rfl, rfl⟩
    | some row =>
      refine .inr ⟨row, rfl, ?_⟩
      cases hname : winnerName w.db.user row with
      | none => exact .inl ⟨rfl, by simp [hname]⟩
      | some username => exact .inr ⟨username, rfl, by simp [hname]⟩

theorem getAuctionState_slice {auctionId : ℤ} (h : serve s (.getAuctionState auctionId, now) = some t) :
    t.world.db.user = s.world.db.user ∧
      SliceStep s.world.db.user a (s.slice a) (.getAuctionState auctionId, now) (t.slice a) := by
  obtain ⟨room, -, heq⟩ | ⟨hcache, ⟨-, heq⟩ | ⟨row, hrow, ⟨-, heq⟩ | ⟨username, hname, heq⟩⟩⟩ :=
    getAuctionState_cases s.world auctionId
  · rw [serve, heq] at h
    cases h
    exact ⟨rfl, .keeps fun hmoves => hmoves⟩
  · rw [serve, heq] at h
    cases h
    exact ⟨rfl, .keeps fun hmoves => hmoves⟩
  · rw [serve, heq] at h
    cases h
    exact ⟨rfl, .keeps fun hmoves => hmoves⟩
  · rw [serve, heq] at h
    cases h
    refine ⟨rfl, ?_⟩
    by_cases ha : auctionId = a
    · subst ha
      refine SliceStep.congr (.fills hcache hrow hname) ?_
      simp [Services.slice]
    · refine SliceStep.congr (.keeps fun hmoves => hmoves) ?_
      simp [Services.slice, Ne.symm ha]

/-- What a request does to an auction, and that it leaves the users alone. -/
theorem serve_slice (h : serve s act = some t) : t.world.db.user = s.world.db.user ∧
    SliceStep s.world.db.user a (s.slice a) act (t.slice a) := by
  obtain ⟨request, now⟩ := act
  cases request with
  | placeBid m => exact placeBid_slice h
  | endAuction auctionId pick => exact endAuction_slice h
  | getAuctionState auctionId => exact getAuctionState_slice h
  | expire auctionId =>
    cases h
    refine ⟨rfl, ?_⟩
    by_cases ha : auctionId = a
    · subst ha
      refine SliceStep.congr .expires ?_
      simp [Services.slice, World.expireCache]
    · refine SliceStep.congr (.keeps fun hmoves => hmoves) ?_
      simp [Services.slice, World.expireCache, Ne.symm ha]

end CarAuction
