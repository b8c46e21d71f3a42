import CarAuction.Lib.Machine
import CarAuction.Lib.Pool
import CarAuction.BidConsumer
import CarAuction.AuctionService

/- Concurrent calls. The consumers and the gateway instances run any number of
   `placeBid`, `endAuction` and `getAuctionState` calls over the same stores. A
   state is the pool of all calls started so far over those stores, with the
   publications in the order they were made; an action starts a call, runs the
   next statement of one, lets a cache entry expire, or makes a call fail at the
   `await` it is in. A schedule is a list of actions, so every interleaving of the
   statements is one. The disciplines of the callers (one consumer for a
   partition, atomic transactions) are conditions on the steps of a schedule.

   `CallStep` lists what one statement does, one constructor a branch of the
   source; `callStep_inv` says the list is complete. -/
namespace CarAuction

inductive Call where
  | placeBid (m : BidMessage) (pc : PlaceBidPc)
  | endAuction (auctionId : ℤ) (pc : EndAuctionPc)
  | getAuctionState (auctionId : ℤ) (pc : GetStatePc)
  deriving DecidableEq

namespace Call

def auctionId : Call → ℤ
  | placeBid m _ => m.auctionId
  | endAuction auctionId _ => auctionId
  | getAuctionState auctionId _ => auctionId

def begins : Call → Bool
  | placeBid _ .begin => true
  | endAuction _ .begin => true
  | getAuctionState _ .begin => true
  | _ => false

/-- The call has returned or thrown. -/
def finished : Call → Bool
  | placeBid _ .returned => true
  | placeBid _ .threw => true
  | endAuction _ (.returned _) => true
  | endAuction _ .threw => true
  | getAuctionState _ (.returned _) => true
  | getAuctionState _ .threw => true
  | _ => false

/-- The call after an exception at the `await` it is in. -/
def throw (c : Call) : Option Call :=
  if c.finished then none else some <| match c with
    | placeBid m _ => placeBid m .threw
    | endAuction auctionId _ => endAuction auctionId .threw
    | getAuctionState auctionId _ => getAuctionState auctionId .threw

end Call

/-- What a statement reads besides the stores: the clock, and which of several equal top bids the
    database returns. -/
structure Input where
  now : Time
  pick : ℕ
  deriving DecidableEq

/-- The next statement of a call. -/
def callStep (i : Input) (w : World) : Call → Option (World × Call × List Publication)
  | .placeBid m pc =>
    (placeBidStep m i.now w pc).map fun r => (r.1, .placeBid m r.2.1, r.2.2)
  | .endAuction auctionId pc =>
    (endAuctionStep auctionId i.now i.pick w pc).map fun r => (r.1, .endAuction auctionId r.2.1, r.2.2)
  | .getAuctionState auctionId pc =>
    (getAuctionStateStep auctionId w pc).map fun r => (r.1, .getAuctionState auctionId r.2, [])

/-- The environment lets the cache entry of an auction expire. -/
def system : Pool.Program World Call Publication Input ℤ where
  begins := Call.begins
  step := callStep
  env := fun auctionId w => w.expireCache auctionId
  kill := Call.throw

abbrev State := Pool.State World Call Publication
abbrev Action := Pool.Action Call Input ℤ

/-- One step of the pool of calls. -/
def poolStep : State → Action → Option State := Pool.step system

/-! What one statement does. -/

inductive CallStep (i : Input) : World → Call → World → Call → List Publication → Prop where
  | bidPasses {w m row} : checkBid m (w.db.auction m.auctionId) = .ok row →
      CallStep i w (.placeBid m .begin) w (.placeBid m (.checked row)) []
  | bidRefused {w m e} : checkBid m (w.db.auction m.auctionId) = .error e → m.socketId ≠ "" →
      CallStep i w (.placeBid m .begin) w (.placeBid m (.rejected e)) []
  | bidDropped {w m e} : checkBid m (w.db.auction m.auctionId) = .error e → m.socketId = "" →
      CallStep i w (.placeBid m .begin) w (.placeBid m .returned) []
  | bidCommits {w m row db newBid} : w.db.commitBid m i.now = .ok (db, newBid) →
      CallStep i w (.placeBid m (.checked row)) { w with db := db }
        (.placeBid m (.committed newBid row.isOpen)) []
  | bidThrows {w m row e} : w.db.commitBid m i.now = .error e →
      CallStep i w (.placeBid m (.checked row)) w (.placeBid m .threw) []
  | bidPublishes {w m newBid isOpen} :
      CallStep i w (.placeBid m (.committed newBid isOpen)) w (.placeBid m (.announced isOpen))
        [newBidPublication m newBid]
  | bidCaches {w m isOpen} :
      CallStep i w (.placeBid m (.announced isOpen)) (w.setCache m.auctionId (newBidRoom m isOpen))
        (.placeBid m .returned) []
  | bidRejects {w m e} :
      CallStep i w (.placeBid m (.rejected e)) w (.placeBid m .returned) [rejectPublication m e]
  | endUnknown {w auctionId} : w.db.auction auctionId = none →
      CallStep i w (.endAuction auctionId .begin) w
        (.endAuction auctionId (.returned ⟨false, .notFound auctionId, none⟩)) []
  | endRefused {w auctionId row} : w.db.auction auctionId = some row → row.isOpen = false →
      CallStep i w (.endAuction auctionId .begin) w
        (.endAuction auctionId (.returned ⟨false, .alreadyClosed auctionId row.endTime, none⟩)) []
  | endPasses {w auctionId row} : w.db.auction auctionId = some row → row.isOpen = true →
      CallStep i w (.endAuction auctionId .begin) w (.endAuction auctionId .foundOpen) []
  | endCloses {w auctionId row} : w.db.auction auctionId = some row →
      CallStep i w (.endAuction auctionId .foundOpen)
        { w with db := w.db.setAuction auctionId (row.closedAt i.now) }
        (.endAuction auctionId .closed) []
  | endVanished {w auctionId} : w.db.auction auctionId = none →
      CallStep i w (.endAuction auctionId .foundOpen) w (.endAuction auctionId .threw) []
  | endNoBids {w auctionId} : w.db.bidsOf auctionId = [] →
      CallStep i w (.endAuction auctionId .closed) w
        (.endAuction auctionId (.summarised noBidsSummary (.noBids auctionId))) []
  | endWinner {w auctionId winningBid user} :
      Ledger.Top Bid.amount (w.db.bidsOf auctionId) winningBid →
      w.db.user winningBid.userId = some user →
      CallStep i w (.endAuction auctionId .closed) w (.endAuction auctionId
        (.summarised (winnerSummary winningBid user)
          (.winner auctionId user.username winningBid.amount))) []
  | endNoUser {w auctionId winningBid} :
      Ledger.Top Bid.amount (w.db.bidsOf auctionId) winningBid →
      w.db.user winningBid.userId = none →
      CallStep i w (.endAuction auctionId .closed) w (.endAuction auctionId .threw) []
  | endPublishes {w auctionId winningBid message} :
      CallStep i w (.endAuction auctionId (.summarised winningBid message)) w
        (.endAuction auctionId (.announced winningBid message))
        [auctionEndPublication auctionId winningBid message]
  | endCaches {w auctionId winningBid message} :
      CallStep i w (.endAuction auctionId (.announced winningBid message))
        (w.setCache auctionId (closedRoom winningBid))
        (.endAuction auctionId (.returned ⟨true, message, some winningBid⟩)) []
  | stateHit {w auctionId room} : w.cache auctionId = some room →
      CallStep i w (.getAuctionState auctionId .begin) w (.getAuctionState auctionId (.returned room)) []
  | stateMiss {w auctionId} : w.cache auctionId = none →
      CallStep i w (.getAuctionState auctionId .begin) w (.getAuctionState auctionId .missed) []
  | stateUnknown {w auctionId} : w.db.auction auctionId = none →
      CallStep i w (.getAuctionState auctionId .missed) w
        (.getAuctionState auctionId (.returned missingRoom)) []
  | stateNoWinner {w auctionId row} : w.db.auction auctionId = some row →
      row.winnerId = none ∨ row.winnerId = some 0 →
      CallStep i w (.getAuctionState auctionId .missed) w
        (.getAuctionState auctionId (.resolved (rowRoom row .undefined))) []
  | stateRow {w auctionId row winnerId} : w.db.auction auctionId = some row →
      row.winnerId = some winnerId → winnerId ≠ 0 →
      CallStep i w (.getAuctionState auctionId .missed) w
        (.getAuctionState auctionId (.foundRow row winnerId)) []
  | stateUser {w auctionId row winnerId user} : w.db.user winnerId = some user →
      CallStep i w (.getAuctionState auctionId (.foundRow row winnerId)) w
        (.getAuctionState auctionId (.resolved (rowRoom row (.val user.username)))) []
  | stateThrows {w auctionId row winnerId} : w.db.user winnerId = none →
      CallStep i w (.getAuctionState auctionId (.foundRow row winnerId)) w
        (.getAuctionState auctionId .threw) []
  | stateCaches {w auctionId room} :
      CallStep i w (.getAuctionState auctionId (.resolved room)) (w.setCache auctionId room)
        (.getAuctionState auctionId (.returned room)) []

theorem placeBidStep_inv {i : Input} {w w' : World} {m : BidMessage} {pc pc' : PlaceBidPc}
    {pubs : List Publication} (h : placeBidStep m i.now w pc = some (w', pc', pubs)) :
    CallStep i w (.placeBid m pc) w' (.placeBid m pc') pubs := by
  cases pc with
  | begin =>
    simp only [placeBidStep, Database.auctionFindUnique] at h
    split at h
    · next row hc => cases h; exact .bidPasses hc
    · next e hc =>
      cases h
      split
      · next hs => exact .bidDropped hc hs
      · next hs => exact .bidRefused hc hs
  | checked row =>
    simp only [placeBidStep] at h
    split at h
    · next db newBid hc => cases h; exact .bidCommits hc
    · next e hc => cases h; exact .bidThrows hc
  | committed newBid isOpen => cases h; exact .bidPublishes
  | announced isOpen => cases h; exact .bidCaches
  | rejected e => cases h; exact .bidRejects
  | returned => cases h
  | threw => cases h

theorem endAuctionStep_inv {i : Input} {w w' : World} {auctionId : ℤ} {pc pc' : EndAuctionPc}
    {pubs : List Publication}
    (h : endAuctionStep auctionId i.now i.pick w pc = some (w', pc', pubs)) :
    CallStep i w (.endAuction auctionId pc) w' (.endAuction auctionId pc') pubs := by
  cases pc with
  | begin =>
    simp only [endAuctionStep, Database.auctionFindUnique] at h
    split at h
    · next hrow => cases h; exact .endUnknown hrow
    · next row hrow =>
      split at h
      · next ho => cases h; exact .endRefused hrow (by simpa using ho)
      · next ho => cases h; exact .endPasses hrow (by simpa using ho)
  | foundOpen =>
    simp only [endAuctionStep, Database.auctionUpdateClosed] at h
    cases hrow : w.db.auction auctionId with
    | none => rw [hrow] at h; cases h; exact .endVanished hrow
    | some row => rw [hrow] at h; cases h; exact .endCloses hrow
  | closed =>
    simp only [endAuctionStep, Database.userFindUnique] at h
    split at h
    · next ht => cases h; exact .endNoBids (Database.topBids_eq_nil.mp ht)
    · next b bs ht =>
      split at h
      · cases h
      · next winningBid hp =>
        have hm : winningBid ∈ w.db.topBids auctionId := by
          rw [ht]; exact List.mem_of_getElem? hp
        split at h
        · next hu => cases h; exact .endNoUser (Database.mem_topBids.mp hm) hu
        · next user hu => cases h; exact .endWinner (Database.mem_topBids.mp hm) hu
  | summarised winningBid message => cases h; exact .endPublishes
  | announced winningBid message => cases h; exact .endCaches
  | returned summary => cases h
  | threw => cases h

theorem getAuctionStateStep_inv {i : Input} {w w' : World} {auctionId : ℤ} {pc pc' : GetStatePc}
    (h : getAuctionStateStep auctionId w pc = some (w', pc')) :
    CallStep i w (.getAuctionState auctionId pc) w' (.getAuctionState auctionId pc') [] := by
  cases pc with
  | begin =>
    simp only [getAuctionStateStep, World.getCache] at h
    split at h
    · next room hc => cases h; exact .stateHit hc
    · next hc => cases h; exact .stateMiss hc
  | missed =>
    simp only [getAuctionStateStep, Database.auctionFindUnique] at h
    split at h
    · next hrow => cases h; exact .stateUnknown hrow
    · next row hrow =>
      split at h
      · next hw => cases h; exact .stateNoWinner hrow (.inl hw)
      · next winnerId hw =>
        split at h
        · next h0 => cases h; exact .stateNoWinner hrow (.inr (h0 ▸ hw))
        · next h0 => cases h; exact .stateRow hrow hw h0
  | foundRow row winnerId =>
    simp only [getAuctionStateStep, Database.userFindUnique] at h
    split at h
    · next hu => cases h; exact .stateThrows hu
    · next user hu => cases h; exact .stateUser hu
  | resolved room => cases h; exact .stateCaches
  | returned room => cases h
  | threw => cases h

theorem callStep_inv {i : Input} {w w' : World} {c c' : Call} {pubs : List Publication}
    (h : callStep i w c = some (w', c', pubs)) : CallStep i w c w' c' pubs := by
  cases c with
  | placeBid m pc =>
    obtain ⟨⟨w₁, pc₁, pubs₁⟩, hs, heq⟩ := Option.map_eq_some_iff.mp h
    cases heq
    exact placeBidStep_inv hs
  | endAuction auctionId pc =>
    obtain ⟨⟨w₁, pc₁, pubs₁⟩, hs, heq⟩ := Option.map_eq_some_iff.mp h
    cases heq
    exact endAuctionStep_inv hs
  | getAuctionState auctionId pc =>
    obtain ⟨⟨w₁, pc₁⟩, hs, heq⟩ := Option.map_eq_some_iff.mp h
    cases heq
    exact getAuctionStateStep_inv hs

/-! A statement touches nothing of an auction other than its own. -/

namespace CallStep

variable {i : Input} {w w' : World} {c c' : Call} {pubs : List Publication} {a : ℤ}

theorem auctionId_eq (h : CallStep i w c w' c' pubs) : c'.auctionId = c.auctionId := by
  cases h <;> rfl

theorem user_eq (h : CallStep i w c w' c' pubs) : w'.db.user = w.db.user := by
  cases h with
  | bidCommits hc => exact Database.commitBid_user hc
  | _ => rfl

theorem frame_auction (h : CallStep i w c w' c' pubs) (ha : c.auctionId ≠ a) :
    w'.db.auction a = w.db.auction a := by
  cases h with
  | bidCommits hc => exact (Database.commitBid_of_ne hc ha).1
  | endCloses _ => exact Database.setAuction_auction_of_ne (Ne.symm ha)
  | _ => rfl

theorem frame_bidsOf (h : CallStep i w c w' c' pubs) (ha : c.auctionId ≠ a) :
    w'.db.bidsOf a = w.db.bidsOf a := by
  cases h with
  | bidCommits hc => exact (Database.commitBid_of_ne hc ha).2
  | _ => rfl

theorem frame_cache (h : CallStep i w c w' c' pubs) (ha : c.auctionId ≠ a) :
    w'.cache a = w.cache a := by
  cases h with
  | bidCaches => exact World.setCache_cache_of_ne (Ne.symm ha)
  | endCaches => exact World.setCache_cache_of_ne (Ne.symm ha)
  | stateCaches => exact World.setCache_cache_of_ne (Ne.symm ha)
  | _ => rfl

theorem frame_auctionEnds (h : CallStep i w c w' c' pubs) (ha : c.auctionId ≠ a) :
    auctionEndsOf a pubs = [] := by
  cases h with
  | endPublishes => exact List.filterMap_cons_none (if_neg ha)
  | _ => rfl

end CallStep

end CarAuction
