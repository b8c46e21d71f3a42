import CarAuction.AuctionRow

/- The cached state of an auction against its row. `placeBid`, `endAuction` and
   `getAuctionState` each write the cache some time after they read or wrote the
   rows, and nothing orders the writes, so the last one need not be the one that
   describes the row: `stale_cache_at_rest` leaves a closed auction cached as open.
   `cache_coherent_at_rest` says that it takes a `StaleWrite`: an outdated state
   written while no other call has the current one still to write. The invariant is
   that the entry is absent, or current, or about to be replaced by a current one.

   The transaction of `placeBid` and the check, close and selection of `endAuction`
   are taken as atomic here: `Atomic` keeps other calls on the auction from running
   while one is between two statements of those. -/
namespace CarAuction

open Sql Pool Machine

/-- The cached state says what the row says, `null` and absent identified. -/
def RoomAgrees (user : ℤ → Option User) (row : Auction) (room : AuctionRoom) : Prop :=
  room.currentHighestBid = .val row.currentHighestBid.toRat ∧
    room.winnerId.toOption = row.winnerId ∧
    room.winnerUsername.toOption = (row.winnerId.bind user).map User.username ∧
    room.isOpen = .val row.isOpen

namespace Call

/-- Inside the statements taken as atomic. -/
def inTransaction (a : ℤ) : Call → Bool
  | placeBid m (.checked _) => m.auctionId = a
  | endAuction auctionId .foundOpen => auctionId = a
  | endAuction auctionId .closed => auctionId = a
  | _ => false

/-- The bidder is a user under the name the bid event carries. -/
def KnownOn (a : ℤ) (user : ℤ → Option User) (c : Call) : Prop :=
  ∀ m ∈ c.message, m.auctionId = a → user m.bidderId = some ⟨m.bidderUsername⟩

/-- The state that the next statement writes to the cache. -/
def writes : Call → Option AuctionRoom
  | placeBid m (.announced isOpen) => some (newBidRoom m isOpen)
  | endAuction _ (.announced winningBid _) => some (closedRoom winningBid)
  | getAuctionState _ (.resolved room) => some room
  | _ => none

/-- The call on the auction has the current state still to write. -/
def Holds (a : ℤ) (user : ℤ → Option User) (row : Auction) : Call → Prop
  | placeBid m (.committed _ isOpen) => m.auctionId = a ∧ RoomAgrees user row (newBidRoom m isOpen)
  | placeBid m (.announced isOpen) => m.auctionId = a ∧ RoomAgrees user row (newBidRoom m isOpen)
  | endAuction auctionId .closed => auctionId = a
  | endAuction auctionId (.summarised winningBid _) =>
    auctionId = a ∧ RoomAgrees user row (closedRoom winningBid)
  | endAuction auctionId (.announced winningBid _) =>
    auctionId = a ∧ RoomAgrees user row (closedRoom winningBid)
  | getAuctionState auctionId (.foundRow seen winnerId) =>
    auctionId = a ∧ seen = row ∧ row.winnerId = some winnerId
  | getAuctionState auctionId (.resolved room) => auctionId = a ∧ RoomAgrees user row room
  | _ => False

/-- What the call has seen of the row in the transaction it is in. -/
def InStep (a : ℤ) (row : Auction) : Call → Prop
  | placeBid m (.checked seen) => m.auctionId = a →
    seen = row ∧ row.currentHighestBid.toRat < m.amount
  | endAuction auctionId .closed => auctionId = a → row.isOpen = false
  | _ => True

end Call

/-- No call on the auction moves while another is inside a transaction. -/
def Atomic (a : ℤ) (s : State) (act : Action) (_ : State) : Prop :=
  ∀ c ∈ moving s act, c.auctionId = a → ∀ q ∈ others s act, q.inTransaction a = false

def KnownBidders (a : ℤ) : State → Action → State → Prop :=
  OnStart fun s c => c.KnownOn a s.world.db.user

/-- The action writes an outdated state, and no other call has the current one to write. -/
def StaleWrite (a : ℤ) (s : State) (act : Action) : Prop :=
  ∃ c ∈ moving s act, c.auctionId = a ∧ ∃ room ∈ c.writes, ∃ row ∈ s.world.db.auction a,
    ¬ RoomAgrees s.world.db.user row room ∧ ∀ q ∈ others s act, ¬ q.Holds a s.world.db.user row

/-- When no call on the auction is in progress the cache is empty or agrees with the row. -/
def CoherentAtRest (a : ℤ) (s : State) : Prop :=
  (∀ c ∈ s.procs, c.auctionId = a → c.finished = true) →
    ∀ room ∈ s.world.cache a, ∃ row ∈ s.world.db.auction a, RoomAgrees s.world.db.user row room

/-- The row names the highest bid, whose bidder is a user; without bids it is as created. -/
structure RowSound (user : ℤ → Option User) (row : Auction) (bids : List Bid) : Prop where
  top : TopMatches row bids
  fresh : bids = [] → row.currentHighestBid = 0 ∧ row.winnerId = none
  winner : ∀ winnerId, row.winnerId = some winnerId → winnerId ≠ 0 ∧ (user winnerId).isSome

/-- The entry is absent, or current, or a call has the current state still to write. -/
def Covered (a : ℤ) (row : Auction) (user : ℤ → Option User) (cache : Option AuctionRoom)
    (procs : List Call) : Prop :=
  cache = none ∨ (∃ room, cache = some room ∧ RoomAgrees user row room) ∨
    ∃ c ∈ procs, c.Holds a user row

structure CacheInv (a : ℤ) (s : State) : Prop where
  noUser : s.world.db.user 0 = none
  exact : ∀ c ∈ s.procs, c.ExactOn a
  known : ∀ c ∈ s.procs, c.KnownOn a s.world.db.user
  covered : ∃ row, s.world.db.auction a = some row ∧
    RowSound s.world.db.user row (s.world.db.bidsOf a) ∧ (∀ c ∈ s.procs, c.InStep a row) ∧
    Covered a row s.world.db.user (s.world.cache a) s.procs

variable {a : ℤ} {row row' : Auction} {bids : List Bid} {user : ℤ → Option User} {c c' : Call}
  {procs : List Call}

namespace Call

theorem Holds.auctionId (h : c.Holds a user row) : c.auctionId = a := by
  unfold Holds at h
  split at h
  · exact h.1
  · exact h.1
  · exact h
  · exact h.1
  · exact h.1
  · exact h.1
  · exact h.1
  · exact h.elim

theorem Holds.unfinished (h : c.Holds a user row) : c.finished = false := by
  unfold Holds at h
  split at h <;> first | rfl | exact h.elim

theorem inStep_of_not_inTransaction (h : c.inTransaction a = false) : c.InStep a row := by
  unfold InStep
  split
  · exact fun ha => by simp [inTransaction, ha] at h
  · exact fun ha => by simp [inTransaction, ha] at h
  · trivial

theorem inTransaction_of_ne (h : c.auctionId ≠ a) : c.inTransaction a = false := by
  unfold inTransaction
  split
  · exact decide_eq_false h
  · exact decide_eq_false h
  · exact decide_eq_false h
  · rfl

theorem inTransaction_of_begins (h : c.begins = true) : c.inTransaction a = false := by
  unfold inTransaction
  split
  · cases h
  · cases h
  · cases h
  · rfl

end Call

/-! What a statement does to the cache, and to a call that has the current state to write. -/

namespace CallStep

variable {i : Input} {w w' : World} {pubs : List Publication}

theorem cache_cases (h : CallStep i w c w' c' pubs) :
    (c.writes = none ∧ w'.cache = w.cache) ∨
      ∃ room, c.writes = some room ∧ w' = w.setCache c.auctionId room := by
  cases h with
  | bidCaches => exact .inr ⟨_, rfl, rfl⟩
  | endCaches => exact .inr ⟨_, rfl, rfl⟩
  | stateCaches => exact .inr ⟨_, rfl, rfl⟩
  | _ => exact .inl ⟨rfl, rfl⟩

theorem inStep (h : CallStep i w c w' c' pubs) (hrow' : w'.db.auction a = some row') :
    c'.InStep a row' := by
  cases h with
  | @bidPasses m seen hcheck =>
    intro ha
    obtain ⟨hseen, -, hhigh⟩ := checkBid_ok.mp hcheck
    cases hrow'.symm.trans (ha ▸ hseen)
    exact ⟨rfl, hhigh⟩
  | @endCloses auctionId seen hseen =>
    intro ha
    subst ha
    rw [Database.setAuction_auction_self] at hrow'
    cases hrow'
    rfl
  | _ => trivial

/-- A call with the current state to write keeps it until it writes it. -/
theorem holds (h : CallStep i w c w' c' pubs) (hrow : w.db.auction a = some row)
    (hsound : RowSound w.db.user row (w.db.bidsOf a)) (hin : c.InStep a row)
    (hholds : c.Holds a w.db.user row) (hnone : c.writes = none) :
    c'.Holds a w.db.user row := by
  cases h with
  | bidPublishes => exact hholds
  | endPublishes => exact hholds
  | endNoBids hnil =>
    -- a row without bids is as created, which is what the empty summary says
    have ha := hholds.auctionId
    subst ha
    obtain ⟨hamount, hwinner⟩ := hsound.fresh hnil
    refine ⟨rfl, ?_, ?_, ?_, ?_⟩
    · rw [hamount, Numeric.toRat_zero]
      rfl
    · rw [hwinner]
      rfl
    · rw [hwinner]
      rfl
    · rw [hin rfl]
      rfl
  | endWinner hbest huser =>
    have ha := hholds.auctionId
    subst ha
    obtain ⟨hamount, hwinner⟩ := hsound.top _ hbest.1 hbest
    refine ⟨rfl, ?_, hwinner.symm, ?_, ?_⟩
    · rw [hamount]
      rfl
    · rw [hwinner, Option.bind_some, huser]
      rfl
    · rw [hin rfl]
      rfl
  | endNoUser hbest huser =>
    have ha := hholds.auctionId
    subst ha
    obtain ⟨-, hwinner⟩ := hsound.top _ hbest.1 hbest
    have hsome := (hsound.winner _ hwinner).2
    rw [huser] at hsome
    cases hsome
  | stateUser huser =>
    obtain ⟨ha, rfl, hwinner⟩ := hholds
    refine ⟨ha, rfl, ?_, ?_, rfl⟩
    · exact Field.toOption_ofOption _
    · rw [hwinner, Option.bind_some, huser]
      rfl
  | stateThrows huser =>
    -- the winner a sound row names is a user
    obtain ⟨-, -, hwinner⟩ := hholds
    have hsome := (hsound.winner _ hwinner).2
    rw [huser] at hsome
    cases hsome
  | bidCaches => cases hnone
  | endCaches => cases hnone
  | stateCaches => cases hnone
  | _ => exact hholds.elim

end CallStep

theorem knownOn_step {s t : State} {act : Action} (h : Pool.Step system s act t)
    (hs : ∀ c ∈ s.procs, c.KnownOn a s.world.db.user) (hstart : KnownBidders a s act t) :
    ∀ c ∈ t.procs, c.KnownOn a t.world.db.user := by
  rw [user_step h]
  refine message_step h hs ?_
  rintro c rfl
  exact hstart

/-- A commit with nothing between the check and it: the call then has the current state to write. -/
theorem rowSound_commit {db db' : Database} {m : BidMessage} {newBid : Bid} {now : Time}
    (hzero : db.user 0 = none) (hsound : RowSound db.user row (db.bidsOf a))
    (ha : m.auctionId = a) (hrow : db.auction a = some row)
    (hcommit : db.commitBid m now = .ok (db', newBid))
    (hexact : Numeric.HasScale 2 m.amount) (hknown : db.user m.bidderId = some ⟨m.bidderUsername⟩)
    (hhigh : row.currentHighestBid.toRat < m.amount) :
    ∃ row', db'.auction a = some row' ∧ RowSound db.user row' (db'.bidsOf a) ∧
      RoomAgrees db.user row' (newBidRoom m row.isOpen) := by
  obtain ⟨row₁, hrow₁, hamount, huser, hb, hrow', hbids⟩ := Database.commitBid_self hcommit ha
  cases hrow.symm.trans hrow₁
  have hsame : newBid.amount.toRat = m.amount := (Numeric.toRat_ofRat_eq hamount).mpr hexact
  have hbidder : newBid.userId = m.bidderId := by rw [hb]
  have hraise : row.currentHighestBid < newBid.amount := by
    rw [← Numeric.toRat_lt, hsame]
    exact hhigh
  refine ⟨_, hrow', ⟨?_, ?_, ?_⟩, ?_⟩
  · rw [hbids]
    refine ((topMatches_commit hsound.top).mpr (not_or.mpr ⟨hraise.not_gt, ?_⟩)).1
    exact fun htie => hraise.ne' htie.2.1
  · rw [hbids]
    exact fun hnil => by simp at hnil
  · intro winnerId hwinner
    cases hwinner
    refine ⟨fun h0 => ?_, huser⟩
    rw [h0, hzero] at huser
    cases huser
  · refine ⟨?_, ?_, ?_, rfl⟩
    · simp [newBidRoom, Auction.withBid, hsame]
    · simp [newBidRoom, Auction.withBid, hbidder]
    · simp [newBidRoom, Auction.withBid, hbidder, hknown]

/-- Another auction's calls hold nothing of this one. -/
theorem covered_frame {l r : List Call} {cache : Option AuctionRoom}
    (h : Covered a row user cache (l ++ c :: r)) (hc : ¬ c.Holds a user row) :
    Covered a row user cache (l ++ c' :: r) := by
  rcases h with hnone | hagrees | ⟨q, hq, hholds⟩
  · exact .inl hnone
  · exact .inr (.inl hagrees)
  · rcases mem_split.mp hq with rfl | hq
    · exact absurd hholds hc
    · exact .inr (.inr ⟨q, mem_split.mpr (.inr hq), hholds⟩)

/-- A statement that leaves the row alone. -/
theorem covered_step {i : Input} {w w' : World} {pubs log : List Publication} {l r : List Call}
    (hcall : CallStep i w c w' c' pubs) (ha : c.auctionId = a)
    (hrow : w.db.auction a = some row) (hsound : RowSound w.db.user row (w.db.bidsOf a))
    (hin : c.InStep a row)
    (hfresh : ¬ StaleWrite a ⟨w, l ++ c :: r, log⟩ (.run l.length i))
    (h : Covered a row w.db.user (w.cache a) (l ++ c :: r)) :
    Covered a row w.db.user (w'.cache a) (l ++ c' :: r) := by
  rcases hcall.cache_cases with ⟨hnone, hcache⟩ | ⟨room, hroom, rfl⟩
  · rw [hcache]
    by_cases hholds : c.Holds a w.db.user row
    · exact .inr (.inr ⟨c', mem_split.mpr (.inl rfl),
        hcall.holds hrow hsound hin hholds hnone⟩)
    · exact covered_frame h hholds
  · rw [ha, World.setCache_cache_self]
    by_cases hagrees : RoomAgrees w.db.user row room
    · exact .inr (.inl ⟨room, rfl, hagrees⟩)
    · -- an outdated state is written only when another call will replace it
      by_contra hnot
      refine hfresh ⟨c, moving_run, ha, room, hroom, row, hrow, hagrees, fun q hq hholds => ?_⟩
      rw [others_run] at hq
      exact hnot (.inr (.inr ⟨q, mem_split.mpr (.inr hq), hholds⟩))

/-- A statement of a call on the auction, with no other inside a transaction. -/
theorem covered_own {i : Input} {w w' : World} {pubs log : List Publication} {l r : List Call}
    (h : CacheInv a ⟨w, l ++ c :: r, log⟩) (hcall : CallStep i w c w' c' pubs)
    (ha : c.auctionId = a) (hothers : ∀ q ∈ l ++ r, q.inTransaction a = false)
    (hfresh : ¬ StaleWrite a ⟨w, l ++ c :: r, log⟩ (.run l.length i)) :
    ∃ row, w'.db.auction a = some row ∧ RowSound w.db.user row (w'.db.bidsOf a) ∧
      (∀ q ∈ l ++ c' :: r, q.InStep a row) ∧
      Covered a row w.db.user (w'.cache a) (l ++ c' :: r) := by
  obtain ⟨row, hrow, hsound, hin, hcovered⟩ := h.covered
  have hmem : c ∈ l ++ c :: r := mem_split.mpr (.inl rfl)
  have hinStep : ∀ row', w'.db.auction a = some row' → ∀ q ∈ l ++ c' :: r, q.InStep a row' := by
    intro row' hrow' q hq
    rcases mem_split.mp hq with rfl | hq
    · exact hcall.inStep hrow'
    · exact Call.inStep_of_not_inTransaction (hothers q hq)
  rcases hcall.rows_cases a with
    ⟨hrow', hbids, -⟩ | ⟨m, seen, newBid, hid, rfl, rfl, rfl, hcommit⟩ |
    ⟨row₁, rfl, rfl, rfl, hrow₁, hrow', hbids⟩
  · refine ⟨row, hrow'.trans hrow, ?_, hinStep row (hrow'.trans hrow), ?_⟩
    · rwa [hbids]
    · exact covered_step hcall ha hrow hsound (hin c hmem) hfresh hcovered
  · -- the commit makes its own call the one with the current state to write
    obtain ⟨rfl, hhigh⟩ := hin _ hmem hid
    obtain ⟨row', hrow', hsound', hagrees⟩ := rowSound_commit h.noUser hsound hid hrow hcommit
      (h.exact _ hmem m rfl hid) (h.known _ hmem m rfl hid) hhigh
    exact ⟨row', hrow', hsound', hinStep row' hrow',
      .inr (.inr ⟨_, mem_split.mpr (.inl rfl), hid, hagrees⟩)⟩
  · -- so does the close
    cases hrow.symm.trans hrow₁
    refine ⟨_, hrow', ?_, hinStep _ hrow', .inr (.inr ⟨_, mem_split.mpr (.inl rfl), rfl⟩)⟩
    rw [hbids]
    exact ⟨hsound.top.closedAt, hsound.fresh, hsound.winner⟩

theorem cacheInv_step {s t : State} {act : Action} (h : CacheInv a s)
    (hexact : ExactAmounts a s act t) (hknown : KnownBidders a s act t)
    (hatomic : Atomic a s act t) (hkill : NoKill s act t) (hfresh : ¬ StaleWrite a s act)
    (hstep : Pool.Step system s act t) : CacheInv a t := by
  have hcents := exactOn_step hstep h.exact hexact
  have hnames := knownOn_step hstep h.known hknown
  have huser := user_step hstep
  have hzero : t.world.db.user 0 = none := huser ▸ h.noUser
  obtain ⟨row, hrow, hsound, hin, hcovered⟩ := h.covered
  cases hstep with
  | @start w procs log c hbegins =>
    refine ⟨hzero, hcents, hnames, row, hrow, hsound, fun q hq => ?_, ?_⟩
    · rcases List.mem_append.mp hq with hq | hq
      · exact hin q hq
      · rw [List.mem_singleton.mp hq]
        exact Call.inStep_of_not_inTransaction (Call.inTransaction_of_begins hbegins)
    · rcases hcovered with hnone | hagrees | ⟨q, hq, hholds⟩
      · exact .inl hnone
      · exact .inr (.inl hagrees)
      · exact .inr (.inr ⟨q, List.mem_append_left _ hq, hholds⟩)
  | @env w procs log k =>
    refine ⟨hzero, hcents, hnames, row, hrow, hsound, hin, ?_⟩
    by_cases hk : a = k
    · rw [hk]
      exact .inl World.expireCache_cache_self
    · show Covered a row w.db.user ((w.expireCache k).cache a) procs
      rwa [World.expireCache_cache_of_ne hk]
  | kill hk => exact hkill.elim
  | @run w w' l r log c c' pubs i hc =>
    have hcall := callStep_inv hc
    by_cases ha : c.auctionId = a
    · have hothers : ∀ q ∈ l ++ r, q.inTransaction a = false := by
        intro q hq
        exact hatomic c moving_run ha q (by rwa [others_run])
      obtain ⟨row', hrow', hsound', hin', hcovered'⟩ := covered_own h hcall ha hothers hfresh
      rw [← hcall.user_eq] at hsound' hcovered'
      exact ⟨hzero, hcents, hnames, row', hrow', hsound', hin', hcovered'⟩
    · have hid' : c'.auctionId ≠ a := by rw [hcall.auctionId_eq]; exact ha
      refine ⟨hzero, hcents, hnames, row, ?_, ?_, ?_, ?_⟩
      · exact (hcall.frame_auction ha).trans hrow
      · show RowSound w'.db.user row (w'.db.bidsOf a)
        rw [hcall.user_eq, hcall.frame_bidsOf ha]
        exact hsound
      · exact forall_replace hin (fun _ => Call.inStep_of_not_inTransaction
          (Call.inTransaction_of_ne hid'))
      · show Covered a row w'.db.user (w'.cache a) (l ++ c' :: r)
        rw [hcall.user_eq, hcall.frame_cache ha]
        exact covered_frame hcovered (fun hholds => ha hholds.auctionId)

theorem CacheInv.coherentAtRest {s : State} (h : CacheInv a s) : CoherentAtRest a s := by
  intro hidle room hroom
  obtain ⟨row, hrow, -, -, hnone | ⟨room', hroom', hagrees⟩ | ⟨c, hc, hholds⟩⟩ := h.covered
  · cases hnone.symm.trans hroom
  · cases hroom'.symm.trans hroom
    exact ⟨row, hrow, hagrees⟩
  · have hfinished := hidle c hc hholds.auctionId
    rw [hholds.unfinished] at hfinished
    cases hfinished

/-- What a schedule keeps to when transactions are atomic, bids are in whole cents by known users,
    and no statement fails. -/
def AtomicRun (a : ℤ) (s : State) (act : Action) (t : State) : Prop :=
  Atomic a s act t ∧ ExactAmounts a s act t ∧ KnownBidders a s act t ∧ NoKill s act t

/-- Along every such schedule without stale writes, the cache of an auction that started fresh is
    empty or agrees with the row whenever no call on it is in progress. -/
theorem cache_coherent_at_rest (w : World) (schedule : List Action)
    (hrow : w.db.auction a = some row) (hamount : row.currentHighestBid = 0)
    (hwinner : row.winnerId = none) (hbids : w.db.bidsOf a = []) (hcache : w.cache a = none)
    (hzero : w.db.user 0 = none) (hrun : Along poolStep (AtomicRun a) ⟨w, [], []⟩ schedule)
    (hfresh : Along poolStep (fun s act _ => ¬ StaleWrite a s act) ⟨w, [], []⟩ schedule) :
    Always poolStep (CoherentAtRest a) ⟨w, [], []⟩ schedule := by
  have hstart : CacheInv a ⟨w, [], []⟩ := by
    refine ⟨hzero, by simp, by simp, row, hrow, ⟨?_, fun _ => ⟨hamount, hwinner⟩, ?_⟩, by simp,
      .inl hcache⟩
    · rw [hbids]
      exact TopMatches.nil
    · intro winnerId h
      cases hwinner.symm.trans h
  refine always_of_inv ?_ (fun s hs => hs.coherentAtRest) schedule hstart
    (along_and schedule hrun hfresh)
  intro s act t hs ⟨⟨hatomic, hexact, hknown, hkill⟩, hfresh⟩ ht
  exact cacheInv_step hs hexact hknown hatomic hkill hfresh (step_inv ht)

instance {room : AuctionRoom} : Decidable (RoomAgrees user row room) := by
  unfold RoomAgrees; infer_instance

instance : Decidable (c.Holds a user row) := by
  unfold Call.Holds; split <;> infer_instance

instance {s : State} {act : Action} : Decidable (StaleWrite a s act) := by
  unfold StaleWrite; infer_instance

instance {s : State} : Decidable (CoherentAtRest a s) := by unfold CoherentAtRest; infer_instance

instance {s t : State} {act : Action} : Decidable (AtomicRun a s act t) := by
  unfold AtomicRun Atomic KnownBidders Call.KnownOn; infer_instance

/-- Bob's bid commits; the auction is closed and cached as closed; then Bob's call caches the state
    it has committed. Both calls return. -/
def bidCachesLast : List Action :=
  [.start (bobBids 20), stmt 0 1, stmt 0 2, .start (.endAuction 1 .begin), stmt 1 3, stmt 1 4,
    stmt 1 5, stmt 1 6, stmt 1 7, stmt 0 8, stmt 0 9]

theorem stale_cache_at_rest :
    Along poolStep (AtomicRun 1) ⟨sampleWorld, [], []⟩ bidCachesLast ∧
      Along poolStep (Serial 1) ⟨sampleWorld, [], []⟩ bidCachesLast ∧
      ¬ Always poolStep (CoherentAtRest 1) ⟨sampleWorld, [], []⟩ bidCachesLast := by
  decide +kernel

/-- A reader on an empty cache between Bob's commit and the close; its outdated state is replaced. -/
def readThenClose : List Action :=
  [.start (bobBids 20), stmt 0 1, stmt 0 2, stmt 0 3, stmt 0 4, .env 1,
    .start (.getAuctionState 1 .begin), stmt 1 5, stmt 1 6, stmt 1 7,
    .start (.endAuction 1 .begin), stmt 2 8, stmt 2 9, stmt 2 10, stmt 1 11, stmt 2 12, stmt 2 13]

theorem cache_coherent_at_rest_read_then_close :
    Always poolStep (CoherentAtRest 1) ⟨sampleWorld, [], []⟩ readThenClose :=
  cache_coherent_at_rest sampleWorld readThenClose rfl rfl rfl rfl rfl rfl (by decide +kernel)
    (by decide +kernel)

end CarAuction
