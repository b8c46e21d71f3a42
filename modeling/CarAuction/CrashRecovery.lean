import CarAuction.AuctionRow

/- The bid consumer with failures. It processes the messages of a partition one by
   one; the partition of a bid is its auction. A message whose processing did not
   return, because a statement threw or the consumer stopped at an `await`, is
   delivered again and `placeBid` runs from the start. The transaction, the publish
   and the cache write are separate, so a failure after the commit is followed by a
   second attempt that finds its own bid in the row: `bid_rejected_after_commit`.
   `committed_bid_announced` says that nothing else goes wrong.

   Correspondence (TypeScript ↔ Lean):
     `eachMessage` of one partition         ↔ a `Partition`, its first message in `todo`
     a statement of `placeBid`              ↔ `.run`
     a failure at an `await`, before or
     after the effect of the statement      ↔ `.fail`, `.lost` -/
namespace CarAuction

open Sql Machine

/-- What the processing of a message has done, over all its attempts. -/
structure Processed where
  message : BidMessage
  bids : List Bid
  pubs : List Publication
  deriving DecidableEq

/-- One partition: the messages not processed yet, the progress of the first of them, what its
    attempts have committed and published so far, and the messages whose processing returned. -/
structure Partition where
  todo : List BidMessage
  pc : PlaceBidPc
  bids : List Bid
  pubs : List Publication
  processed : List Processed

structure Consumer where
  world : World
  partition : ℤ → Partition

inductive ConsumerAction where
  | run (p : ℤ) (now : Time)
  | fail (p : ℤ)
  | lost (p : ℤ) (now : Time)
  | expire (auctionId : ℤ)

/-- The `Bid` row a statement has committed. -/
def committedRows : PlaceBidPc → PlaceBidPc → List Bid
  | .checked _, .committed newBid _ => [newBid]
  | _, _ => []

/-- The partition after a statement, when the message is to be delivered again. -/
def Partition.retry (q : Partition) (pc : PlaceBidPc) (pubs : List Publication) : Partition :=
  { q with pc := .begin, bids := q.bids ++ committedRows q.pc pc, pubs := q.pubs ++ pubs }

/-- The partition after a statement of `placeBid` on its first message `m`. -/
def Partition.advance (q : Partition) (m : BidMessage) (rest : List BidMessage) (pc : PlaceBidPc)
    (pubs : List Publication) : Partition :=
  match pc with
  | .returned =>
    ⟨rest, .begin, [], [], q.processed ++ [⟨m, q.bids ++ committedRows q.pc pc, q.pubs ++ pubs⟩]⟩
  -- the consumer gives the message back, and gets it again
  | .threw => q.retry .threw pubs
  | pc => { q with pc := pc, bids := q.bids ++ committedRows q.pc pc, pubs := q.pubs ++ pubs }

def Consumer.setPartition (s : Consumer) (p : ℤ) (w : World) (q : Partition) : Consumer :=
  ⟨w, Function.update s.partition p q⟩

/-- The first message of the partition, the rest, and what the next statement on it does. -/
def Consumer.statement (s : Consumer) (p : ℤ) (now : Time) :
    Option (BidMessage × List BidMessage × World × PlaceBidPc × List Publication) :=
  match (s.partition p).todo with
  | [] => none
  | m :: rest => (placeBidStep m now s.world (s.partition p).pc).map fun r => (m, rest, r)

def consumerStep (s : Consumer) : ConsumerAction → Option Consumer
  | .run p now => (s.statement p now).map fun (m, rest, w, pc, pubs) =>
    s.setPartition p w ((s.partition p).advance m rest pc pubs)
  -- the statement has not taken effect
  | .fail p => some (s.setPartition p s.world { s.partition p with pc := .begin })
  -- the statement has taken effect, and nothing comes back
  | .lost p now => (s.statement p now).map fun (_, _, w, pc, pubs) =>
    s.setPartition p w ((s.partition p).retry pc pubs)
  | .expire auctionId => some { s with world := s.world.expireCache auctionId }

/-- The cached state has the columns of the row. -/
def RoomMatches (row : Auction) (room : AuctionRoom) : Prop :=
  room.currentHighestBid = .val row.currentHighestBid.toRat ∧
    room.winnerId.toOption = row.winnerId ∧ room.isOpen = .val row.isOpen

def CacheMatches (a : ℤ) (w : World) : Prop :=
  ∀ room ∈ w.cache a, ∃ row ∈ w.db.auction a, RoomMatches row room

/-- A message that has a `Bid` row has its `newBid` event, and no rejection was sent. -/
def Processed.Announced (p : Processed) : Prop :=
  p.bids ≠ [] → (∃ b ∈ p.bids, newBidPublication p.message b ∈ p.pubs) ∧
    ∀ pub ∈ p.pubs, pub.channel ≠ .emitToSocket

/-- The messages of the auction whose processing has returned are announced, the cache is right
    between two messages, and the `Bid` rows are theirs and those of the message in progress. -/
def Recovered (a : ℤ) (initial : List Bid) (s : Consumer) : Prop :=
  (∀ p ∈ (s.partition a).processed, p.Announced) ∧
  ((s.partition a).pc = .begin → CacheMatches a s.world) ∧
  s.world.db.bidsOf a = initial ++ (s.partition a).processed.flatMap Processed.bids ++
    (s.partition a).bids

/-- Between the commit of the bid and the return of the call. -/
def PlaceBidPc.afterCommit : PlaceBidPc → Bool
  | committed _ _ => true
  | announced _ => true
  | _ => false

/-- The processing of a bid on the auction fails after its commit, or commits an amount that the
    columns round. -/
def Interrupts (a : ℤ) (s : Consumer) : ConsumerAction → Prop
  | .fail p => p = a ∧ (s.partition a).pc.afterCommit = true
  | .lost p _ => p = a ∧ ((s.partition a).pc.afterCommit = true ∨ ∃ m ∈ (s.partition a).todo.head?,
      (Call.placeBid m (s.partition a).pc).Commits a s.world.db fun _ _ _ => True)
  | .run p _ => p = a ∧ ∃ m ∈ (s.partition a).todo.head?,
      (Call.placeBid m (s.partition a).pc).Commits a s.world.db fun _ amount _ =>
        amount.toRat ≠ m.amount
  | .expire _ => False

/-- The auction refuses the bid. -/
def Refused (a : ℤ) (w : World) (m : BidMessage) : Prop :=
  ∃ e, checkBid m (w.db.auction a) = .error e

/-- Where the processing of the first message stands. -/
def Stage (a : ℤ) (w : World) (todo : List BidMessage) (bids : List Bid)
    (pubs : List Publication) : PlaceBidPc → Prop
  | .begin => bids = [] ∧ CacheMatches a w ∧ (pubs = [] ∨ ∃ m ∈ todo.head?, Refused a w m)
  | .checked seen => bids = [] ∧ CacheMatches a w ∧ pubs = [] ∧ w.db.auction a = some seen
  | .rejected _ => bids = [] ∧ CacheMatches a w ∧ ∃ m ∈ todo.head?, Refused a w m
  | .committed newBid isOpen => bids = [newBid] ∧ pubs = [] ∧
    ∃ m ∈ todo.head?, ∃ row ∈ w.db.auction a, RoomMatches row (newBidRoom m isOpen)
  | .announced isOpen => ∃ m ∈ todo.head?,
    (∃ newBid, bids = [newBid] ∧ pubs = [newBidPublication m newBid]) ∧
      ∃ row ∈ w.db.auction a, RoomMatches row (newBidRoom m isOpen)
  | .returned => False
  | .threw => False

/-! The steps. -/

variable {a p : ℤ} {s t : Consumer} {w w' : World} {m : BidMessage} {rest todo : List BidMessage}
  {pc pc' : PlaceBidPc} {bids : List Bid} {pubs pubs' : List Publication} {now : Time}
  {initial : List Bid}

theorem statement_inv (h : s.statement p now = some (m, rest, w, pc, pubs)) :
    (s.partition p).todo = m :: rest ∧ CallStep ⟨now, 0⟩ s.world
      (.placeBid m (s.partition p).pc) w (.placeBid m pc) pubs := by
  unfold Consumer.statement at h
  split at h
  · cases h
  · next m' rest' htodo =>
    obtain ⟨r, hr, heq⟩ := Option.map_eq_some_iff.mp h
    cases heq
    exact ⟨htodo, placeBidStep_inv hr⟩

theorem cacheMatches_frame (h : CacheMatches a w) (hcache : w'.cache a = w.cache a)
    (hrow : w'.db.auction a = w.db.auction a) : CacheMatches a w' := by
  unfold CacheMatches
  rwa [hcache, hrow]

theorem stage_frame (h : Stage a w todo bids pubs pc) (hcache : w'.cache a = w.cache a)
    (hrow : w'.db.auction a = w.db.auction a) : Stage a w' todo bids pubs pc := by
  cases pc with
  | begin => exact ⟨h.1, cacheMatches_frame h.2.1 hcache hrow, by unfold Refused; rw [hrow]; exact h.2.2⟩
  | checked seen => exact ⟨h.1, cacheMatches_frame h.2.1 hcache hrow, h.2.2.1, hrow.trans h.2.2.2⟩
  | rejected e => exact ⟨h.1, cacheMatches_frame h.2.1 hcache hrow, by unfold Refused; rw [hrow]; exact h.2.2⟩
  | committed newBid isOpen => exact ⟨h.1, h.2.1, by rw [hrow]; exact h.2.2⟩
  | announced isOpen => unfold Stage at h ⊢; rwa [hrow]
  | returned => exact h
  | threw => exact h

/-- A commit adds the row it reports, and the state to cache matches the row it leaves. -/
theorem commit_matches {db' : Database} {seen : Auction} {newBid : Bid} (ha : m.auctionId = a)
    (hseen : w.db.auction a = some seen) (hcommit : w.db.commitBid m now = .ok (db', newBid))
    (hround : ¬ (Call.placeBid m (.checked seen)).Commits a w.db
      fun _ amount _ => amount.toRat ≠ m.amount) :
    db'.bidsOf a = w.db.bidsOf a ++ [newBid] ∧
      ∃ row ∈ db'.auction a, RoomMatches row (newBidRoom m seen.isOpen) := by
  obtain ⟨row, hrow, -, -, hb, hrow', hbids⟩ := Database.commitBid_self hcommit ha
  cases hseen.symm.trans hrow
  obtain ⟨row₁, haccept⟩ := accepts_of_commitBid hcommit
  have hsame : newBid.amount.toRat = m.amount := by
    by_contra hne
    exact hround ⟨m, row₁, newBid.amount, by simp [Call.checkedBid, ha], haccept, hne⟩
  have hbidder : newBid.userId = m.bidderId := by rw [hb]
  refine ⟨hbids, _, hrow', ?_, ?_, rfl⟩
  · simp [newBidRoom, Auction.withBid, hsame]
  · simp [newBidRoom, Auction.withBid, hbidder]

/-- A bid whose state is cached right after its event was published. -/
theorem announced_of_event {newBid : Bid} {isOpen : Bool} :
    Processed.Announced ⟨m, [newBid] ++ committedRows (.announced isOpen) .returned,
      [newBidPublication m newBid] ++ []⟩ := by
  intro _
  refine ⟨⟨newBid, by simp [committedRows], by simp⟩, fun pub hpub => ?_⟩
  simp only [List.append_nil, List.mem_singleton] at hpub
  rw [hpub]
  exact nofun

/-- A statement that neither returns nor throws takes the message to its next stage; one that
    returns leaves the message announced and the cache right. -/
theorem stage_statement {i : Input} (h : CallStep i w (.placeBid m pc) w' (.placeBid m pc') pubs')
    (ha : m.auctionId = a) (hstage : Stage a w (m :: rest) bids pubs pc)
    (hround : ¬ (Call.placeBid m pc).Commits a w.db fun _ amount _ => amount.toRat ≠ m.amount) :
    w'.db.bidsOf a = w.db.bidsOf a ++ committedRows pc pc' ∧
      match pc' with
      | .returned => Processed.Announced ⟨m, bids ++ committedRows pc .returned, pubs ++ pubs'⟩ ∧
        CacheMatches a w'
      | .threw => Stage a w' (m :: rest) (bids ++ committedRows pc .threw) (pubs ++ pubs') .begin
      | pc' => Stage a w' (m :: rest) (bids ++ committedRows pc pc') (pubs ++ pubs') pc' := by
  subst ha
  cases h with
  | @bidPasses _ seen hcheck =>
    obtain ⟨hbids, hcache, hpubs⟩ := hstage
    -- an attempt that sent a rejection leaves a row that refuses the bid again
    have hempty : pubs = [] := by
      rcases hpubs with hempty | ⟨m', hm', e, he⟩
      · exact hempty
      · cases hm'
        cases hcheck.symm.trans he
    refine ⟨by simp [committedRows], ?_, hcache, ?_, (checkBid_ok.mp hcheck).1⟩
    · simp [hbids, committedRows]
    · simp [hempty]
  | @bidRefused _ e hcheck _ =>
    obtain ⟨hbids, hcache, -⟩ := hstage
    refine ⟨by simp [committedRows], ?_, hcache, m, rfl, e, hcheck⟩
    simp [hbids, committedRows]
  | bidDropped =>
    obtain ⟨hbids, hcache, -⟩ := hstage
    refine ⟨by simp [committedRows], fun hne => absurd ?_ hne, hcache⟩
    simp [hbids, committedRows]
  | @bidCommits _ seen db newBid hcommit =>
    obtain ⟨hbids, -, hpubs, hseen⟩ := hstage
    obtain ⟨hrows, hmatch⟩ := commit_matches rfl hseen hcommit hround
    refine ⟨by simpa [committedRows] using hrows, ?_, ?_, m, rfl, hmatch⟩
    · simp [hbids, committedRows]
    · simp [hpubs]
  | bidThrows =>
    obtain ⟨hbids, hcache, hpubs, -⟩ := hstage
    refine ⟨by simp [committedRows], ?_, hcache, .inl ?_⟩
    · simp [hbids, committedRows]
    · simp [hpubs]
  | @bidPublishes _ newBid isOpen =>
    obtain ⟨hbids, hpubs, m', hm', hmatch⟩ := hstage
    cases hm'
    refine ⟨by simp [committedRows], m, rfl, ⟨newBid, ?_, ?_⟩, hmatch⟩
    · simp [hbids, committedRows]
    · simp [hpubs]
  | @bidCaches _ isOpen =>
    obtain ⟨m', hm', ⟨newBid, hbids, hpubs⟩, row, hrow, hmatch⟩ := hstage
    cases hm'
    subst hbids hpubs
    refine ⟨by simp [committedRows], announced_of_event, fun room hroom => ?_⟩
    rw [World.setCache_cache_self] at hroom
    cases hroom
    exact ⟨row, hrow, hmatch⟩
  | bidRejects =>
    obtain ⟨hbids, hcache, -⟩ := hstage
    refine ⟨by simp [committedRows], fun hne => absurd ?_ hne, hcache⟩
    simp [hbids, committedRows]

/-- A failure before the commit, or after the rejection was sent, starts the message again. -/
theorem stage_lost {i : Input} (h : CallStep i w (.placeBid m pc) w' (.placeBid m pc') pubs')
    (ha : m.auctionId = a) (hstage : Stage a w (m :: rest) bids pubs pc)
    (hafter : pc.afterCommit = false)
    (hcommits : ¬ (Call.placeBid m pc).Commits a w.db fun _ _ _ => True) :
    w'.db.bidsOf a = w.db.bidsOf a ++ committedRows pc pc' ∧
      Stage a w' (m :: rest) (bids ++ committedRows pc pc') (pubs ++ pubs') .begin := by
  subst ha
  cases h with
  | bidPasses =>
    obtain ⟨hbids, hcache, hpubs⟩ := hstage
    exact ⟨by simp [committedRows], by simp [hbids, committedRows], hcache, by simpa using hpubs⟩
  | @bidRefused _ e hcheck _ =>
    obtain ⟨hbids, hcache, -⟩ := hstage
    exact ⟨by simp [committedRows], by simp [hbids, committedRows], hcache,
      .inr ⟨m, rfl, e, hcheck⟩⟩
  | @bidDropped _ e hcheck _ =>
    obtain ⟨hbids, hcache, -⟩ := hstage
    exact ⟨by simp [committedRows], by simp [hbids, committedRows], hcache,
      .inr ⟨m, rfl, e, hcheck⟩⟩
  | bidCommits hcommit =>
    obtain ⟨row, haccept⟩ := accepts_of_commitBid hcommit
    exact absurd ⟨m, row, _, by simp [Call.checkedBid], haccept, trivial⟩ hcommits
  | bidThrows =>
    obtain ⟨hbids, hcache, hpubs, -⟩ := hstage
    exact ⟨by simp [committedRows], by simp [hbids, committedRows], hcache, .inl (by simp [hpubs])⟩
  | bidPublishes => cases hafter
  | bidCaches => cases hafter
  | bidRejects =>
    obtain ⟨hbids, hcache, hrefused⟩ := hstage
    exact ⟨by simp [committedRows], by simp [hbids, committedRows], hcache, .inr hrefused⟩

theorem stage_fail (hstage : Stage a w todo bids pubs pc) (hafter : pc.afterCommit = false) :
    Stage a w todo bids pubs .begin := by
  cases pc with
  | begin => exact hstage
  | checked seen => exact ⟨hstage.1, hstage.2.1, .inl hstage.2.2.1⟩
  | rejected e => exact ⟨hstage.1, hstage.2.1, .inr hstage.2.2⟩
  | committed newBid isOpen => cases hafter
  | announced isOpen => cases hafter
  | returned => exact hstage.elim
  | threw => exact hstage.elim

theorem cacheMatches_expire (h : CacheMatches a w) (k : ℤ) : CacheMatches a (w.expireCache k) := by
  intro room hroom
  by_cases hk : a = k
  · rw [hk, World.expireCache_cache_self] at hroom
    cases hroom
  · rw [World.expireCache_cache_of_ne hk] at hroom
    exact h room hroom

theorem stage_expire (h : Stage a w todo bids pubs pc) (k : ℤ) :
    Stage a (w.expireCache k) todo bids pubs pc := by
  cases pc with
  | begin => exact ⟨h.1, cacheMatches_expire h.2.1 k, h.2.2⟩
  | checked seen => exact ⟨h.1, cacheMatches_expire h.2.1 k, h.2.2⟩
  | rejected e => exact ⟨h.1, cacheMatches_expire h.2.1 k, h.2.2⟩
  | committed newBid isOpen => exact h
  | announced isOpen => exact h
  | returned => exact h
  | threw => exact h

/-! The invariant of one auction. -/

/-- What the invariant says once its auction's partition is `q` and the stores are `w`. -/
structure LocalInv (a : ℤ) (initial : List Bid) (w : World) (q : Partition) : Prop where
  routed : ∀ m ∈ q.todo, m.auctionId = a
  announced : ∀ p ∈ q.processed, p.Announced
  rows : w.db.bidsOf a = initial ++ q.processed.flatMap Processed.bids ++ q.bids
  stage : Stage a w q.todo q.bids q.pubs q.pc

theorem localInv_advance {q : Partition} (h : LocalInv a initial w q) (htodo : q.todo = m :: rest)
    {i : Input} (hcall : CallStep i w (.placeBid m q.pc) w' (.placeBid m pc) pubs)
    (hround : ¬ (Call.placeBid m q.pc).Commits a w.db fun _ amount _ => amount.toRat ≠ m.amount) :
    LocalInv a initial w' (q.advance m rest pc pubs) := by
  have ha : m.auctionId = a := h.routed m (by rw [htodo]; exact List.mem_cons_self)
  have hrest : ∀ m' ∈ rest, m'.auctionId = a :=
    fun m' hm' => h.routed m' (by rw [htodo]; exact List.mem_cons_of_mem m hm')
  obtain ⟨hrows, hnext⟩ := stage_statement hcall ha (htodo ▸ h.stage) hround
  have hrows' := h.rows
  cases pc with
  | returned =>
    refine ⟨hrest, fun p hp => ?_, ?_, rfl, hnext.2, .inl rfl⟩
    · rcases List.mem_append.mp hp with hp | hp
      · exact h.announced p hp
      · rw [List.mem_singleton.mp hp]
        exact hnext.1
    · simp [Partition.advance, hrows, hrows']
  | threw =>
    refine ⟨h.routed, h.announced, ?_, ?_⟩
    · simp [Partition.advance, Partition.retry, hrows, hrows']
    · rw [← htodo] at hnext
      exact hnext
  | _ =>
    refine ⟨h.routed, h.announced, ?_, ?_⟩
    · simp [Partition.advance, hrows, hrows']
    · rw [← htodo] at hnext
      exact hnext

theorem localInv_retry {q : Partition} (h : LocalInv a initial w q) (htodo : q.todo = m :: rest)
    {i : Input} (hcall : CallStep i w (.placeBid m q.pc) w' (.placeBid m pc) pubs)
    (hafter : q.pc.afterCommit = false)
    (hcommits : ¬ (Call.placeBid m q.pc).Commits a w.db fun _ _ _ => True) :
    LocalInv a initial w' (q.retry pc pubs) := by
  have ha : m.auctionId = a := h.routed m (by rw [htodo]; exact List.mem_cons_self)
  obtain ⟨hrows, hnext⟩ := stage_lost hcall ha (htodo ▸ h.stage) hafter hcommits
  refine ⟨h.routed, h.announced, ?_, ?_⟩
  · simp [Partition.retry, hrows, h.rows]
  · rw [← htodo] at hnext
    exact hnext

/-- The statements of another partition. -/
theorem localInv_frame {q : Partition} (h : LocalInv a initial w q) {i : Input} {c c' : Call}
    (hcall : CallStep i w c w' c' pubs) (hne : c.auctionId ≠ a) : LocalInv a initial w' q := by
  refine ⟨h.routed, h.announced, ?_, ?_⟩
  · rw [hcall.frame_bidsOf hne]
    exact h.rows
  · exact stage_frame h.stage (hcall.frame_cache hne) (hcall.frame_auction hne)

/-- The invariant of a run: the messages are routed, and the auction's partition is in order. -/
def RecoveryInv (a : ℤ) (initial : List Bid) (s : Consumer) : Prop :=
  (∀ p, ∀ m ∈ (s.partition p).todo, m.auctionId = p) ∧
    LocalInv a initial s.world (s.partition a)

theorem todo_advance {q : Partition} (htodo : q.todo = m :: rest) :
    ∀ m' ∈ (q.advance m rest pc pubs).todo, m' ∈ q.todo := by
  intro m' hm'
  cases pc with
  | returned =>
    rw [htodo]
    exact List.mem_cons_of_mem m hm'
  | _ => exact hm'

/-- Replacing one partition by one with no other messages. -/
theorem recoveryInv_set {q : Partition} (h : RecoveryInv a initial s)
    (htodo : ∀ m ∈ q.todo, m ∈ (s.partition p).todo)
    (hself : p = a → LocalInv a initial w q)
    (hother : p ≠ a → LocalInv a initial w (s.partition a)) :
    RecoveryInv a initial (s.setPartition p w q) := by
  constructor
  · intro p' m hm
    by_cases hp : p' = p
    · subst hp
      simp only [Consumer.setPartition, Function.update_self] at hm
      exact h.1 p' m (htodo m hm)
    · simp only [Consumer.setPartition, Function.update_of_ne hp] at hm
      exact h.1 p' m hm
  · by_cases hp : p = a
    · subst hp
      simpa [Consumer.setPartition] using hself rfl
    · simpa [Consumer.setPartition, Function.update_of_ne (Ne.symm hp)] using hother hp

theorem recoveryInv_step {act : ConsumerAction} (h : RecoveryInv a initial s)
    (hquiet : ¬ Interrupts a s act) (hstep : consumerStep s act = some t) :
    RecoveryInv a initial t := by
  cases act with
  | run p now =>
    obtain ⟨⟨m, rest, w, pc, pubs⟩, hs, rfl⟩ := Option.map_eq_some_iff.mp hstep
    obtain ⟨htodo, hcall⟩ := statement_inv hs
    have hm : m.auctionId = p := h.1 p m (by rw [htodo]; exact List.mem_cons_self)
    refine recoveryInv_set h (todo_advance htodo) ?_ ?_
    · rintro rfl
      refine localInv_advance h.2 htodo hcall (fun hround => hquiet ⟨rfl, m, ?_, hround⟩)
      rw [htodo]
      rfl
    · intro hp
      exact localInv_frame h.2 hcall (fun ha => hp (hm.symm.trans ha))
  | fail p =>
    cases hstep
    refine recoveryInv_set h (fun m hm => hm) ?_ (fun _ => h.2)
    rintro rfl
    have hafter : (s.partition p).pc.afterCommit = false := by
      by_contra hne
      exact hquiet ⟨rfl, by simpa using hne⟩
    exact ⟨h.2.routed, h.2.announced, h.2.rows, stage_fail h.2.stage hafter⟩
  | lost p now =>
    obtain ⟨⟨m, rest, w, pc, pubs⟩, hs, rfl⟩ := Option.map_eq_some_iff.mp hstep
    obtain ⟨htodo, hcall⟩ := statement_inv hs
    have hm : m.auctionId = p := h.1 p m (by rw [htodo]; exact List.mem_cons_self)
    refine recoveryInv_set h (fun m hm => hm) ?_ ?_
    · rintro rfl
      obtain ⟨hafter, hcommits⟩ := not_or.mp (fun hbad => hquiet ⟨rfl, hbad⟩)
      refine localInv_retry h.2 htodo hcall (by simpa using hafter) (fun hc => hcommits ⟨m, ?_, hc⟩)
      rw [htodo]
      rfl
    · intro hp
      exact localInv_frame h.2 hcall (fun ha => hp (hm.symm.trans ha))
  | expire k =>
    cases hstep
    exact ⟨h.1, h.2.routed, h.2.announced, h.2.rows, stage_expire h.2.stage k⟩

/-- Along every run without such interruptions, each message of the auction whose processing has
    returned is announced if it has a `Bid` row, and the cache is right between two messages. -/
theorem committed_bid_announced (s : Consumer) (schedule : List ConsumerAction)
    (hrouted : ∀ p, ∀ m ∈ (s.partition p).todo, m.auctionId = p)
    (hstart : s.partition a = ⟨todo, .begin, [], [], []⟩) (hcache : CacheMatches a s.world)
    (hrows : s.world.db.bidsOf a = initial)
    (hquiet : Along consumerStep (fun s act _ => ¬ Interrupts a s act) s schedule) :
    Always consumerStep (Recovered a initial) s schedule := by
  have hinv : RecoveryInv a initial s := by
    refine ⟨hrouted, hrouted a, ?_, ?_, ?_⟩
    · rw [hstart]
      exact fun p hp => by cases hp
    · simp [hstart, hrows]
    · rw [hstart]
      exact ⟨rfl, hcache, .inl rfl⟩
  have hkeep : ∀ s act t, RecoveryInv a initial s → ¬ Interrupts a s act →
      consumerStep s act = some t → RecoveryInv a initial t :=
    fun _ _ _ hs hq ht => recoveryInv_step hs hq ht
  refine always_of_inv hkeep ?_ schedule hinv hquiet
  intro s hs
  obtain ⟨-, hs⟩ := hs
  refine ⟨hs.announced, fun hpc => ?_, hs.rows⟩
  have hstage := hs.stage
  rw [hpc] at hstage
  exact hstage.2.1

instance {q : Processed} : Decidable q.Announced := by unfold Processed.Announced; infer_instance

instance {row : Auction} {room : AuctionRoom} : Decidable (RoomMatches row room) := by
  unfold RoomMatches; infer_instance

instance : Decidable (CacheMatches a w) := by unfold CacheMatches; infer_instance

instance : Decidable (Recovered a initial s) := by unfold Recovered; infer_instance

instance {act : ConsumerAction} : Decidable (Interrupts a s act) := by
  cases act <;> unfold Interrupts <;> infer_instance

/-- The consumer with one message to process, Bob's bid of `20`. -/
def sampleConsumer : Consumer where
  world := sampleWorld
  partition := fun p =>
    ⟨if p = 1 then [⟨1, 20, 8, "bob", "socket-b"⟩] else [], .begin, [], [], []⟩

theorem sampleConsumer_routed :
    ∀ p, ∀ m ∈ (sampleConsumer.partition p).todo, m.auctionId = p := by
  intro p m hm
  by_cases hp : p = 1
  · simp only [sampleConsumer, hp, if_true, List.mem_singleton] at hm
    rw [hm, hp]
  · simp [sampleConsumer, hp] at hm

/-- The consumer stops between the commit and the publish; the second attempt finds the bid too
    low and its processing returns. -/
theorem bid_rejected_after_commit :
    ¬ Always consumerStep (Recovered 1 []) sampleConsumer
      [.run 1 1, .run 1 2, .fail 1, .run 1 3, .run 1 4] := by
  decide +kernel

/-- The consumer stops before the commit, and the second attempt is the only one that counts. -/
theorem committed_bid_announced_retry :
    Always consumerStep (Recovered 1 []) sampleConsumer
      [.run 1 1, .fail 1, .run 1 2, .run 1 3, .run 1 4, .run 1 5] :=
  committed_bid_announced sampleConsumer _ sampleConsumer_routed rfl (by decide +kernel) rfl
    (by decide +kernel)

end CarAuction
