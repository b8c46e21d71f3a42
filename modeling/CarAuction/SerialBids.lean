import CarAuction.AuctionRow

/- Bids placed one after another, in any interleaving with `endAuction` and
   `getAuctionState`. Four places record them: the `Bid` rows, the columns of the
   auction row, the query for the highest bid and the `newBid` events. `SerialInv`
   ties the four together; it holds between any two statements because the one
   `placeBid` in progress is the only call that may move them. A bid that has
   passed the checks may commit after the auction was closed: `Agrees` survives
   it, since the close leaves the amount, the winner and the version alone. -/
namespace CarAuction

open Sql Pool Machine

/-- The row carries the last bid, and counts the bids, on top of what it started with. -/
structure Agrees (initial row : Auction) (bids : List Bid) : Prop where
  ascending : Ledger.Ascending Bid.amount initial.currentHighestBid bids
  highest : row.currentHighestBid = Ledger.high Bid.amount initial.currentHighestBid bids
  winner : row.winnerId = bids.getLast?.map Bid.userId
  version : row.version = initial.version + bids.length

/-- What a `Bid` row and a `newBid` event both tell of a bid. -/
def Bid.entry (b : Bid) : Number × ℤ × Time := (b.amount.toRat, b.userId, b.timestamp)

def NewBid.entry (n : NewBid) : Number × ℤ × Time := (n.amount, n.bidderId, n.timestamp)

/-- The `newBid` event of a bid that is committed and not published yet. -/
def Call.pendingNewBids (a : ℤ) : Call → List NewBid
  | placeBid m (.committed newBid _) => newBidsOf a [newBidPublication m newBid]
  | _ => []

/-- The bids that have passed the checks are above the row. -/
def CheckedAbove (a : ℤ) (row : Auction) (procs : List Call) : Prop :=
  ∀ c ∈ procs, ∀ m, c.checkedBid a = some m → row.currentHighestBid.toRat < m.amount

/-- What holds between any two statements. -/
structure SerialInv (a : ℤ) (initial : Auction) (s : State) : Prop where
  lone : Lone (Call.placing a) s.procs
  exact : ∀ c ∈ s.procs, c.ExactOn a
  agrees : ∃ row, s.world.db.auction a = some row ∧ Agrees initial row (s.world.db.bidsOf a) ∧
    CheckedAbove a row s.procs
  announced : (newBidsOf a s.log ++ s.procs.flatMap (Call.pendingNewBids a)).map NewBid.entry =
    (s.world.db.bidsOf a).map Bid.entry

/-- The four places agree; the events have caught up when no `placeBid` is in progress. -/
def LedgerAgrees (a : ℤ) (initial : Auction) (s : State) : Prop :=
  (∃ row, s.world.db.auction a = some row ∧ Agrees initial row (s.world.db.bidsOf a) ∧
    ∀ b ∈ s.world.db.topBids a, row.currentHighestBid = b.amount ∧ row.winnerId = some b.userId) ∧
  (∀ b, b ∈ s.world.db.topBids a ↔ (s.world.db.bidsOf a).getLast? = some b) ∧
  ((∀ c ∈ s.procs, c.placing a = false) →
    (newBidsOf a s.log).map NewBid.entry = (s.world.db.bidsOf a).map Bid.entry)

/-- A closed auction stays closed. -/
def ClosedStays (a : ℤ) (db db' : Database) : Prop :=
  ∀ row ∈ db.auction a, row.isOpen = false → ∃ row' ∈ db'.auction a, row'.isOpen = false

variable {a : ℤ} {initial row : Auction} {bids : List Bid} {b : Bid} {now : Time}

namespace Agrees

theorem start (h : initial.winnerId = none) : Agrees initial initial [] :=
  ⟨Ledger.ascending_nil, rfl, h, by simp⟩

theorem withBid (h : Agrees initial row bids) (hb : row.currentHighestBid < b.amount) :
    Agrees initial (row.withBid b.amount b.userId) (bids ++ [b]) where
  ascending := h.ascending.concat (h.highest ▸ hb)
  highest := by simp [Auction.withBid]
  winner := by simp [Auction.withBid]
  version := by simp [Auction.withBid, h.version]; omega

theorem closedAt (h : Agrees initial row bids) : Agrees initial (row.closedAt now) bids :=
  ⟨h.ascending, h.highest, h.winner, h.version⟩

/-- The highest bid is the one the row carries. -/
theorem top (h : Agrees initial row bids) (hb : Ledger.Top Bid.amount bids b) :
    row.currentHighestBid = b.amount ∧ row.winnerId = some b.userId := by
  have hlast := h.ascending.top_iff.mp hb
  refine ⟨?_, by rw [h.winner, hlast]; rfl⟩
  rw [h.highest, Ledger.high, hlast]
  rfl

end Agrees

theorem pending_of_not_placing {c : Call} (h : c.placing a = false) :
    c.pendingNewBids a = [] := by
  unfold Call.pendingNewBids
  split
  · next m newBid isOpen =>
    have ha : m.auctionId ≠ a := by simpa [Call.placing, Call.finished] using h
    rw [newBidsOf_newBidPublication, if_neg ha]
  · rfl

/-- Next to a `placeBid` in progress no other call has an event to publish. -/
theorem pending_lone {l r : List Call} {c : Call} (h : ∀ q ∈ l ++ r, q.placing a = false) :
    (l ++ c :: r).flatMap (Call.pendingNewBids a) = c.pendingNewBids a := by
  have hnil : ∀ k : List Call, (∀ q ∈ k, q.placing a = false) →
      k.flatMap (Call.pendingNewBids a) = [] := by
    intro k hk
    rw [List.flatMap_eq_nil_iff]
    exact fun q hq => pending_of_not_placing (hk q hq)
  rw [List.flatMap_append, List.flatMap_cons, hnil l (fun q hq => h q (by simp [hq])),
    hnil r (fun q hq => h q (by simp [hq]))]
  simp

namespace CallStep

variable {i : Input} {w w' : World} {c c' : Call} {pubs : List Publication}

/-- A statement that adds no bid publishes what was to be published. -/
theorem pending_eq (h : CallStep i w c w' c' pubs) (hb : w'.db.bidsOf a = w.db.bidsOf a) :
    newBidsOf a pubs ++ c'.pendingNewBids a = c.pendingNewBids a := by
  cases h with
  | @bidCommits m row db newBid hc =>
    by_cases ha : m.auctionId = a
    · obtain ⟨-, -, -, -, -, -, hbids⟩ := Database.commitBid_self hc ha
      rw [hb] at hbids
      simp at hbids
    · exact newBidsOf_newBidPublication.trans (if_neg ha)
  | bidPublishes => simp [Call.pendingNewBids]
  | _ => rfl

theorem closedStays (h : CallStep i w c w' c' pubs) : ClosedStays a w.db w'.db := by
  intro row hrow hclosed
  rcases h.rows_cases a with ⟨heq, -, -⟩ | ⟨m, seen, newBid, ha, -, -, -, hcommit⟩ |
    ⟨row₁, -, -, -, hrow₁, hrow', -⟩
  · exact ⟨row, heq ▸ hrow, hclosed⟩
  · obtain ⟨row₁, hrow₁, -, -, -, hrow', -⟩ := Database.commitBid_self hcommit ha
    cases hrow₁.symm.trans hrow
    exact ⟨_, hrow', hclosed⟩
  · exact ⟨_, hrow', rfl⟩

end CallStep

/-- Events move from the call to the log. -/
theorem announced_step {i : Input} {w w' : World} {c c' : Call} {log pubs : List Publication}
    {l r : List Call} (h : CallStep i w c w' c' pubs) (hb : w'.db.bidsOf a = w.db.bidsOf a)
    (hlone : Lone (Call.placing a) (l ++ c :: r)) :
    newBidsOf a (log ++ pubs) ++ (l ++ c' :: r).flatMap (Call.pendingNewBids a) =
      newBidsOf a log ++ (l ++ c :: r).flatMap (Call.pendingNewBids a) := by
  have hpending := h.pending_eq hb
  cases hp : c.placing a with
  | true => rw [pending_lone (hlone.others hp), pending_lone (hlone.others hp), ← hpending,
      newBidsOf_append, List.append_assoc]
  | false =>
    rw [pending_of_not_placing hp, List.append_eq_nil_iff] at hpending
    simp [hpending.1, hpending.2, pending_of_not_placing hp]

theorem closedStays_step {s t : State} {act : Action} (h : Pool.Step system s act t) :
    ClosedStays a s.world.db t.world.db := by
  cases h with
  | run hc => exact (callStep_inv hc).closedStays
  | _ => exact fun row hrow hclosed => ⟨row, hrow, hclosed⟩

theorem checkedAbove_step {i : Input} {w w' : World} {c c' : Call} {pubs : List Publication}
    {l r : List Call} (h : CheckedAbove a row (l ++ c :: r)) (hc : CallStep i w c w' c' pubs)
    (hrow : w.db.auction a = some row) : CheckedAbove a row (l ++ c' :: r) := by
  refine forall_replace h (fun _ m hm => ?_)
  obtain ⟨-, row₁, hrow₁, -, hhigh⟩ := hc.checkedBid_of hm
  cases hrow.symm.trans hrow₁
  exact hhigh

/-- A commit by the only `placeBid` in progress: the bid is above the row it updates. -/
theorem serialInv_commit {w w' : World} {l r : List Call} {log : List Publication}
    {m : BidMessage} {seen : Auction} {newBid : Bid}
    (h : SerialInv a initial ⟨w, l ++ .placeBid m (.checked seen) :: r, log⟩)
    (ha : m.auctionId = a) (hcommit : w.db.commitBid m now = .ok (w'.db, newBid)) :
    (∃ row, w'.db.auction a = some row ∧ Agrees initial row (w'.db.bidsOf a) ∧
      CheckedAbove a row (l ++ .placeBid m (.committed newBid seen.isOpen) :: r)) ∧
    (newBidsOf a log ++ (l ++ .placeBid m (.committed newBid seen.isOpen) :: r).flatMap
      (Call.pendingNewBids a)).map NewBid.entry = (w'.db.bidsOf a).map Bid.entry := by
  obtain ⟨row, hrow, hagrees, habove⟩ := h.agrees
  obtain ⟨row₁, hrow₁, hamount, -, hb, hrow', hbids⟩ := Database.commitBid_self hcommit ha
  cases hrow.symm.trans hrow₁
  have hchecked : (Call.placeBid m (.checked seen)).checkedBid a = some m :=
    Call.checkedBid_eq_some.mpr ⟨ha, seen, rfl⟩
  have hothers := h.lone.others (Call.placing_of_checkedBid hchecked)
  have hmem : Call.placeBid m (.checked seen) ∈ l ++ .placeBid m (.checked seen) :: r :=
    mem_split.mpr (.inl rfl)
  have hexact : newBid.amount.toRat = m.amount :=
    (Numeric.toRat_ofRat_eq hamount).mpr (h.exact _ hmem m rfl ha)
  have hhigh : row.currentHighestBid < newBid.amount := by
    rw [← Numeric.toRat_lt, hexact]
    exact habove _ hmem m hchecked
  refine ⟨⟨_, hrow', ?_, ?_⟩, ?_⟩
  · rw [hbids]
    exact hagrees.withBid hhigh
  · intro q hq m' hm'
    -- no other bid has passed the checks, and this one has committed
    rcases mem_split.mp hq with rfl | hq
    · cases hm'
    · rw [Call.checkedBid_of_not_placing (hothers q hq)] at hm'
      cases hm'
  · have hbefore := h.announced
    rw [pending_lone hothers] at hbefore ⊢
    have hbidder : newBid.userId = m.bidderId := by rw [hb]
    have hentry : (newBidsOf a [newBidPublication m newBid]).map NewBid.entry = [newBid.entry] := by
      rw [newBidsOf_newBidPublication, if_pos ha]
      simp [NewBid.entry, Bid.entry, hexact, hbidder]
    rw [hbids, List.map_append, List.map_append, ← hbefore]
    simp [Call.pendingNewBids, hentry]

theorem serialInv_step {s t : State} {act : Action} (h : SerialInv a initial s)
    (hserial : Serial a s act t) (hexact : ExactAmounts a s act t) (hkill : NoKill s act t)
    (hstep : Pool.Step system s act t) : SerialInv a initial t := by
  have hlone := lone_step hstep h.lone hserial
  have hcents := exactOn_step hstep h.exact hexact
  obtain ⟨row, hrow, hagrees, habove⟩ := h.agrees
  cases hstep with
  | @start w procs log c hbegins =>
    have hnew : c.checkedBid a = none ∧ c.pendingNewBids a = [] := by
      cases c with
      | placeBid m pc => cases pc <;> first | exact ⟨rfl, rfl⟩ | cases hbegins
      | _ => exact ⟨rfl, rfl⟩
    refine ⟨hlone, hcents, ⟨row, hrow, hagrees, ?_⟩, ?_⟩
    · intro q hq m hm
      rcases List.mem_append.mp hq with hq | hq
      · exact habove q hq m hm
      · rw [List.mem_singleton.mp hq, hnew.1] at hm
        cases hm
    · rw [List.flatMap_append, List.flatMap_singleton, hnew.2, List.append_nil]
      exact h.announced
  | env k => exact ⟨hlone, hcents, ⟨row, hrow, hagrees, habove⟩, h.announced⟩
  | kill hk => exact hkill.elim
  | @run w w' l r log c c' pubs i hc =>
    have hcall := callStep_inv hc
    rcases hcall.rows_cases a with
      ⟨hrow', hbids, -⟩ | ⟨m, seen, newBid, ha, rfl, rfl, rfl, hcommit⟩ |
      ⟨row₁, rfl, rfl, rfl, hrow₁, hrow', hbids⟩
    · refine ⟨hlone, hcents, ⟨row, hrow'.trans hrow, ?_, ?_⟩, ?_⟩
      · rwa [hbids]
      · exact checkedAbove_step habove hcall hrow
      · rw [announced_step hcall hbids h.lone, hbids]
        exact h.announced
    · -- the commit: the event waits in the call until it is published
      rw [List.append_nil]
      obtain ⟨hledger, hevents⟩ := serialInv_commit h ha hcommit
      exact ⟨hlone, hcents, hledger, hevents⟩
    · -- the close, possibly between a bid's check and its commit
      cases hrow.symm.trans hrow₁
      refine ⟨hlone, hcents, ⟨_, hrow', ?_, ?_⟩, ?_⟩
      · rw [hbids]
        exact hagrees.closedAt
      · have hsame := checkedAbove_step habove hcall hrow
        exact hsame
      · rw [announced_step hcall hbids h.lone, hbids]
        exact h.announced

theorem SerialInv.ledgerAgrees {s : State} (h : SerialInv a initial s) :
    LedgerAgrees a initial s := by
  obtain ⟨row, hrow, hagrees, -⟩ := h.agrees
  refine ⟨⟨row, hrow, hagrees, ?_⟩, ?_, ?_⟩
  · intro b hb
    exact hagrees.top (Database.mem_topBids.mp hb)
  · intro b
    rw [Database.mem_topBids, hagrees.ascending.top_iff]
  · intro hidle
    have hnil : s.procs.flatMap (Call.pendingNewBids a) = [] := by
      rw [List.flatMap_eq_nil_iff]
      exact fun c hc => pending_of_not_placing (hidle c hc)
    have hannounced := h.announced
    rwa [hnil, List.append_nil] at hannounced

/-- What a schedule of serial bids in whole cents keeps to when no statement fails. -/
def SerialRun (a : ℤ) (s : State) (act : Action) (t : State) : Prop :=
  Serial a s act t ∧ ExactAmounts a s act t ∧ NoKill s act t

instance {s t : State} {act : Action} : Decidable (SerialRun a s act t) := by
  unfold SerialRun; infer_instance

/-- Along every schedule of serial bids the bids, the row, the highest-bid query and the events
    agree, and a closed auction stays closed. -/
theorem serial_ledger_agrees (w : World) (schedule : List Action)
    (hrow : w.db.auction a = some initial) (hwinner : initial.winnerId = none)
    (hbids : w.db.bidsOf a = [])
    (hrun : Along poolStep (SerialRun a) ⟨w, [], []⟩ schedule) :
    Always poolStep (LedgerAgrees a initial) ⟨w, [], []⟩ schedule ∧
      Along poolStep (fun s _ t => ClosedStays a s.world.db t.world.db) ⟨w, [], []⟩ schedule := by
  have hstart : SerialInv a initial ⟨w, [], []⟩ := by
    refine ⟨Nat.zero_le 1, by simp, ⟨initial, hrow, ?_, by simp [CheckedAbove]⟩, ?_⟩
    · rw [hbids]
      exact Agrees.start hwinner
    · rw [hbids]
      rfl
  have hkeep : ∀ s act t, SerialInv a initial s → SerialRun a s act t →
      poolStep s act = some t → SerialInv a initial t ∧ ClosedStays a s.world.db t.world.db := by
    intro s act t hs ⟨hserial, hexact, hkill⟩ ht
    have hpool := step_inv ht
    exact ⟨serialInv_step hs hserial hexact hkill hpool, closedStays_step hpool⟩
  exact (run_of_inv hkeep (fun s hs => hs.ledgerAgrees) schedule hstart hrun).symm

/-- Ann bids, the auction is closed between the check and the commit of Bob's higher bid. -/
def closeInBetween : List Action :=
  [.start (annBids 10), stmt 0 1, stmt 0 2, stmt 0 3, stmt 0 4, .start (bobBids 20), stmt 1 5,
    .start (.endAuction 1 .begin), stmt 2 6, stmt 2 7, stmt 1 8, stmt 1 9, stmt 2 10, stmt 1 11]

theorem serial_ledger_agrees_close_in_between :
    Always poolStep (LedgerAgrees 1 sampleRow) ⟨sampleWorld, [], []⟩ closeInBetween ∧
      Along poolStep (fun s _ t => ClosedStays 1 s.world.db t.world.db) ⟨sampleWorld, [], []⟩
        closeInBetween :=
  serial_ledger_agrees sampleWorld closeInBetween rfl rfl rfl (by decide +kernel)

end CarAuction
