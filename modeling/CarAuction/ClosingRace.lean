import CarAuction.AuctionRow

/- `endAuction` against `placeBid`. The check that an auction is open and the
   commit of the bid are one transaction, but at READ COMMITTED nothing keeps the
   row from being closed between them: the bid then commits into a closed auction,
   and a winner that was announced before is not the winner of the row. `Disturbs`
   lists the statements that start such a run; `closing_is_final` says that without
   them, bids placed one after another leave a closed auction alone and every
   `auctionEnd` event names the winner and the amount of the row. -/
namespace CarAuction

open Sql Pool Machine

/-- The announced winner is the one of the row, and so is every highest bid. -/
def Summarises (winningBid : WinningBidSummary) (row : Auction) (bids : List Bid) : Prop :=
  (winningBid.amount = row.currentHighestBid.toRat ∧ winningBid.userId.toOption = row.winnerId) ∧
    ∀ b ∈ bids, Ledger.Top Bid.amount bids b →
      winningBid.amount = b.amount.toRat ∧ winningBid.userId = .val b.userId

/-- Every `auctionEnd` event of the auction names the winner. -/
def EndsAgree (a : ℤ) (s : State) : Prop :=
  ∀ winningBid ∈ auctionEndsOf a s.log, ∃ row ∈ s.world.db.auction a,
    Summarises winningBid row (s.world.db.bidsOf a)

/-- A closed auction gets no more bids. -/
def NoBidAfterClose (a : ℤ) (db db' : Database) : Prop :=
  ∀ row ∈ db.auction a, row.isOpen = false → db'.bidsOf a = db.bidsOf a

/-- The next statement of the call disturbs the close: it closes the auction while a bid is between
    its check and its commit, or looks for the winner where a row without bids has an amount or a
    winner, or commits a bid that the row stores as a tie with somebody else's. -/
def Call.Disturbs (a : ℤ) (db : Database) (procs : List Call) (c : Call) : Prop :=
  (c = .endAuction a .foundOpen ∧ ∃ q ∈ procs, (q.checkedBid a).isSome) ∨
  (c = .endAuction a .closed ∧ db.bidsOf a = [] ∧
    ∃ row ∈ db.auction a, row.currentHighestBid ≠ 0 ∨ row.winnerId ≠ none) ∨
  c.Commits a db fun row amount bidderId => Ties row (db.bidsOf a) amount bidderId

def Disturbs (a : ℤ) (s : State) (act : Action) : Prop :=
  ∃ c ∈ moving s act, c.Disturbs a s.world.db s.procs

/-- What the progress of a call says of the row. -/
def Call.Settled (a : ℤ) (row : Auction) (bids : List Bid) : Call → Prop
  | placeBid m (.checked _) =>
    m.auctionId = a → row.isOpen = true ∧ row.currentHighestBid.toRat < m.amount
  | endAuction auctionId .closed => auctionId = a → row.isOpen = false
  | endAuction auctionId (.summarised winningBid _) =>
    auctionId = a → row.isOpen = false ∧ Summarises winningBid row bids
  | _ => True

/-- What holds between any two statements. -/
structure ClosingInv (a : ℤ) (s : State) : Prop where
  lone : Lone (Call.placing a) s.procs
  settled : ∃ row, s.world.db.auction a = some row ∧ TopMatches row (s.world.db.bidsOf a) ∧
    (∀ c ∈ s.procs, c.Settled a row (s.world.db.bidsOf a)) ∧
    ∀ winningBid ∈ auctionEndsOf a s.log,
      row.isOpen = false ∧ Summarises winningBid row (s.world.db.bidsOf a)

variable {a : ℤ} {row row' : Auction} {bids : List Bid} {b : Bid} {now : Time}

theorem summarises_winner {user : User} (h : TopMatches row bids)
    (hb : Ledger.Top Bid.amount bids b) : Summarises (winnerSummary b user) row bids := by
  obtain ⟨hamount, hwinner⟩ := h b hb.1 hb
  refine ⟨⟨by rw [hamount]; rfl, hwinner.symm⟩, fun c hc htop => ?_⟩
  obtain ⟨hamount', hwinner'⟩ := h c hc htop
  rw [hwinner, Option.some.injEq] at hwinner'
  exact ⟨by rw [← hamount', hamount]; rfl, by rw [← hwinner']; rfl⟩

theorem summarises_noBids (hamount : row.currentHighestBid = 0) (hwinner : row.winnerId = none) :
    Summarises noBidsSummary row [] := by
  refine ⟨⟨by rw [hamount, Numeric.toRat_zero]; rfl, hwinner.symm⟩, nofun⟩

namespace CallStep

variable {i : Input} {w w' : World} {c c' : Call} {pubs : List Publication}

/-- The call that moves is settled with the row it leaves behind. -/
theorem settled (h : CallStep i w c w' c' pubs) (hrow : w.db.auction a = some row)
    (hrow' : w'.db.auction a = some row') (htop : TopMatches row (w.db.bidsOf a))
    (hc : c.Settled a row (w.db.bidsOf a)) {procs : List Call}
    (hquiet : ¬ c.Disturbs a w.db procs) : c'.Settled a row' (w'.db.bidsOf a) := by
  cases h with
  | @bidPasses m seen hcheck =>
    intro ha
    obtain ⟨hseen, hopen, hhigh⟩ := checkBid_ok.mp hcheck
    rw [ha, hrow'] at hseen
    cases hseen
    exact ⟨hopen, hhigh⟩
  | @endCloses auctionId seen hseen =>
    intro ha
    subst ha
    rw [Database.setAuction_auction_self] at hrow'
    cases hrow'
    rfl
  | @endNoBids auctionId hnil =>
    intro ha
    subst ha
    cases hrow.symm.trans hrow'
    have hfresh : row.currentHighestBid = 0 ∧ row.winnerId = none := by
      by_contra hne
      rw [not_and_or] at hne
      exact hquiet (.inr (.inl ⟨rfl, hnil, row, hrow, hne⟩))
    rw [hnil]
    exact ⟨hc rfl, summarises_noBids hfresh.1 hfresh.2⟩
  | @endWinner auctionId winningBid user hbest huser =>
    intro ha
    subst ha
    cases hrow.symm.trans hrow'
    exact ⟨hc rfl, summarises_winner htop hbest⟩
  | _ => trivial

theorem mem_auctionEnds (h : CallStep i w c w' c' pubs) {winningBid : WinningBidSummary}
    (hw : winningBid ∈ auctionEndsOf a pubs) :
    ∃ message, c = .endAuction a (.summarised winningBid message) := by
  cases h with
  | @endPublishes auctionId winningBid' message =>
    by_cases ha : auctionId = a
    · subst ha
      simp only [auctionEndsOf, auctionEndPublication, List.filterMap_cons, if_pos,
        List.filterMap_nil, List.mem_singleton] at hw
      subst hw
      exact ⟨message, rfl⟩
    · rw [(CallStep.endPublishes (i := i) (w := w)).frame_auctionEnds ha] at hw
      cases hw
  | _ => cases hw

end CallStep

theorem settled_of_begins {c : Call} (h : c.begins = true) : c.Settled a row bids := by
  unfold Call.Settled
  split
  · cases h
  · cases h
  · cases h
  · trivial

theorem settled_of_throw {c c' : Call} (h : c.throw = some c') : c'.Settled a row bids := by
  obtain ⟨-, hf, -, -⟩ := Call.throw_eq h
  unfold Call.Settled
  split
  · cases hf
  · cases hf
  · cases hf
  · trivial

/-- A call that does not place a bid stays settled when the open row takes one. -/
theorem settled_commit {q : Call} (hq : q.Settled a row bids) (hopen : row.isOpen = true)
    (hplacing : q.placing a = false) : q.Settled a row' (bids ++ [b]) := by
  have hnot : row.isOpen ≠ false := by simp [hopen]
  unfold Call.Settled at hq ⊢
  split at hq
  · next m seen =>
    intro ha
    simp [Call.placing, Call.finished, ha] at hplacing
  · exact fun ha => absurd (hq ha) hnot
  · exact fun ha => absurd (hq ha).1 hnot
  · trivial

theorem settled_close {q : Call} (hq : q.Settled a row bids) (hchecked : q.checkedBid a = none) :
    q.Settled a (row.closedAt now) bids := by
  unfold Call.Settled at hq ⊢
  split at hq
  · next m seen =>
    intro ha
    simp [Call.checkedBid, ha] at hchecked
  · exact fun _ => rfl
  · exact fun ha => ⟨rfl, (hq ha).2⟩
  · trivial

/-- The bid that the only call in progress commits keeps the row right. -/
theorem topMatches_serial_commit {db db' : Database} {m : BidMessage} {newBid : Bid}
    (h : TopMatches row (db.bidsOf a)) (ha : m.auctionId = a) (hrow : db.auction a = some row)
    (hhigh : row.currentHighestBid.toRat < m.amount)
    (hcommit : db.commitBid m now = .ok (db', newBid))
    (htie : ∀ amount, db.Accepts m row amount → ¬ Ties row (db.bidsOf a) amount m.bidderId) :
    ∃ row', db'.auction a = some row' ∧ row'.isOpen = row.isOpen ∧ TopMatches row' (db'.bidsOf a) ∧
      db'.bidsOf a = db.bidsOf a ++ [newBid] := by
  obtain ⟨row₁, hrow₁, hamount, -, hb, hrow', hbids⟩ := Database.commitBid_self hcommit ha
  cases hrow.symm.trans hrow₁
  have hle : row.currentHighestBid ≤ newBid.amount :=
    Numeric.ofRat_mono (Numeric.ofRat_toRat _) hamount hhigh.le
  have hties : ¬ Ties row (db.bidsOf a) newBid.amount newBid.userId := by
    obtain ⟨row₂, haccept⟩ := accepts_of_commitBid hcommit
    cases hrow.symm.trans (ha ▸ haccept.1)
    have hbidder : newBid.userId = m.bidderId := by rw [hb]
    rw [hbidder]
    exact htie _ haccept
  refine ⟨_, hrow', rfl, ?_, hbids⟩
  rw [hbids]
  exact ((topMatches_commit h).mpr (not_or.mpr ⟨not_lt.mpr hle, hties⟩)).1

theorem closingInv_step {s t : State} {act : Action} (h : ClosingInv a s)
    (hserial : Serial a s act t) (hquiet : ¬ Disturbs a s act)
    (hstep : Pool.Step system s act t) :
    ClosingInv a t ∧ NoBidAfterClose a s.world.db t.world.db := by
  have hlone := lone_step hstep h.lone hserial
  obtain ⟨row, hrow, htop, hsettled, hends⟩ := h.settled
  cases hstep with
  | @start w procs log c hbegins =>
    refine ⟨⟨hlone, row, hrow, htop, fun q hq => ?_, hends⟩, fun _ _ _ => rfl⟩
    rcases List.mem_append.mp hq with hq | hq
    · exact hsettled q hq
    · rw [List.mem_singleton.mp hq]
      exact settled_of_begins hbegins
  | env k => exact ⟨⟨hlone, row, hrow, htop, hsettled, hends⟩, fun _ _ _ => rfl⟩
  | kill hk =>
    refine ⟨⟨hlone, row, hrow, htop, ?_, hends⟩, fun _ _ _ => rfl⟩
    exact forall_replace hsettled (fun _ => settled_of_throw hk)
  | @run w w' l r log c c' pubs i hc =>
    have hcall := callStep_inv hc
    have hcalm : ¬ c.Disturbs a w.db (l ++ c :: r) := fun hd => hquiet ⟨c, by simp, hd⟩
    have hmoved := hsettled c (mem_split.mpr (.inl rfl))
    have hothers : ∀ q ∈ l ++ r, q.Settled a row (w.db.bidsOf a) :=
      fun q hq => hsettled q (mem_split.mpr (.inr hq))
    rcases hcall.rows_cases a with
      ⟨hrow', hbids, -⟩ | ⟨m, seen, newBid, ha, rfl, rfl, rfl, hcommit⟩ |
      ⟨row₁, rfl, rfl, rfl, hrow₁, hrow', hbids⟩
    · have hc' := hcall.settled hrow (hrow'.trans hrow) htop hmoved hcalm
      rw [hbids] at hc'
      refine ⟨⟨hlone, row, hrow'.trans hrow, ?_⟩, fun _ _ _ => hbids⟩
      show TopMatches row (w'.db.bidsOf a) ∧ (∀ q ∈ l ++ c' :: r, q.Settled a row (w'.db.bidsOf a)) ∧ _
      rw [hbids]
      refine ⟨htop, forall_replace hsettled (fun _ => hc'), fun winningBid hw => ?_⟩
      -- a new event is the one its call had ready
      rw [auctionEndsOf_append, List.mem_append] at hw
      rcases hw with hw | hw
      · exact hends winningBid hw
      · obtain ⟨message, rfl⟩ := hcall.mem_auctionEnds hw
        exact hmoved rfl
    · -- a bid commits: the auction is open, so nothing has been announced
      obtain ⟨hopen, hhigh⟩ := hmoved ha
      have hnot : row.isOpen ≠ false := by simp [hopen]
      have hchecked : (Call.placeBid m (.checked seen)).checkedBid a = some m :=
        Call.checkedBid_eq_some.mpr ⟨ha, seen, rfl⟩
      obtain ⟨row', hrow', -, htop', hbids⟩ := topMatches_serial_commit htop ha hrow hhigh hcommit
        (fun amount haccept htie => hcalm (.inr (.inr ⟨m, row, amount, hchecked, haccept, htie⟩)))
      refine ⟨⟨hlone, row', hrow', htop', fun q hq => ?_, fun winningBid hw => ?_⟩, ?_⟩
      · rcases mem_split.mp hq with rfl | hq
        · trivial
        · show q.Settled a row' (w'.db.bidsOf a)
          rw [hbids]
          exact settled_commit (hothers q hq) hopen
            (h.lone.others (Call.placing_of_checkedBid hchecked) q hq)
      · rw [List.append_nil] at hw
        exact absurd (hends winningBid hw).1 hnot
      · intro row₂ hrow₂ hclosed
        cases hrow.symm.trans hrow₂
        exact absurd hclosed hnot
    · -- the auction is closed, and no bid is past its check
      cases hrow.symm.trans hrow₁
      refine ⟨⟨hlone, _, hrow', ?_⟩, fun _ _ _ => hbids⟩
      show TopMatches _ (w'.db.bidsOf a) ∧
        (∀ q ∈ l ++ .endAuction a .closed :: r, q.Settled a _ (w'.db.bidsOf a)) ∧ _
      rw [hbids]
      refine ⟨htop.closedAt, fun q hq => ?_, fun winningBid hw => ?_⟩
      · rcases mem_split.mp hq with rfl | hq
        · exact fun _ => rfl
        · refine settled_close (hothers q hq) ?_
          by_contra hne
          exact hcalm (.inl ⟨rfl, q, mem_split.mpr (.inr hq), Option.isSome_iff_ne_none.mpr hne⟩)
      · rw [List.append_nil] at hw
        exact ⟨rfl, (hends winningBid hw).2⟩

theorem ClosingInv.endsAgree {s : State} (h : ClosingInv a s) : EndsAgree a s := by
  obtain ⟨row, hrow, -, -, hends⟩ := h.settled
  exact fun winningBid hw => ⟨row, hrow, (hends winningBid hw).2⟩

/-- Along every schedule of serial bids in which nothing disturbs the close, no bid is committed
    after it and every announced winner is the one of the row. -/
theorem closing_is_final (w : World) (schedule : List Action)
    (hrow : w.db.auction a = some row) (htop : TopMatches row (w.db.bidsOf a))
    (hserial : Along poolStep (Serial a) ⟨w, [], []⟩ schedule)
    (hquiet : Along poolStep (fun s act _ => ¬ Disturbs a s act) ⟨w, [], []⟩ schedule) :
    Along poolStep (fun s _ t => NoBidAfterClose a s.world.db t.world.db) ⟨w, [], []⟩ schedule ∧
      Always poolStep (EndsAgree a) ⟨w, [], []⟩ schedule := by
  have hstart : ClosingInv a ⟨w, [], []⟩ :=
    ⟨Nat.zero_le 1, row, hrow, htop, by simp, fun _ hw => by cases hw⟩
  have hrun := along_and schedule hserial hquiet
  have hkeep : ∀ s act t, ClosingInv a s → Serial a s act t ∧ ¬ Disturbs a s act →
      poolStep s act = some t → ClosingInv a t ∧ NoBidAfterClose a s.world.db t.world.db := by
    intro s act t hs ⟨hserial, hquiet⟩ ht
    exact closingInv_step hs hserial hquiet (step_inv ht)
  exact run_of_inv hkeep (fun s hs => hs.endsAgree) schedule hstart hrun

instance {winningBid : WinningBidSummary} : Decidable (Summarises winningBid row bids) := by
  unfold Summarises; infer_instance

instance {s : State} : Decidable (EndsAgree a s) := by unfold EndsAgree; infer_instance

instance {s : State} {act : Action} : Decidable (Disturbs a s act) := by
  unfold Disturbs Call.Disturbs; infer_instance

instance {db db' : Database} : Decidable (NoBidAfterClose a db db') := by
  unfold NoBidAfterClose; infer_instance

/-- The auction is closed, and its winner announced, after Bob's bid was checked and before it
    commits. All three calls return. -/
def bidAfterClose : List Action :=
  [.start (annBids 10), stmt 0 1, stmt 0 2, stmt 0 3, stmt 0 4, .start (bobBids 20), stmt 1 5,
    .start (.endAuction 1 .begin), stmt 2 6, stmt 2 7, stmt 2 8, stmt 2 9, stmt 2 10,
    stmt 1 11, stmt 1 12, stmt 1 13]

theorem bid_commits_after_close :
    Along poolStep (Serial 1) ⟨sampleWorld, [], []⟩ bidAfterClose ∧
      (∃ s ∈ exec poolStep ⟨sampleWorld, [], []⟩ bidAfterClose,
        (∀ c ∈ s.procs, c.finished = true) ∧ ¬ EndsAgree 1 s) ∧
      ¬ Along poolStep (fun s _ t => NoBidAfterClose 1 s.world.db t.world.db)
        ⟨sampleWorld, [], []⟩ bidAfterClose := by
  decide +kernel

/-- The same calls one after another. -/
def bidThenClose : List Action :=
  [.start (annBids 10), stmt 0 1, stmt 0 2, .start (.endAuction 1 .begin), stmt 1 3, stmt 0 4,
    stmt 1 5, stmt 1 6, stmt 0 7, stmt 1 8, stmt 1 9]

theorem closing_is_final_bid_then_close :
    Along poolStep (fun s _ t => NoBidAfterClose 1 s.world.db t.world.db)
        ⟨sampleWorld, [], []⟩ bidThenClose ∧
      Always poolStep (EndsAgree 1) ⟨sampleWorld, [], []⟩ bidThenClose :=
  closing_is_final sampleWorld bidThenClose rfl TopMatches.nil (by decide +kernel)
    (by decide +kernel)

end CarAuction
