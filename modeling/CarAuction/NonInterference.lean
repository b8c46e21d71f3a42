import CarAuction.Lib.Isolation
import CarAuction.Schedule

/- Calls on different auctions. Every statement reads and writes only the row, the
   bids, the cache key and the channel of the auction its call was given, and the
   users; so a run looks to an auction like the run of its own calls alone. This is
   an instance of the isolation of pools: the tag of a call is its auction, the part
   of the world with that tag is what `SameOn` compares.

   `AuctionView` is all there is of an auction in a state: what the claims about one
   auction are about. -/
namespace CarAuction

open Sql Pool Machine

/-- The stores have the same users and the same of the auction. -/
structure SameOn (a : ℤ) (w u : World) : Prop where
  user : u.db.user = w.db.user
  auction : u.db.auction a = w.db.auction a
  bids : u.db.bidsOf a = w.db.bidsOf a
  cache : u.cache a = w.cache a

/-- The message is on the channel of the auction, or a rejection that carries its id. -/
def Publication.concerns (a : ℤ) (p : Publication) : Bool :=
  match p.channel with
  | .auctionUpdates auctionId => auctionId = a
  | .emitToSocket => p.payload.auctionId = a
  | .sessionUpdates => false

/-- What there is of an auction: its row, bids and cache key, the messages on its channel, the
    rejections with its id, and the calls on it with what they have returned. -/
structure AuctionView where
  row : Option Auction
  bids : List Bid
  cache : Option AuctionRoom
  updates : List Payload
  rejections : List Payload
  calls : List Call
  deriving DecidableEq

def view (a : ℤ) (s : State) : AuctionView where
  row := s.world.db.auction a
  bids := s.world.db.bidsOf a
  cache := s.world.cache a
  updates := channelEvents a s.log
  rejections := (s.log.filter (fun p => p.channel = .emitToSocket ∧ p.payload.auctionId = a)).map
    Publication.payload
  calls := s.procs.filter (fun c => c.auctionId = a)

/-- The steps of the calls on the auction, in the pool that has only those. -/
def auctionSteps (a : ℤ) : State → List Action → List Action := ownSteps system Call.auctionId id a

variable {a : ℤ} {w w' u : World} {c c' : Call} {pubs log : List Publication} {m : BidMessage}
  {now : Time} {db db' db₂ : Database} {newBid : Bid} {e : DbError}

/-! A statement over other stores with the same of its auction. -/

theorem SameOn.setCache (h : SameOn a w u) (room : AuctionRoom) :
    SameOn a (w.setCache a room) (u.setCache a room) := by
  refine ⟨h.user, h.auction, h.bids, ?_⟩
  rw [World.setCache_cache_self, World.setCache_cache_self]

theorem SameOn.setAuction (h : SameOn a w u) (row : Auction) :
    SameOn a { w with db := w.db.setAuction a row } { u with db := u.db.setAuction a row } := by
  refine ⟨h.user, ?_, h.bids, h.cache⟩
  exact Database.setAuction_auction_self.trans Database.setAuction_auction_self.symm

/-- A commit that one database takes the other takes as well, with the same row. -/
theorem commitBid_same (h : SameOn m.auctionId w u)
    (hcommit : w.db.commitBid m now = .ok (db', newBid)) :
    ∃ db₂, u.db.commitBid m now = .ok (db₂, newBid) ∧
      SameOn m.auctionId { w with db := db' } { u with db := db₂ } := by
  obtain ⟨row, hrow, huser, hamount, hv, hb, rfl⟩ := Database.commitBid_eq_ok.mp hcommit
  have hid : newBid.auctionId = m.auctionId := by rw [hb]
  let db₂ := (u.db.addBid newBid).setAuction m.auctionId (row.withBid newBid.amount m.bidderId)
  have hu : u.db.commitBid m now = .ok (db₂, newBid) := by
    refine Database.commitBid_eq_ok.mpr ⟨row, ?_, ?_, hamount, hv, hb, rfl⟩
    · rw [h.auction]
      exact hrow
    · rw [h.user]
      exact huser
  refine ⟨db₂, hu, h.user, ?_, ?_, h.cache⟩
  · exact Database.setAuction_auction_self.trans Database.setAuction_auction_self.symm
  · show (u.db.addBid newBid).bidsOf m.auctionId = (w.db.addBid newBid).bidsOf m.auctionId
    rw [← hid, Database.addBid_bidsOf_self, Database.addBid_bidsOf_self, hid, h.bids]

theorem SameOn.symm (h : SameOn a w u) : SameOn a u w :=
  ⟨h.user.symm, h.auction.symm, h.bids.symm, h.cache.symm⟩

theorem commitBid_error_same (h : SameOn m.auctionId w u)
    (hcommit : w.db.commitBid m now = .error e) : ∃ e', u.db.commitBid m now = .error e' := by
  cases hu : u.db.commitBid m now with
  | error e' => exact ⟨e', rfl⟩
  | ok r =>
    obtain ⟨db₂, hok, -⟩ := commitBid_same h.symm hu
    cases hcommit.symm.trans hok

theorem placeBidStep_same {pc pc' : PlaceBidPc} (h : SameOn m.auctionId w u)
    (hs : placeBidStep m now w pc = some (w', pc', pubs)) :
    ∃ u', placeBidStep m now u pc = some (u', pc', pubs) ∧ SameOn m.auctionId w' u' := by
  cases pc with
  | begin =>
    simp only [placeBidStep, Database.auctionFindUnique, h.auction] at hs ⊢
    split at hs
    · next row hc =>
      cases hs
      exact ⟨u, rfl, h⟩
    · next e hc =>
      cases hs
      exact ⟨u, rfl, h⟩
  | checked row =>
    simp only [placeBidStep] at hs ⊢
    split at hs
    · next db newBid hc =>
      cases hs
      obtain ⟨db₂, hu, hsame⟩ := commitBid_same h hc
      exact ⟨_, by rw [hu], hsame⟩
    · next e hc =>
      cases hs
      obtain ⟨e', hu⟩ := commitBid_error_same h hc
      exact ⟨u, by rw [hu], h⟩
  | committed newBid isOpen => cases hs; exact ⟨u, rfl, h⟩
  | announced isOpen => cases hs; exact ⟨_, rfl, h.setCache _⟩
  | rejected e => cases hs; exact ⟨u, rfl, h⟩
  | returned => cases hs
  | threw => cases hs

theorem topBids_same (h : SameOn a w u) : u.db.topBids a = w.db.topBids a := by
  simp only [Database.topBids, h.bids]

theorem endAuctionStep_same {pick : ℕ} {pc pc' : EndAuctionPc} (h : SameOn a w u)
    (hs : endAuctionStep a now pick w pc = some (w', pc', pubs)) :
    ∃ u', endAuctionStep a now pick u pc = some (u', pc', pubs) ∧ SameOn a w' u' := by
  cases pc with
  | begin =>
    simp only [endAuctionStep, Database.auctionFindUnique, h.auction] at hs ⊢
    split at hs
    · cases hs
      exact ⟨u, rfl, h⟩
    · next row hrow =>
      split at hs
      · next hclosed => cases hs; exact ⟨u, if_pos hclosed, h⟩
      · next hopen => cases hs; exact ⟨u, if_neg hopen, h⟩
  | foundOpen =>
    simp only [endAuctionStep, Database.auctionUpdateClosed, h.auction] at hs ⊢
    cases hrow : w.db.auction a with
    | none =>
      rw [hrow] at hs
      cases hs
      exact ⟨u, rfl, h⟩
    | some row =>
      rw [hrow] at hs
      cases hs
      exact ⟨_, rfl, h.setAuction _⟩
  | closed =>
    simp only [endAuctionStep, Database.userFindUnique, topBids_same h, h.user] at hs ⊢
    split at hs
    · next ht => cases hs; exact ⟨u, rfl, h⟩
    · next b bs ht =>
      split at hs
      · cases hs
      · next winningBid hp =>
        split at hs
        · cases hs; exact ⟨u, rfl, h⟩
        · cases hs; exact ⟨u, rfl, h⟩
  | summarised winningBid message => cases hs; exact ⟨u, rfl, h⟩
  | announced winningBid message => cases hs; exact ⟨_, rfl, h.setCache _⟩
  | returned summary => cases hs
  | threw => cases hs

theorem getAuctionStateStep_same {pc pc' : GetStatePc} (h : SameOn a w u)
    (hs : getAuctionStateStep a w pc = some (w', pc')) :
    ∃ u', getAuctionStateStep a u pc = some (u', pc') ∧ SameOn a w' u' := by
  cases pc with
  | begin =>
    simp only [getAuctionStateStep, World.getCache, h.cache] at hs ⊢
    split at hs
    · cases hs; exact ⟨u, rfl, h⟩
    · cases hs; exact ⟨u, rfl, h⟩
  | missed =>
    simp only [getAuctionStateStep, Database.auctionFindUnique, h.auction] at hs ⊢
    split at hs
    · cases hs; exact ⟨u, rfl, h⟩
    · next row hrow =>
      split at hs
      · cases hs; exact ⟨u, rfl, h⟩
      · next winnerId hw =>
        split at hs
        · next h0 => cases hs; exact ⟨u, if_pos h0, h⟩
        · next h0 => cases hs; exact ⟨u, if_neg h0, h⟩
  | foundRow row winnerId =>
    simp only [getAuctionStateStep, Database.userFindUnique, h.user] at hs ⊢
    split at hs
    · cases hs; exact ⟨u, rfl, h⟩
    · cases hs; exact ⟨u, rfl, h⟩
  | resolved room => cases hs; exact ⟨_, rfl, h.setCache _⟩
  | returned room => cases hs
  | threw => cases hs

theorem callStep_same {i : Input} (h : SameOn c.auctionId w u)
    (hs : callStep i w c = some (w', c', pubs)) :
    ∃ u', callStep i u c = some (u', c', pubs) ∧ SameOn c.auctionId w' u' := by
  cases c with
  | placeBid m pc =>
    obtain ⟨⟨w₁, pc₁, pubs₁⟩, hstep, heq⟩ := Option.map_eq_some_iff.mp hs
    cases heq
    obtain ⟨u', hu, hsame⟩ := placeBidStep_same h hstep
    exact ⟨u', Option.map_eq_some_iff.mpr ⟨_, hu, rfl⟩, hsame⟩
  | endAuction auctionId pc =>
    obtain ⟨⟨w₁, pc₁, pubs₁⟩, hstep, heq⟩ := Option.map_eq_some_iff.mp hs
    cases heq
    obtain ⟨u', hu, hsame⟩ := endAuctionStep_same h hstep
    exact ⟨u', Option.map_eq_some_iff.mpr ⟨_, hu, rfl⟩, hsame⟩
  | getAuctionState auctionId pc =>
    obtain ⟨⟨w₁, pc₁⟩, hstep, heq⟩ := Option.map_eq_some_iff.mp hs
    cases heq
    obtain ⟨u', hu, hsame⟩ := getAuctionStateStep_same h hstep
    exact ⟨u', Option.map_eq_some_iff.mpr ⟨_, hu, rfl⟩, hsame⟩

/-! The pool of calls is isolated by auction. -/

namespace CallStep

variable {i : Input}

/-- A message concerns the auction of the call that publishes it, and no other. -/
theorem concerns_eq (h : CallStep i w c w' c' pubs) (a : ℤ) :
    ∀ p ∈ pubs, p.concerns a = decide (c.auctionId = a) := by
  intro p hp
  cases h with
  | bidPublishes =>
    rw [List.mem_singleton.mp hp]
    exact decide_eq_decide.mpr Iff.rfl
  | bidRejects =>
    rw [List.mem_singleton.mp hp]
    exact decide_eq_decide.mpr Iff.rfl
  | endPublishes =>
    rw [List.mem_singleton.mp hp]
    exact decide_eq_decide.mpr Iff.rfl
  | _ => cases hp

theorem same_of_ne (h : CallStep i w c w' c' pubs) (hne : c.auctionId ≠ a) (hsame : SameOn a w u) :
    SameOn a w' u where
  user := hsame.user.trans h.user_eq.symm
  auction := hsame.auction.trans (h.frame_auction hne).symm
  bids := hsame.bids.trans (h.frame_bidsOf hne).symm
  cache := hsame.cache.trans (h.frame_cache hne).symm

end CallStep

theorem system_isolated :
    Isolated system Call.auctionId id Publication.concerns SameOn where
  refl a w := ⟨rfl, rfl, rfl, rfl⟩
  step_tag i w c w' c' pubs h := (callStep_inv h).auctionId_eq
  kill_tag c c' h := (Call.throw_eq h).2.2.1
  own i w u c w' c' pubs h hs := by
    refine ⟨fun p hp => ?_, callStep_same h hs⟩
    rw [(callStep_inv hs).concerns_eq c.auctionId p hp]
    exact decide_eq_true rfl
  other a i w u c w' c' pubs hne h hs := by
    refine ⟨fun p hp => ?_, (callStep_inv hs).same_of_ne hne h⟩
    rw [(callStep_inv hs).concerns_eq a p hp]
    exact decide_eq_false hne
  env_own k w u h := by
    refine ⟨h.user, h.auction, h.bids, ?_⟩
    exact World.expireCache_cache_self.trans World.expireCache_cache_self.symm
  env_other a k w u hne h := by
    refine ⟨h.user, h.auction, h.bids, h.cache.trans ?_⟩
    exact (World.expireCache_cache_of_ne (Ne.symm hne)).symm

theorem channelEvents_concerns :
    channelEvents a (log.filter (Publication.concerns a)) = channelEvents a log := by
  unfold channelEvents
  rw [List.filter_filter]
  congr 2
  funext p
  by_cases hp : p.channel = .auctionUpdates a <;> simp [hp, Publication.concerns]

/-- The rejections that carry the id of the auction. -/
theorem rejections_concerns :
    (log.filter (Publication.concerns a)).filter
        (fun p => p.channel = .emitToSocket ∧ p.payload.auctionId = a) =
      log.filter (fun p => p.channel = .emitToSocket ∧ p.payload.auctionId = a) := by
  rw [List.filter_filter]
  congr 1
  funext p
  by_cases hp : p.channel = .emitToSocket <;> simp [hp, Publication.concerns]

/-- What the auction's own calls leave is all there is of the auction. -/
theorem view_of_projects {s t : State}
    (h : Projects Call.auctionId Publication.concerns SameOn a s t) : view a t = view a s := by
  obtain ⟨hworld, hprocs, hlog⟩ := h
  unfold view
  rw [hworld.auction, hworld.bids, hworld.cache, hprocs, hlog, channelEvents_concerns,
    rejections_concerns, List.filter_filter]
  simp

/-- A run looks to every auction like the run of the auction's own steps; so two runs with the same
    steps for each auction end in the same state of every auction. -/
theorem auctions_do_not_interfere {t : State} (w : World) (schedule : List Action)
    (ht : exec poolStep ⟨w, [], []⟩ schedule = some t) :
    (∀ a, ∃ u, exec poolStep ⟨w, [], []⟩ (auctionSteps a ⟨w, [], []⟩ schedule) = some u ∧
      view a u = view a t) ∧
    ∀ other v, exec poolStep ⟨w, [], []⟩ other = some v →
      (∀ a, auctionSteps a ⟨w, [], []⟩ other = auctionSteps a ⟨w, [], []⟩ schedule) →
      v.world.db.user = t.world.db.user ∧ ∀ a, view a v = view a t := by
  have hown : ∀ schedule t, exec poolStep ⟨w, [], []⟩ schedule = some t → ∀ a,
      ∃ u, exec poolStep ⟨w, [], []⟩ (auctionSteps a ⟨w, [], []⟩ schedule) = some u ∧
        view a u = view a t := by
    intro schedule t ht a
    obtain ⟨u, hu, hprojects⟩ := own_run system_isolated (a := a) schedule ht
    exact ⟨u, hu, view_of_projects hprojects⟩
  have huser : ∀ schedule (t : State), exec poolStep ⟨w, [], []⟩ schedule = some t →
      t.world.db.user = w.db.user := by
    intro schedule t ht
    refine exec_of_inv (I := fun s : State => s.world.db.user = w.db.user) ?_ schedule rfl ht
    intro s act t hs hstep
    exact (user_step (step_inv hstep)).trans hs
  refine ⟨hown schedule t ht, fun other v hv hsame => ⟨?_, fun a => ?_⟩⟩
  · exact (huser other v hv).trans (huser schedule t ht).symm
  · obtain ⟨u, hu, hview⟩ := hown schedule t ht a
    obtain ⟨u', hu', hview'⟩ := hown other v hv a
    rw [hsame a] at hu'
    cases hu.symm.trans hu'
    exact hview'.symm.trans hview

/-- Bob bids on auction 2 while Ann's bid on auction 1 and the end of auction 1 are under way. -/
def callsOnTwoAuctions : List Action :=
  [.start (annBids 10), stmt 0 1, .start (.placeBid ⟨2, 20, 8, "bob", "socket-b"⟩ .begin), stmt 1 2,
    stmt 0 3, .start (.endAuction 1 .begin), stmt 1 4, stmt 2 5, stmt 0 6, stmt 2 7, stmt 1 8,
    stmt 2 9, stmt 1 10, stmt 2 11, stmt 0 12, stmt 2 13]

/-- The small world with a second open auction. -/
def twoAuctionWorld : World :=
  { sampleWorld with db := sampleWorld.db.setAuction 2 sampleRow }

theorem auctions_do_not_interfere_two :
    ∃ t ∈ exec poolStep ⟨twoAuctionWorld, [], []⟩ callsOnTwoAuctions, ∀ a,
      ∃ u, exec poolStep ⟨twoAuctionWorld, [], []⟩
          (auctionSteps a ⟨twoAuctionWorld, [], []⟩ callsOnTwoAuctions) = some u ∧ view a u = view a t := by
  obtain ⟨t, ht⟩ : ∃ t, exec poolStep ⟨twoAuctionWorld, [], []⟩ callsOnTwoAuctions = some t :=
    Option.isSome_iff_exists.mp (by decide +kernel)
  exact ⟨t, ht, (auctions_do_not_interfere twoAuctionWorld callsOnTwoAuctions ht).1⟩

end CarAuction
