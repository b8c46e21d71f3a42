import CarAuction.Browser
import CarAuction.CacheCoherence
import CarAuction.WholeCalls

/- Does the browser show the winning bid? Requests are served one after another, and
   what each sends goes all the way to `updateHighestBid`: the `newBid` and
   `auctionEnd` events that are published, and the `auctionState` event of a client
   that joins, whose `handleJoinAuction` begins with the `getAuctionState` request.

   `shown_iff`: along a run every amount, id and name shown is that of the winning bid
   exactly when the auction is not closed with a bid, whose `auctionEnd` event the
   browser reads under other names, and no bid is rounded by its column. -/
namespace CarAuction

open Sql Js Machine

/-- The arguments of `updateHighestBid` for a bid of that user. -/
def winningArguments (b : Bid) (winner : User) : HighestBid :=
  ⟨number b.amount.toRat, integer b.userId, text winner.username⟩

/-- Every winning bid is the one shown. -/
def ShowsWinning (user : ℤ → Option User) (bids : List Bid) (shown : Option HighestBid) : Prop :=
  ∀ b, Ledger.Top Bid.amount bids b → ∀ winner, user b.userId = some winner →
    shown = some (winningArguments b winner)

/-- What `getAuctionState` returns: the parsed entry of the cache, or the object just built. -/
def roomValue (w : World) (a : ℤ) (room : AuctionRoom) : JsValue :=
  if (w.getCache a).isSome then json room.toJs else room.toJs

/-- Whatever the request makes a browser show of the auction is the winning bid. -/
structure ShownRight (a : ℤ) (s : Services) (act : Request × Time) (t : Services) : Prop where
  published : ∀ events, channelEvents a t.log = channelEvents a s.log ++ events → ∀ p ∈ events,
    ShowsWinning t.world.db.user (t.world.db.bidsOf a) (shownOnPublish p)
  joined : act.1 = .getAuctionState a → ∀ w room, getAuctionState s.world a = some (w, room) →
    ShowsWinning s.world.db.user (s.world.db.bidsOf a) (shownOnJoin a (roomValue s.world a room))

/-- A bid on the auction carries the name its bidder has. -/
def Request.KnownOn (a : ℤ) (user : ℤ → Option User) : Request → Prop
  | .placeBid m => m.auctionId = a → user m.bidderId = some ⟨m.bidderUsername⟩
  | _ => True

/-- The request closes the auction with a bid, or stores a bid that its column rounds. -/
def ShowsWrong (user : ℤ → Option User) (a : ℤ) (v : AuctionSlice) (request : Request) : Prop :=
  Moves user a v request ∧
    match request with
    | .placeBid m => ¬ Numeric.HasScale 2 m.amount
    | .endAuction _ _ => v.bids ≠ []
    | _ => False

/-- What no state of an auction makes wrong. -/
def Request.ShownRightly : Request → Prop
  | .placeBid m => Numeric.HasScale 2 m.amount
  | .endAuction _ _ => False
  | _ => True

instance : DecidablePred Request.ShownRightly
  | .placeBid m => inferInstanceAs (Decidable (Numeric.HasScale 2 m.amount))
  | .endAuction _ _ => inferInstanceAs (Decidable False)
  | .getAuctionState _ => inferInstanceAs (Decidable True)
  | .expire _ => inferInstanceAs (Decidable True)

theorem not_showsWrong {user : ℤ → Option User} {a : ℤ} {v : AuctionSlice} {request : Request}
    (h : request.ShownRightly) : ¬ ShowsWrong user a v request := by
  rintro ⟨hmoves, hwrong⟩
  cases request with
  | placeBid m => exact hwrong h
  | endAuction auctionId pick => exact h
  | getAuctionState auctionId => exact hwrong
  | expire auctionId => exact hwrong

/-- The row names the winning bid, every bidder is a user, and the cached state of an auction with a bid
    says what the row does. -/
structure ShownInv (user : ℤ → Option User) (row : Auction) (v : AuctionSlice) : Prop where
  found : v.row = some row
  top : TopMatches row v.bids
  bidders : ∀ b ∈ v.bids, b.userId ≠ 0 ∧ (user b.userId).isSome
  cached : v.bids ≠ [] → ∀ room, v.cache = some room → RoomAgrees user row room

variable {a : ℤ} {user : ℤ → Option User} {row : Auction} {v v' : AuctionSlice} {s t : Services}
  {act : Request × Time} {room : AuctionRoom} {bids : List Bid} {b : Bid} {winner : User}
  {m : BidMessage} {stored : Decimal}

/-! What is shown on joining. -/

theorem shownOnJoin_roomValue (w : World) (room : AuctionRoom) :
    shownOnJoin a (roomValue w a room) = some ⟨room.currentHighestBid.toJs number,
      room.winnerId.toJs integer, room.winnerUsername.toJs text⟩ := by
  unfold roomValue
  split
  · rw [shownOnJoin_json, shownOnJoin_eq]
  · exact shownOnJoin_eq a room

theorem Field.eq_val {α : Type} {field : Field α} {x : α} (h : field.toOption = some x) :
    field = .val x := by
  cases field with
  | val y => cases h; rfl
  | _ => cases h

/-- A room that agrees with the row shows the bid that the row names. -/
theorem shownOnJoin_agrees (w : World) (htop : TopMatches row bids) (hb : Ledger.Top Bid.amount bids b)
    (hwinner : user b.userId = some winner) (h : RoomAgrees user row room) :
    shownOnJoin a (roomValue w a room) = some (winningArguments b winner) := by
  obtain ⟨hrowAmount, hrowWinner⟩ := htop b hb.1 hb
  obtain ⟨hamount, hid, hname, -⟩ := h
  have hid' : room.winnerId = .val b.userId := Field.eq_val (hid.trans hrowWinner)
  have hname' : room.winnerUsername = .val winner.username := by
    apply Field.eq_val
    rw [hname, hrowWinner, Option.bind_some, hwinner]
    rfl
  rw [shownOnJoin_roomValue, hamount, hid', hname', hrowAmount]
  rfl

/-- The winner of an auction with a bid is a user, whose name is the one found. -/
theorem ShownInv.rowRoom {username : Field String} (h : ShownInv user row v) (hne : v.bids ≠ [])
    (hname : winnerName user row = some username) : RoomAgrees user row (rowRoom row username) := by
  obtain ⟨b, hb⟩ := Ledger.exists_top Bid.amount hne
  obtain ⟨-, hwinner⟩ := h.top b hb.1 hb
  obtain ⟨hnonzero, hsome⟩ := h.bidders b hb.1
  obtain ⟨winner, huser⟩ := Option.isSome_iff_exists.mp hsome
  simp only [winnerName, hwinner, hnonzero, if_false, huser, Option.map_some] at hname
  cases hname
  refine ⟨rfl, Field.toOption_ofOption _, ?_, rfl⟩
  rw [hwinner, Option.bind_some, huser]
  rfl

theorem ShownInv.joined (h : ShownInv s.world.db.user row (s.slice a)) {w : World}
    (hcall : getAuctionState s.world a = some (w, room)) :
    ShowsWinning s.world.db.user (s.world.db.bidsOf a) (shownOnJoin a (roomValue s.world a room)) := by
  intro b hb winner hwinner
  have hne : (s.slice a).bids ≠ [] := List.ne_nil_of_mem hb.1
  apply shownOnJoin_agrees s.world h.top hb hwinner
  obtain ⟨cached, hcache, heq⟩ | ⟨-, ⟨hnone, -⟩ | ⟨row', hrow, ⟨-, heq⟩ | ⟨username, hname, heq⟩⟩⟩ :=
    getAuctionState_cases s.world a
  · cases hcall.symm.trans heq
    exact h.cached hne room hcache
  · cases h.found.symm.trans hnone
  · cases hcall.symm.trans heq
  · cases h.found.symm.trans hrow
    cases hcall.symm.trans heq
    exact h.rowRoom hne hname

/-! What is shown of the events. -/

/-- A bid that is accepted is a highest one, rounded or not. -/
theorem top_of_accepts (h : TopMatches row bids) (habove : row.currentHighestBid.toRat < m.amount)
    (hfits : Numeric.ofRat 14 2 m.amount = some b.amount) :
    row.currentHighestBid ≤ b.amount ∧ Ledger.Top Bid.amount (bids ++ [b]) b := by
  have hle : row.currentHighestBid ≤ b.amount :=
    Numeric.ofRat_mono (Numeric.ofRat_toRat _) hfits habove.le
  refine ⟨hle, by simp, fun d hd => ?_⟩
  rcases List.mem_append.mp hd with hold | hnew
  · obtain ⟨c, hc⟩ := Ledger.exists_top Bid.amount (List.ne_nil_of_mem hold)
    calc d.amount ≤ c.amount := hc.2 d hold
      _ = row.currentHighestBid := (h c hc.1 hc).1.symm
      _ ≤ b.amount := hle
  · rw [List.mem_singleton.mp hnew]

/-- A bid in whole cents is the one the row names afterwards. -/
theorem topMatches_accepts (h : TopMatches row bids) (habove : row.currentHighestBid.toRat < m.amount)
    (hexact : b.amount.toRat = m.amount) :
    TopMatches (row.withBid b.amount b.userId) (bids ++ [b]) := by
  have hraise : row.currentHighestBid < b.amount := by
    rw [← Numeric.toRat_lt, hexact]
    exact habove
  refine ((topMatches_commit h).mpr (not_or.mpr ⟨hraise.not_gt, ?_⟩)).1
  exact fun htie => hraise.ne' htie.2.1

/-- The browser shows the bid of the event as it was sent. -/
theorem showsWinning_newBid {newBid : NewBid} (hb : Ledger.Top Bid.amount bids b)
    (hwinner : user b.userId = some winner)
    (h : ShowsWinning user bids (shownOnPublish (.newBid a newBid))) :
    newBid.amount = b.amount.toRat := by
  have hshown := h b hb winner hwinner
  rw [shownOnPublish_newBid] at hshown
  have hamount := congrArg HighestBid.amount (Option.some.inj hshown)
  simpa [winningArguments, number] using hamount

/-- The events that a step publishes show the winning bid. -/
def EventsRight (user : ℤ → Option User) (v v' : AuctionSlice) : Prop :=
  ∀ events, v'.events = v.events ++ events → ∀ p ∈ events, ShowsWinning user v'.bids (shownOnPublish p)

theorem eventsRight_none (h : v'.events = v.events) : EventsRight user v v' := by
  intro events heq p hp
  rw [h] at heq
  rw [List.self_eq_append_right.mp heq] at hp
  cases hp

theorem eventsRight_one {p : Payload} (h : v'.events = v.events ++ [p]) :
    EventsRight user v v' ↔ ShowsWinning user v'.bids (shownOnPublish p) := by
  refine ⟨fun hright => hright [p] h p List.mem_cons_self, fun hshows events heq q hq => ?_⟩
  rw [h] at heq
  rw [← List.append_cancel_left heq] at hq
  rw [List.mem_singleton.mp hq]
  exact hshows

/-- The event of a close with a bid shows neither the id nor the name. -/
theorem not_eventsRight_auctionEnd {winningBid : WinningBidSummary} {message : EndMessage}
    (hb : Ledger.Top Bid.amount v'.bids b) (hwinner : user b.userId = some winner)
    (hevents : v'.events = v.events ++ [.auctionEnd a winningBid message]) :
    ¬ EventsRight user v v' := by
  rw [eventsRight_one hevents]
  intro hshows
  have hshown := hshows b hb winner hwinner
  rw [shownOnPublish_auctionEnd] at hshown
  simp [winningArguments, integer, number] at hshown

/-- The event of an accepted bid shows the winning bid exactly when the column keeps its amount. -/
theorem eventsRight_accepts {now : Time} (h : TopMatches row v.bids)
    (habove : row.currentHighestBid.toRat < m.amount) (hfits : Numeric.ofRat 14 2 m.amount = some stored)
    (huser : user m.bidderId = some ⟨m.bidderUsername⟩)
    (hbids : v'.bids = v.bids ++ [⟨stored, now, m.bidderId, a⟩])
    (hevents : v'.events = v.events ++ [.newBid a ⟨m.amount, m.bidderId, m.bidderUsername, now⟩]) :
    EventsRight user v v' ↔ Numeric.HasScale 2 m.amount := by
  rw [eventsRight_one hevents, hbids]
  constructor
  · intro hshows
    obtain ⟨-, htop⟩ := top_of_accepts (b := ⟨stored, now, m.bidderId, a⟩) h habove hfits
    have hsame : m.amount = stored.toRat := showsWinning_newBid htop huser hshows
    rw [hsame]
    exact Numeric.hasScale_toRat _
  · -- the row names every highest bid, and now it names this bidder
    intro hexact c hc winner hwinner
    have hstored : stored.toRat = m.amount := (Numeric.toRat_ofRat_eq hfits).mpr hexact
    have htop : TopMatches (row.withBid stored m.bidderId) _ :=
      topMatches_accepts (b := ⟨stored, now, m.bidderId, a⟩) h habove hstored
    obtain ⟨hamount, hid⟩ := htop c hc.1 hc
    have hamount : stored = c.amount := hamount
    have hid : m.bidderId = c.userId := Option.some.inj hid
    rw [← hid, huser] at hwinner
    cases hwinner
    rw [shownOnPublish_newBid, winningArguments, ← hamount, ← hid, hstored]

theorem ShownInv.accepts {now : Time} (hzero : user 0 = none) (h : ShownInv user row v)
    (haccepts : v.Accepts user m row stored) (hexact : Numeric.HasScale 2 m.amount)
    (huser : user m.bidderId = some ⟨m.bidderUsername⟩)
    (hrow : v'.row = some (row.withBid stored m.bidderId))
    (hbids : v'.bids = v.bids ++ [⟨stored, now, m.bidderId, a⟩])
    (hcache : v'.cache = some (newBidRoom m true)) :
    ShownInv user (row.withBid stored m.bidderId) v' := by
  have hstored : stored.toRat = m.amount := (Numeric.toRat_ofRat_eq haccepts.fits).mpr hexact
  refine ⟨hrow, ?_, fun b hb => ?_, fun _ room hroom => ?_⟩
  · rw [hbids]
    exact topMatches_accepts (b := ⟨stored, now, m.bidderId, a⟩) h.top haccepts.above hstored
  · rw [hbids] at hb
    rcases List.mem_append.mp hb with hold | hnew
    · exact h.bidders b hold
    · rw [List.mem_singleton.mp hnew]
      refine ⟨fun hid => ?_, haccepts.bidder⟩
      have hid : m.bidderId = 0 := hid
      rw [hid, hzero] at huser
      cases huser
  · cases hcache.symm.trans hroom
    exact ⟨by simp [newBidRoom, Auction.withBid, hstored], rfl,
      by simp [newBidRoom, Auction.withBid, huser],
      by simp [newBidRoom, Auction.withBid, haccepts.isOpen]⟩

theorem shown_accepts {now : Time} (hzero : user 0 = none) (h : ShownInv user row v)
    (ha : m.auctionId = a) (haccepts : v.Accepts user m row stored)
    (huser : user m.bidderId = some ⟨m.bidderUsername⟩)
    (hrow : v'.row = some (row.withBid stored m.bidderId))
    (hbids : v'.bids = v.bids ++ [⟨stored, now, m.bidderId, a⟩])
    (hcache : v'.cache = some (newBidRoom m true))
    (hevents : v'.events = v.events ++ [.newBid a ⟨m.amount, m.bidderId, m.bidderUsername, now⟩]) :
    (EventsRight user v v' ↔ ¬ ShowsWrong user a v (.placeBid m)) ∧
      (EventsRight user v v' → ∃ row', ShownInv user row' v') := by
  have hright := eventsRight_accepts h.top haccepts.above haccepts.fits huser hbids hevents
  refine ⟨hright.trans ⟨fun hexact hwrong => hwrong.2 hexact, fun hnot => ?_⟩, fun hshows => ?_⟩
  · by_contra hround
    exact hnot ⟨⟨ha, row, stored, haccepts⟩, hround⟩
  · exact ⟨_, h.accepts hzero haccepts (hright.mp hshows) huser hrow hbids hcache⟩

/-- What a step shows, against the kind of the step, and that it keeps the invariant when what it shows
    is right. -/
theorem shown_step (hzero : user 0 = none) (h : ShownInv user row v)
    (hstep : SliceStep user a v act v') (hknown : act.1.KnownOn a user) :
    (EventsRight user v v' ↔ ¬ ShowsWrong user a v act.1) ∧
      (EventsRight user v v' → ∃ row', ShownInv user row' v') := by
  cases hstep with
  | keeps hnot =>
    exact ⟨iff_of_true (eventsRight_none rfl) fun hwrong => hnot hwrong.1, fun _ => ⟨row, h⟩⟩
  | @accepts m now row' stored ha haccepts =>
    cases h.found.symm.trans haccepts.found
    exact shown_accepts hzero h ha haccepts (hknown ha) rfl rfl rfl rfl
  | @closesEmpty pick now row' hrow hopen hbids =>
    -- there is no winning bid to show
    cases h.found.symm.trans hrow
    refine ⟨iff_of_true ((eventsRight_one rfl).mpr fun b hb => ?_) fun hwrong => hwrong.2 hbids,
      fun _ => ⟨row.closedAt now, rfl, h.top.closedAt, h.bidders, fun hne => absurd hbids hne⟩⟩
    exact absurd hb.1 (hbids ▸ List.not_mem_nil)
  | closesWon hrow hopen htop huser =>
    -- the browser reads two properties that nobody has written
    refine ⟨iff_of_false (not_eventsRight_auctionEnd htop huser rfl) (not_not.mpr ?_), fun hright => ?_⟩
    · exact ⟨⟨rfl, _, hrow, hopen⟩, List.ne_nil_of_mem htop.1⟩
    · exact absurd hright (not_eventsRight_auctionEnd htop huser rfl)
  | throws hrow hopen htop huser =>
    have hsome := (h.bidders _ htop.1).2
    rw [huser] at hsome
    cases hsome
  | fills hcache hrow hname =>
    cases h.found.symm.trans hrow
    refine ⟨iff_of_true (eventsRight_none rfl) fun hwrong => hwrong.1,
      fun _ => ⟨row, hrow, h.top, h.bidders, ?_⟩⟩
    intro hne room hroom
    cases hroom
    exact h.rowRoom hne hname
  | expires =>
    refine ⟨iff_of_true (eventsRight_none rfl) fun hwrong => hwrong.1,
      fun _ => ⟨row, h.found, h.top, h.bidders, ?_⟩⟩
    intro _ room hroom
    cases hroom

theorem serve_shown (hzero : user 0 = none) (huser : s.world.db.user = user)
    (h : ShownInv user row (s.slice a)) (hknown : act.1.KnownOn a user) (hstep : serve s act = some t) :
    (ShownRight a s act t ↔ ¬ ShowsWrong s.world.db.user a (s.slice a) act.1) ∧
      (ShownRight a s act t → t.world.db.user = user ∧ ∃ row', ShownInv user row' (t.slice a)) := by
  subst huser
  obtain ⟨huser, hslice⟩ := serve_slice (a := a) hstep
  obtain ⟨hiff, hkeep⟩ := shown_step hzero h hslice hknown
  have hright : ShownRight a s act t ↔ EventsRight s.world.db.user (s.slice a) (t.slice a) := by
    constructor
    · intro hshown
      rw [← huser]
      exact hshown.published
    · intro hevents
      refine ⟨?_, fun _ w room hcall => h.joined hcall⟩
      rw [huser]
      exact hevents
  exact ⟨hright.trans hiff, fun hshown => ⟨huser, hkeep (hright.mp hshown)⟩⟩

/-- Along a run of whole requests the browser shows the winning bid, on every path, exactly when the
    auction is not closed with a bid and no bid is rounded by its column. -/
theorem shown_iff (a : ℤ) (s : Services) (row : Auction) (hzero : s.world.db.user 0 = none)
    (hstart : ShownInv s.world.db.user row (s.slice a)) (schedule : List (Request × Time))
    (hknown : ∀ act ∈ schedule, act.1.KnownOn a s.world.db.user) :
    Along serve (ShownRight a) s schedule ↔
      Along serve (fun s act _ => ¬ ShowsWrong s.world.db.user a (s.slice a) act.1) s schedule := by
  refine along_iff_of_run (I := fun t => t.world.db.user = s.world.db.user ∧
    ∃ row, ShownInv s.world.db.user row (t.slice a)) ?_ schedule ⟨rfl, row, hstart⟩ (along_of_forall hknown)
  rintro s act t ⟨huser, row, hinv⟩ hknown hstep
  exact serve_shown hzero huser hinv hknown hstep

/-- Ann leads with 10, and the auction is closed. -/
def leadingRow : Auction := sampleRow.withBid ⟨1000, by decide⟩ 7

def leadingServices : Services where
  world := { sampleWorld with
    db := { sampleWorld.db.setAuction 1 leadingRow with bid := [⟨⟨1000, by decide⟩, 0, 7, 1⟩] } }
  log := []

def closedLeading : List (Request × Time) := [(.getAuctionState 1, 1), (.endAuction 1 0, 2)]

theorem leading_inv : ShownInv leadingServices.world.db.user leadingRow (leadingServices.slice 1) := by
  refine ⟨rfl, ?_, ?_, fun _ room hroom => by cases hroom⟩
  · decide +kernel
  · decide +kernel

theorem end_shows_no_winner : ¬ Along serve (ShownRight 1) leadingServices [(.endAuction 1 0, 1)] := by
  intro h
  obtain ⟨t, ht⟩ := Option.isSome_iff_exists.mp
    (show (serve leadingServices (.endAuction 1 0, 1)).isSome by decide +kernel)
  have hknown : Request.KnownOn 1 leadingServices.world.db.user (.endAuction 1 0) := trivial
  have hstep := serve_shown rfl rfl leading_inv hknown ht
  exact hstep.1.mp (h t ht).1 ⟨⟨rfl, leadingRow, rfl, rfl⟩, List.cons_ne_nil _ _⟩

/-- Bob overtakes her, and no one closes the auction. -/
def bobOvertakes : List (Request × Time) :=
  [(.getAuctionState 1, 1), (.placeBid ⟨1, 20, 8, "bob", "socket-b"⟩, 2), (.getAuctionState 1, 3)]

theorem shown_iff_leading : (Along serve (ShownRight 1) leadingServices closedLeading ↔
    Along serve (fun s act _ => ¬ ShowsWrong s.world.db.user 1 (s.slice 1) act.1) leadingServices
      closedLeading) ∧ Along serve (ShownRight 1) leadingServices bobOvertakes := by
  refine ⟨shown_iff 1 leadingServices leadingRow rfl leading_inv closedLeading
    (by simp [closedLeading, Request.KnownOn]), ?_⟩
  have hknown : ∀ act ∈ bobOvertakes, act.1.KnownOn 1 leadingServices.world.db.user := by
    simp [bobOvertakes, Request.KnownOn, leadingServices, sampleWorld]
  refine (shown_iff 1 leadingServices leadingRow rfl leading_inv bobOvertakes hknown).mpr ?_
  have hright : ∀ act ∈ bobOvertakes, act.1.ShownRightly := by decide +kernel
  exact along_of_inv (I := fun _ => True) (fun _ _ _ _ hact _ => ⟨trivial, not_showsWrong hact⟩) _ trivial
    (along_of_forall hright)

end CarAuction
