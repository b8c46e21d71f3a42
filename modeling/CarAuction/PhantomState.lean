import CarAuction.SerialBids
import CarAuction.CacheCoherence

/- Where the values in the cache, in the answers of `getAuctionState` and in the
   events come from. Statements of different calls may read and write in any order,
   so such a value can be outdated; `no_phantom_state` says that it is never made
   up: amount, winner and name belong to one committed `Bid` row, or to the auction
   as created, and a state that says closed is one of a closed auction.

   Rows are only ever added to the `Bid` table and a closed auction stays closed, so
   what was right when a statement read it stays right (`Grows`). The invariant asks
   it of what every call holds in its local variables. -/
namespace CarAuction

open Sql Pool Machine

/-- The amount, the winner and the name are those of one of the bids, or all empty. -/
def Genuine (user : ℤ → Option User) (bids : List Bid) (amount : Number) (winnerId : Option ℤ)
    (winnerUsername : Option String) : Prop :=
  (amount = 0 ∧ winnerId = none ∧ winnerUsername = none) ∨
    ∃ b ∈ bids, amount = b.amount.toRat ∧ winnerId = some b.userId ∧
      winnerUsername = (user b.userId).map User.username ∧ (user b.userId).isSome

/-- The auction is closed. -/
def Closed (a : ℤ) (db : Database) : Prop := ∃ row ∈ db.auction a, row.isOpen = false

/-- The state is genuine, and says closed only of a closed auction. -/
def RoomGenuine (a : ℤ) (db : Database) (room : AuctionRoom) : Prop :=
  (∃ amount, room.currentHighestBid = .val amount ∧
    Genuine db.user (db.bidsOf a) amount room.winnerId.toOption room.winnerUsername.toOption) ∧
  (room.isOpen = .val false → Closed a db)

def NewBidGenuine (a : ℤ) (db : Database) (n : NewBid) : Prop :=
  Genuine db.user (db.bidsOf a) n.amount (some n.bidderId) (some n.bidderUsername)

def SummaryGenuine (a : ℤ) (db : Database) (winningBid : WinningBidSummary) : Prop :=
  Genuine db.user (db.bidsOf a) winningBid.amount winningBid.userId.toOption
    winningBid.username.toOption

/-- The states that `getAuctionState` has returned for the auction. -/
def Call.answer (a : ℤ) : Call → Option AuctionRoom
  | getAuctionState auctionId (.returned room) => if auctionId = a then some room else none
  | _ => none

/-- No phantom in the cache, in the answers for an existing auction or on the channel. -/
structure NoPhantom (a : ℤ) (s : State) : Prop where
  cache : ∀ room ∈ s.world.cache a, RoomGenuine a s.world.db room
  answers : ∀ c ∈ s.procs, ∀ room ∈ c.answer a, room.exist = true → RoomGenuine a s.world.db room
  newBids : ∀ n ∈ newBidsOf a s.log, NewBidGenuine a s.world.db n
  ends : ∀ winningBid ∈ auctionEndsOf a s.log, SummaryGenuine a s.world.db winningBid

/-- The row has the amount and the bidder of one of the bids, or none. -/
def RowGenuine (bids : List Bid) (row : Auction) : Prop :=
  (row.currentHighestBid = 0 ∧ row.winnerId = none) ∨
    ∃ b ∈ bids, row.currentHighestBid = b.amount ∧ row.winnerId = some b.userId

/-- What the call holds in its local variables. -/
def Call.Genuine (a : ℤ) (db : Database) : Call → Prop
  | placeBid m (.checked seen) => m.auctionId = a → seen.isOpen = true
  | placeBid m (.committed newBid isOpen) => m.auctionId = a →
    isOpen = true ∧ NewBidGenuine a db ⟨m.amount, m.bidderId, m.bidderUsername, newBid.timestamp⟩
  | placeBid m (.announced isOpen) => m.auctionId = a → RoomGenuine a db (newBidRoom m isOpen)
  | endAuction auctionId .closed => auctionId = a → Closed a db
  | endAuction auctionId (.summarised winningBid _) => auctionId = a →
    Closed a db ∧ SummaryGenuine a db winningBid
  | endAuction auctionId (.announced winningBid _) => auctionId = a →
    RoomGenuine a db (closedRoom winningBid)
  | getAuctionState auctionId (.foundRow seen winnerId) => auctionId = a →
    RowGenuine (db.bidsOf a) seen ∧ seen.winnerId = some winnerId ∧
      (seen.isOpen = false → Closed a db)
  | getAuctionState auctionId (.resolved room) => auctionId = a → RoomGenuine a db room
  | getAuctionState auctionId (.returned room) => auctionId = a → RoomGenuine a db room
  | _ => True

structure PhantomInv (a : ℤ) (s : State) : Prop where
  noUser : s.world.db.user 0 = none
  exact : ∀ c ∈ s.procs, c.ExactOn a
  known : ∀ c ∈ s.procs, c.KnownOn a s.world.db.user
  bidders : ∀ b ∈ s.world.db.bidsOf a, (s.world.db.user b.userId).isSome
  row : ∃ row, s.world.db.auction a = some row ∧ RowGenuine (s.world.db.bidsOf a) row
  calls : ∀ c ∈ s.procs, c.Genuine a s.world.db
  cache : ∀ room ∈ s.world.cache a, RoomGenuine a s.world.db room
  newBids : ∀ n ∈ newBidsOf a s.log, NewBidGenuine a s.world.db n
  ends : ∀ winningBid ∈ auctionEndsOf a s.log, SummaryGenuine a s.world.db winningBid

/-- The users are the same, bids are only added and a closed auction stays closed. -/
structure Grows (a : ℤ) (db db' : Database) : Prop where
  user : db'.user = db.user
  bids : db.bidsOf a ⊆ db'.bidsOf a
  closed : Closed a db → Closed a db'

variable {a : ℤ} {db db' : Database} {w w' : World} {room : AuctionRoom} {row : Auction}
  {bids : List Bid} {c c' : Call} {pubs log : List Publication} {s t : State} {act : Action}

/-! What is genuine stays genuine. -/

theorem Genuine.mono {user : ℤ → Option User} {bids' : List Bid} {amount : Number}
    {winnerId : Option ℤ} {name : Option String} (h : Genuine user bids amount winnerId name)
    (hsub : bids ⊆ bids') : Genuine user bids' amount winnerId name := by
  refine h.imp_right ?_
  intro ⟨b, hb, hrest⟩
  exact ⟨b, hsub hb, hrest⟩

namespace Grows

theorem newBidGenuine {n : NewBid} (h : Grows a db db') (hn : NewBidGenuine a db n) :
    NewBidGenuine a db' n := by
  unfold NewBidGenuine at hn ⊢
  rw [h.user]
  exact hn.mono h.bids

theorem summaryGenuine {winningBid : WinningBidSummary} (h : Grows a db db')
    (hw : SummaryGenuine a db winningBid) : SummaryGenuine a db' winningBid := by
  unfold SummaryGenuine at hw ⊢
  rw [h.user]
  exact hw.mono h.bids

theorem roomGenuine (h : Grows a db db') (hr : RoomGenuine a db room) :
    RoomGenuine a db' room := by
  obtain ⟨⟨amount, hamount, htriple⟩, hclosed⟩ := hr
  refine ⟨⟨amount, hamount, ?_⟩, fun hr => h.closed (hclosed hr)⟩
  rw [h.user]
  exact htriple.mono h.bids

theorem rowGenuine (h : Grows a db db') (hr : RowGenuine (db.bidsOf a) row) :
    RowGenuine (db'.bidsOf a) row := by
  refine hr.imp_right ?_
  intro ⟨b, hb, hrest⟩
  exact ⟨b, h.bids hb, hrest⟩

theorem call (h : Grows a db db') (hc : c.Genuine a db) : c.Genuine a db' := by
  unfold Call.Genuine at hc ⊢
  split at hc
  · exact hc
  · exact fun ha => ⟨(hc ha).1, h.newBidGenuine (hc ha).2⟩
  · exact fun ha => h.roomGenuine (hc ha)
  · exact fun ha => h.closed (hc ha)
  · exact fun ha => ⟨h.closed (hc ha).1, h.summaryGenuine (hc ha).2⟩
  · exact fun ha => h.roomGenuine (hc ha)
  · intro ha
    obtain ⟨hrow, hwinner, hclosed⟩ := hc ha
    exact ⟨h.rowGenuine hrow, hwinner, fun hseen => h.closed (hclosed hseen)⟩
  · exact fun ha => h.roomGenuine (hc ha)
  · exact fun ha => h.roomGenuine (hc ha)
  · trivial

end Grows

theorem genuine_of_begins (h : c.begins = true) : c.Genuine a db := by
  unfold Call.Genuine
  split <;> trivial

theorem genuine_of_throw (h : c.throw = some c') : c'.Genuine a db := by
  unfold Call.throw at h
  split at h
  · cases h
  · cases c <;> cases h <;> trivial

/-! What a statement makes of the row and of its local variables. -/

theorem RowGenuine.noWinner (h : RowGenuine bids row) (hzero : ∀ b ∈ bids, b.userId ≠ 0)
    (hwinner : row.winnerId = none ∨ row.winnerId = some 0) :
    row.currentHighestBid = 0 ∧ row.winnerId = none := by
  rcases h with hempty | ⟨b, hb, -, hid⟩
  · exact hempty
  · rw [hid] at hwinner
    simp [hzero b hb] at hwinner

/-- The state of a row without a winner. -/
theorem roomGenuine_noWinner (h : row.currentHighestBid = 0 ∧ row.winnerId = none)
    (hclosed : row.isOpen = false → Closed a db) : RoomGenuine a db (rowRoom row .undefined) := by
  obtain ⟨hamount, hwinner⟩ := h
  refine ⟨⟨0, ?_, .inl ⟨rfl, ?_, rfl⟩⟩, fun hopen => hclosed ?_⟩
  · rw [rowRoom, hamount, Numeric.toRat_zero]
  · rw [rowRoom, hwinner]
    rfl
  · simpa [rowRoom] using hopen

/-- The state of a row with a winner, whose name was read later. -/
theorem roomGenuine_winner {winnerId : ℤ} {user : User} (h : RowGenuine (db.bidsOf a) row)
    (hwinner : row.winnerId = some winnerId) (huser : db.user winnerId = some user)
    (hclosed : row.isOpen = false → Closed a db) :
    RoomGenuine a db (rowRoom row (.val user.username)) := by
  rcases h with ⟨-, hnone⟩ | ⟨b, hb, hamount, hid⟩
  · cases hnone.symm.trans hwinner
  · cases hid.symm.trans hwinner
    refine ⟨⟨b.amount.toRat, ?_, .inr ⟨b, hb, rfl, ?_, ?_, ?_⟩⟩, fun hopen => hclosed ?_⟩
    · rw [rowRoom, hamount]
    · rw [rowRoom, hwinner]
      rfl
    · rw [huser]
      rfl
    · rw [huser]
      rfl
    · simpa [rowRoom] using hopen

namespace CallStep

variable {i : Input}

theorem grows (h : CallStep i w c w' c' pubs) : Grows a w.db w'.db := by
  refine ⟨h.user_eq, ?_, fun ⟨row, hrow, hclosed⟩ => h.closedStays row hrow hclosed⟩
  rcases h.rows_cases a with ⟨-, hbids, -⟩ | ⟨m, seen, newBid, ha, -, -, -, hcommit⟩ |
    ⟨row, -, -, -, -, -, hbids⟩
  · rw [hbids]
    exact List.Subset.refl _
  · obtain ⟨-, -, -, -, -, -, hbids⟩ := Database.commitBid_self hcommit ha
    rw [hbids]
    exact List.subset_append_left _ _
  · rw [hbids]
    exact List.Subset.refl _

/-- The call that moves holds genuine values after its statement. -/
theorem genuine {log : List Publication} {l r : List Call} (h : CallStep i w c w' c' pubs)
    (hinv : PhantomInv a ⟨w, l ++ c :: r, log⟩) : c'.Genuine a w'.db := by
  have hmem : c ∈ l ++ c :: r := mem_split.mpr (.inl rfl)
  have hc := hinv.calls c hmem
  have hzero : ∀ b ∈ w.db.bidsOf a, b.userId ≠ 0 := by
    intro b hb hid
    have hsome := hinv.bidders b hb
    rw [hid, hinv.noUser] at hsome
    cases hsome
  obtain ⟨row, hrow, hgenuine⟩ := hinv.row
  cases h with
  | bidPasses hcheck => exact fun _ => (checkBid_ok.mp hcheck).2.1
  | @bidCommits m seen db newBid hcommit =>
    intro ha
    obtain ⟨-, -, hamount, -, hb, -, hbids⟩ := Database.commitBid_self hcommit ha
    have hsame : newBid.amount.toRat = m.amount :=
      (Numeric.toRat_ofRat_eq hamount).mpr (hinv.exact _ hmem m rfl ha)
    have hbidder : newBid.userId = m.bidderId := by rw [hb]
    have huser : db.user newBid.userId = some ⟨m.bidderUsername⟩ := by
      rw [hbidder, Database.commitBid_user hcommit]
      exact hinv.known _ hmem m rfl ha
    refine ⟨hc ha, .inr ⟨newBid, ?_, hsame.symm, ?_, ?_, ?_⟩⟩
    · rw [hbids]
      simp
    · rw [hbidder]
    · rw [huser]
      rfl
    · rw [huser]
      rfl
  | bidPublishes =>
    intro ha
    obtain ⟨hopen, hbid⟩ := hc ha
    refine ⟨⟨_, rfl, hbid⟩, fun hclosed => ?_⟩
    rw [hopen] at hclosed
    cases hclosed
  | endCloses hseen =>
    intro ha
    subst ha
    exact ⟨_, Database.setAuction_auction_self, rfl⟩
  | endNoBids => exact fun ha => ⟨hc ha, .inl ⟨rfl, rfl, rfl⟩⟩
  | endWinner hbest huser =>
    intro ha
    subst ha
    refine ⟨hc rfl, .inr ⟨_, hbest.1, rfl, rfl, ?_, ?_⟩⟩
    · rw [huser]
      rfl
    · rw [huser]
      rfl
  | endPublishes => exact fun ha => ⟨⟨_, rfl, (hc ha).2⟩, fun _ => (hc ha).1⟩
  | stateHit hcache =>
    intro ha
    subst ha
    exact hinv.cache _ hcache
  | stateUnknown hnone =>
    intro ha
    subst ha
    cases hrow.symm.trans hnone
  | stateNoWinner hseen hwinner =>
    intro ha
    subst ha
    cases hrow.symm.trans hseen
    exact roomGenuine_noWinner (hgenuine.noWinner hzero hwinner) (fun hclosed => ⟨row, hrow, hclosed⟩)
  | stateRow hseen hwinner _ =>
    intro ha
    subst ha
    cases hrow.symm.trans hseen
    exact ⟨hgenuine, hwinner, fun hclosed => ⟨row, hrow, hclosed⟩⟩
  | stateUser huser =>
    intro ha
    obtain ⟨hseen, hwinner, hclosed⟩ := hc ha
    exact roomGenuine_winner hseen hwinner huser hclosed
  | stateCaches => exact hc
  | _ => trivial

/-- The row and the bids after the statement. -/
theorem row_genuine {log : List Publication} {l r : List Call} (h : CallStep i w c w' c' pubs)
    (hinv : PhantomInv a ⟨w, l ++ c :: r, log⟩) :
    (∃ row, w'.db.auction a = some row ∧ RowGenuine (w'.db.bidsOf a) row) ∧
      ∀ b ∈ w'.db.bidsOf a, (w'.db.user b.userId).isSome := by
  obtain ⟨row, hrow, hgenuine⟩ := hinv.row
  have hbidders := hinv.bidders
  dsimp only at hrow hgenuine hbidders
  rw [h.user_eq]
  rcases h.rows_cases a with ⟨hsame, hbids, -⟩ | ⟨m, seen, newBid, ha, -, -, -, hcommit⟩ |
    ⟨row₁, -, -, -, hrow₁, hrow', hbids⟩
  · rw [hsame, hbids]
    exact ⟨⟨row, hrow, hgenuine⟩, hbidders⟩
  · obtain ⟨row₁, -, -, huser, -, hrow', hbids⟩ := Database.commitBid_self hcommit ha
    rw [hbids]
    refine ⟨⟨_, hrow', .inr ⟨newBid, by simp, rfl, rfl⟩⟩, fun b hb => ?_⟩
    rcases List.mem_append.mp hb with hb | hb
    · exact hbidders b hb
    · rw [List.mem_singleton.mp hb]
      exact huser
  · cases hrow.symm.trans hrow₁
    rw [hbids]
    exact ⟨⟨_, hrow', hgenuine⟩, hbidders⟩

/-- What is written to the cache and published was held by the call. -/
theorem cache_genuine {log : List Publication} {l r : List Call} (h : CallStep i w c w' c' pubs)
    (hinv : PhantomInv a ⟨w, l ++ c :: r, log⟩) :
    ∀ room ∈ w'.cache a, RoomGenuine a w'.db room := by
  have hc := hinv.calls c (mem_split.mpr (.inl rfl))
  rcases h.cache_cases with ⟨-, hsame⟩ | ⟨written, hwrites, rfl⟩
  · intro room hroom
    rw [hsame] at hroom
    exact h.grows.roomGenuine (hinv.cache room hroom)
  · intro room hroom
    by_cases ha : c.auctionId = a
    · rw [ha, World.setCache_cache_self] at hroom
      cases hroom
      unfold Call.writes at hwrites
      split at hwrites <;> cases hwrites
      · exact hc ha
      · exact hc ha
      · exact hc ha
    · rw [World.setCache_cache_of_ne (Ne.symm ha)] at hroom
      exact hinv.cache room hroom

theorem newBids_genuine {log : List Publication} {l r : List Call} (h : CallStep i w c w' c' pubs)
    (hinv : PhantomInv a ⟨w, l ++ c :: r, log⟩) :
    ∀ n ∈ newBidsOf a pubs, NewBidGenuine a w'.db n := by
  intro n hn
  have hc := hinv.calls c (mem_split.mpr (.inl rfl))
  cases h with
  | bidPublishes =>
    rw [newBidsOf_newBidPublication] at hn
    split at hn
    · next ha =>
      rw [List.mem_singleton.mp hn]
      exact (hc ha).2
    · cases hn
  | _ => cases hn

theorem ends_genuine {log : List Publication} {l r : List Call} (h : CallStep i w c w' c' pubs)
    (hinv : PhantomInv a ⟨w, l ++ c :: r, log⟩) :
    ∀ winningBid ∈ auctionEndsOf a pubs, SummaryGenuine a w'.db winningBid := by
  intro winningBid hw
  have hc := hinv.calls c (mem_split.mpr (.inl rfl))
  cases h with
  | @endPublishes auctionId winningBid' message =>
    by_cases ha : auctionId = a
    · have heq : winningBid = winningBid' := by
        simpa [auctionEndsOf, auctionEndPublication, ha] using hw
      rw [heq]
      exact (hc ha).2
    · simp [auctionEndsOf, auctionEndPublication, ha] at hw
  | _ => cases hw

end CallStep

theorem phantomInv_step (h : PhantomInv a s) (hexact : ExactAmounts a s act t)
    (hknown : KnownBidders a s act t) (hstep : Pool.Step system s act t) : PhantomInv a t := by
  have hcents := exactOn_step hstep h.exact hexact
  have hnames := knownOn_step hstep h.known hknown
  have hzero : t.world.db.user 0 = none := user_step hstep ▸ h.noUser
  cases hstep with
  | start hbegins =>
    refine ⟨hzero, hcents, hnames, h.bidders, h.row, fun q hq => ?_, h.cache, h.newBids, h.ends⟩
    rcases List.mem_append.mp hq with hq | hq
    · exact h.calls q hq
    · rw [List.mem_singleton.mp hq]
      exact genuine_of_begins hbegins
  | @env w procs log key =>
    refine ⟨hzero, hcents, hnames, h.bidders, h.row, h.calls, fun room hroom => ?_, h.newBids, h.ends⟩
    by_cases hkey : a = key
    · subst hkey
      simp [system] at hroom
    · have hroom' : (w.expireCache key).cache a = some room := hroom
      rw [World.expireCache_cache_of_ne hkey] at hroom'
      exact h.cache room hroom'
  | kill hk =>
    refine ⟨hzero, hcents, hnames, h.bidders, h.row, ?_, h.cache, h.newBids, h.ends⟩
    exact forall_replace h.calls (fun _ => genuine_of_throw hk)
  | @run w w' l r log c c' pubs i hc =>
    have hcall := callStep_inv hc
    obtain ⟨hrow, hbidders⟩ := hcall.row_genuine h
    refine ⟨hzero, hcents, hnames, hbidders, hrow, fun q hq => ?_, hcall.cache_genuine h, ?_, ?_⟩
    · rcases mem_split.mp hq with rfl | hq
      · exact hcall.genuine h
      · exact hcall.grows.call (h.calls q (mem_split.mpr (.inr hq)))
    · intro n hn
      rw [newBidsOf_append, List.mem_append] at hn
      rcases hn with hn | hn
      · exact hcall.grows.newBidGenuine (h.newBids n hn)
      · exact hcall.newBids_genuine h n hn
    · intro winningBid hw
      rw [auctionEndsOf_append, List.mem_append] at hw
      rcases hw with hw | hw
      · exact hcall.grows.summaryGenuine (h.ends winningBid hw)
      · exact hcall.ends_genuine h winningBid hw

theorem PhantomInv.noPhantom (h : PhantomInv a s) : NoPhantom a s := by
  refine ⟨h.cache, fun c hc room hroom _ => ?_, h.newBids, h.ends⟩
  have hgenuine := h.calls c hc
  unfold Call.answer at hroom
  split at hroom
  · next auctionId returned =>
    split at hroom
    · next ha =>
      cases hroom
      exact hgenuine ha
    · cases hroom
  · cases hroom

/-- Whole cents by users under their own names. -/
def NamedRun (a : ℤ) (s : State) (act : Action) (t : State) : Prop :=
  ExactAmounts a s act t ∧ KnownBidders a s act t

instance : Decidable (NamedRun a s act t) := by
  unfold NamedRun KnownBidders Call.KnownOn; infer_instance

/-- A bid, two reads and the close, with the reads answered from outdated rows. -/
def readsInBetween : List Action :=
  [.start (.getAuctionState 1 .begin), stmt 0 1, stmt 0 2, .start (annBids 10), stmt 1 3, stmt 1 4,
    .start (.endAuction 1 .begin), stmt 2 5, stmt 2 6, .start (.getAuctionState 1 .begin), stmt 3 7,
    stmt 3 8, stmt 1 9, stmt 1 10, stmt 0 11, stmt 3 12, stmt 3 13, stmt 2 14, stmt 2 15, stmt 2 16]

end CarAuction
