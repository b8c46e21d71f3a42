import CarAuction.Screen
import CarAuction.CacheCoherence

/- Does a joining client converge to the state of the auction? `handleJoinAuction`
   reads the state first and joins the room three awaits later, and then emits what it
   has read. A bid or an end delivered in between reaches everyone but this client:
   `joining_client_misinformed` leaves it with the amount before the bid.
   `joining_client_converges` says that in a run in which no join emits a state that
   is outdated by then, and bids are in whole cents, the client is right whenever
   everything has finished and been delivered: it shows the amount of the row, or the
   auction is closed and it has been disconnected.

   A state that is outdated does no harm while the event that corrects it is still to
   be delivered, so `Misinforms` asks for one that nothing will correct. -/
namespace CarAuction

open Machine Sql

/-- The client shows the row's amount of an open auction, or is disconnected from a closed one. -/
def Converged (a : ℤ) (id : SocketId) (s : Joining) : Prop :=
  ∃ row ∈ s.world.db.auction a,
    (row.isOpen = true ∧ s.shown = .val row.currentHighestBid.toRat) ∨
      (row.isOpen = false ∧ ∀ socket ∈ s.sockets, socket.id ≠ id)

/-- The `endAuction` call has not begun, or is over. -/
def EndAuctionPc.idle : EndAuctionPc → Bool
  | begin => true
  | returned _ => true
  | threw => true
  | _ => false

/-- The join, by an exception or not, and `endAuction` have finished, and every message has been
    delivered. -/
def Joining.settled (s : Joining) : Prop :=
  (s.join = .finished ∨ s.reading = .threw) ∧ s.ending.idle = true ∧ s.inbox = []

/-- `auctionEnd` is still to be published. -/
def EndAuctionPc.announces : EndAuctionPc → Bool
  | closed => true
  | summarised _ _ => true
  | _ => false

def EndToCome (a : ℤ) (s : Joining) : Prop :=
  s.ending.announces = true ∨ auctionEndsOf a s.inbox ≠ []

/-- The state that the next statement of the join emits. -/
def JoinPc.emits : JoinPc → Option AuctionRoom
  | announced room => some room
  | _ => none

/-- The join emits an amount that is not the row's, with no new bid to be delivered, or the state of
    an open auction when the auction is closed and `auctionEnd` has been delivered; or a bid that
    passes the checks, above the amount of an open row, is not in whole cents. -/
def Misinforms (a : ℤ) (s : Joining) : JoiningAction → Prop
  | .join _ => ∃ room ∈ s.join.emits, ∃ row ∈ s.world.db.auction a,
    (row.isOpen = true ∧ room.currentHighestBid ≠ .val row.currentHighestBid.toRat ∧
      newBidsOf a s.inbox = []) ∨
    (row.isOpen = false ∧ room.open? = true ∧ ¬ EndToCome a s)
  | .placeBid m _ => ¬ Numeric.HasScale 2 m.amount ∧ ∃ row ∈ s.world.db.auction a,
    row.isOpen = true ∧ row.currentHighestBid.toRat < m.amount
  | _ => False

/-! What holds between any two steps. -/

/-- The state of an auction that exists, which is open as long as the auction is. -/
def RoomOk (row : Auction) (room : AuctionRoom) : Prop :=
  room.exist = true ∧ (row.isOpen = true → room.isOpen = .val true)

def GetStatePc.Ok (user : ℤ → Option User) (row : Auction) : GetStatePc → Prop
  | foundRow seen winnerId => (row.isOpen = true → seen.isOpen = true) ∧ (user winnerId).isSome
  | resolved room => RoomOk row room
  | returned room => RoomOk row room
  | threw => False
  | _ => True

def JoinPc.Ok (row : Auction) : JoinPc → Prop
  | notFound => False
  | foundRoom room => RoomOk row room
  | listed room => RoomOk row room
  | registered room => RoomOk row room
  | announced room => RoomOk row room
  | _ => True

def EndAuctionPc.Ok (row : Auction) : EndAuctionPc → Prop
  | closed => row.isOpen = false
  | summarised _ _ => row.isOpen = false
  | announced _ _ => row.isOpen = false
  | threw => False
  | _ => True

/-- The client that has joined shows the right amount when the inbox is empty, or is disconnected by
    then. -/
def Informed (a : ℤ) (id : SocketId) (row : Auction) (s : Joining) : Prop :=
  (row.isOpen = true ∧ InRoom a id s.sockets ∧
    catchUp a s.shown s.inbox = .val row.currentHighestBid.toRat) ∨
  (row.isOpen = false ∧ (Gone id s.sockets ∨ InRoom a id s.sockets ∧ EndToCome a s))

structure JoiningOk (a : ℤ) (id : SocketId) (row : Auction) (s : Joining) : Prop where
  auction : s.world.db.auction a = some row
  bidders : ∀ b ∈ s.world.db.bidsOf a, (s.world.db.user b.userId).isSome
  winner : ∀ winnerId ∈ row.winnerId, (s.world.db.user winnerId).isSome
  cache : ∀ room ∈ s.world.cache a, RoomOk row room
  reading : s.reading.Ok s.world.db.user row
  join : s.join.Ok row
  ending : s.ending.Ok row
  inbox : ∀ p ∈ s.inbox, OfAuction a p
  amounts : newBidsOf a s.inbox ≠ [] →
    catchUp a .undefined s.inbox = .val row.currentHighestBid.toRat
  ends : row.isOpen = true → auctionEndsOf a s.inbox = []
  before : s.join ≠ .finished → Outside a id s.sockets
  after : s.join = .finished → Informed a id row s

variable {a : ℤ} {id : SocketId} {client : Client} {row row' : Auction} {s t : Joining} {w : World}
  {user : ℤ → Option User} {m : BidMessage} {now : Time} {pick : ℕ} {pubs : List Publication}

/-! The state that is read. -/

theorem roomOk_rowRoom {seen : Auction} {winnerUsername : Field String}
    (h : row.isOpen = true → seen.isOpen = true) : RoomOk row (rowRoom seen winnerUsername) :=
  ⟨rfl, fun hopen => by rw [rowRoom, h hopen]⟩

theorem RoomOk.mono {room : AuctionRoom} (h : RoomOk row room)
    (hopen : row'.isOpen = true → row.isOpen = true) : RoomOk row' room :=
  ⟨h.1, fun ho => h.2 (hopen ho)⟩

theorem GetStatePc.Ok.mono {pc : GetStatePc} (h : pc.Ok user row)
    (hopen : row'.isOpen = true → row.isOpen = true) : pc.Ok user row' := by
  cases pc with
  | begin => trivial
  | missed => trivial
  | foundRow seen winnerId => exact ⟨fun ho => h.1 (hopen ho), h.2⟩
  | resolved room => exact RoomOk.mono h hopen
  | returned room => exact RoomOk.mono h hopen
  | threw => exact h

theorem JoinPc.Ok.mono {pc : JoinPc} (h : pc.Ok row)
    (hopen : row'.isOpen = true → row.isOpen = true) : pc.Ok row' := by
  cases pc with
  | begin => trivial
  | notFound => exact h
  | foundRoom room => exact RoomOk.mono h hopen
  | listed room => exact RoomOk.mono h hopen
  | registered room => exact RoomOk.mono h hopen
  | announced room => exact RoomOk.mono h hopen
  | finished => trivial

/-- `getAuctionState` leaves the rows alone, and returns a state of the auction. -/
theorem reading_step {pc : GetStatePc} (h : JoiningOk a id row s)
    (hstep : getAuctionStateStep a s.world s.reading = some (w, pc)) :
    w.db = s.world.db ∧ (∀ room ∈ w.cache a, RoomOk row room) ∧ pc.Ok w.db.user row := by
  have hreading := h.reading
  cases hpc : s.reading with
  | begin =>
    simp only [getAuctionStateStep, hpc, World.getCache] at hstep
    split at hstep
    · next room hroom => cases hstep; exact ⟨rfl, h.cache, h.cache room hroom⟩
    · cases hstep; exact ⟨rfl, h.cache, trivial⟩
  | missed =>
    simp only [getAuctionStateStep, hpc, Database.auctionFindUnique, h.auction] at hstep
    split at hstep
    · cases hstep; exact ⟨rfl, h.cache, roomOk_rowRoom fun ho => ho⟩
    · next winnerId hwinner =>
      split at hstep
      · cases hstep; exact ⟨rfl, h.cache, roomOk_rowRoom fun ho => ho⟩
      · cases hstep; exact ⟨rfl, h.cache, fun ho => ho, h.winner winnerId hwinner⟩
  | foundRow seen winnerId =>
    rw [hpc] at hreading
    obtain ⟨winner, hwinner⟩ := Option.isSome_iff_exists.mp hreading.2
    simp only [getAuctionStateStep, hpc, Database.userFindUnique, hwinner] at hstep
    cases hstep
    exact ⟨rfl, h.cache, roomOk_rowRoom hreading.1⟩
  | resolved room =>
    rw [hpc] at hreading
    simp only [getAuctionStateStep, hpc] at hstep
    cases hstep
    refine ⟨rfl, fun room' hroom' => ?_, hreading⟩
    rw [World.setCache_cache_self] at hroom'
    cases hroom'
    exact hreading
  | returned room => simp [getAuctionStateStep, hpc] at hstep
  | threw => simp [getAuctionStateStep, hpc] at hstep

theorem joiningOk_read (h : JoiningOk a id row s)
    (hstep : joiningStep client id a s .read = some t) : JoiningOk a id row t := by
  obtain ⟨⟨w, pc⟩, hread, rfl⟩ := Option.map_eq_some_iff.mp hstep
  obtain ⟨hdb, hcache, hpc⟩ := reading_step h hread
  refine ⟨?_, ?_, ?_, hcache, hpc, h.join, h.ending, h.inbox, h.amounts, h.ends, h.before, h.after⟩
  · rw [hdb]; exact h.auction
  · rw [hdb]; exact h.bidders
  · rw [hdb]; exact h.winner

/-! The join. -/

/-- A statement of the handler before the last one. -/
theorem JoiningOk.advance (h : JoiningOk a id row s) {r : Registry} {pc : JoinPc}
    (hjoin : s.join ≠ .finished) (hok : pc.Ok row) (hpc : pc ≠ .finished) :
    JoiningOk a id row { s with registry := r, join := pc } :=
  ⟨h.auction, h.bidders, h.winner, h.cache, h.reading, hok, h.ending, h.inbox, h.amounts, h.ends,
    fun _ => h.before hjoin, fun hfinished => absurd hfinished hpc⟩

/-- What the client shows of a state that is not outdated, or will be corrected. -/
theorem catchUp_emitted {room : AuctionRoom} (h : JoiningOk a id row s)
    (hcurrent : newBidsOf a s.inbox = [] → room.currentHighestBid = .val row.currentHighestBid.toRat) :
    catchUp a room.currentHighestBid s.inbox = .val row.currentHighestBid.toRat := by
  by_cases hnone : newBidsOf a s.inbox = []
  · rw [catchUp, hnone]
    exact hcurrent hnone
  · rw [catchUp_eq_of_ne_nil hnone .undefined]
    exact h.amounts hnone

/-- The last statement: the client joins the room and is told the state. -/
theorem informed_enter {room : AuctionRoom} {r : Registry} (h : JoiningOk a id row s)
    (hpc : s.join = .announced room) (hquiet : ¬ Misinforms a s (.join now)) :
    Informed a id row ((enterRoom a room).foldl (Joining.perform id)
      { s with registry := r, join := .finished }) := by
  have hroom : RoomOk row room := by
    have hjoin := h.join
    rwa [hpc] at hjoin
  have hin := (h.before (by simp [hpc])).joined
  have hno : ¬ ((row.isOpen = true ∧ room.currentHighestBid ≠ .val row.currentHighestBid.toRat ∧
      newBidsOf a s.inbox = []) ∨
      (row.isOpen = false ∧ room.open? = true ∧ ¬ EndToCome a s)) :=
    fun hbad => hquiet ⟨room, by rw [hpc]; rfl, row, h.auction, hbad⟩
  obtain ⟨hamount, hend⟩ := not_or.mp hno
  cases hopen : row.isOpen with
  | true =>
    have hroomOpen : room.open? = true := decide_eq_true (hroom.2 hopen)
    refine .inl ⟨hopen, ?_, ?_⟩
    · simpa [enterRoom, hroomOpen, Joining.perform] using hin
    · have hcurrent : newBidsOf a s.inbox = [] →
          room.currentHighestBid = .val row.currentHighestBid.toRat := by
        intro hnone
        by_contra hne
        exact hamount ⟨hopen, hne, hnone⟩
      have hcatch := catchUp_emitted h hcurrent
      simpa [enterRoom, hroomOpen, Joining.perform, auctionStateEvent] using hcatch
  | false =>
    refine .inr ⟨hopen, ?_⟩
    cases hroomOpen : room.open? with
    | true =>
      right
      have hcome : EndToCome a s := by
        by_contra hnot
        exact hend ⟨hopen, hroomOpen, hnot⟩
      refine ⟨?_, ?_⟩
      · simpa [enterRoom, hroomOpen, Joining.perform] using hin
      · simpa [enterRoom, hroomOpen, Joining.perform, EndToCome] using hcome
    | false =>
      left
      intro socket hs
      simp only [enterRoom, hroomOpen, Bool.false_eq_true, if_false, List.foldl_append,
        List.foldl_cons, List.foldl_nil, Joining.perform] at hs
      exact of_decide_eq_true (List.mem_filter.mp hs).2

theorem joiningOk_join (h : JoiningOk a id row s) (hquiet : ¬ Misinforms a s (.join now))
    (hstep : joiningStep client id a s (.join now) = some t) : JoiningOk a id row t := by
  have hreading := h.reading
  have hjoin := h.join
  simp only [joiningStep] at hstep
  split at hstep
  · next room hroom =>
    rw [hroom] at hreading
    obtain ⟨⟨r, pc, es⟩, hj, rfl⟩ := Option.map_eq_some_iff.mp hstep
    cases hpc : s.join with
    | begin =>
      have hexist : room.exist = true := hreading.1
      simp only [joinStep, hpc, hexist, if_true] at hj
      cases hj
      exact h.advance (by simp [hpc]) hreading (by simp)
    | notFound =>
      rw [hpc] at hjoin
      exact hjoin.elim
    | foundRoom room' =>
      rw [hpc] at hjoin hj
      cases hj
      exact h.advance (by simp [hpc]) hjoin (by simp)
    | listed room' =>
      rw [hpc] at hjoin hj
      cases hj
      exact h.advance (by simp [hpc]) hjoin (by simp)
    | registered room' =>
      rw [hpc] at hjoin hj
      cases hj
      exact h.advance (by simp [hpc]) hjoin (by simp)
    | announced room' =>
      have henter := informed_enter (r := s.registry) h hpc hquiet
      rw [hpc] at hj
      cases hj
      obtain ⟨sockets, shown, heq⟩ := Joining.foldl_perform id (enterRoom a room')
        { s with registry := s.registry, join := .finished }
      rw [heq] at henter ⊢
      exact ⟨h.auction, h.bidders, h.winner, h.cache, h.reading, trivial, h.ending, h.inbox,
        h.amounts, h.ends, fun hne => absurd rfl hne, fun _ => henter⟩
    | finished =>
      rw [hpc] at hj
      cases hj
  · cases hstep

/-! Bids. -/

/-- A bid that changes nothing, and is answered to its sender at most. -/
theorem JoiningOk.reject (h : JoiningOk a id row s) {e : RejectReason} (ha : m.auctionId = a)
    (hpubs : pubs = [] ∨ pubs = [rejectPublication m e]) :
    JoiningOk a id row { s with inbox := s.inbox ++ pubs } := by
  have hbids : newBidsOf a pubs = [] := by rcases hpubs with rfl | rfl <;> rfl
  have hends : auctionEndsOf a pubs = [] := by rcases hpubs with rfl | rfl <;> rfl
  have hcatch : ∀ shown, catchUp a shown (s.inbox ++ pubs) = catchUp a shown s.inbox := by
    intro shown
    rw [catchUp_append, catchUp, hbids]
    rfl
  refine ⟨h.auction, h.bidders, h.winner, h.cache, h.reading, h.join, h.ending, ?_, ?_, ?_,
    h.before, fun hjoin => ?_⟩
  · intro p hp
    rcases List.mem_append.mp hp with hp | hp
    · exact h.inbox p hp
    · rcases hpubs with rfl | rfl
      · cases hp
      · rw [List.mem_singleton.mp hp, rejectPublication, ha]
        exact .rejection e m.socketId
  · intro hne
    rw [newBidsOf_append, hbids, List.append_nil] at hne
    rw [hcatch]
    exact h.amounts hne
  · intro hopen
    rw [auctionEndsOf_append, hends, List.append_nil]
    exact h.ends hopen
  · rcases h.after hjoin with ⟨hopen, hin, hshown⟩ | ⟨hopen, hgone⟩
    · exact .inl ⟨hopen, hin, (hcatch s.shown).trans hshown⟩
    · refine .inr ⟨hopen, hgone.imp_right fun hlast => ⟨hlast.1, ?_⟩⟩
      rw [EndToCome, auctionEndsOf_append, hends, List.append_nil]
      exact hlast.2

/-- An accepted bid in whole cents is the amount of the row, and the last new bid to be shown. -/
theorem JoiningOk.commit (h : JoiningOk a id row s) {db : Database} {newBid : Bid}
    (ha : m.auctionId = a) (hopen : row.isOpen = true) (hexact : Numeric.HasScale 2 m.amount)
    (hcommit : s.world.db.commitBid m now = .ok (db, newBid)) :
    ∃ row', JoiningOk a id row' { s with
      world := { s.world with db := db }.setCache m.auctionId (newBidRoom m row.isOpen)
      inbox := s.inbox ++ [newBidPublication m newBid] } := by
  obtain ⟨row₁, hrow₁, hamount, huser, hb, hrow', hbids⟩ := Database.commitBid_self hcommit ha
  cases h.auction.symm.trans hrow₁
  have hsame : newBid.amount.toRat = m.amount := (Numeric.toRat_ofRat_eq hamount).mpr hexact
  have husers : db.user = s.world.db.user := Database.commitBid_user hcommit
  have hlast : ∀ shown, catchUp a shown (s.inbox ++ [newBidPublication m newBid]) =
      .val newBid.amount.toRat := by
    intro shown
    rw [catchUp_append, catchUp, newBidsOf_newBidPublication, if_pos ha, hsame]
    rfl
  refine ⟨_, hrow', ?_, ?_, ?_, ?_, ?_, h.ending, ?_, ?_, ?_, h.before, fun hjoin => ?_⟩
  · intro b hmem
    dsimp only [World.setCache_db] at hmem ⊢
    rw [hbids] at hmem
    rw [husers]
    rcases List.mem_append.mp hmem with hmem | hmem
    · exact h.bidders b hmem
    · rw [List.mem_singleton.mp hmem]
      exact huser
  · intro winnerId hwinner
    cases hwinner
    dsimp only [World.setCache_db]
    rw [husers]
    exact huser
  · intro room hroom
    rw [ha, World.setCache_cache_self] at hroom
    cases hroom
    exact ⟨rfl, fun _ => by rw [newBidRoom, hopen]⟩
  · dsimp only [World.setCache_db]
    rw [husers]
    exact h.reading.mono fun ho => ho
  · exact h.join.mono fun ho => ho
  · intro p hp
    rcases List.mem_append.mp hp with hp | hp
    · exact h.inbox p hp
    · rw [List.mem_singleton.mp hp, newBidPublication, ha]
      exact .newBid _
  · exact fun _ => hlast .undefined
  · intro ho
    rw [auctionEndsOf_append, h.ends ho]
    rfl
  · rcases h.after hjoin with ⟨ho, hin, -⟩ | ⟨hclosed, -⟩
    · exact .inl ⟨ho, hin, hlast s.shown⟩
    · rw [hopen] at hclosed
      cases hclosed

theorem joiningOk_placeBid (h : JoiningOk a id row s) (hquiet : ¬ Misinforms a s (.placeBid m now))
    (hstep : joiningStep client id a s (.placeBid m now) = some t) :
    ∃ row', JoiningOk a id row' t := by
  simp only [joiningStep] at hstep
  split at hstep
  · cases hstep
  · next hne =>
    have ha : m.auctionId = a := not_not.mp hne
    rcases placeBid_cases s.world m now with ⟨e, -, -, hcall⟩ |
      ⟨auction, newBid, db, hcheck, hcommit, -, hcall⟩ | ⟨auction, e, -, -, -, hcall⟩
    · rw [hcall] at hstep
      cases hstep
      refine ⟨row, h.reject (e := e) ha ?_⟩
      split
      · exact .inl rfl
      · exact .inr rfl
    · rw [hcall] at hstep
      cases hstep
      obtain ⟨hfound, hopen, hhigh⟩ := checkBid_ok.mp hcheck
      rw [ha] at hfound
      cases h.auction.symm.trans hfound
      refine h.commit ha hopen ?_ hcommit
      by_contra hcents
      exact hquiet ⟨hcents, row, hfound, hopen, hhigh⟩
    · rw [hcall] at hstep
      cases hstep
      exact ⟨row, h⟩

/-! The end. -/

/-- A statement of `endAuction` that leaves the rows alone and has no event to publish. -/
theorem JoiningOk.ends_quietly (h : JoiningOk a id row s) {w : World} {pc : EndAuctionPc}
    (hdb : w.db = s.world.db) (hcache : ∀ room ∈ w.cache a, RoomOk row room) (hok : pc.Ok row)
    (hcome : s.ending.announces = true → pc.announces = true) :
    JoiningOk a id row { s with world := w, ending := pc, inbox := s.inbox ++ [] } := by
  rw [List.append_nil]
  refine ⟨?_, ?_, ?_, hcache, ?_, h.join, hok, h.inbox, h.amounts, h.ends, h.before, fun hjoin => ?_⟩
  · dsimp only; rw [hdb]; exact h.auction
  · dsimp only; rw [hdb]; exact h.bidders
  · dsimp only; rw [hdb]; exact h.winner
  · dsimp only; rw [hdb]; exact h.reading
  · rcases h.after hjoin with hopen | ⟨hclosed, hgone⟩
    · exact .inl hopen
    · exact .inr ⟨hclosed, hgone.imp_right fun ⟨hin, hend⟩ => ⟨hin, hend.imp_left hcome⟩⟩

/-- The close leaves `auctionEnd` to be published. -/
theorem JoiningOk.close (h : JoiningOk a id row s) :
    JoiningOk a id (row.closedAt now) { s with
      world := { s.world with db := s.world.db.setAuction a (row.closedAt now) }
      ending := .closed
      inbox := s.inbox ++ [] } := by
  rw [List.append_nil]
  have hopen : (row.closedAt now).isOpen = true → row.isOpen = true := fun ho => nomatch ho
  refine ⟨Database.setAuction_auction_self, h.bidders, h.winner,
    fun room hroom => (h.cache room hroom).mono hopen, h.reading.mono hopen, h.join.mono hopen, rfl,
    h.inbox, h.amounts, (fun ho => nomatch ho), h.before, fun hjoin => .inr ⟨rfl, ?_⟩⟩
  rcases h.after hjoin with ⟨-, hin, -⟩ | ⟨-, hgone⟩
  · exact .inr ⟨hin, .inl rfl⟩
  · exact hgone.imp_right fun ⟨hin, _⟩ => ⟨hin, .inl rfl⟩

/-- `auctionEnd` is published when the auction is closed. -/
theorem JoiningOk.announce (h : JoiningOk a id row s) (hclosed : row.isOpen = false)
    {winningBid : WinningBidSummary} {message : EndMessage} :
    JoiningOk a id row { s with
      ending := .announced winningBid message
      inbox := s.inbox ++ [auctionEndPublication a winningBid message] } := by
  have hends : auctionEndsOf a [auctionEndPublication a winningBid message] = [winningBid] := by
    simp [auctionEndsOf, auctionEndPublication]
  have hcome : auctionEndsOf a (s.inbox ++ [auctionEndPublication a winningBid message]) ≠ [] := by
    rw [auctionEndsOf_append, hends]
    simp
  have hnone : newBidsOf a [auctionEndPublication a winningBid message] = [] := rfl
  refine ⟨h.auction, h.bidders, h.winner, h.cache, h.reading, h.join, hclosed, ?_, ?_, ?_, h.before,
    fun hjoin => .inr ⟨hclosed, ?_⟩⟩
  · intro p hp
    rcases List.mem_append.mp hp with hp | hp
    · exact h.inbox p hp
    · rw [List.mem_singleton.mp hp]
      exact .auctionEnd winningBid message
  · intro hne
    rw [newBidsOf_append, hnone, List.append_nil] at hne
    rw [catchUp_append, h.amounts hne]
    rfl
  · intro hopen
    rw [hclosed] at hopen
    cases hopen
  · rcases h.after hjoin with ⟨hopen, -⟩ | ⟨-, hgone⟩
    · rw [hclosed] at hopen
      cases hopen
    · exact hgone.imp_right fun ⟨hin, _⟩ => ⟨hin, .inr hcome⟩

theorem joiningOk_endAuction (h : JoiningOk a id row s)
    (hstep : joiningStep client id a s (.endAuction now pick) = some t) :
    ∃ row', JoiningOk a id row' t := by
  obtain ⟨⟨w, pc, pubs⟩, hend, rfl⟩ := Option.map_eq_some_iff.mp hstep
  have hending := h.ending
  cases hpc : s.ending with
  | begin =>
    simp only [endAuctionStep, hpc, Database.auctionFindUnique, h.auction] at hend
    split at hend
    · cases hend
      exact ⟨row, h.ends_quietly rfl h.cache trivial (by simp [hpc, EndAuctionPc.announces])⟩
    · cases hend
      exact ⟨row, h.ends_quietly rfl h.cache trivial (by simp [hpc, EndAuctionPc.announces])⟩
  | foundOpen =>
    simp only [endAuctionStep, hpc, Database.auctionUpdateClosed, h.auction] at hend
    cases hend
    exact ⟨_, h.close⟩
  | closed =>
    rw [hpc] at hending
    simp only [endAuctionStep, hpc, Database.userFindUnique] at hend
    split at hend
    · cases hend
      exact ⟨row, h.ends_quietly rfl h.cache hending fun _ => rfl⟩
    · next b bs htop =>
      split at hend
      · cases hend
      · next winningBid hpick =>
        have hmem : winningBid ∈ s.world.db.topBids a := by
          rw [htop]
          exact List.mem_of_getElem? hpick
        obtain ⟨winner, hwinner⟩ := Option.isSome_iff_exists.mp
          (h.bidders winningBid (Database.mem_topBids.mp hmem).1)
        simp only [hwinner] at hend
        cases hend
        exact ⟨row, h.ends_quietly rfl h.cache hending fun _ => rfl⟩
  | summarised winningBid message =>
    rw [hpc] at hending
    simp only [endAuctionStep, hpc] at hend
    cases hend
    exact ⟨row, h.announce hending⟩
  | announced winningBid message =>
    rw [hpc] at hending
    simp only [endAuctionStep, hpc] at hend
    cases hend
    refine ⟨row, h.ends_quietly rfl (fun room hroom => ?_) trivial
      (by simp [hpc, EndAuctionPc.announces])⟩
    rw [World.setCache_cache_self] at hroom
    cases hroom
    refine ⟨rfl, fun hopen => ?_⟩
    rw [hending] at hopen
    cases hopen
  | returned summary => simp [endAuctionStep, hpc] at hend
  | threw => simp [endAuctionStep, hpc] at hend

/-! Delivery. -/

/-- What is left in the inbox is still in order. -/
theorem JoiningOk.deliver (h : JoiningOk a id row s) {p : Publication} {inbox : List Publication}
    (hinbox : s.inbox = p :: inbox) {sockets : List Socket} {shown : Field Number}
    (hbefore : Outside a id s.sockets → Outside a id sockets)
    (hafter : Informed a id row s →
      Informed a id row { s with inbox := inbox, sockets := sockets, shown := shown }) :
    JoiningOk a id row { s with inbox := inbox, sockets := sockets, shown := shown } := by
  have hsplit : s.inbox = [p] ++ inbox := hinbox
  refine ⟨h.auction, h.bidders, h.winner, h.cache, h.reading, h.join, h.ending, ?_, ?_, ?_,
    fun hjoin => hbefore (h.before hjoin), fun hjoin => hafter (h.after hjoin)⟩
  · intro q hq
    apply h.inbox
    rw [hinbox]
    exact List.mem_cons_of_mem p hq
  · intro hne
    have hall := h.amounts
    rw [hsplit, newBidsOf_append, catchUp_append] at hall
    rw [catchUp_eq_of_ne_nil hne (catchUp a .undefined [p])]
    exact hall (by simp [hne])
  · intro hopen
    have hnone := h.ends hopen
    rw [hsplit, auctionEndsOf_append] at hnone
    exact (List.append_eq_nil_iff.mp hnone).2

/-- A message that ends nothing leaves the sockets alone. -/
theorem Informed.message {p : Publication} {inbox : List Publication} {shown : Field Number}
    (h : Informed a id row s) (hinbox : s.inbox = p :: inbox) (hends : auctionEndsOf a [p] = [])
    (hshown : InRoom a id s.sockets → shown = catchUp a s.shown [p]) :
    Informed a id row { s with inbox := inbox, sockets := s.sockets, shown := shown } := by
  have hsplit : s.inbox = [p] ++ inbox := hinbox
  rcases h with ⟨hopen, hin, hcatch⟩ | ⟨hclosed, hgone⟩
  · refine .inl ⟨hopen, hin, ?_⟩
    rw [hsplit, catchUp_append] at hcatch
    rw [hshown hin]
    exact hcatch
  · refine .inr ⟨hclosed, hgone.imp_right fun ⟨hin, hcome⟩ => ⟨hin, ?_⟩⟩
    rw [EndToCome, hsplit, auctionEndsOf_append, hends] at hcome
    exact hcome

theorem joiningOk_deliver (h : JoiningOk a id row s)
    (hstep : joiningStep client id a s .deliver = some t) : JoiningOk a id row t := by
  simp only [joiningStep, Joining.deliver] at hstep
  split at hstep
  · cases hstep
  · next p inbox hinbox =>
    cases hstep
    have hp : OfAuction a p := h.inbox p (by simp [hinbox])
    cases hp with
    | newBid newBid =>
      refine h.deliver hinbox (fun hout => hout) fun hafter => hafter.message hinbox rfl fun hin => ?_
      rw [handleMessage, newBid_shown hin]
      simp [catchUp, newBidsOf]
    | auctionEnd winningBid message =>
      refine h.deliver hinbox (fun hout => hout.ended) fun hafter => ?_
      rcases hafter with ⟨hopen, -, -⟩ | ⟨hclosed, hgone⟩
      · have hnone := h.ends hopen
        simp [hinbox, auctionEndsOf] at hnone
      · refine .inr ⟨hclosed, .inl ?_⟩
        rcases hgone with hgone | ⟨hin, -⟩
        · exact fun socket hs => hgone socket (List.mem_filter.mp hs).1
        · exact hin.ended
    | rejection e socketId =>
      refine h.deliver hinbox (fun hout => hout) fun hafter => hafter.message hinbox rfl fun _ => ?_
      rw [handleMessage, rejection_shown]
      rfl

/-! Convergence. -/

theorem joiningOk_step {act : JoiningAction} (h : JoiningOk a id row s)
    (hquiet : ¬ Misinforms a s act) (hstep : joiningStep client id a s act = some t) :
    ∃ row', JoiningOk a id row' t := by
  cases act with
  | read => exact ⟨row, joiningOk_read h hstep⟩
  | join now => exact ⟨row, joiningOk_join h hquiet hstep⟩
  | placeBid m now => exact joiningOk_placeBid h hquiet hstep
  | endAuction now pick => exact joiningOk_endAuction h hstep
  | deliver => exact ⟨row, joiningOk_deliver h hstep⟩

/-- With nothing left to deliver, what the client shows is right. -/
theorem JoiningOk.converged (h : JoiningOk a id row s) (hsettled : s.settled) : Converged a id s := by
  obtain ⟨hjoin, hidle, hinbox⟩ := hsettled
  have hfinished : s.join = .finished := by
    rcases hjoin with hjoin | hthrew
    · exact hjoin
    · have hreading := h.reading
      rw [hthrew] at hreading
      exact hreading.elim
  refine ⟨row, h.auction, ?_⟩
  rcases h.after hfinished with ⟨hopen, -, hcatch⟩ | ⟨hclosed, hgone | ⟨-, hcome⟩⟩
  · left
    rw [hinbox] at hcatch
    exact ⟨hopen, hcatch⟩
  · exact .inr ⟨hclosed, hgone⟩
  · rcases hcome with hannounces | hends
    · cases hpc : s.ending with
      | closed => rw [hpc] at hidle; cases hidle
      | summarised winningBid message => rw [hpc] at hidle; cases hidle
      | _ => rw [hpc] at hannounces; cases hannounces
    · rw [hinbox] at hends
      exact absurd rfl hends

/-- What a joining client finds: an auction with a coherent cache, whose bidders are users, messages
    in flight that lead to the row, and itself outside the room. -/
structure CanJoin (a : ℤ) (id : SocketId) (row : Auction) (w : World) (inbox : List Publication)
    (sockets : List Socket) : Prop where
  auction : w.db.auction a = some row
  coherent : ∀ room ∈ w.cache a, room.exist = true ∧ RoomAgrees w.db.user row room
  bidders : ∀ b ∈ w.db.bidsOf a, (w.db.user b.userId).isSome
  winner : ∀ winnerId ∈ row.winnerId, (w.db.user winnerId).isSome
  messages : ∀ p ∈ inbox, OfAuction a p
  amounts : newBidsOf a inbox ≠ [] → catchUp a .undefined inbox = .val row.currentHighestBid.toRat
  ends : row.isOpen = true → auctionEndsOf a inbox = []
  outside : Outside a id sockets

/-- The client about to join. -/
def Joining.start (w : World) (r : Registry) (inbox : List Publication) (sockets : List Socket) :
    Joining :=
  ⟨w, r, .begin, .begin, .begin, inbox, sockets, .undefined⟩

theorem CanJoin.joiningOk {inbox : List Publication} {sockets : List Socket} {r : Registry}
    (h : CanJoin a id row w inbox sockets) : JoiningOk a id row (.start w r inbox sockets) := by
  refine ⟨h.auction, h.bidders, h.winner, fun room hroom => ?_, trivial, trivial, trivial, h.messages,
    h.amounts, h.ends, fun _ => h.outside, (fun hjoin => nomatch hjoin)⟩
  obtain ⟨hexist, -, -, -, hopen⟩ := h.coherent room hroom
  exact ⟨hexist, fun ho => by rw [hopen, ho]⟩

/-- When everything has finished and been delivered the client has converged, in every run in which
    no step misinforms it. -/
theorem joining_client_converges (client : Client) (id : SocketId) (a : ℤ) (row : Auction) (w : World)
    (r : Registry) (inbox : List Publication) (sockets : List Socket)
    (schedule : List JoiningAction) (hstart : CanJoin a id row w inbox sockets)
    (hquiet : Along (joiningStep client id a) (fun s act _ => ¬ Misinforms a s act)
      (.start w r inbox sockets) schedule) :
    Always (joiningStep client id a) (fun s => s.settled → Converged a id s)
      (.start w r inbox sockets) schedule := by
  refine always_of_inv (I := fun s => ∃ row, JoiningOk a id row s) ?_ ?_ schedule
    ⟨row, hstart.joiningOk⟩ hquiet
  · intro s act t ⟨row, hs⟩ hq ht
    exact joiningOk_step hs hq ht
  · intro s ⟨row, hs⟩
    exact hs.converged

instance {s : Joining} : Decidable s.settled := by unfold Joining.settled; infer_instance

instance {s : Joining} : Decidable (Converged a id s) := by unfold Converged; infer_instance

/-- Ann is about to join the room in which Bob's bid is announced. -/
def bidBeforeJoin : List JoiningAction :=
  List.replicate 3 .read ++ List.replicate 4 (.join 1) ++
    [.placeBid ⟨1, 20, 8, "bob", "socket-b"⟩ 2, .deliver, .join 3]

def annOutside : Joining := .start sampleWorld .empty [] [⟨annSocket, []⟩]

theorem joining_client_misinformed :
    (∃ s ∈ exec (joiningStep annClient annSocket 1) annOutside bidBeforeJoin, s.settled) ∧
      ¬ Always (joiningStep annClient annSocket 1) (fun s => s.settled → Converged 1 annSocket s)
        annOutside bidBeforeJoin := by
  decide +kernel

instance {a : ℤ} {s : Joining} {act : JoiningAction} : Decidable (Misinforms a s act) := by
  unfold Misinforms EndToCome
  split <;> infer_instance

/-- Ann is in the room when Bob's bid is delivered, and when the auction ends. -/
def bidAfterJoin : List JoiningAction :=
  List.replicate 3 .read ++ List.replicate 4 (.join 1) ++
    [.placeBid ⟨1, 20, 8, "bob", "socket-b"⟩ 2, .join 3, .deliver] ++
    List.replicate 5 (.endAuction 4 0) ++ [.deliver]

theorem joining_client_converges_in_time :
    Always (joiningStep annClient annSocket 1) (fun s => s.settled → Converged 1 annSocket s)
        annOutside bidAfterJoin ∧
      (∃ s ∈ exec (joiningStep annClient annSocket 1) annOutside (bidAfterJoin.take 10),
        s.settled ∧ s.shown = .val 20) ∧
      ∃ s ∈ exec (joiningStep annClient annSocket 1) annOutside bidAfterJoin,
        s.settled ∧ s.sockets = [] := by
  refine ⟨joining_client_converges annClient annSocket 1 sampleRow sampleWorld .empty [] _
    bidAfterJoin ?_ (by decide +kernel), by decide +kernel, by decide +kernel⟩
  refine ⟨rfl, by simp [sampleWorld], by simp [sampleWorld, Database.bidsOf], by simp [sampleRow],
    by simp, by simp [newBidsOf], by simp [auctionEndsOf], ?_⟩
  refine ⟨⟨_, List.mem_cons_self, rfl⟩, fun socket hs _ => ?_⟩
  rw [List.mem_singleton.mp hs]
  decide +kernel

end CarAuction
