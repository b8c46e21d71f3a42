import CarAuction.JoinAuction
import CarAuction.AuctionService
import CarAuction.BidConsumer
import CarAuction.Lib.Machine

/- A client that joins an auction while the auction goes on. One gateway instance
   runs its `handleJoinAuction`, `getAuctionState` included, statement by statement,
   and delivers what is published on `auction_updates:<id>` to the sockets that are
   in the room at that time; bids are placed one after another, each as a whole, and
   one `endAuction` call runs statement by statement.

   Correspondence (TypeScript ↔ Lean):
     the handlers of `index.html`, `updateHighestBid`  ↔ `Joining.perform`, `updateHighestBid`
     `client.join`, `client.disconnect()`              ↔ `Joining.perform`
     the `pmessage` handler, message after message     ↔ `Joining.deliver`
     `this.socketIoServer` of the client's instance    ↔ `sockets`
     what Redis has still to deliver to the instance   ↔ `inbox` -/
namespace CarAuction

open Machine

structure Joining where
  world : World
  registry : Registry
  reading : GetStatePc
  join : JoinPc
  ending : EndAuctionPc
  inbox : List Publication
  sockets : List Socket
  shown : Field Number

/-- The amount that the client `id` shows after an event emitted to a socket. -/
def updateHighestBid (id : SocketId) (shown : Field Number) : SocketId × ClientEvent → Field Number
  | (id', .newBid _ newBid) => if id' = id then .val newBid.amount else shown
  | (id', .auctionEnd _ winningBid _) => if id' = id then .val winningBid.amount else shown
  | (_, .bidRejected _ _) => shown

namespace Joining

/-- What the handler does to the instance's sockets and the client's screen. -/
def perform (id : SocketId) (s : Joining) : JoinEffect → Joining
  | .joined auctionId =>
    { s with sockets := s.sockets.map fun socket =>
        if socket.id = id then { socket with joined := auctionId :: socket.joined } else socket }
  | .auctionState event => { s with shown := event.amount }
  | .disconnected => { s with sockets := s.sockets.filter fun socket => socket.id ≠ id }
  | _ => s

/-- The next message is delivered to the instance. -/
def deliver (id : SocketId) (s : Joining) : Option Joining :=
  match s.inbox with
  | [] => none
  | p :: inbox =>
    let (events, sockets) := handleMessage s.sockets p
    some { s with
      inbox := inbox
      sockets := sockets
      shown := events.foldl (updateHighestBid id) s.shown }

end Joining

inductive JoiningAction where
  | read
  | join (now : Time)
  | placeBid (m : BidMessage) (now : Time)
  | endAuction (now : Time) (pick : ℕ)
  | deliver

/-- One step of the auction `a` and the client that joins it. -/
def joiningStep (client : Client) (id : SocketId) (a : ℤ) (s : Joining) :
    JoiningAction → Option Joining
  | .read => (getAuctionStateStep a s.world s.reading).map fun t =>
    { s with world := t.1, reading := t.2 }
  | .join now =>
    match s.reading with
    | .returned room =>
      (joinStep client id a room now s.registry s.join).map fun t =>
        t.2.2.foldl (Joining.perform id) { s with registry := t.1, join := t.2.1 }
    | _ => none
  | .placeBid m now =>
    if m.auctionId ≠ a then none
    else match placeBid s.world m now with
      | none => some s
      | some (w, pubs) => some { s with world := w, inbox := s.inbox ++ pubs }
  | .endAuction now pick => (endAuctionStep a now pick s.world s.ending).map fun t =>
    { s with world := t.1, ending := t.2.1, inbox := s.inbox ++ t.2.2 }
  | .deliver => s.deliver id

/-- What the client shows once the inbox has been delivered to it. -/
def catchUp (a : ℤ) (shown : Field Number) (inbox : List Publication) : Field Number :=
  (newBidsOf a inbox).foldl (fun _ newBid => .val newBid.amount) shown

/-! What a message does to the screen and to the sockets. -/

/-- The handler's effects reach the sockets and the screen only. -/
theorem Joining.foldl_perform (id : SocketId) (es : List JoinEffect) (s : Joining) :
    ∃ sockets shown, es.foldl (Joining.perform id) s =
      { s with sockets := sockets, shown := shown } := by
  induction es generalizing s with
  | nil => exact ⟨s.sockets, s.shown, rfl⟩
  | cons e es ih =>
    obtain ⟨sockets, shown, heq⟩ := ih (s.perform id e)
    refine ⟨sockets, shown, ?_⟩
    rw [List.foldl_cons, heq]
    cases e <;> rfl

variable {a : ℤ} {id : SocketId} {sockets : List Socket} {socket : Socket} {shown : Field Number}
  {inbox pubs : List Publication} {newBid : NewBid} {winningBid : WinningBidSummary}
  {message : EndMessage} {m : BidMessage} {e : RejectReason} {p : Publication}

theorem catchUp_append : catchUp a shown (inbox ++ pubs) = catchUp a (catchUp a shown inbox) pubs := by
  simp [catchUp]

/-- With a new bid in the inbox it does not matter what the client shows now. -/
theorem catchUp_eq_of_ne_nil (h : newBidsOf a inbox ≠ []) (shown' : Field Number) :
    catchUp a shown inbox = catchUp a shown' inbox := by
  unfold catchUp
  cases hn : newBidsOf a inbox with
  | nil => exact absurd hn h
  | cons newBid rest => rfl

/-- A message of the auction, as the services publish them. -/
inductive OfAuction (a : ℤ) : Publication → Prop where
  | newBid (newBid : NewBid) : OfAuction a ⟨.auctionUpdates a, .newBid a newBid⟩
  | auctionEnd (winningBid : WinningBidSummary) (message : EndMessage) :
    OfAuction a ⟨.auctionUpdates a, .auctionEnd a winningBid message⟩
  | rejection (e : RejectReason) (socketId : String) :
    OfAuction a ⟨.emitToSocket, .bidError a e socketId⟩

/-- The client is there, and in the room of the auction. -/
def InRoom (a : ℤ) (id : SocketId) (sockets : List Socket) : Prop :=
  (∃ socket ∈ sockets, socket.id = id) ∧
    ∀ socket ∈ sockets, socket.id = id → toString a ∈ socket.rooms

/-- The client is there, and not in the room. -/
def Outside (a : ℤ) (id : SocketId) (sockets : List Socket) : Prop :=
  (∃ socket ∈ sockets, socket.id = id) ∧
    ∀ socket ∈ sockets, socket.id = id → toString a ∉ socket.rooms

def Gone (id : SocketId) (sockets : List Socket) : Prop := ∀ socket ∈ sockets, socket.id ≠ id

/-- A `newBid` event emitted to sockets of which the client is one. -/
theorem foldl_newBid {ids : List SocketId} (h : id ∈ ids) :
    (ids.map fun id => (id, ClientEvent.newBid a newBid)).foldl (updateHighestBid id) shown =
      .val newBid.amount := by
  induction ids using List.reverseRecOn with
  | nil => cases h
  | append_singleton ids last ih =>
    rw [List.map_append, List.foldl_append]
    by_cases hlast : last = id
    · simp [updateHighestBid, hlast]
    · have hmem : id ∈ ids := by
        rcases List.mem_append.mp h with h | h
        · exact h
        · exact absurd (List.mem_singleton.mp h).symm hlast
      rw [ih hmem]
      simp [updateHighestBid, hlast]

theorem emitTo_eq {room : String} {event : ClientEvent} : emitTo room event sockets =
    ((sockets.filter (room ∈ ·.rooms)).map Socket.id).map fun id => (id, event) := by
  simp [emitTo]

/-- A client in the room shows the new bid. -/
theorem newBid_shown (h : InRoom a id sockets) :
    (emitTo (toString a) (.newBid a newBid) sockets).foldl (updateHighestBid id) shown =
      .val newBid.amount := by
  rw [emitTo_eq]
  apply foldl_newBid
  obtain ⟨⟨socket, hs, hid⟩, hroom⟩ := h
  apply List.mem_map.mpr
  exact ⟨socket, List.mem_filter.mpr ⟨hs, decide_eq_true (hroom socket hs hid)⟩, hid⟩

/-- A rejection changes no amount. -/
theorem rejection_shown {room : String} :
    (emitTo room (.bidRejected a e) sockets).foldl (updateHighestBid id) shown = shown := by
  rw [emitTo_eq]
  generalize (sockets.filter (room ∈ ·.rooms)).map Socket.id = ids
  induction ids with
  | nil => rfl
  | cons first ids ih =>
    rw [List.map_cons, List.foldl_cons]
    exact ih

/-- `auctionEnd` disconnects the client if it is in the room, and only then. -/
theorem InRoom.ended (h : InRoom a id sockets) :
    Gone id (sockets.filter (toString a ∉ ·.rooms)) := by
  intro socket hs hid
  obtain ⟨hs, hnot⟩ := List.mem_filter.mp hs
  exact of_decide_eq_true hnot (h.2 socket hs hid)

theorem Outside.ended (h : Outside a id sockets) :
    Outside a id (sockets.filter (toString a ∉ ·.rooms)) := by
  obtain ⟨⟨socket, hs, hid⟩, hout⟩ := h
  refine ⟨⟨socket, List.mem_filter.mpr ⟨hs, decide_eq_true (hout socket hs hid)⟩, hid⟩, ?_⟩
  intro socket' hs' hid'
  exact hout socket' (List.mem_filter.mp hs').1 hid'

/-- `client.join` takes the client into the room. -/
theorem Outside.joined (h : Outside a id sockets) : InRoom a id (sockets.map fun socket =>
    if socket.id = id then { socket with joined := a :: socket.joined } else socket) := by
  obtain ⟨⟨socket, hs, hid⟩, -⟩ := h
  refine ⟨⟨_, List.mem_map_of_mem hs, by simp [hid]⟩, fun socket' hs' hid' => ?_⟩
  obtain ⟨socket₀, -, rfl⟩ := List.mem_map.mp hs'
  by_cases hid₀ : socket₀.id = id
  · simp [hid₀, Socket.rooms]
  · rw [if_neg hid₀] at hid'
    exact absurd hid' hid₀

end CarAuction
