import CarAuction.Lib.Json
import CarAuction.Gateway
import CarAuction.JoinAuction

/- The way of a bid to the browser, by the names of its properties. Server and client
   share no type: the objects are written and read field by field at every hop, in
   the cache, in the Redis message, by the `pmessage` handler, in the Socket.IO event
   and by the handlers of `index.html`, which call `updateHighestBid`.

   Correspondence (TypeScript ↔ Lean):
     `JSON.parse(JSON.stringify(v))`, a Socket.IO argument  ↔ `json`
     the `auctionRoom` literals, the published data         ↔ `AuctionRoom.toJs`, `Payload.toJs`
     `RedisService.publish`                                 ↔ `published`
     the `pmessage` handler                                 ↔ `pmessage`
     `client.emit("auctionState", ...)`                     ↔ `auctionStateData`
     the handlers of `index.html`                           ↔ `browserHandler`
     the arguments of `updateHighestBid`                    ↔ `HighestBid` -/
namespace CarAuction

open Js

/-- A JavaScript value that is neither an object nor missing. The last two are strings: the text of a
    date, and the one that `EndMessage.text` renders. -/
inductive Atom where
  | number (x : Number)
  | string (s : String)
  | bool (b : Bool)
  | date (t : Time)
  | isoString (t : Time)
  | endMessage (message : EndMessage)
  deriving DecidableEq

def Atom.toJSON : Atom → Atom
  | date t => isoString t
  | a => a

abbrev JsValue := Value Atom

def number (x : Number) : JsValue := .atom (.number x)

def integer (n : ℤ) : JsValue := number n

def text (s : String) : JsValue := .atom (.string s)

def bool (b : Bool) : JsValue := .atom (.bool b)

def json : JsValue → JsValue := Value.carry Atom.toJSON

/-- `v === s`. -/
def JsValue.isText (v : JsValue) (s : String) : Bool :=
  match v with
  | .atom (.string t) => t = s
  | _ => false

def JsValue.truthy : JsValue → Bool
  | .undefined => false
  | .null => false
  | .atom (.number x) => x ≠ 0
  | .atom (.string s) => s ≠ ""
  | .atom (.bool b) => b
  | _ => true

def Field.toJs {α : Type} (value : α → JsValue) : Field α → JsValue
  | undefined => .undefined
  | null => .null
  | val a => value a

/-! The server. -/

def AuctionRoom.toJs (room : AuctionRoom) : JsValue :=
  .obj [("exist", bool room.exist), ("currentHighestBid", room.currentHighestBid.toJs number),
    ("winnerId", room.winnerId.toJs integer),
    ("winnerUsername", room.winnerUsername.toJs text), ("isOpen", room.isOpen.toJs bool)]

/-- The data of an `auctionState` event, from what `getAuctionState` returns. -/
def auctionStateData (auctionId : ℤ) (auctionState : JsValue) : Option JsValue := do
  let amount ← auctionState.get "currentHighestBid"
  let bidderId ← auctionState.get "winnerId"
  let bidderUsername ← auctionState.get "winnerUsername"
  let isOpen ← auctionState.get "isOpen"
  return .obj [("auctionId", integer auctionId),
    ("currentHighestBid", .obj [("amount", amount), ("bidderId", bidderId),
      ("bidderUsername", bidderUsername)]),
    ("isClosed", bool (!JsValue.truthy isOpen))]

/-- The data handed to `RedisService.publish`. -/
def Payload.toJs : Payload → JsValue
  | .newBid auctionId bid =>
    .obj [("auctionId", integer auctionId),
      ("newBid", .obj [("amount", number bid.amount), ("bidderId", integer bid.bidderId),
        ("bidderUsername", text bid.bidderUsername), ("timestamp", .atom (.date bid.timestamp))])]
  | .auctionEnd auctionId winningBid message =>
    .obj [("auctionId", integer auctionId),
      ("winningBid", .obj [("amount", number winningBid.amount),
        ("userId", winningBid.userId.toJs integer),
        ("username", winningBid.username.toJs text)]),
      ("message", .atom (.endMessage message))]
  | .bidError auctionId reason socketId =>
    .obj [("auctionId", integer auctionId), ("errorMessage", text (reason.message toString)),
      ("socketId", text socketId)]

/-- The message that the subscribers parse. -/
def published (p : Payload) : JsValue := json (.obj [("event", text p.event), ("data", p.toJs)])

/-- The event and the data that the `pmessage` handler emits, if any. -/
def pmessage (parsedMessage : JsValue) : Option (Option (String × JsValue)) := do
  let event ← parsedMessage.get "event"
  let data ← parsedMessage.get "data"
  let auctionId := data.get? "auctionId"
  if JsValue.isText event "newBid" then
    let newBid ← data.get "newBid"
    let amount ← newBid.get "amount"
    let bidderId ← newBid.get "bidderId"
    let bidderUsername ← newBid.get "bidderUsername"
    let timestamp ← newBid.get "timestamp"
    return some ("newBid", .obj [("auctionId", auctionId),
      ("newBid", .obj [("amount", amount), ("bidderId", bidderId),
        ("bidderUsername", bidderUsername), ("timestamp", timestamp)])])
  else if JsValue.isText event "auctionEnd" then
    let winningBid ← data.get "winningBid"
    let endMessage ← data.get "message"
    let amount ← winningBid.get "amount"
    let userId ← winningBid.get "userId"
    let username ← winningBid.get "username"
    return some ("auctionEnd", .obj [("auctionId", auctionId),
      ("winningBid", .obj [("amount", amount), ("userId", userId), ("username", username)]),
      ("message", endMessage)])
  else return none

/-! The browser. -/

/-- The arguments of `updateHighestBid`. -/
structure HighestBid where
  amount : JsValue
  bidderId : JsValue
  bidderUsername : JsValue

/-- `updateHighestBid(bid.amount, bid.bidderId, bid.bidderUsername)`. -/
def readHighestBid (bid : JsValue) : Option HighestBid := do
  let amount ← bid.get "amount"
  let bidderId ← bid.get "bidderId"
  let bidderUsername ← bid.get "bidderUsername"
  return ⟨amount, bidderId, bidderUsername⟩

/-- The handlers that call `updateHighestBid`. -/
def browserHandler (event : String) (data : JsValue) : Option HighestBid :=
  if event = "auctionState" then (data.get "currentHighestBid").bind readHighestBid
  else if event = "newBid" then (data.get "newBid").bind readHighestBid
  -- the server sends a `winningBid` with `userId` and `username`
  else if event = "auctionEnd" then (data.get "winningBid").bind readHighestBid
  else none

/-! The paths. -/

/-- What a client in the room shows of an event that was published. -/
def shownOnPublish (p : Payload) : Option HighestBid := do
  let emitted ← pmessage (published p)
  let (event, data) ← emitted
  browserHandler event (json data)

/-- What a client shows when it joins, from what `getAuctionState` returns. -/
def shownOnJoin (auctionId : ℤ) (auctionState : JsValue) : Option HighestBid := do
  let data ← auctionStateData auctionId auctionState
  browserHandler "auctionState" (json data)

@[simp] theorem json_number (x : Number) : json (number x) = number x := rfl

@[simp] theorem json_integer (n : ℤ) : json (integer n) = integer n := rfl

@[simp] theorem json_text (s : String) : json (text s) = text s := rfl

@[simp] theorem json_bool (b : Bool) : json (bool b) = bool b := rfl

@[simp] theorem json_undefined : json .undefined = .undefined := rfl

@[simp] theorem get_json {v : JsValue} {key : String} : (json v).get key = (v.get key).map json :=
  Value.get_carry Atom.toJSON

theorem json_field {α : Type} {value : α → JsValue} (hvalue : ∀ a, json (value a) = value a)
    (field : Field α) : json (field.toJs value) = field.toJs value := by
  cases field with
  | val a => exact hvalue a
  | _ => rfl

@[simp] theorem isText_text {s t : String} : JsValue.isText (text s) t = decide (s = t) := rfl

/-- The name and the data of an event that a gateway emits to its sockets. -/
def ClientEvent.toJs : ClientEvent → String × JsValue
  | .newBid auctionId bid => ("newBid", .obj [("auctionId", integer auctionId),
      ("newBid", .obj [("amount", number bid.amount), ("bidderId", integer bid.bidderId),
        ("bidderUsername", text bid.bidderUsername),
        ("timestamp", .atom (.isoString bid.timestamp))])])
  | .auctionEnd auctionId winningBid message => ("auctionEnd", .obj [("auctionId", integer auctionId),
      ("winningBid", .obj [("amount", number winningBid.amount),
        ("userId", winningBid.userId.toJs integer), ("username", winningBid.username.toJs text)]),
      ("message", .atom (.endMessage message))])
  | .bidRejected auctionId reason => ("bidRejected", .obj [("auctionId", integer auctionId),
      ("message", text (reason.message toString))])

/-- The handler emits what `handleMessage` says it does. -/
theorem pmessage_emitted {sockets : List Socket} {p : Publication} {c : ℤ} {id : SocketId}
    {e : ClientEvent} (hchannel : p.channel = .auctionUpdates c)
    (h : (id, e) ∈ (handleMessage sockets p).1) :
    pmessage (published p.payload) = some (some e.toJs) := by
  have hdate : ∀ t : Time, json (.atom (.date t)) = .atom (.isoString t) := fun _ => rfl
  have hmessage : ∀ message, json (.atom (.endMessage message)) = .atom (.endMessage message) :=
    fun _ => rfl
  obtain ⟨channel, payload⟩ := p
  cases hchannel
  cases payload with
  | newBid auctionId bid =>
    obtain ⟨socket, -, heq⟩ := List.mem_map.mp h
    cases heq
    simp [published, pmessage, Payload.toJs, Payload.event, ClientEvent.toJs, Value.get?,
      hdate]
  | auctionEnd auctionId winningBid message =>
    obtain ⟨socket, -, heq⟩ := List.mem_map.mp h
    cases heq
    simp [published, pmessage, Payload.toJs, Payload.event, ClientEvent.toJs, Value.get?,
      hmessage, json_field json_integer, json_field json_text]
  | bidError auctionId reason socketId => cases h

/-- The `auctionState` event that `handleJoinAuction` emits. -/
theorem auctionStateData_toJs (auctionId : ℤ) (room : AuctionRoom) :
    auctionStateData auctionId room.toJs =
      some (.obj [("auctionId", integer (auctionStateEvent auctionId room).auctionId),
        ("currentHighestBid", .obj
          [("amount", (auctionStateEvent auctionId room).amount.toJs number),
            ("bidderId", (auctionStateEvent auctionId room).bidderId.toJs integer),
            ("bidderUsername", (auctionStateEvent auctionId room).bidderUsername.toJs text)]),
        ("isClosed", bool (auctionStateEvent auctionId room).isClosed)]) := by
  have htruthy : JsValue.truthy (room.isOpen.toJs bool) = room.open? := by
    unfold AuctionRoom.open?
    cases room.isOpen with
    | val isOpen => cases isOpen <;> rfl
    | _ => rfl
  simp [auctionStateData, AuctionRoom.toJs, auctionStateEvent, htruthy]

theorem shownOnPublish_newBid (auctionId : ℤ) (newBid : NewBid) :
    shownOnPublish (.newBid auctionId newBid) =
      some ⟨number newBid.amount, integer newBid.bidderId, text newBid.bidderUsername⟩ := by
  simp [shownOnPublish, published, pmessage, Payload.toJs, Payload.event, browserHandler,
    readHighestBid]

/-- The handler of the end reads two properties that no hop has written. -/
theorem shownOnPublish_auctionEnd (auctionId : ℤ) (winningBid : WinningBidSummary)
    (message : EndMessage) : shownOnPublish (.auctionEnd auctionId winningBid message) =
      some ⟨number winningBid.amount, .undefined, .undefined⟩ := by
  simp [shownOnPublish, published, pmessage, Payload.toJs, Payload.event, browserHandler,
    readHighestBid]

/-- The state shown on joining is that of the room, cached or not. -/
theorem shownOnJoin_eq (auctionId : ℤ) (room : AuctionRoom) : shownOnJoin auctionId room.toJs =
    some ⟨room.currentHighestBid.toJs number, room.winnerId.toJs integer,
      room.winnerUsername.toJs text⟩ := by
  simp [shownOnJoin, auctionStateData, AuctionRoom.toJs, browserHandler, readHighestBid,
    json_field json_number, json_field json_integer, json_field json_text]

theorem shownOnJoin_json (auctionId : ℤ) (room : AuctionRoom) :
    shownOnJoin auctionId (json room.toJs) = shownOnJoin auctionId room.toJs := by
  simp [shownOnJoin, auctionStateData, AuctionRoom.toJs, browserHandler, readHighestBid,
    json_field json_number, json_field json_integer, json_field json_text]

end CarAuction
