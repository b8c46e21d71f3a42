import CarAuction.AccountLaws
import CarAuction.Backend
import CarAuction.Mediation
import CarAuction.Schedule

/- Where a bid and a closing come from. The user a handler sees was named by a token
   the server gave out, to a caller with the password of that account; a bid event is
   sent by such a handler, and a bid is committed for such an event. So every row of
   the `Bid` table is the bid of the account it names, and an auction is closed only
   for an account that has been an admin from the start.

   `ServerLater` is what every statement keeps of the state. What a process has found out is
   stable under it, so that each case of the step has only its own news to show. -/
namespace CarAuction

open SerialTable Table Pool Machine

def guardLog (log : List ServerEvent) : List GuardEvent :=
  log.filterMap fun | .guarded e => some e | _ => none

@[simp] theorem guardLog_append {log es : List ServerEvent} :
    guardLog (log ++ es) = guardLog log ++ guardLog es := List.filterMap_append

@[simp] theorem guardLog_guarded {es : List GuardEvent} : guardLog (es.map .guarded) = es := by
  simp [guardLog, List.filterMap_map]

/-- The user of the socket was named by a token the server gave out. -/
def Authenticated (gate : GuardWorld) (log : List ServerEvent) (id : SocketId) (user : JwtPayload) :
    Prop :=
  ∃ i, ServerEvent.issued i ∈ log ∧ (gate.socket id).token = some i.token ∧ i.token.payload = user

/-- What is known of a handler body that ran. -/
def HandledOk (gate : GuardWorld) (log : List ServerEvent) (m : HandledMessage) : Prop :=
  Authenticated gate log m.socket m.user ∧ (m.handler = .endAuction → m.user.role = some "admin")

/-- A handler has sent the event. -/
def SentBy (log : List ServerEvent) (m : BidMessage) : Prop :=
  ∃ handled, ServerEvent.handled handled ∈ log ∧ handled.handler = .placeBid ∧ handled.bidMessage = m

/-- A handler has asked for the end of the auction. -/
def EndAsked (log : List ServerEvent) (a : ℤ) : Prop :=
  ∃ handled, ServerEvent.handled handled ∈ log ∧ handled.handler = .endAuction ∧ handled.auctionId = a

/-- What made a call start. -/
def Call.Asked (log : List ServerEvent) : Call → Prop
  | placeBid m _ => SentBy log m
  | endAuction auctionId _ => EndAsked log auctionId
  | getAuctionState _ _ => True

/-- What a process has found out. -/
def Process.Ok (bcrypt : Bcrypt) (b : Backend) (log : List ServerEvent) : Process → Prop
  | auth c => c.Ok bcrypt b.users
  | message m _ _ => PassOk b.gate (guardLog log) m ∧ TokenGenuine b.gate log m.socket
  | bidding m _ => SentBy log m
  | call c => c.Asked log

/-- The bid was sent for by a handler, and its amount is that of the event, rounded to the column. -/
def BidSentFor (log : List ServerEvent) (bid : Bid) : Prop :=
  ∃ m, SentBy log m ∧ bid.userId = m.bidderId ∧ bid.auctionId = m.auctionId ∧
    Sql.Numeric.ofRat 14 2 m.amount = some bid.amount

/-- What every statement keeps of the state. -/
structure ServerLater (b b' : Backend) (log log' : List ServerEvent) : Prop where
  users : Extends b.users b'.users
  gate : Later b.gate b'.gate (guardLog log) (guardLog log')
  log : log ⊆ log'

variable {config : ServerConfig} {i : ServerInput} {b b' start : Backend} {p p' : Process}
  {log log' es : List ServerEvent} {gate gate' : GuardWorld} {id : SocketId} {user : JwtPayload} {a : ℤ}

theorem mem_issuedTokens {token : Token} :
    token ∈ issuedTokens log ↔ ∃ i, ServerEvent.issued i ∈ log ∧ i.token = token := by
  rw [issuedTokens, List.mem_filterMap]
  constructor
  · rintro ⟨e, he, htoken⟩
    cases e with
    | issued i => exact ⟨i, he, Option.some.inj htoken⟩
    | _ => cases htoken
  · rintro ⟨i, hi, rfl⟩
    exact ⟨_, hi, rfl⟩

theorem Authenticated.later (h : Authenticated gate log id user)
    (htoken : ∀ id, (gate'.socket id).token = (gate.socket id).token) (hlog : log ⊆ log') :
    Authenticated gate' log' id user := by
  obtain ⟨i, hi, hsocket, hpayload⟩ := h
  exact ⟨i, hlog hi, (htoken id).trans hsocket, hpayload⟩

theorem TokenGenuine.later (h : TokenGenuine gate log id)
    (htoken : ∀ id, (gate'.socket id).token = (gate.socket id).token) (hlog : log ⊆ log') :
    TokenGenuine gate' log' id := by
  intro token hsocket hvalid
  rw [htoken] at hsocket
  obtain ⟨i, hi, rfl⟩ := mem_issuedTokens.mp (h token hsocket hvalid)
  exact mem_issuedTokens.mpr ⟨i, hlog hi, rfl⟩

theorem SentBy.later {m : BidMessage} (h : SentBy log m) (hlog : log ⊆ log') : SentBy log' m := by
  obtain ⟨handled, hmem, hrest⟩ := h
  exact ⟨handled, hlog hmem, hrest⟩

theorem EndAsked.later (h : EndAsked log a) (hlog : log ⊆ log') : EndAsked log' a := by
  obtain ⟨handled, hmem, hrest⟩ := h
  exact ⟨handled, hlog hmem, hrest⟩

theorem BidSentFor.later {bid : Bid} (h : BidSentFor log bid) (hlog : log ⊆ log') :
    BidSentFor log' bid := by
  obtain ⟨m, hm, hrest⟩ := h
  exact ⟨m, hm.later hlog, hrest⟩

theorem Call.Asked.later {c : Call} (h : c.Asked log) (hlog : log ⊆ log') : c.Asked log' := by
  cases c with
  | placeBid m pc => exact SentBy.later h hlog
  | endAuction auctionId pc => exact EndAsked.later h hlog
  | getAuctionState auctionId pc => trivial

theorem Process.Ok.later {bcrypt : Bcrypt} (h : p.Ok bcrypt b log) (hg : ServerLater b b' log log') :
    p.Ok bcrypt b' log' := by
  cases p with
  | auth c => exact AuthCall.Ok.later h hg.users
  | message m auctionId amount => exact ⟨h.1.later hg.gate, h.2.later hg.gate.token hg.log⟩
  | bidding m pc => exact SentBy.later h hg.log
  | call c => exact Call.Asked.later h hg.log

/-! Calls keep what made them start. -/

section Calls

variable {input : Input} {w w' : World} {c c' : Call} {pubs : List Publication}

theorem CallStep.asked (h : CallStep input w c w' c' pubs) (hc : c.Asked log) : c'.Asked log := by
  cases h
  all_goals exact hc

theorem throw_asked (h : c.throw = some c') (hc : c.Asked log) : c'.Asked log := by
  unfold Call.throw at h
  split at h
  · cases h
  · cases c
    all_goals cases h
    all_goals exact hc

/-- Bids are only added, and by a commit. -/
theorem CallStep.bid_cases (h : CallStep input w c w' c' pubs) : w'.db.bid = w.db.bid ∨
    ∃ m row newBid, c = .placeBid m (.checked row) ∧ w'.db.bid = w.db.bid ++ [newBid] ∧
      newBid.userId = m.bidderId ∧ newBid.auctionId = m.auctionId ∧
      Sql.Numeric.ofRat 14 2 m.amount = some newBid.amount := by
  cases h with
  | bidCommits hc =>
    obtain ⟨row, -, -, hamount, -, hb, hdb⟩ := Database.commitBid_eq_ok.mp hc
    refine .inr ⟨_, _, _, rfl, ?_, ?_, ?_, hamount⟩
    · rw [hdb]
      rfl
    · rw [hb]
    · rw [hb]
  | _ => exact .inl rfl

/-- An auction is opened or closed by its own `endAuction` calls alone. -/
theorem CallStep.isOpen_cases (h : CallStep input w c w' c' pubs) (a : ℤ) :
    (w'.db.auction a).map Auction.isOpen = (w.db.auction a).map Auction.isOpen ∨
      ∃ pc, c = .endAuction a pc := by
  obtain ⟨hsame, -⟩ | ⟨m, row, newBid, ha, -, -, -, hc⟩ | ⟨row, hc, -⟩ := h.rows_cases a
  · exact .inl (congrArg _ hsame)
  · obtain ⟨row', hrow', -, -, -, hrow, -⟩ := Database.commitBid_self hc ha
    refine .inl ?_
    rw [hrow, hrow']
    rfl
  · exact .inr ⟨_, hc⟩

end Calls

/-- The only bid event on a bid's way to Kafka is its own. -/
theorem gatewayStep_bidEvents {throttle : Throttle} {now : Time} {m : BidMessage}
    {timestamps timestamps' : BidTimestamps} {pc pc' : GatewayPc} {event : KafkaMessage BidMessage}
    (h : gatewayStep throttle now m timestamps pc = some (timestamps', pc', some (.bidEvents event))) :
    event.value = m := by
  cases pc with
  | counted checkedAt count =>
    simp only [gatewayStep] at h
    split at h
    · cases h
    · cases h
  | passed => cases h; rfl
  | _ => cases h

@[simp] theorem send_users {produced : Option Produced} : (b.send produced).users = b.users := by
  unfold Backend.send; split <;> rfl

@[simp] theorem send_gate {produced : Option Produced} : (b.send produced).gate = b.gate := by
  unfold Backend.send; split <;> rfl

@[simp] theorem send_auction {produced : Option Produced} : (b.send produced).auction = b.auction := by
  unfold Backend.send; split <;> rfl

@[simp] theorem send_bid {produced : Option Produced} : (b.send produced).bid = b.bid := by
  unfold Backend.send; split <;> rfl

@[simp] theorem send_stores {produced : Option Produced} : (b.send produced).stores = b.stores := by
  unfold Backend.send; split <;> rfl

theorem mem_send {produced : Option Produced} {event : KafkaMessage BidMessage} :
    event ∈ (b.send produced).bidEvents →
      event ∈ b.bidEvents ∨ produced = some (.bidEvents event) := by
  intro h
  unfold Backend.send at h
  split at h
  · rcases List.mem_append.mp h with h | h
    · exact .inl h
    · rw [List.mem_singleton.mp h]
      exact .inr rfl
  · exact .inl h

/-! What a statement keeps. -/

/-- The invariant of the state, of which the run began with `start`. -/
structure BackendOk (bcrypt : Bcrypt) (start b : Backend) (log : List ServerEvent) : Prop where
  ordinary : OrdinarySince start.users b.users
  issued : ∀ i, ServerEvent.issued i ∈ log → IssuedOk bcrypt b.users i
  verified : UsersVerified b.gate (guardLog log)
  attached : ∀ id user, (b.gate.socket id).user = some user → Authenticated b.gate log id user
  handled : ∀ m, ServerEvent.handled m ∈ log → HandledOk b.gate log m
  events : ∀ event ∈ b.bidEvents, SentBy log event.value
  bids : ∀ bid ∈ b.bid, bid ∈ start.bid ∨ BidSentFor log bid
  closings : ∀ a, (b.auction a).map Auction.isOpen = (start.auction a).map Auction.isOpen ∨
    EndAsked log a

theorem ServerLater.emit {users : UserTable} (hext : Extends b.users users) (es : List ServerEvent) :
    ServerLater b { b with users := users } log (log ++ es) := by
  refine ⟨hext, ?_, List.subset_append_left _ _⟩
  rw [guardLog_append]
  exact later_emit

theorem ServerStep.serverLater (h : ServerStep config i b p b' p' es)
    (hverified : UsersVerified b.gate (guardLog log)) : ServerLater b b' log (log ++ es) := by
  cases h with
  | auth h => exact ServerLater.emit h.extends _
  | guards h =>
    refine ⟨Extends.refl _, ?_, List.subset_append_left _ _⟩
    rw [guardLog_append, guardLog_guarded]
    exact h.later hverified
  | handles _ _ => exact ServerLater.emit (Extends.refl _) _
  | hasNoUser _ _ => exact ServerLater.emit (Extends.refl _) _
  | bids _ =>
    refine ⟨?_, ?_, List.subset_append_left _ _⟩
    · rw [send_users]
    · rw [send_gate, guardLog_append]
      exact later_emit
  | calls _ =>
    obtain ⟨husers, hgate, hsub⟩ := ServerLater.emit (Extends.refl b.users) (List.map ServerEvent.published _)
    exact ⟨husers, hgate, hsub⟩

/-- What a statement adds to the log apart from the guards' own events. -/
theorem ServerStep.news (h : ServerStep config i b p b' p' es)
    (hb : BackendOk config.auth.bcrypt start b log) (hp : p.Ok config.auth.bcrypt b log) :
    (∀ i, ServerEvent.issued i ∈ es → IssuedOk config.auth.bcrypt b'.users i) ∧
      ∀ m, ServerEvent.handled m ∈ es → HandledOk b.gate log m := by
  cases h with
  | auth h =>
    refine ⟨fun i hi => ?_, fun m hm => ?_⟩
    · obtain ⟨issued, hissued, heq⟩ := List.mem_map.mp hi
      cases heq
      exact h.issuedOk hp _ hissued
    · obtain ⟨issued, -, heq⟩ := List.mem_map.mp hm
      cases heq
  | guards h =>
    refine ⟨fun i hi => ?_, fun m hm => ?_⟩
    · obtain ⟨e, -, heq⟩ := List.mem_map.mp hi
      cases heq
    · obtain ⟨e, -, heq⟩ := List.mem_map.mp hm
      cases heq
  | @handles m user auctionId amount hpc huser =>
    refine ⟨fun i hi => by simp at hi, fun m' hm => ?_⟩
    cases List.mem_singleton.mp hm
    refine ⟨hb.attached _ _ huser, fun hend => ?_⟩
    have hrole := hp.1.role hpc
    rw [show m.handler = .endAuction from hend, huser] at hrole
    exact rolesGuard_admin hrole
  | hasNoUser _ _ => exact ⟨fun i hi => (by cases hi), fun m hm => (by cases hm)⟩
  | bids _ => exact ⟨fun i hi => (by cases hi), fun m hm => (by cases hm)⟩
  | calls h =>
    refine ⟨fun i hi => ?_, fun m hm => ?_⟩
    · obtain ⟨e, -, heq⟩ := List.mem_map.mp hi
      cases heq
    · obtain ⟨e, -, heq⟩ := List.mem_map.mp hm
      cases heq

/-- A guard attaches the payload of a token the server gave out. -/
theorem GuardStep.attached {limits : Limits} {count : ℕ} {m m' : Message} {ges : List GuardEvent}
    (h : GuardStep limits count gate m gate' m' ges) (hgenuine : TokenGenuine gate log m.socket)
    (hattached : ∀ id user, (gate.socket id).user = some user → Authenticated gate log id user) :
    ∀ id user, (gate'.socket id).user = some user → Authenticated gate log id user := by
  have hset : ∀ {user}, verifyAsync gate.now (gate.socket m.socket).token = some user →
      ∀ id user', ((gate.setUser m.socket user).socket id).user = some user' →
        Authenticated gate log id user' := by
    intro user hv id user' huser
    by_cases hid : id = m.socket
    · rw [hid, setUser_user_self] at huser
      cases huser
      obtain ⟨token, htoken, rfl⟩ := verifyAsync_payload hv
      rw [htoken, verifyAsync, Option.ite_none_right_eq_some, Bool.and_eq_true] at hv
      obtain ⟨issued, hissued, htok⟩ := mem_issuedTokens.mp (hgenuine token htoken hv.1.1)
      rw [hid]
      exact ⟨issued, hissued, by rw [htok]; exact htoken, by rw [htok]⟩
    · rw [setUser_user_of_ne hid] at huser
      exact hattached id user' huser
  cases h with
  | verifies _ hv => exact hset hv
  | verifiesAgain _ hv => exact hset hv
  | _ => exact hattached

theorem ServerStep.attached (h : ServerStep config i b p b' p' es)
    (hb : BackendOk config.auth.bcrypt start b log) (hp : p.Ok config.auth.bcrypt b log) :
    ∀ id user, (b'.gate.socket id).user = some user → Authenticated b.gate log id user := by
  cases h with
  | guards h => exact h.attached hp.2 hb.attached
  | bids _ =>
    rw [send_gate]
    exact hb.attached
  | _ => exact hb.attached

/-- What a handler body starts was asked for by the handler. -/
theorem body_ok {bcrypt : Bcrypt} {m : HandledMessage} (h : ServerEvent.handled m ∈ log) :
    m.body.Ok bcrypt b log := by
  unfold HandledMessage.body
  split
  · trivial
  · next hhandler => exact ⟨m, h, hhandler, rfl⟩
  · next hhandler => exact ⟨m, h, hhandler, rfl⟩

theorem ServerStep.ok (h : ServerStep config i b p b' p' es)
    (hverified : UsersVerified b.gate (guardLog log)) (hp : p.Ok config.auth.bcrypt b log) :
    p'.Ok config.auth.bcrypt b' (log ++ es) := by
  have hlater := h.serverLater hverified
  cases h with
  | auth h => exact h.ok hp
  | @guards m gate m' es auctionId amount h =>
    refine ⟨?_, ?_⟩
    · rw [guardLog_append, guardLog_guarded]
      exact h.passOk hverified hp.1
    · rw [show m'.socket = m.socket by cases h <;> rfl]
      exact hp.2.later hlater.gate.token hlater.log
  | handles _ _ =>
    apply body_ok
    exact List.mem_append_right _ List.mem_cons_self
  | @hasNoUser m auctionId amount hpc huser =>
    refine ⟨?_, hp.2.later hlater.gate.token hlater.log⟩
    have hthrow : m.throw = some { m with pc := .threw } := by rw [Message.throw, hpc]
    exact (hp.1.throw hthrow).later hlater.gate
  | bids _ => exact SentBy.later hp hlater.log
  | calls h => exact Call.Asked.later (h.asked hp) hlater.log

/-! Where new events, bids and closings come from. -/

theorem ServerStep.event_cases (h : ServerStep config i b p b' p' es) :
    ∀ event ∈ b'.bidEvents, event ∈ b.bidEvents ∨ ∃ pc, p = .bidding event.value pc := by
  intro event hevent
  cases h with
  | @bids m pc timestamps pc' produced hstep =>
    rcases mem_send hevent with hold | rfl
    · exact .inl hold
    · exact .inr ⟨pc, by rw [gatewayStep_bidEvents hstep]⟩
  | _ => exact .inl hevent

theorem ServerStep.bid_cases (h : ServerStep config i b p b' p' es) :
    ∀ bid ∈ b'.bid, bid ∈ b.bid ∨ ∃ m row, p = .call (.placeBid m (.checked row)) ∧
      bid.userId = m.bidderId ∧ bid.auctionId = m.auctionId ∧
      Sql.Numeric.ofRat 14 2 m.amount = some bid.amount := by
  intro bid hbid
  cases h with
  | bids _ =>
    rw [send_bid] at hbid
    exact .inl hbid
  | @calls c w c' pubs hstep =>
    obtain hsame | ⟨m, row, newBid, rfl, hadded, huser, hauction, hamount⟩ := hstep.bid_cases
    · rw [show (b.withStores w).bid = b.bid from hsame] at hbid
      exact .inl hbid
    · rw [show (b.withStores w).bid = b.bid ++ [newBid] from hadded] at hbid
      rcases List.mem_append.mp hbid with hbid | hbid
      · exact .inl hbid
      · rw [List.mem_singleton.mp hbid]
        exact .inr ⟨m, row, rfl, huser, hauction, hamount⟩
  | _ => exact .inl hbid

theorem ServerStep.isOpen_cases (h : ServerStep config i b p b' p' es) (a : ℤ) :
    (b'.auction a).map Auction.isOpen = (b.auction a).map Auction.isOpen ∨
      ∃ pc, p = .call (.endAuction a pc) := by
  cases h with
  | bids _ =>
    rw [send_auction]
    exact .inl rfl
  | calls hstep =>
    obtain hsame | ⟨pc, rfl⟩ := hstep.isOpen_cases a
    · exact .inl hsame
    · exact .inr ⟨pc, rfl⟩
  | _ => exact .inl rfl

theorem ServerStep.verified (h : ServerStep config i b p b' p' es)
    (hverified : UsersVerified b.gate (guardLog log)) :
    UsersVerified b'.gate (guardLog (log ++ es)) := by
  have hlater := h.serverLater hverified
  cases h with
  | guards h =>
    rw [guardLog_append, guardLog_guarded]
    exact h.usersVerified hverified
  | bids _ =>
    apply hverified.later hlater.gate
    intro id
    rw [send_gate]
  | _ => exact hverified.later hlater.gate fun _ => rfl

theorem ServerStep.ordinary {old : UserTable} (h : ServerStep config i b p b' p' es)
    (hold : OrdinarySince old b.users) : OrdinarySince old b'.users := by
  cases h with
  | auth h => exact h.ordinary hold
  | bids _ =>
    rw [send_users]
    exact hold
  | _ => exact hold

theorem ServerStep.backendOk (h : ServerStep config i b p b' p' es)
    (hb : BackendOk config.auth.bcrypt start b log) (hp : p.Ok config.auth.bcrypt b log) :
    BackendOk config.auth.bcrypt start b' (log ++ es) := by
  have hlater := h.serverLater hb.verified
  obtain ⟨hissued, hhandled⟩ := h.news hb hp
  refine ⟨h.ordinary hb.ordinary, ?_, h.verified hb.verified, ?_, ?_, ?_, ?_, ?_⟩
  · intro i hi
    rcases List.mem_append.mp hi with hi | hi
    · exact (hb.issued i hi).later hlater.users
    · exact hissued i hi
  · intro id user huser
    exact (h.attached hb hp id user huser).later hlater.gate.token hlater.log
  · intro m hm
    have hold : HandledOk b.gate log m := by
      rcases List.mem_append.mp hm with hm | hm
      · exact hb.handled m hm
      · exact hhandled m hm
    exact ⟨hold.1.later hlater.gate.token hlater.log, hold.2⟩
  · intro event hevent
    rcases h.event_cases event hevent with hold | ⟨pc, rfl⟩
    · exact (hb.events event hold).later hlater.log
    · exact SentBy.later hp hlater.log
  · intro bid hbid
    rcases h.bid_cases bid hbid with hold | ⟨m, row, rfl, hrest⟩
    · exact (hb.bids bid hold).imp_right fun hsent => hsent.later hlater.log
    · exact .inr ⟨m, SentBy.later hp hlater.log, hrest⟩
  · intro a
    rcases h.isOpen_cases a with hsame | ⟨pc, rfl⟩
    · rw [hsame]
      exact (hb.closings a).imp_right fun hasked => hasked.later hlater.log
    · exact .inr (EndAsked.later hp hlater.log)

/-- The invariant of the server. -/
def ServerInv (config : ServerConfig) (start : Backend) (s : ServerState) : Prop :=
  BackendOk config.auth.bcrypt start s.world s.log ∧
    ∀ p ∈ s.procs, p.Ok config.auth.bcrypt s.world s.log

/-- No socket has a user yet, and no bid event is under way. -/
structure Backend.Fresh (b : Backend) : Prop where
  users : ∀ id, (b.gate.socket id).user = none
  events : b.bidEvents = []

theorem serverInv_start (hfresh : start.Fresh) : ServerInv config start ⟨start, [], []⟩ := by
  refine ⟨⟨fun _ hrow => .inl hrow, fun _ hi => (by cases hi), ?_, ?_, fun _ hm => (by cases hm), ?_,
    fun _ hbid => .inl hbid, fun _ => .inl rfl⟩, fun _ hp => (by cases hp)⟩
  · intro id user huser
    rw [hfresh.users] at huser
    cases huser
  · intro id user huser
    rw [hfresh.users] at huser
    cases huser
  · intro event hevent
    rw [hfresh.events] at hevent
    cases hevent

theorem Process.Ok.throw {bcrypt : Bcrypt} (h : p.Ok bcrypt b log) (hp : p.throw = some p') :
    p'.Ok bcrypt b log := by
  cases p with
  | auth c =>
    obtain ⟨c', hc, rfl⟩ := Option.map_eq_some_iff.mp hp
    exact throw_ok hc
  | message m auctionId amount =>
    obtain ⟨m', hm, rfl⟩ := Option.map_eq_some_iff.mp hp
    refine ⟨h.1.throw hm, ?_⟩
    rw [throw_eq hm]
    exact h.2
  | bidding m pc =>
    cases pc
    all_goals cases hp
    all_goals exact h
  | call c =>
    obtain ⟨c', hc, rfl⟩ := Option.map_eq_some_iff.mp hp
    exact throw_asked hc h

variable {s t : ServerState} {act : ServerAction}

theorem serverInv_step (hs : ServerInv config start s) (hu : Unforged s act t)
    (ht : Pool.step (server config) s act = some t) : ServerInv config start t := by
  obtain ⟨hb, hprocs⟩ := hs
  cases Pool.step_inv ht with
  | @start w procs log p hbegins =>
    refine ⟨hb, fun q hq => ?_⟩
    rcases List.mem_append.mp hq with hq | hq
    · exact hprocs q hq
    · rw [List.mem_singleton.mp hq]
      cases p with
      | auth c => exact (begins_ok config.auth.bcrypt hbegins).1
      | message m auctionId amount =>
        have hm : m = .arrive m.socket m.handler := of_decide_eq_true hbegins
        refine ⟨?_, hu⟩
        rw [hm]
        exact passOk_arrive
      | bidding m pc => cases hbegins
      | call c =>
        cases c with
        | placeBid m pc =>
          obtain ⟨event, hevent, rfl⟩ := List.mem_map.mp hu
          exact hb.events event hevent
        | endAuction auctionId pc => cases pc <;> cases hbegins
        | getAuctionState auctionId pc => trivial
  | @run w w' l r log p p' es i hstep =>
    have hstep := serverStep_inv hstep
    have hp := hprocs p (mem_split.mpr (.inl rfl))
    refine ⟨hstep.backendOk hb hp, fun q hq => ?_⟩
    rcases mem_split.mp hq with rfl | hq
    · exact hstep.ok hb.verified hp
    · exact (hprocs q (mem_split.mpr (.inr hq))).later (hstep.serverLater hb.verified)
  | @env w procs log e =>
    have hlater : ServerLater w (e.run w) log log := by
      cases e with
      | elapse k => exact ⟨Extends.refl _, later_wait k, List.Subset.refl _⟩
      | _ =>
        exact ⟨Extends.refl _, ⟨le_rfl, fun _ => rfl, fun _ _ h => h, List.Subset.refl _⟩,
          List.Subset.refl _⟩
    refine ⟨?_, fun q hq => (hprocs q hq).later hlater⟩
    cases e with
    | elapse k =>
      exact ⟨hb.ordinary, hb.issued, hb.verified.later (later_wait k) fun _ => rfl, hb.attached,
        hb.handled, hb.events, hb.bids, hb.closings⟩
    | _ =>
      exact ⟨hb.ordinary, hb.issued, hb.verified, hb.attached, hb.handled, hb.events, hb.bids,
        hb.closings⟩
  | kill hk => exact ⟨hb, forall_replace hprocs fun h => h.throw hk⟩

/-! Handlers act for accounts. -/

/-- The user of the handler is an account, named by the socket's token, which was given out to a
    caller with the email and the password of that account. -/
def ActsFor (bcrypt : Bcrypt) (s : ServerState) (m : HandledMessage) (row : ℤ × Account) : Prop :=
  row ∈ s.world.users.rows ∧ m.user = payloadOf row ∧
    ∃ i, ServerEvent.issued i ∈ s.log ∧ (s.world.gate.socket m.socket).token = some i.token ∧
      row.2.Admits bcrypt i.request

theorem ServerInv.actsFor (hs : ServerInv config start s) {m : HandledMessage}
    (hm : ServerEvent.handled m ∈ s.log) : ∃ row, ActsFor config.auth.bcrypt s m row := by
  obtain ⟨⟨i, hi, htoken, hpayload⟩, -⟩ := hs.1.handled m hm
  obtain ⟨row, hrow, hnames, -, -, hadmits⟩ := hs.1.issued i hi
  exact ⟨row, hrow, hpayload.symm.trans hnames, i, hi, htoken, hadmits⟩

theorem always_of_serverInv (hfresh : start.Fresh) {schedule : List ServerAction}
    (hunforged : Along (Pool.step (server config)) Unforged ⟨start, [], []⟩ schedule)
    {Q : ServerState → Prop} (hQ : ∀ s, ServerInv config start s → Q s) :
    Always (Pool.step (server config)) Q ⟨start, [], []⟩ schedule :=
  always_of_inv (I := ServerInv config start) (P := Unforged)
    (fun _ _ _ hs hu ht => serverInv_step hs hu ht) hQ schedule (serverInv_start hfresh) hunforged

/-- Every handler body that ever runs acts for an account, whatever else runs, fails or expires. -/
theorem handlers_act_for_accounts (config : ServerConfig) (start : Backend)
    (schedule : List ServerAction) (hfresh : start.Fresh)
    (hunforged : Along (Pool.step (server config)) Unforged ⟨start, [], []⟩ schedule) :
    Always (Pool.step (server config)) (fun s => ∀ m, ServerEvent.handled m ∈ s.log →
      ∃ row, ActsFor config.auth.bcrypt s m row) ⟨start, [], []⟩ schedule :=
  always_of_serverInv hfresh hunforged fun _ hs _ hm => hs.actsFor hm

def serverConfig : ServerConfig := ⟨⟨saltedBcrypt, 60⟩, ⟨3, 10⟩, ⟨3, 10⟩⟩

def annAccount : Account := ⟨"ann@example.com", "ann", "Ann Ames", "s0$ann-secret", "admin"⟩

/-- Ann is an admin, and an auction is open. Ann's socket carries the token of her next login, Bob's
    that of his registration. -/
def annBackend : Backend where
  users := ⟨[(1, annAccount)], 2, List.pairwise_singleton _ _,
    fun _ hr => (List.mem_singleton.mp hr).symm ▸ Int.lt_succ 1, fun _ _ => List.nodup_singleton _⟩
  gate :=
    { now := 0
      socket := fun id =>
        if id = annSocket then
          ⟨"10.0.0.1", some (generateToken 60 0 (1, annAccount)), none⟩
        else
          ⟨"10.0.0.2", some (sign 60 0 ⟨2, "bob", some "user"⟩), none⟩ }
  timestamps := fun _ => []
  bidEvents := []
  auction := sampleWorld.db.auction
  bid := []
  cache := fun _ => none

theorem annBackend_fresh : annBackend.Fresh := by
  refine ⟨fun id => ?_, rfl⟩
  simp only [annBackend]
  split
  · rfl
  · rfl

def steps (i n : ℕ) : List ServerAction := List.replicate n (.run i ⟨"s1", 0, 0⟩)

/-- Ann logs in and Bob registers; Bob bids, and Ann ends the auction. -/
def bobBidsAnnEnds : List ServerAction :=
  [.start (.auth (.login ⟨"ann@example.com", "ann-secret"⟩ .begin))] ++ steps 0 2 ++
    [.start (.auth (.register ⟨"bob@example.com", "bob", "Bob Bell", "bob-secret"⟩ .begin))] ++
    steps 1 3 ++ [.start (.message (.arrive bobSocket .placeBid) 1 120)] ++ steps 2 10 ++
    [.start (.call (.placeBid ⟨1, 120, 2, "bob", "socket-b"⟩ .begin))] ++ steps 3 4 ++
    [.start (.message (.arrive annSocket .endAuction) 1 0)] ++ steps 4 11

theorem bobBidsAnnEnds_unforged :
    Along (Pool.step (server serverConfig)) Unforged ⟨annBackend, [], []⟩ bobBidsAnnEnds := by
  decide +kernel

theorem handlers_act_for_accounts_ann_bob :
    Always (Pool.step (server serverConfig)) (fun s => ∀ m, ServerEvent.handled m ∈ s.log →
      ∃ row, ActsFor saltedBcrypt s m row) ⟨annBackend, [], []⟩ bobBidsAnnEnds :=
  handlers_act_for_accounts serverConfig annBackend bobBidsAnnEnds annBackend_fresh
    bobBidsAnnEnds_unforged

/-- A handler that acts for the account has asked for the bid. -/
def PlacedBy (bcrypt : Bcrypt) (s : ServerState) (bid : Bid) (row : ℤ × Account) : Prop :=
  bid.userId = row.1 ∧ ∃ m, ServerEvent.handled m ∈ s.log ∧ m.handler = .placeBid ∧
    m.auctionId = bid.auctionId ∧ Sql.Numeric.ofRat 14 2 m.amount = some bid.amount ∧
    ActsFor bcrypt s m row

/-- Every `Bid` row that a run adds is a bid of the account it names: a `placeBid` message for that
    auction and amount came over a socket with a token that was given out for the password of that
    account. -/
theorem bids_are_authentic (config : ServerConfig) (start : Backend) (schedule : List ServerAction)
    (hfresh : start.Fresh)
    (hunforged : Along (Pool.step (server config)) Unforged ⟨start, [], []⟩ schedule) :
    Always (Pool.step (server config)) (fun s => ∀ bid ∈ s.world.bid, bid ∈ start.bid ∨
      ∃ row, PlacedBy config.auth.bcrypt s bid row) ⟨start, [], []⟩ schedule := by
  apply always_of_serverInv hfresh hunforged
  intro s hs bid hbid
  rcases hs.1.bids bid hbid with hold | ⟨m, ⟨handled, hmem, hhandler, rfl⟩, huser, hauction, hamount⟩
  · exact .inl hold
  · obtain ⟨row, hacts⟩ := hs.actsFor hmem
    refine .inr ⟨row, ?_, handled, hmem, hhandler, hauction.symm, hamount, hacts⟩
    rw [huser, HandledMessage.bidMessage, hacts.2.1]
    rfl

theorem bids_are_authentic_ann_bob :
    Always (Pool.step (server serverConfig)) (fun s => ∀ bid ∈ s.world.bid, bid ∈ annBackend.bid ∨
      ∃ row, PlacedBy saltedBcrypt s bid row) ⟨annBackend, [], []⟩ bobBidsAnnEnds ∧
    (exec (Pool.step (server serverConfig)) ⟨annBackend, [], []⟩ bobBidsAnnEnds).map
      (fun s => s.world.bid.map Bid.userId) = some [2] :=
  ⟨bids_are_authentic serverConfig annBackend bobBidsAnnEnds annBackend_fresh bobBidsAnnEnds_unforged,
    by decide +kernel⟩

/-- No auction changes between open and closed in a run unless an `endAuction` handler has run for
    it, for an account that was an admin before the run: registrations make no admins. -/
theorem only_admins_close (config : ServerConfig) (start : Backend) (schedule : List ServerAction)
    (hfresh : start.Fresh)
    (hunforged : Along (Pool.step (server config)) Unforged ⟨start, [], []⟩ schedule) :
    Always (Pool.step (server config)) (fun s => ∀ a,
      (s.world.auction a).map Auction.isOpen = (start.auction a).map Auction.isOpen ∨
      ∃ m row, ServerEvent.handled m ∈ s.log ∧ m.handler = .endAuction ∧ m.auctionId = a ∧
        ActsFor config.auth.bcrypt s m row ∧ row ∈ start.users.rows ∧ row.2.role = "admin")
      ⟨start, [], []⟩ schedule := by
  apply always_of_serverInv hfresh hunforged
  intro s hs a
  rcases hs.1.closings a with hsame | ⟨m, hm, hhandler, hauction⟩
  · exact .inl hsame
  · obtain ⟨row, hacts⟩ := hs.actsFor hm
    have hrole : row.2.role = "admin" := by
      have huser := (hs.1.handled m hm).2 hhandler
      rw [hacts.2.1] at huser
      exact Option.some.inj huser
    refine .inr ⟨m, row, hm, hhandler, hauction, hacts, ?_, hrole⟩
    rcases hs.1.ordinary row hacts.1 with hold | hdefault
    · exact hold
    · rw [hrole] at hdefault
      exact absurd hdefault (by decide)

theorem only_admins_close_ann_bob :
    Always (Pool.step (server serverConfig)) (fun s => ∀ a,
      (s.world.auction a).map Auction.isOpen = (annBackend.auction a).map Auction.isOpen ∨
      ∃ m row, ServerEvent.handled m ∈ s.log ∧ m.handler = .endAuction ∧ m.auctionId = a ∧
        ActsFor saltedBcrypt s m row ∧ row ∈ annBackend.users.rows ∧ row.2.role = "admin")
      ⟨annBackend, [], []⟩ bobBidsAnnEnds ∧
    (exec (Pool.step (server serverConfig)) ⟨annBackend, [], []⟩ bobBidsAnnEnds).map
      (fun s => (s.world.auction 1).map Auction.isOpen) = some (some false) :=
  ⟨only_admins_close serverConfig annBackend bobBidsAnnEnds annBackend_fresh bobBidsAnnEnds_unforged,
    by decide +kernel⟩

end CarAuction
