import CarAuction.Provenance

/- The names beside the amounts. A bidder and a winner are shown by an id and a name,
   which travel apart: in a bid event, in the cached state, in the summary of an
   auction that has ended. `names_are_accounts` says that wherever both are shown they
   are the id and the name of one account, and that no winner is shown without a name.

   The foreign keys of the tables are kept as well. So no call fails because a row it
   refers to is missing (`no_missing_rows`): of the errors of a commit only those of the
   two numbers remain.

   Both are laws of the calls (`CallLaw`): what is true of the stores, of each call and
   of what is published. The server keeps a law that the statements of the calls keep. -/
namespace CarAuction

open SerialTable Table Pool Machine Sql

def Named (users : UserTable) (id : ℤ) (name : String) : Prop :=
  ∃ row ∈ users.rows, row.1 = id ∧ row.2.username = name

/-- The id and the name are those of one account, or both are missing. An id `0` is falsy. -/
def WinnerNamed (users : UserTable) (id : Field ℤ) (name : Field String) : Prop :=
  (∀ i, id = .val i → i ≠ 0 → ∃ n, name = .val n ∧ Named users i n) ∧
    ∀ n, name = .val n → ∃ i, id = .val i ∧ Named users i n

def AuctionRoom.Credible (users : UserTable) (room : AuctionRoom) : Prop :=
  WinnerNamed users room.winnerId room.winnerUsername

def WinningBidSummary.Credible (users : UserTable) (winningBid : WinningBidSummary) : Prop :=
  WinnerNamed users winningBid.userId winningBid.username

def Payload.Credible (users : UserTable) : Payload → Prop
  | newBid _ bid => Named users bid.bidderId bid.bidderUsername
  | auctionEnd _ winningBid _ => winningBid.Credible users
  | bidError _ _ _ => True

/-- The foreign keys of the bids and of the auctions. -/
structure ForeignKeys (users : UserTable) (w : World) : Prop where
  bids : ∀ bid ∈ w.db.bid, ∃ row ∈ users.rows, row.1 = bid.userId
  winners : ∀ a row id, w.db.auction a = some row → row.winnerId = some id →
    ∃ user ∈ users.rows, user.1 = id

def CacheCredible (users : UserTable) (w : World) : Prop :=
  ∀ a room, w.cache a = some room → room.Credible users

/-- The rows that the next statement of the call takes for granted. -/
def Call.Refers (users : UserTable) (w : World) : Call → Prop
  | placeBid m (.checked _) => (w.db.auction m.auctionId).isSome
  | endAuction auctionId .foundOpen => (w.db.auction auctionId).isSome
  | getAuctionState _ (.foundRow _ winnerId) => ∃ user ∈ users.rows, user.1 = winnerId
  | _ => True

/-- The ids and the names that the call holds. -/
def Call.Credible (users : UserTable) : Call → Prop
  | endAuction _ (.summarised winningBid _) => winningBid.Credible users
  | endAuction _ (.announced winningBid _) => winningBid.Credible users
  | getAuctionState _ (.foundRow row winnerId) => row.winnerId = some winnerId
  | getAuctionState _ (.resolved room) => room.Credible users
  | getAuctionState _ (.returned room) => room.Credible users
  | _ => True

/-- What is to hold of the stores, of the calls and of what they publish. -/
structure CallLaw where
  stores : UserTable → World → Prop
  call : UserTable → World → Call → Prop
  payload : UserTable → Payload → Prop

variable {config : ServerConfig} {i : ServerInput} {b b' start : Backend} {p p' : Process}
  {log es : List ServerEvent} {users users' : UserTable} {w w' : World} {c c' : Call}
  {pubs : List Publication} {input : Input} {id : ℤ} {name : String} {room : AuctionRoom}
  {s t : ServerState} {act : ServerAction}

theorem Named.later (h : Named users id name) (hext : Extends users users') : Named users' id name := by
  obtain ⟨row, hrow, hrest⟩ := h
  exact ⟨row, hext.mem hrow, hrest⟩

theorem WinnerNamed.later {id : Field ℤ} {name : Field String} (h : WinnerNamed users id name)
    (hext : Extends users users') : WinnerNamed users' id name := by
  refine ⟨fun i hi hne => ?_, fun n hn => ?_⟩
  · obtain ⟨n, hn, hnamed⟩ := h.1 i hi hne
    exact ⟨n, hn, hnamed.later hext⟩
  · obtain ⟨i, hi, hnamed⟩ := h.2 n hn
    exact ⟨i, hi, hnamed.later hext⟩

theorem Payload.Credible.later {payload : Payload} (h : payload.Credible users)
    (hext : Extends users users') : payload.Credible users' := by
  cases payload with
  | newBid auctionId newBid => exact Named.later h hext
  | auctionEnd auctionId winningBid message => exact WinnerNamed.later h hext
  | bidError auctionId reason socketId => trivial

/-- Auctions are not removed. -/
def AuctionsKept (w w' : World) : Prop :=
  ∀ a, (w.db.auction a).isSome → (w'.db.auction a).isSome

theorem Call.Refers.later (h : c.Refers users w) (hext : Extends users users')
    (hkept : AuctionsKept w w') : c.Refers users' w' := by
  unfold Call.Refers at h ⊢
  split at h
  · exact hkept _ h
  · exact hkept _ h
  · obtain ⟨user, huser, hid⟩ := h
    exact ⟨user, hext.mem huser, hid⟩
  · trivial

theorem Call.Credible.later (h : c.Credible users) (hext : Extends users users') : c.Credible users' := by
  unfold Call.Credible at h ⊢
  split at h
  · exact WinnerNamed.later h hext
  · exact WinnerNamed.later h hext
  · exact h
  · exact WinnerNamed.later h hext
  · exact WinnerNamed.later h hext
  · trivial

theorem ForeignKeys.later (h : ForeignKeys users w) (hext : Extends users users')
    (hauction : w'.db.auction = w.db.auction) (hbid : w'.db.bid = w.db.bid) : ForeignKeys users' w' := by
  refine ⟨fun bid hmem => ?_, fun a row id hrow hid => ?_⟩
  · rw [hbid] at hmem
    obtain ⟨row, hrow, hid⟩ := h.bids bid hmem
    exact ⟨row, hext.mem hrow, hid⟩
  · rw [hauction] at hrow
    obtain ⟨user, huser, heq⟩ := h.winners a row id hrow hid
    exact ⟨user, hext.mem huser, heq⟩

/-! The rows a statement reads and the state it builds. -/

theorem userRows_isSome : (userRows users id).isSome ↔ ∃ row ∈ users.rows, row.1 = id := by
  rw [userRows, Option.isSome_map, Option.isSome_iff_exists]
  constructor
  · rintro ⟨row, hrow⟩
    exact ⟨row, findId_eq_some.mp hrow⟩
  · rintro ⟨row, hrow⟩
    exact ⟨row, findId_eq_some.mpr hrow⟩

theorem named_of_userRows {user : User} (h : userRows users id = some user) :
    Named users id user.username := by
  obtain ⟨row, hrow, rfl⟩ := Option.map_eq_some_iff.mp h
  exact ⟨row, (findId_eq_some.mp hrow).1, (findId_eq_some.mp hrow).2, rfl⟩

theorem userRows_of_named (h : Named users id name) : userRows users id = some ⟨name⟩ := by
  obtain ⟨row, hrow, hid, rfl⟩ := h
  rw [userRows, findId_eq_some.mpr ⟨hrow, hid⟩]
  rfl

theorem winnerNamed_val (h : Named users id name) : WinnerNamed users (.val id) (.val name) := by
  refine ⟨fun i hi _ => ?_, fun n hn => ?_⟩
  · cases hi
    exact ⟨name, rfl, h⟩
  · cases hn
    exact ⟨id, rfl, h⟩

theorem rowRoom_credible {row : Auction} (h : row.winnerId = none ∨ row.winnerId = some 0) :
    (rowRoom row .undefined).Credible users := by
  refine ⟨fun i hi hne => ?_, fun n hn => by cases hn⟩
  rcases h with hnone | hzero
  · rw [rowRoom, hnone] at hi
    cases hi
  · rw [rowRoom, hzero] at hi
    cases hi
    exact absurd rfl hne

theorem CacheCredible.setCache (h : CacheCredible users w) (a : ℤ) (hroom : room.Credible users) :
    CacheCredible users (w.setCache a room) := by
  intro a' room' hroom'
  by_cases ha : a' = a
  · rw [ha, World.setCache_cache_self] at hroom'
    cases hroom'
    exact hroom
  · rw [World.setCache_cache_of_ne ha] at hroom'
    exact h a' room' hroom'

theorem CacheCredible.expireCache (h : CacheCredible users w) (a : ℤ) :
    CacheCredible users (w.expireCache a) := by
  intro a' room hroom
  by_cases ha : a' = a
  · rw [ha, World.expireCache_cache_self] at hroom
    cases hroom
  · rw [World.expireCache_cache_of_ne ha] at hroom
    exact h a' room hroom

/-- A row is written whose winner, if it has one, is that of a row that was there or a bidder. -/
theorem ForeignKeys.setAuction (h : ForeignKeys users w) {a : ℤ} {row : Auction}
    (hrow : ∀ id, row.winnerId = some id → ∃ user ∈ users.rows, user.1 = id) :
    ForeignKeys users { w with db := w.db.setAuction a row } := by
  refine ⟨h.bids, fun a' row' id hrow' hid => ?_⟩
  by_cases ha : a' = a
  · rw [ha, Database.setAuction_auction_self] at hrow'
    cases hrow'
    exact hrow id hid
  · rw [Database.setAuction_auction_of_ne ha] at hrow'
    exact h.winners a' row' id hrow' hid

theorem ForeignKeys.commit (h : ForeignKeys users w) {m : BidMessage} {now : Time} {db : Database}
    {newBid : Bid} (hm : Named users m.bidderId m.bidderUsername)
    (hc : w.db.commitBid m now = .ok (db, newBid)) : ForeignKeys users { w with db := db } := by
  obtain ⟨row, hrow, -, -, -, hb, rfl⟩ := Database.commitBid_eq_ok.mp hc
  obtain ⟨user, huser, hid, -⟩ := hm
  have hadded : ForeignKeys users { w with db := w.db.addBid newBid } := by
    refine ⟨fun bid hbid => ?_, h.winners⟩
    rcases List.mem_append.mp hbid with hbid | hbid
    · exact h.bids bid hbid
    · rw [List.mem_singleton.mp hbid, hb]
      exact ⟨user, huser, hid⟩
  apply hadded.setAuction
  intro winner hwinner
  cases hwinner
  exact ⟨user, huser, hid⟩

theorem CallStep.auctionsKept (h : CallStep input w c w' c' pubs) : AuctionsKept w w' := by
  intro a ha
  obtain ⟨hsame, -⟩ | ⟨m, row, newBid, hm, -, -, -, hc⟩ | ⟨row, -, -, -, -, hrow, -⟩ := h.rows_cases a
  · rw [hsame]
    exact ha
  · obtain ⟨row', -, -, -, -, hrow, -⟩ := Database.commitBid_self hc hm
    rw [hrow]
    rfl
  · rw [hrow]
    rfl

/-- A statement finds the rows that the next one takes for granted. -/
theorem CallStep.refers (h : CallStep input w c w' c' pubs) (hw : ForeignKeys users w)
    (hm : ∀ m ∈ c.message, Named users m.bidderId m.bidderUsername) :
    ForeignKeys users w' ∧ c'.Refers users w' := by
  cases h with
  | bidPasses hcheck =>
    refine ⟨hw, ?_⟩
    rw [Call.Refers, (checkBid_ok.mp hcheck).1]
    rfl
  | bidCommits hcommit => exact ⟨hw.commit (hm _ rfl) hcommit, trivial⟩
  | endPasses hrow _ =>
    refine ⟨hw, ?_⟩
    rw [Call.Refers, hrow]
    rfl
  | endCloses hrow => exact ⟨hw.setAuction fun id hid => hw.winners _ _ id hrow hid, trivial⟩
  | stateRow hrow hwinner _ => exact ⟨hw, hw.winners _ _ _ hrow hwinner⟩
  | bidCaches => exact ⟨⟨hw.bids, hw.winners⟩, trivial⟩
  | endCaches => exact ⟨⟨hw.bids, hw.winners⟩, trivial⟩
  | stateCaches => exact ⟨⟨hw.bids, hw.winners⟩, trivial⟩
  | _ => exact ⟨hw, trivial⟩

/-- What a statement caches and publishes, and what it hands to the next one. -/
theorem CallStep.credible (h : CallStep input w c w' c' pubs) (huser : w.db.user = userRows users)
    (hw : CacheCredible users w) (hm : ∀ m ∈ c.message, Named users m.bidderId m.bidderUsername)
    (hc : c.Credible users) :
    CacheCredible users w' ∧ c'.Credible users ∧ ∀ p ∈ pubs, p.payload.Credible users := by
  have hquiet : ∀ p ∈ ([] : List Publication), p.payload.Credible users := fun p hp => by cases hp
  cases h with
  | bidPublishes =>
    refine ⟨hw, trivial, fun p hp => ?_⟩
    rw [List.mem_singleton.mp hp]
    exact hm _ rfl
  | bidCaches => exact ⟨hw.setCache _ (winnerNamed_val (hm _ rfl)), trivial, hquiet⟩
  | bidRejects =>
    refine ⟨hw, trivial, fun p hp => ?_⟩
    rw [List.mem_singleton.mp hp]
    trivial
  | endNoBids _ => exact ⟨hw, ⟨fun i hi => (by cases hi), fun n hn => (by cases hn)⟩, hquiet⟩
  | endWinner _ hrow =>
    rw [huser] at hrow
    exact ⟨hw, winnerNamed_val (named_of_userRows hrow), hquiet⟩
  | endPublishes =>
    refine ⟨hw, hc, fun p hp => ?_⟩
    rw [List.mem_singleton.mp hp]
    exact hc
  | endCaches => exact ⟨hw.setCache _ hc, trivial, hquiet⟩
  | stateHit hroom => exact ⟨hw, hw _ _ hroom, hquiet⟩
  | stateUnknown _ => exact ⟨hw, ⟨fun i hi => (by cases hi), fun n hn => (by cases hn)⟩, hquiet⟩
  | stateNoWinner _ hwinner => exact ⟨hw, rowRoom_credible hwinner, hquiet⟩
  | stateRow _ hwinner _ => exact ⟨hw, hwinner, hquiet⟩
  | @stateUser auctionId row winnerId user hrow =>
    rw [huser] at hrow
    have hwinner : row.winnerId = some winnerId := hc
    refine ⟨hw, ?_, hquiet⟩
    rw [Call.Credible, AuctionRoom.Credible, rowRoom, hwinner]
    exact winnerNamed_val (named_of_userRows hrow)
  | stateCaches => exact ⟨hw.setCache _ hc, hc, hquiet⟩
  | _ => exact ⟨hw, trivial, hquiet⟩

/-! The server. -/

/-- An event that a handler has sent names the account of its user. -/
theorem SentBy.named {bcrypt : Bcrypt} {m : BidMessage} (h : SentBy log m)
    (hb : BackendOk bcrypt start b log) : Named b.users m.bidderId m.bidderUsername := by
  obtain ⟨handled, hmem, -, rfl⟩ := h
  obtain ⟨⟨i, hi, -, hpayload⟩, -⟩ := hb.handled handled hmem
  obtain ⟨row, hrow, hnames, -⟩ := hb.issued i hi
  have huser : handled.user = payloadOf row := hpayload.symm.trans hnames
  refine ⟨row, hrow, ?_, ?_⟩
  · rw [HandledMessage.bidMessage, huser]
    rfl
  · rw [HandledMessage.bidMessage, huser]
    rfl

/-- The calls keep the law, and so do registrations, time and failures. -/
structure CallLaw.Kept (L : CallLaw) : Prop where
  begins : ∀ {users w} {c : Call}, c.begins = true → L.call users w c
  step : ∀ {input users w c w' c' pubs}, CallStep input w c w' c' pubs → w.db.user = userRows users →
    (∀ m ∈ c.message, Named users m.bidderId m.bidderUsername) → L.stores users w → L.call users w c →
    L.stores users w' ∧ L.call users w' c' ∧ ∀ p ∈ pubs, L.payload users p.payload
  throws : ∀ {users w} {c c' : Call}, c.throw = some c' → L.call users w c'
  expires : ∀ {users w} a, L.stores users w → L.stores users (w.expireCache a)
  storesLater : ∀ {users users' w w'}, L.stores users w → Extends users users' →
    w'.db.auction = w.db.auction → w'.db.bid = w.db.bid → w'.cache = w.cache → L.stores users' w'
  callLater : ∀ {users users' w w' c}, L.call users w c → Extends users users' → AuctionsKept w w' →
    L.call users' w' c
  payloadLater : ∀ {users users' payload}, L.payload users payload → Extends users users' →
    L.payload users' payload

theorem throw_cases (h : c.throw = some c') :
    (∃ m, c' = .placeBid m .threw) ∨ (∃ a, c' = .endAuction a .threw) ∨ ∃ a, c' = .getAuctionState a .threw := by
  unfold Call.throw at h
  split at h
  · cases h
  · cases c
    all_goals cases h
    · exact .inl ⟨_, rfl⟩
    · exact .inr (.inl ⟨_, rfl⟩)
    · exact .inr (.inr ⟨_, rfl⟩)

def rowLaw : CallLaw where
  stores := ForeignKeys
  call users w c := c.Refers users w
  payload _ _ := True

def nameLaw : CallLaw where
  stores := CacheCredible
  call users _ c := c.Credible users
  payload users payload := payload.Credible users

theorem rowLaw_kept : rowLaw.Kept where
  begins {_ _ c} hc := by
    unfold Call.begins at hc
    split at hc
    all_goals trivial
  step hstep _ hm hw _ :=
    ⟨(hstep.refers hw hm).1, (hstep.refers hw hm).2, fun _ _ => trivial⟩
  throws hc := by
    obtain ⟨m, rfl⟩ | ⟨a, rfl⟩ | ⟨a, rfl⟩ := throw_cases hc
    all_goals trivial
  expires _ h := ⟨h.bids, h.winners⟩
  storesLater h hext hauction hbid _ := h.later hext hauction hbid
  callLater h hext hkept := h.later hext hkept
  payloadLater h _ := h

theorem nameLaw_kept : nameLaw.Kept where
  begins {_ _ c} hc := by
    unfold Call.begins at hc
    split at hc
    all_goals trivial
  step hstep huser hm hw hc := hstep.credible huser hw hm hc
  throws hc := by
    obtain ⟨m, rfl⟩ | ⟨a, rfl⟩ | ⟨a, rfl⟩ := throw_cases hc
    all_goals trivial
  expires a h := h.expireCache a
  storesLater h hext _ _ hcache := by
    intro a room hroom
    rw [hcache] at hroom
    exact (h a room hroom).later hext
  callLater h hext _ := h.later hext
  payloadLater h hext := h.later hext

theorem begins_call (h : Process.begins (.call c) = true) : c.begins = true := by
  cases c with
  | placeBid m pc =>
    cases pc with
    | begin => rfl
    | _ => cases h
  | endAuction auctionId pc => cases pc <;> cases h
  | getAuctionState auctionId pc =>
    cases pc with
    | begin => rfl
    | _ => cases h

theorem body_begins {m : HandledMessage} (h : m.body = .call c) : c.begins = true := by
  unfold HandledMessage.body at h
  split at h
  all_goals cases h
  all_goals rfl

section Law

variable {L : CallLaw}

/-- What every statement keeps of a law, and the news of one. -/
theorem ServerStep.law {bcrypt : Bcrypt} (h : ServerStep config i b p b' p' es) (hL : L.Kept)
    (hb : BackendOk bcrypt start b log) (hp : p.Ok bcrypt b log) (hw : L.stores b.users b.stores)
    (hc : ∀ c, p = .call c → L.call b.users b.stores c) :
    AuctionsKept b.stores b'.stores ∧ L.stores b'.users b'.stores ∧
      (∀ c, p' = .call c → L.call b'.users b'.stores c) ∧
      ∀ q, ServerEvent.published q ∈ es → L.payload b'.users q.payload := by
  have hkept : AuctionsKept b.stores b.stores := fun _ ha => ha
  cases h with
  | auth hstep =>
    refine ⟨hkept, hL.storesLater hw hstep.extends rfl rfl rfl, fun c hcall => (by cases hcall), ?_⟩
    intro q hq
    obtain ⟨e, -, heq⟩ := List.mem_map.mp hq
    cases heq
  | guards _ =>
    refine ⟨hkept, hw, fun c hcall => (by cases hcall), ?_⟩
    intro q hq
    obtain ⟨e, -, heq⟩ := List.mem_map.mp hq
    cases heq
  | handles _ _ => exact ⟨hkept, hw, fun c hcall => hL.begins (body_begins hcall), fun q hq => by simp at hq⟩
  | hasNoUser _ _ => exact ⟨hkept, hw, fun c hcall => (by cases hcall), fun q hq => (by cases hq)⟩
  | bids _ =>
    rw [send_stores, send_users]
    exact ⟨hkept, hw, fun c hcall => (by cases hcall), fun q hq => (by cases hq)⟩
  | @calls c w c' pubs hstep =>
    have hm : ∀ m ∈ c.message, Named b.users m.bidderId m.bidderUsername := by
      intro m hm
      cases c with
      | placeBid m' pc =>
        cases hm
        exact SentBy.named hp hb
      | _ => cases hm
    obtain ⟨hstores, hcall', hpubs⟩ := hL.step hstep rfl hm hw (hc c rfl)
    refine ⟨hstep.auctionsKept, hL.storesLater hstores (Extends.refl _) rfl rfl rfl, fun c'' hcall => ?_, ?_⟩
    · cases hcall
      exact hL.callLater hcall' (Extends.refl _) fun _ ha => ha
    · intro q hq
      obtain ⟨pub, hpub, heq⟩ := List.mem_map.mp hq
      cases heq
      exact hpubs _ hpub

structure LawInv (L : CallLaw) (config : ServerConfig) (start : Backend) (s : ServerState) : Prop where
  server : ServerInv config start s
  stores : L.stores s.world.users s.world.stores
  calls : ∀ c, Process.call c ∈ s.procs → L.call s.world.users s.world.stores c
  published : ∀ q, ServerEvent.published q ∈ s.log → L.payload s.world.users q.payload

theorem lawInv_step (hL : L.Kept) (hs : LawInv L config start s) (hu : Unforged s act t)
    (ht : Pool.step (server config) s act = some t) : LawInv L config start t := by
  have hserver := serverInv_step hs.server hu ht
  obtain ⟨⟨hb, hprocs⟩, hw, hcalls, hpubs⟩ := hs
  cases Pool.step_inv ht with
  | @start world procs log p hbegins =>
    refine ⟨hserver, hw, fun c hc => ?_, hpubs⟩
    rcases List.mem_append.mp hc with hc | hc
    · exact hcalls c hc
    · rw [← List.mem_singleton.mp hc] at hbegins
      exact hL.begins (begins_call hbegins)
  | @run w w' l r log p p' es i hstep =>
    have hstep := serverStep_inv hstep
    have hp := hprocs p (mem_split.mpr (.inl rfl))
    obtain ⟨hkept, hstores, hcall, hnews⟩ := hstep.law hL hb hp hw
      fun c hc => hcalls c (mem_split.mpr (.inl hc.symm))
    have hext := (hstep.serverLater hb.verified).users
    refine ⟨hserver, hstores, fun c hc => ?_, fun q hq => ?_⟩
    · rcases mem_split.mp hc with heq | hc
      · exact hcall c heq.symm
      · exact hL.callLater (hcalls c (mem_split.mpr (.inr hc))) hext hkept
    · rcases List.mem_append.mp hq with hq | hq
      · exact hL.payloadLater (hpubs q hq) hext
      · exact hnews q hq
  | @env w procs log e =>
    cases e with
    | elapse k => exact ⟨hserver, hw, hcalls, hpubs⟩
    | expireCache auctionId =>
      refine ⟨hserver, hL.expires auctionId hw, fun c hc => ?_, hpubs⟩
      exact hL.callLater (hcalls c hc) (Extends.refl _) fun _ ha => ha
    | expireTimestamps username => exact ⟨hserver, hw, hcalls, hpubs⟩
  | @kill w l r log p p' hk =>
    refine ⟨hserver, hw, fun c hc => ?_, hpubs⟩
    rcases mem_split.mp hc with heq | hc
    · rw [← heq] at hk
      cases p with
      | call before =>
        obtain ⟨c', hthrow, heq⟩ := Option.map_eq_some_iff.mp hk
        cases heq
        exact hL.throws hthrow
      | auth c' => obtain ⟨_, _, heq⟩ := Option.map_eq_some_iff.mp hk; cases heq
      | message m auctionId amount => obtain ⟨_, _, heq⟩ := Option.map_eq_some_iff.mp hk; cases heq
      | bidding m pc => cases pc <;> cases hk
    · exact hcalls c (mem_split.mpr (.inr hc))

theorem lawInv_start (hfresh : start.Fresh) (hstores : L.stores start.users start.stores) :
    LawInv L config start ⟨start, [], []⟩ :=
  ⟨serverInv_start hfresh, hstores, fun _ hc => (by cases hc), fun _ hq => (by cases hq)⟩

theorem always_of_lawInv (hL : L.Kept) (hfresh : start.Fresh)
    (hstores : L.stores start.users start.stores) {schedule : List ServerAction}
    (hunforged : Along (Pool.step (server config)) Unforged ⟨start, [], []⟩ schedule)
    {Q : ServerState → Prop} (hQ : ∀ s, LawInv L config start s → Q s) :
    Always (Pool.step (server config)) Q ⟨start, [], []⟩ schedule :=
  always_of_inv (I := LawInv L config start) (P := Unforged)
    (fun _ _ _ hs hu ht => lawInv_step hL hs hu ht) hQ schedule (lawInv_start hfresh hstores) hunforged

end Law

/-! Names. -/

/-- The names in the cache, in the answers of `getAuctionState` and in what is published. -/
structure NamesShown (s : ServerState) : Prop where
  published : ∀ q, ServerEvent.published q ∈ s.log → q.payload.Credible s.world.users
  cache : ∀ a room, s.world.cache a = some room → room.Credible s.world.users
  answers : ∀ a room, Process.call (.getAuctionState a (.returned room)) ∈ s.procs →
    room.Credible s.world.users

/-- Every bidder and winner that is published, cached or answered is one account by id and name, and
    no winner lacks the name. -/
theorem names_are_accounts (config : ServerConfig) (start : Backend) (schedule : List ServerAction)
    (hfresh : start.Fresh) (hcache : CacheCredible start.users start.stores)
    (hunforged : Along (Pool.step (server config)) Unforged ⟨start, [], []⟩ schedule) :
    Always (Pool.step (server config)) NamesShown ⟨start, [], []⟩ schedule := by
  apply always_of_lawInv nameLaw_kept hfresh hcache hunforged
  intro s hs
  exact ⟨hs.published, hs.stores, fun _ _ hcall => hs.calls _ hcall⟩

theorem annBackend_cache : CacheCredible annBackend.users annBackend.stores :=
  fun _ _ hroom => by cases hroom

theorem names_are_accounts_ann_bob :
    Always (Pool.step (server serverConfig)) NamesShown ⟨annBackend, [], []⟩ bobBidsAnnEnds :=
  names_are_accounts serverConfig annBackend bobBidsAnnEnds annBackend_fresh annBackend_cache
    bobBidsAnnEnds_unforged

/-! Rows that are not missing. -/

/-- The next statement of the call refers to a row that does not exist. -/
def Call.Dangling (w : World) : Call → Prop
  | placeBid m (.checked _) => ∃ now, w.db.commitBid m now = .error .foreignKeyViolation ∨
      w.db.commitBid m now = .error .recordNotFound
  | endAuction auctionId .foundOpen => w.db.auction auctionId = none
  | endAuction auctionId .closed => ∃ bid ∈ w.db.topBids auctionId, w.db.user bid.userId = none
  | getAuctionState _ (.foundRow _ winnerId) => w.db.user winnerId = none
  | _ => False

section Errors

variable {db : Database} {m : BidMessage} {now : Time} {amount : Number} {userId auctionId : ℤ}
  {e : DbError}

theorem bidCreate_error (huser : (db.user userId).isSome) (hauction : (db.auction auctionId).isSome)
    (h : db.bidCreate amount now userId auctionId = .error e) : e = .numericFieldOverflow := by
  unfold Database.bidCreate at h
  split at h
  · cases h
    rfl
  · rw [Option.isNone_eq_false_iff.mpr huser, Option.isNone_eq_false_iff.mpr hauction] at h
    cases h

theorem auctionUpdateBid_error (hauction : (db.auction auctionId).isSome)
    (h : db.auctionUpdateBid auctionId amount userId = .error e) :
    e = .numericFieldOverflow ∨ e = .integerOutOfRange := by
  unfold Database.auctionUpdateBid at h
  split at h
  · next hnone =>
    rw [hnone] at hauction
    cases hauction
  · split at h
    · cases h
      exact .inl rfl
    · split at h
      · cases h
      · cases h
        exact .inr rfl

/-- With both rows there only the numbers can be at fault. -/
theorem commitBid_error (huser : (db.user m.bidderId).isSome)
    (hauction : (db.auction m.auctionId).isSome) (h : db.commitBid m now = .error e) :
    e = .numericFieldOverflow ∨ e = .integerOutOfRange := by
  unfold Database.commitBid at h
  split at h
  · next e' hcreate =>
    cases h
    exact .inl (bidCreate_error huser hauction hcreate)
  · next db' newBid hcreate =>
    split at h
    · next e' hupdate =>
      cases h
      refine auctionUpdateBid_error ?_ hupdate
      rw [(Database.bidCreate_eq_ok.mp hcreate).2.2, Database.addBid_auction]
      exact hauction
    · cases h

end Errors

/-- The calls, seen from the rows they refer to. -/
structure RowsThere (s : ServerState) : Prop where
  bidders : ∀ m pc, Process.call (.placeBid m pc) ∈ s.procs →
    s.world.stores.db.user m.bidderId = some ⟨m.bidderUsername⟩
  calls : ∀ c, Process.call c ∈ s.procs → ¬ c.Dangling s.world.stores

/-- The invariant of the rows. -/
abbrev RowsInv := LawInv rowLaw

theorem RowsInv.rowsThere (hs : RowsInv config start s) : RowsThere s := by
  have hbidders : ∀ m pc, Process.call (.placeBid m pc) ∈ s.procs →
      s.world.stores.db.user m.bidderId = some ⟨m.bidderUsername⟩ := by
    intro m pc hmem
    have hsent : SentBy s.log m := hs.server.2 _ hmem
    exact userRows_of_named (hsent.named hs.server.1)
  refine ⟨hbidders, fun c hmem hdangling => ?_⟩
  have hrefers : c.Refers s.world.users s.world.stores := hs.calls c hmem
  unfold Call.Dangling at hdangling
  split at hdangling
  · next m row =>
    obtain ⟨now, herror⟩ := hdangling
    have huser : (s.world.stores.db.user m.bidderId).isSome := by
      rw [hbidders m _ hmem]
      rfl
    rcases herror with herror | herror
    · rcases commitBid_error huser hrefers herror with h | h <;> cases h
    · rcases commitBid_error huser hrefers herror with h | h <;> cases h
  · rw [Call.Refers, hdangling] at hrefers
    cases hrefers
  · next auctionId =>
    obtain ⟨bid, hbid, hnone⟩ := hdangling
    have hmem : bid ∈ s.world.stores.db.bid :=
      List.mem_of_mem_filter (List.mem_of_mem_filter hbid)
    have huser : (userRows s.world.users bid.userId).isSome :=
      userRows_isSome.mpr (hs.stores.bids bid hmem)
    rw [show userRows s.world.users bid.userId = none from hnone] at huser
    cases huser
  · next auctionId row winnerId =>
    have huser : (userRows s.world.users winnerId).isSome := userRows_isSome.mpr hrefers
    rw [show userRows s.world.users winnerId = none from hdangling] at huser
    cases huser
  · exact hdangling

/-- Every bid event names an account, and no call fails for want of a row: not of the bidder or the
    auction at a commit, not of the auction at its end, not of a winner. -/
theorem no_missing_rows (config : ServerConfig) (start : Backend) (schedule : List ServerAction)
    (hfresh : start.Fresh) (hkeys : ForeignKeys start.users start.stores)
    (hunforged : Along (Pool.step (server config)) Unforged ⟨start, [], []⟩ schedule) :
    Always (Pool.step (server config)) RowsThere ⟨start, [], []⟩ schedule :=
  always_of_lawInv rowLaw_kept hfresh hkeys hunforged fun _ hs => RowsInv.rowsThere hs

theorem annBackend_keys : ForeignKeys annBackend.users annBackend.stores := by
  refine ⟨fun bid hbid => (by cases hbid), fun a row id hrow hid => ?_⟩
  have hrow : (if a = 1 then some sampleRow else none) = some row := hrow
  split at hrow
  · cases hrow
    cases hid
  · cases hrow

theorem no_missing_rows_ann_bob :
    Always (Pool.step (server serverConfig)) RowsThere ⟨annBackend, [], []⟩ bobBidsAnnEnds :=
  no_missing_rows serverConfig annBackend bobBidsAnnEnds annBackend_fresh annBackend_keys
    bobBidsAnnEnds_unforged

end CarAuction
