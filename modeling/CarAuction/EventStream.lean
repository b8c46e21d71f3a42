import CarAuction.SerialBids
import CarAuction.CacheCoherence
import CarAuction.Gateway

/- The channel `auction_updates:<id>` as a stream. A bid is published by one
   service after its transaction has committed, `auctionEnd` by another after the
   close, and nothing orders the two: `auctionEnd` may overtake the event of a bid
   that was committed before the close. `Overtakes` lists the two statements that
   do so; `auctionEnd_is_last_iff` says that the stream ends with `auctionEnd`, and
   that the sockets it disconnects have heard of every bid, exactly along the
   schedules without such a statement.

   The bids are placed one after another and `endAuction` is called once. The
   counterexample also keeps every transaction and the close atomic.

   Correspondence (TypeScript ↔ Lean):
     the messages on `auction_updates:${auctionId}` ↔ `channelEvents`
     `server.to(room).emit`, message after message  ↔ `broadcast` -/
namespace CarAuction

open Sql Pool Machine

def Payload.ends : Payload → Bool
  | auctionEnd _ _ _ => true
  | _ => false

/-- The event tells of the bid. -/
def Announces (n : NewBid) (b : Bid) : Prop :=
  Numeric.ofRat 14 2 n.amount = some b.amount ∧ n.bidderId = b.userId ∧ n.timestamp = b.timestamp

/-- What an instance emits for the messages, one after another. -/
def broadcast (sockets : List Socket) : List Publication → List (SocketId × ClientEvent)
  | [] => []
  | p :: log => (handleMessage sockets p).1 ++ broadcast (handleMessage sockets p).2 log

/-- Every socket in the room of the auction has been emitted the event of the bid. -/
def HeardBy (a : ℤ) (log : List Publication) (b : Bid) : Prop :=
  ∀ sockets : List Socket, ∀ socket ∈ sockets, toString a ∈ socket.rooms →
    ∃ newBid, Announces newBid b ∧ (socket.id, .newBid a newBid) ∈
      broadcast sockets (log.filter (·.channel = .auctionUpdates a))

/-- Nothing follows `auctionEnd` on the channel, and once it is there each of the bids committed
    after the first `n` has its event before it and has been heard of. -/
structure StreamEnds (a : ℤ) (n : ℕ) (s : State) : Prop where
  last : (channelEvents a s.log).Pairwise (fun event _ => event.ends = false)
  announced : auctionEndsOf a s.log ≠ [] →
    List.Forall₂ Announces (newBidsOf a s.log) ((s.world.db.bidsOf a).drop n)
  heard : auctionEndsOf a s.log ≠ [] → ∀ b ∈ (s.world.db.bidsOf a).drop n, HeardBy a s.log b

namespace Call

/-- The call is an `endAuction` of the auction. -/
def ending (a : ℤ) : Call → Bool
  | endAuction auctionId _ => auctionId = a
  | _ => false

/-- The next statement publishes the `auctionEnd` event of the auction. -/
def announcing (a : ℤ) : Call → Bool
  | endAuction auctionId (.summarised _ _) => auctionId = a
  | _ => false

/-- The call has published the `auctionEnd` event. -/
def announced : Call → Bool
  | endAuction _ (.announced _ _) => true
  | endAuction _ (.returned _) => true
  | _ => false

end Call

/-- `endAuction` of the auction is called once. -/
def OneEnd (a : ℤ) : State → Action → State → Prop :=
  OnStart fun s c => c.ending a = true → ∀ q ∈ s.procs, q.ending a = false

/-- The action publishes `auctionEnd` while a committed bid is still to be published, or commits a
    bid when `auctionEnd` has been published. -/
def Overtakes (a : ℤ) (s : State) (act : Action) : Prop :=
  ∃ c ∈ moving s act,
    (c.announcing a = true ∧ ∃ q ∈ s.procs, q.pendingNewBids a ≠ []) ∨
    (auctionEndsOf a s.log ≠ [] ∧ c.Commits a s.world.db fun _ _ _ => True)

/-- What holds between any two statements. -/
structure StreamInv (a : ℤ) (n : ℕ) (s : State) : Prop where
  placing : Lone (Call.placing a) s.procs
  ending : Lone (Call.ending a) s.procs
  addressed : ∀ p ∈ s.log, ∀ id, p.channel = .auctionUpdates id → p.payload.auctionId = id
  last : (channelEvents a s.log).Pairwise (fun event _ => event.ends = false)
  events : List.Forall₂ Announces (newBidsOf a s.log ++ s.procs.flatMap (Call.pendingNewBids a))
    ((s.world.db.bidsOf a).drop n)
  enough : n ≤ (s.world.db.bidsOf a).length
  finished : auctionEndsOf a s.log ≠ [] → s.procs.flatMap (Call.pendingNewBids a) = [] ∧
    ∃ c ∈ s.procs, c.ending a = true ∧ c.announced = true

variable {a : ℤ} {n : ℕ} {log pubs : List Publication} {c c' : Call} {s t : State} {act : Action}

theorem mem_newBidsOf {newBid : NewBid} (h : newBid ∈ newBidsOf a log) :
    ∃ p ∈ log, p.channel = .auctionUpdates a ∧ ∃ id, p.payload = .newBid id newBid := by
  obtain ⟨p, hp, hsome⟩ := List.mem_filterMap.mp h
  refine ⟨p, hp, ?_⟩
  split at hsome
  · next auctionId id newBid' hchannel hpayload =>
    split at hsome
    · next ha =>
      cases hsome
      exact ⟨ha ▸ hchannel, id, hpayload⟩
    · cases hsome
  · cases hsome

theorem mem_auctionEndsOf {winningBid : WinningBidSummary} (h : winningBid ∈ auctionEndsOf a log) :
    ∃ p ∈ log, p.channel = .auctionUpdates a ∧
      ∃ id message, p.payload = .auctionEnd id winningBid message := by
  obtain ⟨p, hp, hsome⟩ := List.mem_filterMap.mp h
  refine ⟨p, hp, ?_⟩
  split at hsome
  · next auctionId id winningBid' message hchannel hpayload =>
    split at hsome
    · next ha =>
      cases hsome
      exact ⟨ha ▸ hchannel, id, message, hpayload⟩
    · cases hsome
  · cases hsome

theorem mem_channelEvents {p : Publication} (hp : p ∈ log) (hchannel : p.channel = .auctionUpdates a) :
    p.payload ∈ channelEvents a log :=
  List.mem_map_of_mem (List.mem_filter.mpr ⟨hp, decide_eq_true hchannel⟩)

theorem of_channelEvents_nil (h : channelEvents a pubs = []) :
    newBidsOf a pubs = [] ∧ auctionEndsOf a pubs = [] := by
  have hnone : ∀ p ∈ pubs, p.channel ≠ .auctionUpdates a := by
    intro p hp hchannel
    have hevent := mem_channelEvents hp hchannel
    rw [h] at hevent
    cases hevent
  constructor
  · apply List.eq_nil_iff_forall_not_mem.mpr
    intro newBid hnew
    obtain ⟨p, hp, hchannel, -⟩ := mem_newBidsOf hnew
    exact hnone p hp hchannel
  · apply List.eq_nil_iff_forall_not_mem.mpr
    intro winningBid hend
    obtain ⟨p, hp, hchannel, -⟩ := mem_auctionEndsOf hend
    exact hnone p hp hchannel

/-- No end is announced exactly when no event on the channel is one. -/
theorem auctionEndsOf_eq_nil :
    auctionEndsOf a log = [] ↔ ∀ event ∈ channelEvents a log, event.ends = false := by
  constructor
  · intro h event hevent
    obtain ⟨p, hp, rfl⟩ := List.mem_map.mp hevent
    obtain ⟨hlog, hchannel⟩ := List.mem_filter.mp hp
    have hp' := List.filterMap_eq_nil_iff.mp h p hlog
    obtain ⟨channel, payload⟩ := p
    obtain rfl : channel = .auctionUpdates a := of_decide_eq_true hchannel
    cases payload with
    | auctionEnd id winningBid message => simp at hp'
    | _ => rfl
  · intro h
    apply List.eq_nil_iff_forall_not_mem.mpr
    intro winningBid hend
    obtain ⟨p, hp, hchannel, id, message, hpayload⟩ := mem_auctionEndsOf hend
    have hends := h p.payload (mem_channelEvents hp hchannel)
    rw [hpayload] at hends
    cases hends

/-- The sockets in the room hear of every bid whose event precedes the end. -/
theorem mem_broadcast {events : List Publication} {sockets : List Socket} {socket : Socket}
    {newBid : NewBid} (hs : socket ∈ sockets) (hroom : toString a ∈ socket.rooms)
    (haddressed : ∀ p ∈ events, p.channel = .auctionUpdates a ∧ p.payload.auctionId = a)
    (hlast : (events.map Publication.payload).Pairwise (fun event _ => event.ends = false))
    (hnew : newBid ∈ newBidsOf a events) :
    (socket.id, .newBid a newBid) ∈ broadcast sockets events := by
  induction events with
  | nil => cases hnew
  | cons p events ih =>
    obtain ⟨hp, hrest⟩ := List.forall_mem_cons.mp haddressed
    obtain ⟨hfirst, hlater⟩ := List.pairwise_cons.mp (List.map_cons ▸ hlast)
    rw [← List.singleton_append, newBidsOf_append, List.mem_append] at hnew
    obtain ⟨channel, payload⟩ := p
    obtain ⟨rfl, hid⟩ := hp
    apply List.mem_append.mpr
    rcases hnew with hnew | hnew
    · left
      obtain ⟨p, hp, -, id, hpayload⟩ := mem_newBidsOf hnew
      cases List.mem_singleton.mp hp
      subst hpayload
      obtain rfl : id = a := hid
      have hin : socket ∈ sockets.filter (toString id ∈ ·.rooms) :=
        List.mem_filter.mpr ⟨hs, decide_eq_true hroom⟩
      exact List.mem_map.mpr ⟨socket, hin, rfl⟩
    · right
      have hmore : events ≠ [] := by
        intro hnil
        rw [hnil] at hnew
        cases hnew
      obtain ⟨q, hq⟩ := List.exists_mem_of_ne_nil events hmore
      have hends : payload.ends = false := hfirst q.payload (List.mem_map_of_mem hq)
      have hsame : (handleMessage sockets ⟨.auctionUpdates a, payload⟩).2 = sockets := by
        cases payload <;> first | rfl | cases hends
      rw [hsame]
      exact ih hrest hlater hnew

namespace CallStep

variable {i : Input} {w w' : World}

/-- The two statements that publish on the channel of the auction. -/
theorem events_cases (h : CallStep i w c w' c' pubs) (a : ℤ) :
    (channelEvents a pubs = [] ∧ c.announcing a = false) ∨
    (∃ m newBid isOpen, m.auctionId = a ∧ c = .placeBid m (.committed newBid isOpen) ∧
      w' = w ∧ pubs = [newBidPublication m newBid]) ∨
    (∃ winningBid message, c = .endAuction a (.summarised winningBid message) ∧
      c' = .endAuction a (.announced winningBid message) ∧
      w' = w ∧ pubs = [auctionEndPublication a winningBid message]) := by
  cases h with
  | @bidPublishes m newBid isOpen =>
    by_cases ha : m.auctionId = a
    · exact .inr (.inl ⟨m, newBid, isOpen, ha, rfl, rfl, rfl⟩)
    · refine .inl ⟨?_, rfl⟩
      simp [channelEvents, newBidPublication, ha]
  | @endPublishes auctionId winningBid message =>
    by_cases ha : auctionId = a
    · subst ha
      exact .inr (.inr ⟨winningBid, message, rfl, rfl, rfl, rfl⟩)
    · refine .inl ⟨?_, by simp [Call.announcing, ha]⟩
      simp [channelEvents, auctionEndPublication, ha]
  | _ => exact .inl ⟨rfl, rfl⟩

theorem addressed (h : CallStep i w c w' c' pubs) :
    ∀ p ∈ pubs, ∀ id, p.channel = .auctionUpdates id → p.payload.auctionId = id := by
  cases h <;>
    simp [newBidPublication, auctionEndPublication, rejectPublication, Payload.auctionId]

theorem ending_eq (h : CallStep i w c w' c' pubs) : c'.ending a = c.ending a := by
  cases h <;> rfl

theorem announced_of (h : CallStep i w c w' c' pubs) (hc : c.announced = true) :
    c'.announced = true := by
  cases h <;> first | rfl | cases hc

end CallStep

theorem pending_of_begins (h : c.begins = true) : c.pendingNewBids a = [] := by
  unfold Call.pendingNewBids
  split
  · cases h
  · rfl

/-- The `newBid` events of an auction are all on its channel. -/
theorem newBidsOf_channel : newBidsOf a (log.filter (·.channel = .auctionUpdates a)) =
    newBidsOf a log := by
  unfold newBidsOf
  rw [List.filterMap_filter]
  apply List.filterMap_congr
  intro p hp
  by_cases hchannel : p.channel = .auctionUpdates a
  · simp [hchannel]
  · rw [if_neg (by simpa using hchannel)]
    split
    · next id newBid hid hpayload =>
      rw [if_neg (fun ha => hchannel (by rw [hid, ha]))]
    · rfl

theorem exists_of_forall₂ {ns : List NewBid} {bids : List Bid} {b : Bid}
    (h : List.Forall₂ Announces ns bids) (hb : b ∈ bids) : ∃ newBid ∈ ns, Announces newBid b := by
  induction h with
  | nil => cases hb
  | @cons newBid b' ns bids hfirst hrest ih =>
    rcases List.mem_cons.mp hb with rfl | hb
    · exact ⟨newBid, List.mem_cons_self, hfirst⟩
    · obtain ⟨newBid', hmem, htells⟩ := ih hb
      exact ⟨newBid', List.mem_cons_of_mem newBid hmem, htells⟩

/-- The stream is in order between any two statements. -/
theorem StreamInv.streamEnds (h : StreamInv a n s) : StreamEnds a n s := by
  have hevents : auctionEndsOf a s.log ≠ [] →
      List.Forall₂ Announces (newBidsOf a s.log) ((s.world.db.bidsOf a).drop n) := by
    intro hends
    have hall := h.events
    rwa [(h.finished hends).1, List.append_nil] at hall
  refine ⟨h.last, hevents, fun hends b hb sockets socket hs hroom => ?_⟩
  obtain ⟨newBid, hnew, htells⟩ := exists_of_forall₂ (hevents hends) hb
  refine ⟨newBid, htells, mem_broadcast hs hroom ?_ h.last ?_⟩
  · intro p hp
    obtain ⟨hlog, hchannel⟩ := List.mem_filter.mp hp
    have hid : p.channel = .auctionUpdates a := by simpa using hchannel
    exact ⟨hid, h.addressed p hlog a hid⟩
  · rwa [newBidsOf_channel]

/-- `endAuction` is called once, bids are placed one after another and no statement fails. -/
def OneEndRun (a : ℤ) (s : State) (act : Action) (t : State) : Prop :=
  Serial a s act t ∧ OneEnd a s act t ∧ NoKill s act t

theorem announced_run {i : Input} {w w' : World} {l r : List Call} (hcall : CallStep i w c w' c' pubs)
    (h : ∃ q ∈ l ++ c :: r, q.ending a = true ∧ q.announced = true) :
    ∃ q ∈ l ++ c' :: r, q.ending a = true ∧ q.announced = true := by
  obtain ⟨q, hq, hends, hdone⟩ := h
  rcases mem_split.mp hq with rfl | hq
  · exact ⟨c', mem_split.mpr (.inl rfl), hcall.ending_eq.trans hends, hcall.announced_of hdone⟩
  · exact ⟨q, mem_split.mpr (.inr hq), hends, hdone⟩

/-- An `endAuction` that has its event still to publish is the first to publish one. -/
theorem StreamInv.not_over {w : World} {l r : List Call} {winningBid : WinningBidSummary}
    {message : EndMessage}
    (h : StreamInv a n ⟨w, l ++ .endAuction a (.summarised winningBid message) :: r, log⟩) :
    auctionEndsOf a log = [] := by
  by_contra hends
  obtain ⟨q, hq, hq', hdone⟩ := (h.finished hends).2
  rcases mem_split.mp hq with rfl | hq
  · cases hdone
  · rw [h.ending.others (by simp [Call.ending]) q hq] at hq'
    cases hq'

/-- A commit leaves the event of its bid to be published. -/
theorem streamEvents_commit {w w' : World} {l r : List Call} {m : BidMessage} {seen : Auction}
    {newBid : Bid} {now : Time}
    (h : StreamInv a n ⟨w, l ++ .placeBid m (.checked seen) :: r, log⟩) (ha : m.auctionId = a)
    (hcommit : w.db.commitBid m now = .ok (w'.db, newBid)) :
    List.Forall₂ Announces (newBidsOf a log ++
        (l ++ .placeBid m (.committed newBid seen.isOpen) :: r).flatMap (Call.pendingNewBids a))
      ((w'.db.bidsOf a).drop n) ∧ n ≤ (w'.db.bidsOf a).length := by
  have hchecked : (Call.placeBid m (.checked seen)).checkedBid a = some m :=
    Call.checkedBid_eq_some.mpr ⟨ha, seen, rfl⟩
  have hothers := h.placing.others (Call.placing_of_checkedBid hchecked)
  obtain ⟨row, -, hamount, -, hb, -, hbids⟩ := Database.commitBid_self hcommit ha
  have hbidder : newBid.userId = m.bidderId := by rw [hb]
  have hevents := h.events
  rw [pending_lone hothers] at hevents ⊢
  simp only [Call.pendingNewBids, List.append_nil] at hevents
  rw [hbids, List.drop_append_of_le_length h.enough, List.length_append]
  refine ⟨List.rel_append hevents ?_, Nat.le_add_right_of_le h.enough⟩
  simp only [Call.pendingNewBids, newBidsOf_newBidPublication, if_pos ha]
  exact .cons ⟨hamount, hbidder.symm, rfl⟩ .nil

/-- After a statement, what is left to show is about the events, the bids and the end. -/
theorem StreamInv.next {i : Input} {w w' : World} {l r : List Call}
    (h : StreamInv a n ⟨w, l ++ c :: r, log⟩) (hcall : CallStep i w c w' c' pubs)
    (hlast : (channelEvents a (log ++ pubs)).Pairwise (fun event _ => event.ends = false))
    (hevents : List.Forall₂ Announces
        (newBidsOf a (log ++ pubs) ++ (l ++ c' :: r).flatMap (Call.pendingNewBids a))
        ((w'.db.bidsOf a).drop n) ∧ n ≤ (w'.db.bidsOf a).length)
    (hover : auctionEndsOf a (log ++ pubs) ≠ [] →
      (l ++ c' :: r).flatMap (Call.pendingNewBids a) = [] ∧
        ∃ q ∈ l ++ c' :: r, q.ending a = true ∧ q.announced = true) :
    StreamInv a n ⟨w', l ++ c' :: r, log ++ pubs⟩ := by
  refine ⟨h.placing.replace hcall.placing_of, h.ending.replace (fun hc => hcall.ending_eq ▸ hc), ?_,
    hlast, hevents.1, hevents.2, hover⟩
  intro p hp
  rcases List.mem_append.mp hp with hp | hp
  · exact h.addressed p hp
  · exact hcall.addressed p hp

/-- A statement that commits no bid keeps the bids that have been announced, or are about to be. -/
theorem StreamInv.same {i : Input} {w w' : World} {l r : List Call}
    (h : StreamInv a n ⟨w, l ++ c :: r, log⟩) (hcall : CallStep i w c w' c' pubs)
    (hbids : w'.db.bidsOf a = w.db.bidsOf a) :
    List.Forall₂ Announces
      (newBidsOf a (log ++ pubs) ++ (l ++ c' :: r).flatMap (Call.pendingNewBids a))
      ((w'.db.bidsOf a).drop n) ∧ n ≤ (w'.db.bidsOf a).length := by
  rw [announced_step hcall hbids h.placing, hbids]
  exact ⟨h.events, h.enough⟩

/-- A statement that says nothing on the channel and commits no bid. -/
theorem streamInv_silent {i : Input} {w w' : World} {l r : List Call}
    (h : StreamInv a n ⟨w, l ++ c :: r, log⟩) (hcall : CallStep i w c w' c' pubs)
    (hnil : channelEvents a pubs = []) (hbids : w'.db.bidsOf a = w.db.bidsOf a) :
    StreamInv a n ⟨w', l ++ c' :: r, log ++ pubs⟩ := by
  obtain ⟨hnew, hend⟩ := of_channelEvents_nil hnil
  refine h.next hcall ?_ (h.same hcall hbids) fun hends => ?_
  · rw [channelEvents_append, hnil, List.append_nil]
    exact h.last
  · rw [auctionEndsOf_append, hend, List.append_nil] at hends
    obtain ⟨hpending, hdone⟩ := h.finished hends
    refine ⟨?_, announced_run hcall hdone⟩
    have hstep : newBidsOf a (log ++ pubs) ++ _ = newBidsOf a log ++ _ :=
      announced_step hcall hbids h.placing
    rw [newBidsOf_append, hnew, List.append_nil] at hstep
    exact (List.append_cancel_left hstep).trans hpending

/-- A bid that commits before the end is announced. -/
theorem streamInv_commit {i : Input} {w w' : World} {l r : List Call} {m : BidMessage}
    {seen : Auction} {newBid : Bid}
    (h : StreamInv a n ⟨w, l ++ .placeBid m (.checked seen) :: r, log⟩) (ha : m.auctionId = a)
    (hcall : CallStep i w (.placeBid m (.checked seen)) w'
      (.placeBid m (.committed newBid seen.isOpen)) [])
    (hcommit : w.db.commitBid m i.now = .ok (w'.db, newBid)) (hnot : auctionEndsOf a log = []) :
    StreamInv a n ⟨w', l ++ .placeBid m (.committed newBid seen.isOpen) :: r, log ++ []⟩ := by
  refine h.next hcall ?_ ?_ fun hends => ?_
  · rw [List.append_nil]
    exact h.last
  · rw [List.append_nil]
    exact streamEvents_commit h ha hcommit
  · rw [List.append_nil] at hends
    exact absurd hnot hends

/-- An event still to be published: the end has not been announced. -/
theorem streamInv_newBid {i : Input} {w : World} {l r : List Call} {m : BidMessage} {newBid : Bid}
    {isOpen : Bool} (h : StreamInv a n ⟨w, l ++ .placeBid m (.committed newBid isOpen) :: r, log⟩)
    (ha : m.auctionId = a)
    (hcall : CallStep i w (.placeBid m (.committed newBid isOpen)) w c'
      [newBidPublication m newBid]) :
    StreamInv a n ⟨w, l ++ c' :: r, log ++ [newBidPublication m newBid]⟩ := by
  have hpending : (l ++ Call.placeBid m (.committed newBid isOpen) :: r).flatMap
      (Call.pendingNewBids a) ≠ [] := by
    simp [Call.pendingNewBids, newBidsOf_newBidPublication, ha]
  have hnot : auctionEndsOf a log = [] := by
    by_contra hends
    exact hpending (h.finished hends).1
  refine h.next hcall ?_ (h.same hcall rfl) fun hends => ?_
  · rw [channelEvents_append, List.pairwise_append]
    refine ⟨h.last, ?_, fun event hevent _ _ => auctionEndsOf_eq_nil.mp hnot event hevent⟩
    simp [channelEvents, newBidPublication, ha]
  · rw [auctionEndsOf_append, hnot] at hends
    exact absurd rfl hends

/-- The end is announced when every bid has been. -/
theorem streamInv_end {i : Input} {w : World} {l r : List Call} {winningBid : WinningBidSummary}
    {message : EndMessage}
    (h : StreamInv a n ⟨w, l ++ .endAuction a (.summarised winningBid message) :: r, log⟩)
    (hcall : CallStep i w (.endAuction a (.summarised winningBid message)) w
      (.endAuction a (.announced winningBid message)) [auctionEndPublication a winningBid message])
    (hnone : ∀ q ∈ l ++ Call.endAuction a (.summarised winningBid message) :: r,
      q.pendingNewBids a = []) :
    StreamInv a n ⟨w, l ++ .endAuction a (.announced winningBid message) :: r,
      log ++ [auctionEndPublication a winningBid message]⟩ := by
  have hnot := h.not_over
  refine h.next hcall ?_ (h.same hcall rfl) fun _ => ⟨?_, ?_⟩
  · rw [channelEvents_append, List.pairwise_append]
    refine ⟨h.last, ?_, fun event hevent _ _ => auctionEndsOf_eq_nil.mp hnot event hevent⟩
    simp [channelEvents, auctionEndPublication]
  · rw [List.flatMap_eq_nil_iff]
    exact forall_replace hnone (fun _ => rfl)
  · exact ⟨_, mem_split.mpr (.inl rfl), by simp [Call.ending], rfl⟩

/-- A statement that does not overtake keeps the stream in order. -/
theorem streamInv_run {i : Input} {w w' : World} {l r : List Call}
    (h : StreamInv a n ⟨w, l ++ c :: r, log⟩) (hcall : CallStep i w c w' c' pubs)
    (hquiet : ¬ Overtakes a ⟨w, l ++ c :: r, log⟩ (.run l.length i)) :
    StreamInv a n ⟨w', l ++ c' :: r, log ++ pubs⟩ := by
  rcases hcall.events_cases a with ⟨hnil, -⟩ | ⟨m, newBid, isOpen, ha, rfl, rfl, rfl⟩ |
    ⟨winningBid, message, rfl, rfl, rfl, rfl⟩
  · rcases hcall.rows_cases a with ⟨-, hbids, -⟩ | ⟨m, seen, newBid, ha, rfl, rfl, rfl, hcommit⟩ |
      ⟨row, -, -, -, -, -, hbids⟩
    · exact streamInv_silent h hcall hnil hbids
    · have hchecked : (Call.placeBid m (.checked seen)).checkedBid a = some m :=
        Call.checkedBid_eq_some.mpr ⟨ha, seen, rfl⟩
      have hnot : auctionEndsOf a log = [] := by
        by_contra hends
        obtain ⟨row, haccept⟩ := accepts_of_commitBid hcommit
        exact hquiet ⟨_, moving_run, .inr ⟨hends, m, row, _, hchecked, haccept, trivial⟩⟩
      exact streamInv_commit h ha hcall hcommit hnot
    · exact streamInv_silent h hcall hnil hbids
  · exact streamInv_newBid h ha hcall
  · apply streamInv_end h hcall
    intro q hq
    by_contra hpending
    exact hquiet ⟨_, moving_run, .inl ⟨by simp [Call.announcing], q, hq, hpending⟩⟩

theorem streamInv_step (h : StreamInv a n s) (hrun : OneEndRun a s act t)
    (hquiet : ¬ Overtakes a s act) (hstep : Pool.Step system s act t) : StreamInv a n t := by
  obtain ⟨hserial, hone, hkill⟩ := hrun
  have hplacing := lone_step hstep h.placing hserial
  cases hstep with
  | @start w procs log c hbegins =>
    have hpending : (procs ++ [c]).flatMap (Call.pendingNewBids a) =
        procs.flatMap (Call.pendingNewBids a) := by
      simp [pending_of_begins hbegins]
    refine ⟨hplacing, h.ending.start hone, h.addressed, h.last, ?_, h.enough, fun hends => ?_⟩
    · show List.Forall₂ Announces (newBidsOf a log ++ (procs ++ [c]).flatMap _) _
      rw [hpending]
      exact h.events
    · obtain ⟨hnone, q, hq, hdone⟩ := h.finished hends
      exact ⟨hpending.trans hnone, q, List.mem_append_left _ hq, hdone⟩
  | env k => exact ⟨hplacing, h.ending, h.addressed, h.last, h.events, h.enough, h.finished⟩
  | kill hk => exact hkill.elim
  | run hc => exact streamInv_run h (callStep_inv hc) hquiet

/-- A statement that overtakes breaks the stream. -/
theorem not_streamEnds_of_overtakes (h : StreamInv a n s) (hstep : Pool.Step system s act t)
    (hover : Overtakes a s act) : ¬ StreamEnds a n t := by
  obtain ⟨c, hc, hover⟩ := hover
  intro hends
  cases hstep with
  | @run w w' l r log c₀ c' pubs i hcall =>
    cases (moving_run.symm.trans hc : some c₀ = some c)
    have hcall := callStep_inv hcall
    rcases hover with ⟨hannouncing, q, hq, hpending⟩ | ⟨hover, m, row, amount, hm, haccept, -⟩
    · rcases hcall.events_cases a with ⟨-, hnot⟩ | ⟨m, newBid, isOpen, -, rfl, -, -⟩ |
        ⟨winningBid, message, rfl, rfl, rfl, rfl⟩
      · cases hannouncing.symm.trans hnot
      · cases hannouncing
      · -- fewer events than bids precede the end
        have hlength := (hends.announced (by simp [auctionEndsOf, auctionEndPublication])).length_eq
        have hevents := h.events.length_eq
        dsimp only at hlength hevents
        have hsome : (l ++ Call.endAuction a (.summarised winningBid message) :: r).flatMap
            (Call.pendingNewBids a) ≠ [] :=
          fun hnil => hpending (List.flatMap_eq_nil_iff.mp hnil q hq)
        have hnone : newBidsOf a [auctionEndPublication a winningBid message] = [] := rfl
        rw [newBidsOf_append, hnone, List.append_nil] at hlength
        rw [List.length_append] at hevents
        have hpos := List.length_pos_iff.mpr hsome
        omega
    · obtain ⟨ha, seen, rfl⟩ := Call.checkedBid_eq_some.mp hm
      rcases hcall.rows_cases a with ⟨-, -, hthrow⟩ | ⟨m₁, seen₁, newBid, -, heq, rfl, rfl, hcommit⟩ |
        ⟨row, heq, -⟩
      · obtain ⟨e, he⟩ := hthrow m hm
        obtain ⟨r, hr⟩ := commitBid_of_accepts i.now haccept
        cases he.symm.trans hr
      · -- more bids than events precede the end
        cases heq
        obtain ⟨-, -, -, -, -, -, hbids⟩ := Database.commitBid_self hcommit ha
        have hlength := (hends.announced (by simpa using hover)).length_eq
        have hevents := h.events.length_eq
        have henough := h.enough
        dsimp only at henough
        simp only [(h.finished hover).1, List.append_nil, List.length_drop] at hevents
        simp only [List.append_nil, hbids, List.length_drop, List.length_append,
          List.length_singleton] at hlength
        omega
      · cases heq
  | _ => cases hc

/-- Along every schedule of serial bids and one `endAuction`, the stream ends with `auctionEnd` and
    its sockets have heard of every bid exactly when no statement overtakes. -/
theorem auctionEnd_is_last_iff (w : World) (schedule : List Action)
    (hrun : Along poolStep (OneEndRun a) ⟨w, [], []⟩ schedule) :
    Always poolStep (StreamEnds a (w.db.bidsOf a).length) ⟨w, [], []⟩ schedule ↔
      Along poolStep (fun s act _ => ¬ Overtakes a s act) ⟨w, [], []⟩ schedule := by
  have hstart : StreamInv a (w.db.bidsOf a).length ⟨w, [], []⟩ := by
    refine ⟨Nat.zero_le 1, Nat.zero_le 1, by simp, List.Pairwise.nil, ?_, le_rfl, ?_⟩
    · rw [List.drop_length]
      exact .nil
    · intro hends
      exact absurd rfl hends
  refine always_iff_of_inv (fun s hs => hs.streamEnds) ?_ ?_ schedule hstart hrun
  · intro s act t hs hd ht hquiet
    exact streamInv_step hs hd hquiet (step_inv ht)
  · intro s act t hs _ ht hover
    exact not_streamEnds_of_overtakes hs (step_inv ht) hover

instance {s t : State} {act : Action} : Decidable (OneEndRun a s act t) := by
  unfold OneEndRun OneEnd; infer_instance

/-- Bob's bid commits before the auction is closed, and is published after `auctionEnd`. -/
def endOvertakesBid : List Action :=
  [.start (bobBids 20), stmt 0 1, stmt 0 2, .start (.endAuction 1 .begin), stmt 1 3, stmt 1 4,
    stmt 1 5, stmt 1 6, stmt 0 7, stmt 0 8, stmt 1 9]

theorem auctionEnd_overtakes_a_bid :
    Along poolStep (OneEndRun 1) ⟨sampleWorld, [], []⟩ endOvertakesBid ∧
      Along poolStep (AtomicRun 1) ⟨sampleWorld, [], []⟩ endOvertakesBid ∧
      (∃ s ∈ exec poolStep ⟨sampleWorld, [], []⟩ endOvertakesBid,
        (∀ c ∈ s.procs, c.finished = true) ∧ ¬ StreamEnds 1 0 s) ∧
      ¬ Always poolStep (StreamEnds 1 0) ⟨sampleWorld, [], []⟩ endOvertakesBid := by
  obtain ⟨s, hs, hdone, hbad⟩ : ∃ s ∈ exec poolStep ⟨sampleWorld, [], []⟩ endOvertakesBid,
      (∀ c ∈ s.procs, c.finished = true) ∧
        ¬ (channelEvents 1 s.log).Pairwise (fun event _ => event.ends = false) := by
    decide +kernel
  refine ⟨by decide +kernel, by decide +kernel, ⟨s, hs, hdone, fun hends => hbad hends.last⟩, ?_⟩
  intro hends
  exact hbad (hends.last hs).last

/-- The auction is closed between the check and the commit of Bob's bid, and announced last. -/
theorem auctionEnd_is_last_iff_close_in_between :
    Always poolStep (StreamEnds 1 0) ⟨sampleWorld, [], []⟩
        (closeInBetween ++ [stmt 2 12, stmt 2 13]) ↔
      Along poolStep (fun s act _ => ¬ Overtakes 1 s act) ⟨sampleWorld, [], []⟩
        (closeInBetween ++ [stmt 2 12, stmt 2 13]) :=
  auctionEnd_is_last_iff sampleWorld _ (by decide +kernel)

end CarAuction
