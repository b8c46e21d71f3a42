import CarAuction.Gateway
import CarAuction.AuctionRow

/- A `placeBid` message on its way: the gateway handles it and sends its bid event
   and its audit message, the bid consumer runs `placeBid` on the one and the audit
   consumer publishes the rejection of a bid over the limit from the other. `Job` is
   where one message is on both ways, `jobStep` a statement of one of its handlers.

   `JobOk` says what the message has written and published at each stage, and
   `jobOk_step` that the statements keep it so; at the end it is one `Bid` row and
   its `newBid`, or one rejection (`JobOk.outcome`). `jobStep_weight` bounds the
   statements that are left. -/
namespace CarAuction

open Sql

/-- What has become of the bid event. -/
inductive EventState where
  | unsent
  | lost
  | stored (message : KafkaMessage BidMessage)
  | placing (m : BidMessage) (pc : PlaceBidPc)

/-- What has become of the audit message. -/
inductive AuditState where
  | unsent
  | lost
  | stored (message : KafkaMessage AuditPayload)
  | consumed

/-- A `placeBid` message that a gateway instance has received from one of its sockets. -/
structure Job (ι : Type) where
  gateway : ι
  sender : SocketId
  bid : BidMessage
  fromSender : bid.socketId = sender.text
  gate : GatewayPc
  event : EventState
  audit : AuditState

/-- The stores the handlers share. -/
structure Stores where
  world : World
  timestamps : BidTimestamps

variable {ι : Type}

namespace Job

def received (gateway : ι) (sender : SocketId) (auctionId : ℤ) (amount : Number) (bidderId : ℤ)
    (bidderUsername : String) : Job ι where
  gateway := gateway
  sender := sender
  bid := ⟨auctionId, amount, bidderId, bidderUsername, sender.text⟩
  fromSender := rfl
  gate := .received
  event := .unsent
  audit := .unsent

/-- A message for a partition that does not exist is not stored. -/
def send (job : Job ι) : Option Produced → Job ι
  | some (.bidEvents message) =>
    if Topic.Stored bidEventsPartitions KafkaMessage.partition message then
      { job with event := .stored message }
    else { job with event := .lost }
  | some (.auditLogs message) =>
    if Topic.Stored auditLogsPartitions KafkaMessage.partition message then
      { job with audit := .stored message }
    else { job with audit := .lost }
  | some (.auctionNotifications _) => job
  | none => job

end Job

inductive JobAction where
  | gateway (now : Time)
  | eachBid
  | statement (i : Input)
  | eachAudit

/-- The next statement of a handler of the message. -/
def jobStep (throttle : Throttle) (st : Stores) (job : Job ι) :
    JobAction → Option (Stores × Job ι × List Publication)
  | .gateway now =>
    (gatewayStep throttle now job.bid st.timestamps job.gate).map fun r =>
      ({ st with timestamps := r.1 }, { job with gate := r.2.1 }.send r.2.2, [])
  | .eachBid =>
    match job.event with
    | .stored message => some (st, { job with event := .placing message.value .begin }, [])
    | _ => none
  | .statement i =>
    match job.event with
    | .placing m pc =>
      (placeBidStep m i.now st.world pc).map fun r =>
        ({ st with world := r.1 }, { job with event := .placing m r.2.1 }, r.2.2)
    | _ => none
  | .eachAudit =>
    match job.audit with
    | .stored message => some (st, { job with audit := .consumed }, auditPublications message)
    | _ => none

/-! What one statement does. -/

/-- The message has not left the gateway, and has not been refused. -/
def GatewayPc.early : GatewayPc → Bool
  | received => true
  | pruned _ => true
  | counted _ _ => true
  | passed => true
  | _ => false

/-- A bound on the statements that are left, with those for what the gateway still has to send. -/
def GatewayPc.rank : GatewayPc → ℕ
  | received => 16
  | pruned _ => 15
  | counted _ _ => 14
  | passed => 13
  | bidProduced => 7
  | notified => 6
  | finished => 0

inductive JobStep (st : Stores) (job : Job ι) : Stores → Job ι → List Publication → Prop where
  | checks {timestamps gate} : job.gate.early = true → gate.early = true →
      gate.rank < job.gate.rank →
      JobStep st job { st with timestamps := timestamps } { job with gate := gate } []
  | refuses {now count} : job.gate = .counted now count → JobStep st job st
      ({ job with gate := .finished }.send (some (.auditLogs (rateLimitExceeded job.bid)))) []
  | produces : job.gate = .passed → JobStep st job st
      ({ job with gate := .bidProduced }.send
        (some (.bidEvents (produce job.bid.auctionId job.bid)))) []
  | notifies : job.gate = .bidProduced → JobStep st job st { job with gate := .notified } []
  | audits : job.gate = .notified → JobStep st job st
      ({ job with gate := .finished }.send
        (some (.auditLogs (produceAuditEvent job.bid.auctionId job.bid)))) []
  | consumes {message} : job.event = .stored message →
      JobStep st job st { job with event := .placing message.value .begin } []
  | places {i m pc w pc' pubs} : job.event = .placing m pc →
      CallStep i st.world (.placeBid m pc) w (.placeBid m pc') pubs →
      JobStep st job { st with world := w } { job with event := .placing m pc' } pubs
  | logs {message} : job.audit = .stored message →
      JobStep st job st { job with audit := .consumed } (auditPublications message)

variable {throttle : Throttle} {st st' : Stores} {job job' : Job ι} {act : JobAction}
  {pubs log : List Publication} {rows : List Bid} {db db' : Database} {m : BidMessage}

theorem jobStep_inv (h : jobStep throttle st job act = some (st', job', pubs)) :
    JobStep st job st' job' pubs := by
  cases act with
  | gateway now =>
    obtain ⟨⟨timestamps, gate, produced⟩, hgate, heq⟩ := Option.map_eq_some_iff.mp h
    cases heq
    cases hpc : job.gate with
    | received =>
      rw [hpc] at hgate
      cases hgate
      exact .checks (by rw [hpc]; rfl) rfl (by simp [hpc, GatewayPc.rank])
    | pruned t =>
      rw [hpc] at hgate
      cases hgate
      exact .checks (by rw [hpc]; rfl) rfl (by simp [hpc, GatewayPc.rank])
    | counted t count =>
      rw [hpc, gatewayStep] at hgate
      split at hgate
      · cases hgate
        exact .refuses hpc
      · cases hgate
        exact .checks (by rw [hpc]; rfl) rfl (by simp [hpc, GatewayPc.rank])
    | passed =>
      rw [hpc] at hgate
      cases hgate
      exact .produces hpc
    | bidProduced =>
      rw [hpc] at hgate
      cases hgate
      exact .notifies hpc
    | notified =>
      rw [hpc] at hgate
      cases hgate
      exact .audits hpc
    | finished =>
      rw [hpc] at hgate
      cases hgate
  | eachBid =>
    simp only [jobStep] at h
    split at h
    · next message hevent => cases h; exact .consumes hevent
    · cases h
  | statement i =>
    simp only [jobStep] at h
    split at h
    · next m pc hevent =>
      obtain ⟨⟨w, pc', pubs'⟩, hplace, heq⟩ := Option.map_eq_some_iff.mp h
      cases heq
      exact .places hevent (placeBidStep_inv hplace)
    · cases h
  | eachAudit =>
    simp only [jobStep] at h
    split at h
    · next message haudit => cases h; exact .logs haudit
    · cases h

/-! The writes and publications of a message, stage by stage. -/

/-- A bid the system can take: its auction names a partition, its amount keeps away from the bound
    of the column and its bidder exists. -/
def Eligible (db : Database) (m : BidMessage) : Prop :=
  (0 ≤ m.auctionId ∧ m.auctionId < bidEventsPartitions) ∧ |m.amount| < 10 ^ 12 - 1 ∧
    (db.user m.bidderId).isSome

instance : Decidable (Eligible db m) := by unfold Eligible; infer_instance

/-- The next statement of the bid consumer is the commit. -/
def EventState.committing : EventState → Bool
  | placing _ (.checked _) => true
  | _ => false

/-- The row is the bid's. -/
def Records (m : BidMessage) (b : Bid) : Prop :=
  b.auctionId = m.auctionId ∧ b.userId = m.bidderId ∧ Numeric.ofRat 14 2 m.amount = some b.amount

/-- What the bid consumer has written and published for the event. -/
inductive EventOk (db : Database) (m : BidMessage) :
    EventState → List Bid → List Publication → Prop where
  | stored {message} : message.value = m → EventOk db m (.stored message) [] []
  | begin : EventOk db m (.placing m .begin) [] []
  | checked {row} : (db.auction m.auctionId).isSome → EventOk db m (.placing m (.checked row)) [] []
  | committed {b isOpen} : Records m b → EventOk db m (.placing m (.committed b isOpen)) [b] []
  | announced {b isOpen} : Records m b →
      EventOk db m (.placing m (.announced isOpen)) [b] [newBidPublication m b]
  | accepted {b} : Records m b → EventOk db m (.placing m .returned) [b] [newBidPublication m b]
  | rejected {e} : EventOk db m (.placing m (.rejected e)) [] []
  | refused {e} : EventOk db m (.placing m .returned) [] [rejectPublication m e]

/-- The gateway has sent the bid event, and the audit message is still to be sent, stored or
    consumed. -/
inductive Forwarded (m : BidMessage) : GatewayPc → AuditState → Prop where
  | bidProduced : Forwarded m .bidProduced .unsent
  | notified : Forwarded m .notified .unsent
  | stored : Forwarded m .finished (.stored (produceAuditEvent m.auctionId m))
  | consumed : Forwarded m .finished .consumed

inductive JobOk (db : Database) (job : Job ι) : List Bid → List Publication → Prop where
  | waiting : job.gate.early = true → job.event = .unsent → job.audit = .unsent → JobOk db job [] []
  | limited : job.gate = .finished → job.event = .unsent →
      job.audit = .stored (rateLimitExceeded job.bid) → JobOk db job [] []
  | refused : job.gate = .finished → job.event = .unsent → job.audit = .consumed →
      JobOk db job [] [rejectPublication job.bid .rateLimitExceeded]
  | forwarded {rows : List Bid} {log : List Publication} : Forwarded job.bid job.gate job.audit →
      EventOk db job.bid job.event rows log → JobOk db job rows log

theorem ofRat_isSome_of_eligible (h : Eligible db m) : (Numeric.ofRat 14 2 m.amount).isSome := by
  have hamount := h.2.1
  rw [Numeric.ofRat_isSome]
  norm_num at hamount ⊢
  linarith

theorem eventOk_mono {event : EventState} (h : EventOk db m event rows log)
    (hkept : ∀ a, (db.auction a).isSome → (db'.auction a).isSome) : EventOk db' m event rows log := by
  cases h with
  | stored hvalue => exact .stored hvalue
  | begin => exact .begin
  | checked hsome => exact .checked (hkept _ hsome)
  | committed hb => exact .committed hb
  | announced hb => exact .announced hb
  | accepted hb => exact .accepted hb
  | rejected => exact .rejected
  | refused => exact .refused

theorem jobOk_mono (h : JobOk db job rows log)
    (hkept : ∀ a, (db.auction a).isSome → (db'.auction a).isSome) : JobOk db' job rows log := by
  cases h with
  | waiting hgate hevent haudit => exact .waiting hgate hevent haudit
  | limited hgate hevent haudit => exact .limited hgate hevent haudit
  | refused hgate hevent haudit => exact .refused hgate hevent haudit
  | forwarded hsent hok => exact .forwarded hsent (eventOk_mono hok hkept)

/-- A statement of the bid consumer. The database takes the writes of an eligible bid as long as the
    `version` can be incremented, so nothing throws. -/
theorem eventOk_places {i : Input} {w w' : World} {pc pc' : PlaceBidPc}
    (h : CallStep i w (.placeBid m pc) w' (.placeBid m pc') pubs)
    (hok : EventOk w.db m (.placing m pc) rows log) (he : Eligible w.db m)
    (hversion : (EventState.placing m pc).committing = true →
      ∀ row ∈ w.db.auction m.auctionId, row.version < maxInteger)
    (hsocket : m.socketId ≠ "") :
    ∃ new, w'.db.bid = w.db.bid ++ new ∧
      EventOk w'.db m (.placing m pc') (rows ++ new) (log ++ pubs) := by
  cases h with
  | bidPasses hcheck =>
    cases hok
    obtain ⟨hrow, -, -⟩ := checkBid_ok.mp hcheck
    exact ⟨[], by simp, .checked (by rw [hrow]; rfl)⟩
  | bidRefused hcheck _ =>
    cases hok
    exact ⟨[], by simp, .rejected⟩
  | bidDropped _ hnone => exact absurd hnone hsocket
  | @bidCommits _ _ db newBid hcommit =>
    cases hok
    obtain ⟨row, -, -, hamount, -, hb, hdb⟩ := Database.commitBid_eq_ok.mp hcommit
    refine ⟨[newBid], by rw [hdb]; rfl, .committed ⟨?_, ?_, hamount⟩⟩
    · rw [hb]
    · rw [hb]
  | bidThrows hthrow =>
    cases hok with
    | checked hsome =>
      obtain ⟨row, hrow⟩ := Option.isSome_iff_exists.mp hsome
      obtain ⟨amount, hamount⟩ := Option.isSome_iff_exists.mp (ofRat_isSome_of_eligible he)
      obtain ⟨r, hr⟩ := commitBid_of_accepts i.now
        (show w.db.Accepts m row amount from ⟨hrow, hamount, he.2.2, hversion rfl row hrow⟩)
      cases hthrow.symm.trans hr
  | bidPublishes =>
    cases hok with
    | committed hb => exact ⟨[], by simp, .announced hb⟩
  | bidCaches =>
    cases hok with
    | announced hb => exact ⟨[], by simp, by simpa using .accepted hb⟩
  | bidRejects =>
    cases hok
    exact ⟨[], by simp, .refused⟩

/-- The messages of an eligible bid are for partitions that exist. -/
theorem send_bidEvents (he : Eligible db m) :
    job.send (some (.bidEvents (produce m.auctionId m))) =
      { job with event := .stored (produce m.auctionId m) } :=
  if_pos he.1

theorem send_rateLimit : job.send (some (.auditLogs (rateLimitExceeded m))) =
    { job with audit := .stored (rateLimitExceeded m) } := by
  have hstored : Topic.Stored auditLogsPartitions KafkaMessage.partition (rateLimitExceeded m) :=
    ⟨le_refl 0, show (0 : ℤ) < auditLogsPartitions by decide⟩
  simp only [Job.send, if_pos hstored]

theorem send_audit (he : Eligible db m) :
    job.send (some (.auditLogs (produceAuditEvent m.auctionId m))) =
      { job with audit := .stored (produceAuditEvent m.auctionId m) } :=
  if_pos he.1

theorem Forwarded.of_stored {gate : GatewayPc} {message : KafkaMessage AuditPayload}
    (h : Forwarded m gate (.stored message)) :
    gate = .finished ∧ message = produceAuditEvent m.auctionId m := by
  cases h
  exact ⟨rfl, rfl⟩

namespace JobOk

theorem of_early (h : JobOk db job rows log) (hearly : job.gate.early = true) :
    job.event = .unsent ∧ job.audit = .unsent ∧ rows = [] ∧ log = [] := by
  cases h with
  | waiting _ hevent haudit => exact ⟨hevent, haudit, rfl, rfl⟩
  | limited hpc => rw [hpc] at hearly; cases hearly
  | refused hpc => rw [hpc] at hearly; cases hearly
  | forwarded hsent =>
    generalize job.gate = gate at hearly hsent
    generalize job.audit = audit at hsent
    cases hsent <;> cases hearly

theorem of_event (h : JobOk db job rows log) (hevent : job.event ≠ .unsent) :
    Forwarded job.bid job.gate job.audit ∧ EventOk db job.bid job.event rows log := by
  cases h with
  | waiting _ hunsent => exact absurd hunsent hevent
  | limited _ hunsent => exact absurd hunsent hevent
  | refused _ hunsent => exact absurd hunsent hevent
  | forwarded hsent hok => exact ⟨hsent, hok⟩

theorem of_late (h : JobOk db job rows log) (hearly : job.gate.early = false)
    (hfinished : job.gate ≠ .finished) : EventOk db job.bid job.event rows log ∧ job.audit = .unsent := by
  cases h with
  | waiting htrue => rw [htrue] at hearly; cases hearly
  | limited hpc => exact absurd hpc hfinished
  | refused hpc => exact absurd hpc hfinished
  | forwarded hsent hok =>
    refine ⟨hok, ?_⟩
    generalize job.gate = gate at hfinished hsent
    generalize job.audit = audit at hsent ⊢
    cases hsent with
    | bidProduced => rfl
    | notified => rfl
    | stored => exact absurd rfl hfinished
    | consumed => exact absurd rfl hfinished

end JobOk

theorem jobOk_step (h : JobStep st job st' job' pubs) (hok : JobOk st.world.db job rows log)
    (he : Eligible st.world.db job.bid)
    (hversion : job.event.committing = true →
      ∀ row ∈ st.world.db.auction job.bid.auctionId, row.version < maxInteger) :
    ∃ new, st'.world.db.bid = st.world.db.bid ++ new ∧
      JobOk st'.world.db job' (rows ++ new) (log ++ pubs) := by
  -- the statements other than those of the bid consumer write nothing
  have quiet : ∀ {st'' : Stores} {log' : List Publication}, st''.world = st.world →
      JobOk st.world.db job' rows log' →
      ∃ new, st''.world.db.bid = st.world.db.bid ++ new ∧
        JobOk st''.world.db job' (rows ++ new) log' := by
    intro st'' log' hworld hok'
    rw [hworld]
    exact ⟨[], by simp, by simpa using hok'⟩
  cases h with
  | checks hearly hearly' _ =>
    obtain ⟨hevent, haudit, rfl, rfl⟩ := hok.of_early hearly
    exact quiet rfl (.waiting hearly' hevent haudit)
  | refuses hpc =>
    obtain ⟨hevent, -, rfl, rfl⟩ := hok.of_early (by rw [hpc]; rfl)
    rw [send_rateLimit] at quiet ⊢
    exact quiet rfl (.limited rfl hevent rfl)
  | produces hpc =>
    obtain ⟨-, haudit, rfl, rfl⟩ := hok.of_early (by rw [hpc]; rfl)
    rw [send_bidEvents he] at quiet ⊢
    refine quiet rfl (.forwarded ?_ (.stored rfl))
    show Forwarded job.bid .bidProduced job.audit
    rw [haudit]
    exact .bidProduced
  | notifies hpc =>
    obtain ⟨hevent, haudit⟩ := hok.of_late (by rw [hpc]; rfl) (by rw [hpc]; nofun)
    rw [List.append_nil]
    refine quiet rfl (.forwarded ?_ hevent)
    show Forwarded job.bid .notified job.audit
    rw [haudit]
    exact .notified
  | audits hpc =>
    obtain ⟨hevent, -⟩ := hok.of_late (by rw [hpc]; rfl) (by rw [hpc]; nofun)
    rw [send_audit he] at quiet ⊢
    rw [List.append_nil]
    exact quiet rfl (.forwarded .stored hevent)
  | @consumes message hstored =>
    obtain ⟨hsent, hevent⟩ := hok.of_event (by rw [hstored]; nofun)
    rw [hstored] at hevent
    cases hevent with
    | stored hvalue =>
      refine quiet rfl (.forwarded hsent ?_)
      show EventOk st.world.db job.bid (.placing message.value .begin) [] []
      rw [hvalue]
      exact .begin
  | @places i m pc w pc' pubs hplacing hcall =>
    obtain ⟨hsent, hevent⟩ := hok.of_event (by rw [hplacing]; nofun)
    rw [hplacing] at hevent
    -- the event carries the bid it was made from
    obtain rfl : m = job.bid := by cases hevent <;> rfl
    rw [hplacing] at hversion
    obtain ⟨new, hbid, hok'⟩ := eventOk_places hcall hevent he hversion
      (by rw [job.fromSender]; exact job.sender.nonempty)
    exact ⟨new, hbid, .forwarded hsent hok'⟩
  | logs hstored =>
    cases hok with
    | waiting _ _ haudit => cases hstored.symm.trans haudit
    | limited hpc hevent haudit =>
      cases hstored.symm.trans haudit
      exact quiet rfl (.refused hpc hevent rfl)
    | refused _ _ haudit => cases hstored.symm.trans haudit
    | forwarded hsent hevent =>
      rw [hstored] at hsent
      obtain ⟨hgate, rfl⟩ := hsent.of_stored
      rw [auditPublications_bid, List.append_nil]
      refine quiet rfl (.forwarded ?_ hevent)
      show Forwarded job.bid job.gate .consumed
      rw [hgate]
      exact .consumed

/-! What the statements leave alone. -/

theorem send_origin (job : Job ι) (produced : Option Produced) :
    (job.send produced).gateway = job.gateway ∧ (job.send produced).sender = job.sender ∧
      (job.send produced).bid = job.bid := by
  unfold Job.send
  split <;> try split
  all_goals exact ⟨rfl, rfl, rfl⟩

theorem JobStep.origin (h : JobStep st job st' job' pubs) :
    job'.gateway = job.gateway ∧ job'.sender = job.sender ∧ job'.bid = job.bid := by
  cases h with
  | refuses _ => exact send_origin _ _
  | produces _ => exact send_origin _ _
  | audits _ => exact send_origin _ _
  | _ => exact ⟨rfl, rfl, rfl⟩

theorem JobStep.user_eq (h : JobStep st job st' job' pubs) :
    st'.world.db.user = st.world.db.user := by
  cases h with
  | places _ hcall => exact hcall.user_eq
  | _ => rfl

/-- Auctions are not deleted. -/
theorem CallStep.auctions_kept {i : Input} {w w' : World} {c c' : Call}
    (h : CallStep i w c w' c' pubs) (a : ℤ) (ha : (w.db.auction a).isSome) :
    (w'.db.auction a).isSome := by
  rcases h.rows_cases a with ⟨hrow, -⟩ | ⟨m, row, newBid, hid, -, -, -, hcommit⟩ |
    ⟨row, -, -, -, -, hrow, -⟩
  · rwa [hrow]
  · obtain ⟨row', -, -, -, -, hrow, -⟩ := Database.commitBid_self hcommit hid
    rw [hrow]
    rfl
  · rw [hrow]
    rfl

theorem JobStep.auctions_kept (h : JobStep st job st' job' pubs) (a : ℤ)
    (ha : (st.world.db.auction a).isSome) : (st'.world.db.auction a).isSome := by
  cases h with
  | places _ hcall => exact hcall.auctions_kept a ha
  | _ => exact ha

/-- Only a `placeBid` call writes `Bid` rows. -/
theorem CallStep.bid_eq {i : Input} {w w' : World} {c c' : Call}
    (h : CallStep i w c w' c' pubs) (hc : c.message = none) : w'.db.bid = w.db.bid := by
  cases h with
  | bidCommits _ => cases hc
  | _ => rfl

/-- Only rows are added. -/
theorem JobStep.bid_prefix (h : JobStep st job st' job' pubs) :
    ∃ new, st'.world.db.bid = st.world.db.bid ++ new := by
  cases h with
  | places _ hcall =>
    cases hcall with
    | bidCommits hcommit =>
      obtain ⟨row, -, -, -, -, -, hdb⟩ := Database.commitBid_eq_ok.mp hcommit
      exact ⟨_, by rw [hdb]; rfl⟩
    | _ => exact ⟨[], (List.append_nil _).symm⟩
  | _ => exact ⟨[], (List.append_nil _).symm⟩

/-! The end of a message. -/

def EventState.done : EventState → Bool
  | stored _ => false
  | placing m pc => (Call.placeBid m pc).finished
  | _ => true

def AuditState.done : AuditState → Bool
  | stored _ => false
  | _ => true

/-- No handler of the message has a statement left. -/
def Job.Done (job : Job ι) : Prop :=
  job.gate = .finished ∧ job.event.done = true ∧ job.audit.done = true

instance : Decidable job.Done := by unfold Job.Done; infer_instance

/-- A message ends with one row and its `newBid`, or with no row and one rejection. -/
theorem JobOk.outcome (h : JobOk db job rows log) (hdone : job.Done) :
    (∃ b, Records job.bid b ∧ rows = [b] ∧ log = [newBidPublication job.bid b]) ∨
      (rows = [] ∧ ∃ e, log = [rejectPublication job.bid e]) := by
  obtain ⟨hgate, hevent, haudit⟩ := hdone
  cases h with
  | waiting hearly => rw [hgate] at hearly; cases hearly
  | limited _ _ hstored => rw [hstored] at haudit; cases haudit
  | refused => exact .inr ⟨rfl, _, rfl⟩
  | forwarded _ hok =>
    generalize job.event = event at hevent hok
    cases hok with
    | accepted hb => exact .inl ⟨_, hb, rfl, rfl⟩
    | refused => exact .inr ⟨rfl, _, rfl⟩
    | _ => cases hevent

def PlaceBidPc.rank : PlaceBidPc → ℕ
  | begin => 4
  | checked _ => 3
  | committed _ _ => 2
  | announced _ => 1
  | rejected _ => 1
  | returned => 0
  | threw => 0

def EventState.rank : EventState → ℕ
  | stored _ => 5
  | placing _ pc => pc.rank
  | _ => 0

def AuditState.rank : AuditState → ℕ
  | stored _ => 1
  | _ => 0

/-- A bound on the statements the handlers of the message have left. -/
def Job.weight (job : Job ι) : ℕ := job.gate.rank + job.event.rank + job.audit.rank

theorem send_weight (job : Job ι) (produced : Produced) :
    (job.send (some produced)).weight ≤ job.weight + 5 := by
  cases produced with
  | bidEvents message =>
    simp only [Job.send]
    split <;> simp only [Job.weight, EventState.rank] <;> omega
  | auctionNotifications message => exact Nat.le_add_right _ _
  | auditLogs message =>
    simp only [Job.send]
    split <;> simp only [Job.weight, AuditState.rank] <;> omega

theorem placeBid_rank {i : Input} {w w' : World} {pc pc' : PlaceBidPc}
    (h : CallStep i w (.placeBid m pc) w' (.placeBid m pc') pubs) :
    pc'.rank < pc.rank ∧ pubs.length ≤ 1 := by
  cases h <;> simp [PlaceBidPc.rank]

theorem auditPublications_length (message : KafkaMessage AuditPayload) :
    (auditPublications message).length ≤ 1 := by
  unfold auditPublications
  split
  · split <;> simp
  · simp

/-- Every statement uses up some of the bound and publishes at most one message. -/
theorem jobStep_weight (h : JobStep st job st' job' pubs) :
    job'.weight < job.weight ∧ pubs.length ≤ 1 := by
  have sent : ∀ (gate : GatewayPc) (produced : Produced), gate.rank + 5 < job.gate.rank →
      (({ job with gate := gate } : Job ι).send (some produced)).weight < job.weight := by
    intro gate produced hrank
    have hsend := send_weight { job with gate := gate } produced
    simp only [Job.weight] at hsend ⊢
    omega
  cases h with
  | checks _ _ hrank => exact ⟨by simp only [Job.weight]; omega, Nat.zero_le 1⟩
  | refuses hpc => exact ⟨sent _ _ (by simp [hpc, GatewayPc.rank]), Nat.zero_le 1⟩
  | produces hpc => exact ⟨sent _ _ (by simp [hpc, GatewayPc.rank]), Nat.zero_le 1⟩
  | notifies hpc => exact ⟨by simp [Job.weight, hpc, GatewayPc.rank], Nat.zero_le 1⟩
  | audits hpc => exact ⟨sent _ _ (by simp [hpc, GatewayPc.rank]), Nat.zero_le 1⟩
  | consumes hevent =>
    exact ⟨by simp [Job.weight, hevent, EventState.rank, PlaceBidPc.rank], Nat.zero_le 1⟩
  | places hevent hcall =>
    obtain ⟨hrank, hpubs⟩ := placeBid_rank hcall
    exact ⟨by simp only [Job.weight, hevent, EventState.rank]; omega, hpubs⟩
  | logs haudit =>
    exact ⟨by simp [Job.weight, haudit, AuditState.rank], auditPublications_length _⟩

theorem placeBidStep_isSome {pc : PlaceBidPc} (w : World) (h : (Call.placeBid m pc).finished = false) :
    (placeBidStep m 0 w pc).isSome := by
  cases pc with
  | begin => simp only [placeBidStep]; split <;> rfl
  | checked row => simp only [placeBidStep]; split <;> rfl
  | committed newBid isOpen => rfl
  | announced isOpen => rfl
  | rejected e => rfl
  | returned => cases h
  | threw => cases h

theorem gatewayStep_isSome {gate : GatewayPc} (throttle : Throttle) (m : BidMessage)
    (timestamps : BidTimestamps) (h : gate ≠ .finished) :
    (gatewayStep throttle 0 m timestamps gate).isSome := by
  cases gate with
  | counted now count => simp only [gatewayStep]; split <;> rfl
  | finished => exact absurd rfl h
  | _ => rfl

/-- A message that is not done has a next statement. -/
theorem jobStep_isSome (throttle : Throttle) (st : Stores) (h : ¬ job.Done) :
    ∃ act, (jobStep throttle st job act).isSome := by
  by_cases hgate : job.gate = .finished
  · by_cases hevent : job.event.done = true
    · have haudit : job.audit.done ≠ true := fun haudit => h ⟨hgate, hevent, haudit⟩
      refine ⟨.eachAudit, ?_⟩
      cases hstate : job.audit with
      | stored message => simp [jobStep, hstate]
      | _ => rw [hstate] at haudit; exact absurd rfl haudit
    · cases hstate : job.event with
      | stored message => exact ⟨.eachBid, by simp [jobStep, hstate]⟩
      | placing m pc =>
        rw [hstate] at hevent
        refine ⟨.statement ⟨0, 0⟩, ?_⟩
        simpa [jobStep, hstate] using placeBidStep_isSome st.world (by simpa [EventState.done] using hevent)
      | _ => rw [hstate] at hevent; exact absurd rfl hevent
  · refine ⟨.gateway 0, ?_⟩
    simpa [jobStep] using gatewayStep_isSome throttle job.bid st.timestamps hgate

end CarAuction
