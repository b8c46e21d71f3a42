import CarAuction.Gateway
import CarAuction.Lib.Sends

/- The audit trail when things fail. `handlePlaceBid` awaits three sends, and no
   transaction, outbox or handler of exceptions is around them: a failing send ends
   the call where it is, and so does the end of the gateway's process. What a call
   has stored is then an initial part of the three messages, and the trail misses a
   bid event exactly when a call fails or stops after its own was stored.

   Correspondence (TypeScript ↔ Lean):
     `handlePlaceBid`                               ↔ `handlePlaceBid`, the messages it sends
     `await this.producer.send(...)` resolves       ↔ `.send`
     the `await` throws, the broker has the message ↔ `.fail _ true`
     the `await` throws, the broker has it not      ↔ `.fail _ false`
     the gateway's process ends                     ↔ `.stop`
     `--topic auction-notifications --partitions 10` ↔ `auctionNotificationsPartitions`
   A send resolves as well for a partition that does not exist, and stores nothing. -/
namespace CarAuction

open Machine

def auctionNotificationsPartitions : ℕ := 10

/-- The message names a partition of its topic that exists. -/
def Produced.storable : Produced → Bool
  | .bidEvents message => Topic.Stored bidEventsPartitions KafkaMessage.partition message
  | .auctionNotifications message =>
    Topic.Stored auctionNotificationsPartitions KafkaMessage.partition message
  | .auditLogs message => Topic.Stored auditLogsPartitions KafkaMessage.partition message

def bidEvent (m : BidMessage) : Produced := .bidEvents (produce m.auctionId m)

def notificationsEvent (m : BidMessage) : Produced :=
  .auctionNotifications (produce m.auctionId m)

def auditEvent (m : BidMessage) : Produced := .auditLogs (produceAuditEvent m.auctionId m)

/-- The messages sent for a `placeBid` message that the interceptor let through. -/
def handlePlaceBid (m : BidMessage) : List Produced :=
  [bidEvent m, notificationsEvent m, auditEvent m]

/-- Those of them that a gateway has not sent yet. -/
def GatewayPc.unsent (m : BidMessage) : GatewayPc → List Produced
  | .passed => handlePlaceBid m
  | .bidProduced => [notificationsEvent m, auditEvent m]
  | .notified => [auditEvent m]
  | _ => []

/-- A statement of the handler sends the next of them. -/
theorem gatewayStep_unsent {throttle : Throttle} {now : Time} {m : BidMessage}
    {timestamps timestamps' : BidTimestamps} {pc pc' : GatewayPc} {message : Option Produced}
    (hpc : pc.unsent m ≠ [])
    (h : gatewayStep throttle now m timestamps pc = some (timestamps', pc', message)) :
    pc.unsent m = message.toList ++ pc'.unsent m := by
  cases pc with
  | received => exact absurd rfl hpc
  | pruned => exact absurd rfl hpc
  | counted => exact absurd rfl hpc
  | passed => cases h; rfl
  | bidProduced => cases h; rfl
  | notified => cases h; rfl
  | finished => cases h

/-- The calls, with nothing sent yet. -/
abbrev placing {ι : Type*} (bid : ι → BidMessage) : Sends.State ι Produced :=
  Sends.init fun i => handlePlaceBid (bid i)

abbrev placingStep {ι γ : Type*} [DecidableEq ι] [DecidableEq γ] (node : ι → γ) :
    Sends.State ι Produced → Sends.Action ι γ → Option (Sends.State ι Produced) :=
  Sends.step Produced.storable node

/-- What the calls have left once they have ended: the audit event of every bid event that one of
    them has stored, and no bid event of one that threw. -/
def AuditTrail {ι : Type*} [DecidableEq ι] (bid : ι → BidMessage) (s : Sends.State ι Produced) :
    Prop :=
  ∀ i, s.ended i ≠ none →
    (bidEvent (bid i) ∈ s.storedBy i → auditEvent (bid i) ∈ s.storedBy i) ∧
      (s.ended i = some .threw → bidEvent (bid i) ∉ s.storedBy i)

variable {ι γ : Type*} [DecidableEq ι] [DecidableEq γ] {node : ι → γ} {bid : ι → BidMessage}
  {s : Sends.State ι Produced} {m : BidMessage} {c : Sends.Call Produced}

/-- The three messages name the same partition, so all of them are stored or none. -/
theorem storable_handlePlaceBid (m : BidMessage) :
    (handlePlaceBid m).filter Produced.storable =
      if (bidEvent m).storable then handlePlaceBid m else [] := by
  have hnotification : (notificationsEvent m).storable = (bidEvent m).storable := rfl
  have haudit : (auditEvent m).storable = (bidEvent m).storable := rfl
  by_cases hstored : (bidEvent m).storable
  · simp [handlePlaceBid, hnotification, haudit, hstored]
  · simp [handlePlaceBid, hnotification, haudit, hstored]

/-- A call that has stored anything has stored its bid event, the first of the messages. -/
theorem bidEvent_mem_iff (h : Sends.Progress Produced.storable (handlePlaceBid m) c) :
    bidEvent m ∈ c.stored ↔ c.stored ≠ [] := by
  refine ⟨List.ne_nil_of_mem, fun hne => ?_⟩
  have hprefix : c.stored <+: (handlePlaceBid m).filter Produced.storable := h.isPrefix
  rw [storable_handlePlaceBid] at hprefix
  split at hprefix
  · obtain ⟨first, rest, hstored⟩ := List.exists_cons_of_ne_nil hne
    rw [hstored, handlePlaceBid, List.cons_prefix_cons] at hprefix
    rw [hstored, hprefix.1]
    exact List.mem_cons_self
  · exact absurd (List.prefix_nil.mp hprefix) hne

/-- The audit event is the last of the messages: a call with one of them left has not sent it. -/
theorem auditEvent_notMem {done rest : List Produced} {message : Produced}
    (h : handlePlaceBid m = done ++ message :: rest) : auditEvent m ∉ done := by
  intro hmem
  have hfirst : [bidEvent m, notificationsEvent m] = done ++ (message :: rest).dropLast := by
    rw [← List.dropLast_append_of_ne_nil (List.cons_ne_nil message rest), ← h]
    rfl
  have hother : auditEvent m ∈ [bidEvent m, notificationsEvent m] := by
    rw [hfirst]
    exact List.mem_append_left _ hmem
  simp [bidEvent, notificationsEvent, auditEvent] at hother

/-- For the call, the trail is complete when it leaves its three messages or none. -/
theorem audited_iff_atomic (h : Sends.Progress Produced.storable (handlePlaceBid m) c) :
    (c.ended ≠ none → (bidEvent m ∈ c.stored → auditEvent m ∈ c.stored) ∧
      (c.ended = some .threw → bidEvent m ∉ c.stored)) ↔ c.Atomic := by
  have hbid := bidEvent_mem_iff h
  cases h with
  | running done message rest hscript => simp [Sends.Call.Atomic]
  | returned =>
    have haudit : bidEvent m ∈ (handlePlaceBid m).filter Produced.storable →
        auditEvent m ∈ (handlePlaceBid m).filter Produced.storable := by
      rw [storable_handlePlaceBid]
      split
      · intro _
        simp [handlePlaceBid]
      · exact fun hmem => by cases hmem
    exact iff_of_true (fun _ => ⟨haudit, fun hended => by cases hended⟩) fun _ => .inr rfl
  | threw done message rest sent hscript hsent =>
    rw [hbid]
    constructor
    · intro h hended
      exact .inl (not_not.mp ((h hended).2 rfl))
    · intro h hended
      rcases h hended with hnil | hreturned
      · exact ⟨fun hne => absurd hnil hne, fun _ => not_not.mpr hnil⟩
      · cases hreturned
  | stopped done message rest hscript =>
    have haudit : auditEvent m ∉ done.filter Produced.storable :=
      fun hmem => auditEvent_notMem hscript (List.mem_filter.mp hmem).1
    rw [hbid]
    simp [Sends.Call.Atomic, haudit]

theorem auditTrail_iff
    (h : ∀ i, Sends.Progress Produced.storable (handlePlaceBid (bid i)) (s.call i)) :
    AuditTrail bid s ↔ ∀ i, (s.call i).Atomic :=
  forall_congr' fun i => audited_iff_atomic (h i)

/-- In every run of calls whose sends may fail and whose gateways may stop, each call has stored an
    initial part of its three messages, with the audit event of its bid event once it has returned;
    and the trail is complete at all times exactly when no call fails or stops that has stored its
    bid event, nor stores it in a send that fails. -/
theorem audit_trail_iff (bid : ι → BidMessage) (node : ι → γ) (run : List (Sends.Action ι γ)) :
    Always (placingStep node)
        (fun s => ∀ i, s.storedBy i <+: handlePlaceBid (bid i) ∧
          (s.ended i = some .returned → bidEvent (bid i) ∈ s.storedBy i →
            auditEvent (bid i) ∈ s.storedBy i))
        (placing bid) run ∧
      (Always (placingStep node) (AuditTrail bid) (placing bid) run ↔
        Along (placingStep node) (fun s act _ => ¬ Sends.Torn Produced.storable node s act)
          (placing bid) run) := by
  have hprogress : Always (placingStep node)
      (fun s => ∀ i, Sends.Progress Produced.storable (handlePlaceBid (bid i)) (s.call i))
      (placing bid) run := Sends.progress_always (fun i h => by cases h) run
  refine ⟨hprogress.mono fun s hs i => ?_, ?_⟩
  · refine ⟨(hs i).isPrefix.trans ?_, fun hended => ?_⟩
    · rw [storable_handlePlaceBid]
      split
      · exact List.prefix_refl _
      · exact List.nil_prefix
    · have hatomic : (s.call i).Atomic := fun _ => .inr hended
      have hsome : s.ended i ≠ none := by rw [hended]; exact Option.some_ne_none _
      exact ((audited_iff_atomic (hs i)).mpr hatomic hsome).1
  · rw [← Sends.atomic_iff]
    exact always_congr (fun s hs => auditTrail_iff hs) hprogress

/-! A bid of Ann's. -/

def annPlaces : BidMessage := ⟨3, 10, 7, "ann", "socket-a"⟩

theorem storable_annPlaces : (bidEvent annPlaces).storable = true := by decide

/-- The bid event is stored and the notification fails: the call ends with the exception, and the
    stored bid event has no audit event. -/
theorem failed_notification_unaudited :
    ∃ s, exec (placingStep fun _ : Unit => ()) (placing fun _ : Unit => annPlaces)
        [.send (), .fail () false] = some s ∧ s.ended () = some .threw ∧
      s.storedBy () = [bidEvent annPlaces] ∧ ¬ AuditTrail (fun _ => annPlaces) s := by
  have hstored : ∃ s, exec (placingStep fun _ : Unit => ()) (placing fun _ : Unit => annPlaces)
      [.send (), .fail () false] = some s ∧ s.ended () = some .threw ∧
        s.storedBy () = [bidEvent annPlaces] := by
    refine ⟨_, rfl, rfl, ?_⟩
    simp [Sends.State.storedBy, Sends.State.advance, Sends.init, PubSub.ofTag, storable_annPlaces]
  obtain ⟨s, hs, hended, hbid⟩ := hstored
  refine ⟨s, hs, hended, hbid, fun h => ?_⟩
  have hthrew := (h () (by rw [hended]; exact Option.some_ne_none _)).2 hended
  rw [hbid] at hthrew
  exact hthrew List.mem_cons_self

end CarAuction
