import CarAuction.Lib.Machine
import CarAuction.Lib.Topic
import CarAuction.Messages

/- Bid events on their way to the consumer. `KafkaProducerService.produce` keys a
   message by the auction and also sets `partition: auctionId`, which overrides the
   choice by key: the message goes to the partition with the auction's own number,
   and `docker-compose.yml` creates ten. `routing_iff` says that a drained topic has
   handed on every bid event, in order for each auction, exactly when all of them
   were for auctions below ten.

   Correspondence (TypeScript ↔ Lean):
     `KafkaProducerService.produce`         ↔ `produce`
     `produceBidEvent(auctionId, payload)`  ↔ `.produceBidEvent`
     `--topic bid-events --partitions 10`   ↔ `bidEventsPartitions`
     `eachMessage` on a partition           ↔ `.eachMessage` -/
namespace CarAuction

open Machine

/-- The arguments of a `produceBidEvent` call. -/
structure ProducedBid where
  auctionId : ℤ
  payload : BidMessage
  deriving DecidableEq

structure KafkaMessage (α : Type) where
  key : String
  value : α
  partition : ℤ

/-- The message `produce` sends. -/
def produce (auctionId : ℤ) (payload : BidMessage) : KafkaMessage BidMessage where
  key := toString auctionId
  value := payload
  partition := auctionId

/-- The partition a bid event names. -/
def ProducedBid.partition (e : ProducedBid) : ℤ := (produce e.auctionId e.payload).partition

def bidEventsPartitions : ℕ := 10

inductive RoutingAction where
  | produceBidEvent (auctionId : ℤ) (payload : BidMessage)
  | eachMessage (partition : ℤ)

def routingStep (s : Topic.State ProducedBid) : RoutingAction → Option (Topic.State ProducedBid)
  | .produceBidEvent auctionId payload =>
    some (Topic.send bidEventsPartitions ProducedBid.partition s ⟨auctionId, payload⟩)
  | .eachMessage partition => (Topic.receive s partition).map Prod.snd

/-- The calls of a schedule, in order. -/
def produced (schedule : List RoutingAction) : List ProducedBid :=
  schedule.filterMap fun
    | .produceBidEvent auctionId payload => some ⟨auctionId, payload⟩
    | .eachMessage _ => none

/-- Every bid event is stored in a partition that exists and consumed, and those of an auction in
    the order they were produced. -/
def RoutedInOrder (events : List ProducedBid) (s : Topic.State ProducedBid) : Prop :=
  (∀ e ∈ events, Topic.Stored bidEventsPartitions ProducedBid.partition e ∧ e ∈ s.consumed) ∧
    ∀ a, s.consumed.filter (ProducedBid.auctionId · = a) =
      events.filter (ProducedBid.auctionId · = a)

variable {s t : Topic.State ProducedBid}

theorem sent_of_exec {schedule : List RoutingAction} (h : exec routingStep s schedule = some t) :
    t.sent = s.sent ++ produced schedule := by
  induction schedule generalizing s with
  | nil => cases h; exact (List.append_nil _).symm
  | cons act schedule ih =>
    obtain ⟨u, hu, h⟩ := Option.bind_eq_some_iff.mp h
    rw [ih h]
    cases act with
    | produceBidEvent auctionId payload =>
      cases hu
      simp [produced, Topic.send]
    | eachMessage p =>
      obtain ⟨⟨m, u'⟩, hr, rfl⟩ := Option.map_eq_some_iff.mp hu
      obtain ⟨rest, -, rfl⟩ := Topic.receive_eq_some hr
      rfl

theorem ordered_step {act : RoutingAction}
    (h : Topic.Ordered bidEventsPartitions ProducedBid.partition s)
    (hstep : routingStep s act = some t) :
    Topic.Ordered bidEventsPartitions ProducedBid.partition t := by
  cases act with
  | produceBidEvent auctionId payload =>
    cases hstep
    exact Topic.ordered_send h _
  | eachMessage p =>
    obtain ⟨⟨m, t'⟩, hr, rfl⟩ := Option.map_eq_some_iff.mp hstep
    exact Topic.ordered_receive h hr

/-- In every run that drains the partitions, with positive auction ids, the bid events are routed
    in order and without loss exactly when the ids are below the number of partitions. -/
theorem routing_iff (schedule : List RoutingAction) (s : Topic.State ProducedBid)
    (hrun : exec routingStep Topic.empty schedule = some s) (hdrained : ∀ p, s.queue p = [])
    (hpositive : ∀ e ∈ produced schedule, 0 < e.auctionId) :
    RoutedInOrder (produced schedule) s ↔ ∀ e ∈ produced schedule, e.auctionId < 10 := by
  have hsent : s.sent = produced schedule := sent_of_exec hrun
  have hordered : Topic.Ordered bidEventsPartitions ProducedBid.partition s :=
    exec_of_inv (fun _ _ _ h hstep => ordered_step h hstep) schedule Topic.ordered_empty hrun
  have hkept := Topic.kept_iff ProducedBid.auctionId id hordered (fun _ => rfl) hdrained
  rw [hsent] at hkept
  have hstored : ∀ e ∈ produced schedule,
      (Topic.Stored bidEventsPartitions ProducedBid.partition e ↔ e.auctionId < 10) := by
    intro e he
    have := hpositive e he
    simp only [Topic.Stored, ProducedBid.partition, produce, bidEventsPartitions]
    omega
  refine ⟨fun hrouted e he => (hstored e he).mp (hrouted.1 e he).1, fun hlow => ?_⟩
  have horder := hkept.mpr (fun e he => (hstored e he).mpr (hlow e he))
  refine ⟨fun e he => ⟨(hstored e he).mpr (hlow e he), ?_⟩, horder⟩
  have hmem : e ∈ (produced schedule).filter (ProducedBid.auctionId · = e.auctionId) := by
    simp [he]
  rw [← horder] at hmem
  exact (List.mem_filter.mp hmem).1

/-- A bid on auction `3` and one on auction `5`, consumed in the other order. -/
def twoAuctions : List RoutingAction :=
  [.produceBidEvent 3 ⟨3, 10, 7, "ann", "socket-a"⟩,
    .produceBidEvent 5 ⟨5, 20, 8, "bob", "socket-b"⟩, .eachMessage 5, .eachMessage 3]

theorem routing_iff_two_auctions :
    ∃ s, exec routingStep Topic.empty twoAuctions = some s ∧
      (RoutedInOrder (produced twoAuctions) s ↔ ∀ e ∈ produced twoAuctions, e.auctionId < 10) := by
  refine ⟨_, rfl, routing_iff twoAuctions _ rfl (fun p => ?_) (by decide)⟩
  by_cases h3 : p = 3
  · subst h3
    rfl
  · by_cases h5 : p = 5
    · subst h5
      rfl
    · exact (Function.update_of_ne h3 _ _).trans <| (Function.update_of_ne h5 _ _).trans <|
        (Function.update_of_ne h5 _ _).trans <| Function.update_of_ne h3 _ _

/-- A bid on auction `10` names a partition that does not exist: it is not stored, and the drained
    consumer has nothing to consume. -/
theorem tenth_auction_lost :
    exec routingStep Topic.empty [.produceBidEvent 10 ⟨10, 20, 8, "bob", "socket-b"⟩] = some
        ⟨[⟨10, ⟨10, 20, 8, "bob", "socket-b"⟩⟩], fun _ => [], []⟩ ∧
      ¬ RoutedInOrder (produced [.produceBidEvent 10 ⟨10, 20, 8, "bob", "socket-b"⟩])
        ⟨[⟨10, ⟨10, 20, 8, "bob", "socket-b"⟩⟩], fun _ => [], []⟩ := by
  refine ⟨rfl, fun hrouted => ?_⟩
  have hconsumed := (hrouted.1 ⟨10, ⟨10, 20, 8, "bob", "socket-b"⟩⟩ (by decide)).2
  cases hconsumed

end CarAuction
