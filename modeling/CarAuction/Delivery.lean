import CarAuction.Lib.PubSub
import CarAuction.Jobs

/- The whole way of a bid, from the socket that sends it to the sockets that hear of
   it. Any number of gateway instances `ι` serve their own sockets; each receives
   every message published to Redis once, in any order. Kafka hands every stored
   message to its consumer once, in any order, so a `placeBid` message is one `Job`.
   Sockets connect, join, send and disconnect at any time; any statement of an
   `endAuction` or `getAuctionState` call may come at any time.

   The net records the `Bid` rows and the published messages with the number of the
   job they come from, and for every message an instance has handled the sockets it
   had at that moment. `one_outcome` says that a job that is over, with all its
   messages handled, has been accepted or refused, and that a net left to itself
   gets every job there.

   Correspondence (TypeScript ↔ Lean):
     a `RedisService` subscriber with its Socket.IO server   ↔ an element of `ι`
     `handleConnection`, `handleDisconnect`                  ↔ `.connect`, `.disconnect`
     `client.join` of `handleJoinAuction`                    ↔ `.joinAuction`
     the `placeBid` event that passed the guards             ↔ `.placeBid`
     a subscriber's handler                                  ↔ `.handle` -/
namespace CarAuction

open Machine PubSub

/-- A published message, with the number of the job it comes from, if it comes from one. -/
abbrev Entry := Option ℕ × Publication

structure Net (ι : Type) where
  stores : Stores
  jobs : List (Job ι)
  rows : List (ℕ × Bid)
  redis : PubSub.State ι Entry (List Socket)
  sockets : ι → List Socket
  used : List (SocketId × ι)

inductive NetAction (ι : Type) where
  | connect (g : ι) (id : SocketId)
  | disconnect (g : ι) (id : SocketId)
  | joinAuction (g : ι) (id : SocketId) (auctionId : ℤ)
  | placeBid (g : ι) (id : SocketId) (auctionId : ℤ) (amount : Number) (bidderId : ℤ)
    (bidderUsername : String)
  | job (k : ℕ) (act : JobAction)
  | call (c : Call) (i : Input)
  | expireCache (auctionId : ℤ)
  | expireTimestamps (username : String)
  | handle (g : ι) (i : ℕ)

/-- The actions of the handlers, which need no one outside to act. -/
def NetAction.internal {ι : Type} : NetAction ι → Bool
  | job _ _ => true
  | handle _ _ => true
  | _ => false

variable {ι : Type}

namespace Net

def start (world : World) (timestamps : BidTimestamps) : Net ι where
  stores := ⟨world, timestamps⟩
  jobs := []
  rows := []
  redis := PubSub.empty
  sockets := fun _ => []
  used := []

abbrev db (s : Net ι) : Database := s.stores.world.db

/-- The net after a statement of a job: the rows the statement added and what it published carry
    the job's number. -/
def advance (s : Net ι) (k : ℕ) (st : Stores) (job : Job ι) (pubs : List Publication) : Net ι :=
  { s with
    stores := st
    jobs := s.jobs.set k job
    rows := s.rows ++ (st.world.db.bid.drop s.db.bid.length).map (k, ·)
    redis := publish s.redis (pubs.map (some k, ·)) }

end Net

def netStep [DecidableEq ι] (throttle : Throttle) (s : Net ι) : NetAction ι → Option (Net ι)
  | .connect g id =>
    if id ∈ s.used.map Prod.fst then none
    else some { s with
      sockets := Function.update s.sockets g (⟨id, []⟩ :: s.sockets g)
      used := (id, g) :: s.used }
  | .disconnect g id =>
    some { s with sockets := Function.update s.sockets g ((s.sockets g).filter (·.id ≠ id)) }
  | .joinAuction g id auctionId =>
    some { s with sockets := Function.update s.sockets g ((s.sockets g).map fun socket =>
      if socket.id = id then { socket with joined := auctionId :: socket.joined } else socket) }
  | .placeBid g id auctionId amount bidderId bidderUsername =>
    if id ∈ (s.sockets g).map Socket.id then
      some { s with
        jobs := s.jobs ++ [Job.received g id auctionId amount bidderId bidderUsername] }
    else none
  | .job k act =>
    match s.jobs[k]? with
    | none => none
    | some job => (jobStep throttle s.stores job act).map fun r => s.advance k r.1 r.2.1 r.2.2
  | .call c i =>
    if c.message = none then
      (callStep i s.stores.world c).map fun r => { s with
        stores := { s.stores with world := r.1 }
        redis := publish s.redis (r.2.2.map (none, ·)) }
    else none
  | .expireCache auctionId =>
    some { s with stores := { s.stores with world := s.stores.world.expireCache auctionId } }
  | .expireTimestamps username =>
    some { s with stores := { s.stores with
      timestamps := Function.update s.stores.timestamps username [] } }
  | .handle g i =>
    -- an `auctionEnd` also disconnects the sockets of the room
    (receive s.redis g i (s.sockets g)).map fun r => { s with
      redis := r.2
      sockets := Function.update s.sockets g (handleMessage (s.sockets g) r.1.2).2 }

/-- No commit fails because the `version` of the auction has reached the maximum of its column. -/
def FailureFree (s : Net ι) : NetAction ι → Net ι → Prop
  | .job k _, _ => ∀ job ∈ s.jobs[k]?, job.event.committing = true →
      ∀ row ∈ s.db.auction job.bid.auctionId, row.version < maxInteger
  | _, _ => True

instance {s t : Net ι} {act : NetAction ι} : Decidable (FailureFree s act t) := by
  cases act <;> unfold FailureFree <;> infer_instance

/-! What becomes of a job. -/

namespace Net

/-- For each message of the job that the instance has handled, the sockets it had then and what it
    emitted to which of them. -/
def deliveries (s : Net ι) (g : ι) (k : ℕ) : List (List Socket × List (SocketId × ClientEvent)) :=
  ((s.redis.received g).filter (·.1.1 = some k)).map fun r => (r.2, (handleMessage r.2 r.1.2).1)

/-- The bid has been committed as one row, and every instance has emitted its `newBid` once, to
    exactly the sockets it had in the room of the auction. -/
def Accepted (s : Net ι) (k : ℕ) (job : Job ι) : Prop :=
  ∃ b, Records job.bid b ∧ ofTag k s.rows = [b] ∧ ∀ g, ∃ sockets : List Socket,
    (sockets.map Socket.id).Nodup ∧
    s.deliveries g k = [(sockets,
      (sockets.filter (toString job.bid.auctionId ∈ ·.rooms)).map fun socket =>
        (socket.id, .newBid job.bid.auctionId
          ⟨job.bid.amount, job.bid.bidderId, job.bid.bidderUsername, b.timestamp⟩))]

/-- No row has been written, and the rejection has been emitted once, by the instance of the sending
    socket to that socket, if it was still connected. -/
def Refused [DecidableEq ι] (s : Net ι) (k : ℕ) (job : Job ι) : Prop :=
  ofTag k s.rows = [] ∧ ∃ e, ∀ g, ∃ sockets : List Socket,
    (sockets.map Socket.id).Nodup ∧
    s.deliveries g k = [(sockets,
      if g = job.gateway ∧ job.sender ∈ sockets.map Socket.id then
        [(job.sender, .bidRejected job.bid.auctionId e)] else [])]

/-- No handler of the job has a statement left, and none of its messages is on its way. -/
def Settled (s : Net ι) (k : ℕ) (job : Job ι) : Prop :=
  job.Done ∧ ∀ g, ∀ e ∈ s.redis.inbox g, e.1 ≠ some k

/-- Every eligible job that is settled has been accepted or refused, and not both; the rows added
    to the `Bid` table are those of the jobs. -/
def OneOutcome [DecidableEq ι] (db₀ : Database) (s : Net ι) : Prop :=
  s.db.bid = db₀.bid ++ s.rows.map Prod.snd ∧
    ∀ k job, s.jobs[k]? = some job → Eligible db₀ job.bid → s.Settled k job →
      (s.Accepted k job ∨ s.Refused k job) ∧ ¬ (s.Accepted k job ∧ s.Refused k job)

/-- A bound on the actions of the handlers: every statement of a job may publish a message, which
    every instance then handles. -/
def pending [Fintype ι] (s : Net ι) : ℕ :=
  (s.jobs.map Job.weight).sum * (Fintype.card ι + 1) + PubSub.pending s.redis

/-- The handlers can take only so many actions, and when they can take no more all jobs are
    settled. -/
def Settles [Fintype ι] [DecidableEq ι] (throttle : Throttle) (s : Net ι) : Prop :=
  ∀ (more : List (NetAction ι)) (t : Net ι), (∀ act ∈ more, act.internal = true) →
    exec (netStep throttle) s more = some t → more.length ≤ s.pending ∧
      ((∀ act : NetAction ι, act.internal = true → netStep throttle t act = none) →
        ∀ k job, t.jobs[k]? = some job → t.Settled k job)

end Net

instance [Fintype ι] {s : Net ι} {k : ℕ} {job : Job ι} : Decidable (s.Settled k job) :=
  inferInstanceAs (Decidable (_ ∧ _))

/-! The sockets: ids are given out once, and an id stays with its instance. -/

/-- The sockets have ids of their own, given out by this instance. -/
def Present (used : List (SocketId × ι)) (g : ι) (sockets : List Socket) : Prop :=
  (sockets.map Socket.id).Nodup ∧ ∀ socket ∈ sockets, (socket.id, g) ∈ used

structure SocketsOk (s : Net ι) : Prop where
  ids : (s.used.map Prod.fst).Nodup
  present : ∀ g, Present s.used g (s.sockets g)
  received : ∀ g, ∀ r ∈ s.redis.received g, Present s.used g r.2
  sender : ∀ job ∈ s.jobs, (job.sender, job.gateway) ∈ s.used

/-- What the handlers of the messages have written and published so far. -/
structure LogsOk (db₀ : Database) (s : Net ι) : Prop where
  bid : s.db.bid = db₀.bid ++ s.rows.map Prod.snd
  user : s.db.user = db₀.user
  rowTags : ∀ r ∈ s.rows, r.1 < s.jobs.length
  tags : ∀ e ∈ s.redis.published, ∀ k, e.1 = some k → k < s.jobs.length
  complete : Complete s.redis
  jobs : ∀ k job, s.jobs[k]? = some job → Eligible db₀ job.bid →
    JobOk s.db job (ofTag k s.rows) (ofTag (some k) s.redis.published)

variable {used used' : List (SocketId × ι)} {g : ι} {sockets sockets' : List Socket} {s t : Net ι}
  {db₀ : Database}

theorem present_mono (h : Present used g sockets) (hmore : used ⊆ used') : Present used' g sockets :=
  ⟨h.1, fun socket hs => hmore (h.2 socket hs)⟩

theorem present_sublist (h : Present used g sockets) (hsub : sockets'.Sublist sockets) :
    Present used g sockets' :=
  ⟨(hsub.map Socket.id).nodup h.1, fun socket hs => h.2 socket (hsub.subset hs)⟩

theorem present_map (h : Present used g sockets) {f : Socket → Socket}
    (hf : ∀ socket, (f socket).id = socket.id) : Present used g (sockets.map f) := by
  refine ⟨?_, fun socket hs => ?_⟩
  · rw [List.map_map, show Socket.id ∘ f = Socket.id from funext hf]
    exact h.1
  · obtain ⟨socket', hs', rfl⟩ := List.mem_map.mp hs
    rw [hf]
    exact h.2 socket' hs'

theorem socketsOk_start (world : World) (timestamps : BidTimestamps) :
    SocketsOk (Net.start world timestamps : Net ι) := by
  refine ⟨List.nodup_nil, fun _ => ⟨List.nodup_nil, fun _ hs => ?_⟩, fun _ _ hr => ?_, fun _ hj => ?_⟩
  · cases hs
  · cases hr
  · cases hj

theorem logsOk_start (world : World) (timestamps : BidTimestamps) :
    LogsOk world.db (Net.start world timestamps : Net ι) := by
  refine ⟨(List.append_nil _).symm, rfl, fun _ hr => ?_, fun _ he => ?_, complete_empty, ?_⟩
  · cases hr
  · cases he
  · intro k job hjob
    cases hjob

/-! The jobs: a statement of one of them leaves the others alone. -/

/-- Nothing carries the number of the next job yet. -/
theorem LogsOk.fresh (hs : LogsOk db₀ s) : ofTag s.jobs.length s.rows = [] ∧
    ofTag (some s.jobs.length) s.redis.published = [] := by
  refine ⟨ofTag_of_forall_ne fun r hr => (hs.rowTags r hr).ne, ofTag_of_forall_ne fun e he htag => ?_⟩
  exact lt_irrefl _ (hs.tags e he _ htag)

theorem logsOk_advance {k : ℕ} {job job' : Job ι} {st : Stores} {pubs : List Publication}
    (hs : LogsOk db₀ s) (hjob : s.jobs[k]? = some job) (hmove : JobStep s.stores job st job' pubs)
    (hversion : job.event.committing = true →
      ∀ row ∈ s.db.auction job.bid.auctionId, row.version < maxInteger) :
    LogsOk db₀ (s.advance k st job' pubs) := by
  obtain ⟨new, hnew⟩ := hmove.bid_prefix
  have hrows : (s.advance k st job' pubs).rows = s.rows ++ new.map (k, ·) := by
    simp [Net.advance, Net.db, hnew]
  obtain ⟨hk, -⟩ := List.getElem?_eq_some_iff.mp hjob
  have hlength : (s.advance k st job' pubs).jobs.length = s.jobs.length := List.length_set
  refine ⟨?_, hmove.user_eq.trans hs.user, ?_, ?_, complete_publish hs.complete _, ?_⟩
  · rw [hrows]
    show st.world.db.bid = _
    rw [hnew, hs.bid]
    simp
  · rw [hrows, hlength]
    intro r hr
    rcases List.mem_append.mp hr with hr | hr
    · exact hs.rowTags r hr
    · obtain ⟨b, -, rfl⟩ := List.mem_map.mp hr
      exact hk
  · rw [hlength]
    intro e he k' htag
    rcases List.mem_append.mp he with he | he
    · exact hs.tags e he k' htag
    · obtain ⟨p, -, rfl⟩ := List.mem_map.mp he
      cases htag
      exact hk
  · intro j job₁ hj he
    rw [hrows]
    -- only the job that moves can have written or published
    by_cases hjk : j = k
    · subst hjk
      have heq : job₁ = job' := by
        simpa [Net.advance, hk] using hj.symm
      subst heq
      obtain ⟨-, -, hbid⟩ := hmove.origin
      rw [hbid] at he
      obtain ⟨new', hnew', hok⟩ := jobOk_step hmove (hs.jobs j job hjob he)
        (show Eligible s.db job.bid from ⟨he.1, he.2.1, hs.user ▸ he.2.2⟩) hversion
      obtain rfl : new' = new := List.append_cancel_left (hnew'.symm.trans hnew)
      show JobOk st.world.db job₁ _ (ofTag (some j) (s.redis.published ++ pubs.map (some j, ·)))
      rw [ofTag_append_self, ofTag_append_self]
      exact hok
    · have hold : s.jobs[j]? = some job₁ := by
        rw [← hj]
        exact (List.getElem?_set_ne (Ne.symm hjk)).symm
      show JobOk st.world.db job₁ _ (ofTag (some j) (s.redis.published ++ pubs.map (some k, ·)))
      rw [ofTag_append_of_ne (Ne.symm hjk), ofTag_append_of_ne (by simpa using Ne.symm hjk)]
      exact jobOk_mono (hs.jobs j job₁ hold he) hmove.auctions_kept

/-! A settled job. -/

variable {k : ℕ} {job : Job ι} {p : Publication}

theorem gateway_unique (hs : SocketsOk s) {id : SocketId} {g g' : ι} (h : (id, g) ∈ s.used)
    (h' : (id, g') ∈ s.used) : g = g' :=
  congrArg Prod.snd (List.inj_on_of_nodup_map hs.ids h h' rfl)

/-- Every instance has handled the one message of a settled job once. -/
theorem deliveries_of_settled (hsockets : SocketsOk s) (hlogs : LogsOk db₀ s)
    (hinbox : ∀ g, ∀ e ∈ s.redis.inbox g, e.1 ≠ some k)
    (hp : ofTag (some k) s.redis.published = [p]) (g : ι) :
    ∃ sockets, Present s.used g sockets ∧
      s.deliveries g k = [(sockets, (handleMessage sockets p).1)] := by
  have hnone : (s.redis.inbox g).filter (·.1 = some k) = [] :=
    List.filter_eq_nil_iff.mpr (by simpa using hinbox g)
  obtain ⟨sockets, hr⟩ := received_of_settled hlogs.complete hnone (filter_of_ofTag hp)
  refine ⟨sockets, ?_, ?_⟩
  · have hmem : ((some k, p), sockets) ∈ (s.redis.received g).filter (·.1.1 = some k) := by
      rw [hr]
      exact List.mem_singleton_self _
    exact hsockets.received g _ (List.mem_filter.mp hmem).1
  · unfold Net.deliveries
    rw [hr]
    rfl

section Steps

variable [DecidableEq ι] {throttle : Throttle} {act : NetAction ι}

theorem netStep_job {k : ℕ} {a : JobAction} (h : netStep throttle s (.job k a) = some t) :
    ∃ job st job' pubs, s.jobs[k]? = some job ∧ JobStep s.stores job st job' pubs ∧
      t = s.advance k st job' pubs := by
  simp only [netStep] at h
  split at h
  · cases h
  · next job hjob =>
    obtain ⟨⟨st, job', pubs⟩, hstep, rfl⟩ := Option.map_eq_some_iff.mp h
    exact ⟨job, st, job', pubs, hjob, jobStep_inv hstep, rfl⟩

theorem netStep_call {c : Call} {i : Input} (h : netStep throttle s (.call c i) = some t) :
    ∃ w c' pubs, c.message = none ∧ CallStep i s.stores.world c w c' pubs ∧
      t = { s with
        stores := { s.stores with world := w }
        redis := publish s.redis (pubs.map (none, ·)) } := by
  simp only [netStep, Option.ite_none_right_eq_some] at h
  obtain ⟨hc, h⟩ := h
  obtain ⟨⟨w, c', pubs⟩, hstep, rfl⟩ := Option.map_eq_some_iff.mp h
  exact ⟨w, c', pubs, hc, callStep_inv hstep, rfl⟩

theorem netStep_handle {i : ℕ} (h : netStep throttle s (.handle g i) = some t) :
    ∃ e redis, receive s.redis g i (s.sockets g) = some (e, redis) ∧
      t = { s with
        redis := redis
        sockets := Function.update s.sockets g (handleMessage (s.sockets g) e.2).2 } := by
  obtain ⟨⟨e, redis⟩, hr, rfl⟩ := Option.map_eq_some_iff.mp h
  exact ⟨e, redis, hr, rfl⟩

theorem present_update (h : ∀ g, Present used g (s.sockets g)) (hg : Present used g sockets)
    (g' : ι) : Present used g' (Function.update s.sockets g sockets g') := by
  by_cases heq : g' = g
  · subst heq
    rwa [Function.update_self]
  · rw [Function.update_of_ne heq]
    exact h g'

theorem handleMessage_sublist (sockets : List Socket) (p : Publication) :
    (handleMessage sockets p).2.Sublist sockets := by
  unfold handleMessage
  split
  · exact List.Sublist.refl _
  · exact List.filter_sublist
  · exact List.Sublist.refl _
  · exact List.Sublist.refl _

theorem socketsOk_step (hs : SocketsOk s) (hstep : netStep throttle s act = some t) :
    SocketsOk t := by
  cases act with
  | connect g id =>
    simp only [netStep, Option.ite_none_left_eq_some] at hstep
    obtain ⟨hfresh, heq⟩ := hstep
    cases heq
    have hmore : s.used ⊆ (id, g) :: s.used := List.subset_cons_self _ _
    refine ⟨List.nodup_cons.mpr ⟨hfresh, hs.ids⟩, ?_, ?_, ?_⟩
    · apply present_update (fun g' => present_mono (hs.present g') hmore)
      refine ⟨List.nodup_cons.mpr ⟨fun hid => ?_, (hs.present g).1⟩, fun socket hsocket => ?_⟩
      · obtain ⟨socket, hsocket, rfl⟩ := List.mem_map.mp hid
        exact hfresh (List.mem_map_of_mem ((hs.present g).2 socket hsocket))
      · rcases List.mem_cons.mp hsocket with rfl | hsocket
        · exact List.mem_cons_self
        · exact hmore ((hs.present g).2 socket hsocket)
    · exact fun g' r hr => present_mono (hs.received g' r hr) hmore
    · exact fun job hjob => hmore (hs.sender job hjob)
  | disconnect g id =>
    cases hstep
    exact ⟨hs.ids, present_update hs.present (present_sublist (hs.present g) List.filter_sublist),
      hs.received, hs.sender⟩
  | joinAuction g id auctionId =>
    cases hstep
    refine ⟨hs.ids, present_update hs.present (present_map (hs.present g) fun socket => ?_),
      hs.received, hs.sender⟩
    split <;> rfl
  | placeBid g id auctionId amount bidderId bidderUsername =>
    simp only [netStep, Option.ite_none_right_eq_some] at hstep
    obtain ⟨hid, heq⟩ := hstep
    cases heq
    refine ⟨hs.ids, hs.present, hs.received, fun job hjob => ?_⟩
    rcases List.mem_append.mp hjob with hjob | hjob
    · exact hs.sender job hjob
    · rw [List.mem_singleton.mp hjob]
      obtain ⟨socket, hsocket, rfl⟩ := List.mem_map.mp hid
      exact (hs.present g).2 socket hsocket
  | job k a =>
    obtain ⟨job, st, job', pubs, hjob, hmove, rfl⟩ := netStep_job hstep
    refine ⟨hs.ids, hs.present, hs.received, fun job'' hmem => ?_⟩
    rcases List.mem_or_eq_of_mem_set hmem with hmem | rfl
    · exact hs.sender job'' hmem
    · obtain ⟨hgateway, hsender, -⟩ := hmove.origin
      rw [hgateway, hsender]
      exact hs.sender job (List.mem_of_getElem? hjob)
  | call c i =>
    obtain ⟨w, c', pubs, -, -, rfl⟩ := netStep_call hstep
    exact ⟨hs.ids, hs.present, hs.received, hs.sender⟩
  | expireCache auctionId =>
    cases hstep
    exact ⟨hs.ids, hs.present, hs.received, hs.sender⟩
  | expireTimestamps username =>
    cases hstep
    exact ⟨hs.ids, hs.present, hs.received, hs.sender⟩
  | handle g i =>
    obtain ⟨e, redis, hr, rfl⟩ := netStep_handle hstep
    obtain ⟨-, rfl⟩ := receive_eq_some hr
    refine ⟨hs.ids, present_update hs.present
      (present_sublist (hs.present g) (handleMessage_sublist _ _)), fun g' r hmem => ?_, hs.sender⟩
    by_cases hg : g' = g
    · subst hg
      simp only [Function.update_self] at hmem
      rcases List.mem_append.mp hmem with hmem | hmem
      · exact hs.received g' r hmem
      · rw [List.mem_singleton.mp hmem]
        exact hs.present g'
    · simp only [Function.update_of_ne hg] at hmem
      exact hs.received g' r hmem

theorem logsOk_step (hs : LogsOk db₀ s) (hfree : FailureFree s act t)
    (hstep : netStep throttle s act = some t) : LogsOk db₀ t := by
  cases act with
  | connect g id =>
    simp only [netStep, Option.ite_none_left_eq_some] at hstep
    obtain ⟨-, heq⟩ := hstep
    cases heq
    exact ⟨hs.bid, hs.user, hs.rowTags, hs.tags, hs.complete, hs.jobs⟩
  | disconnect g id =>
    cases hstep
    exact ⟨hs.bid, hs.user, hs.rowTags, hs.tags, hs.complete, hs.jobs⟩
  | joinAuction g id auctionId =>
    cases hstep
    exact ⟨hs.bid, hs.user, hs.rowTags, hs.tags, hs.complete, hs.jobs⟩
  | placeBid g id auctionId amount bidderId bidderUsername =>
    simp only [netStep, Option.ite_none_right_eq_some] at hstep
    obtain ⟨-, heq⟩ := hstep
    cases heq
    refine ⟨hs.bid, hs.user, fun r hr => ?_, fun e he k htag => ?_, hs.complete, fun k job hjob he => ?_⟩
    · simpa using (hs.rowTags r hr).trans (Nat.lt_succ_self _)
    · simpa using (hs.tags e he k htag).trans (Nat.lt_succ_self _)
    · rcases Nat.lt_trichotomy k s.jobs.length with hk | rfl | hk
      · rw [List.getElem?_append_left hk] at hjob
        exact hs.jobs k job hjob he
      · obtain ⟨hrows, hpubs⟩ := hs.fresh
        rw [List.getElem?_append_right (Nat.le_refl _), Nat.sub_self] at hjob
        cases hjob
        rw [hrows, hpubs]
        exact .waiting rfl rfl rfl
      · rw [List.getElem?_eq_none (by simp; omega)] at hjob
        cases hjob
  | job k a =>
    obtain ⟨job, st, job', pubs, hjob, hmove, rfl⟩ := netStep_job hstep
    exact logsOk_advance hs hjob hmove (hfree job hjob)
  | call c i =>
    obtain ⟨w, c', pubs, hc, hmove, rfl⟩ := netStep_call hstep
    refine ⟨(hmove.bid_eq hc).trans hs.bid, hmove.user_eq.trans hs.user, hs.rowTags,
      fun e he k htag => ?_, complete_publish hs.complete _, fun k job hjob he => ?_⟩
    · rcases List.mem_append.mp he with he | he
      · exact hs.tags e he k htag
      · obtain ⟨p, -, rfl⟩ := List.mem_map.mp he
        cases htag
    · have hpubs := ofTag_append_of_ne (show none ≠ some k by simp) s.redis.published pubs
      show JobOk w.db job (ofTag k s.rows) (ofTag (some k) (s.redis.published ++ pubs.map (none, ·)))
      rw [hpubs]
      exact jobOk_mono (hs.jobs k job hjob he) hmove.auctions_kept
  | expireCache auctionId =>
    cases hstep
    exact ⟨hs.bid, hs.user, hs.rowTags, hs.tags, hs.complete, hs.jobs⟩
  | expireTimestamps username =>
    cases hstep
    exact ⟨hs.bid, hs.user, hs.rowTags, hs.tags, hs.complete, hs.jobs⟩
  | handle g i =>
    obtain ⟨e, redis, hr, rfl⟩ := netStep_handle hstep
    have hcomplete := complete_receive hs.complete hr
    obtain ⟨-, rfl⟩ := receive_eq_some hr
    exact ⟨hs.bid, hs.user, hs.rowTags, hs.tags, hcomplete, hs.jobs⟩

theorem outcome_of_settled (hsockets : SocketsOk s) (hlogs : LogsOk db₀ s)
    (hjob : s.jobs[k]? = some job) (he : Eligible db₀ job.bid) (hsettled : s.Settled k job) :
    s.Accepted k job ∨ s.Refused k job := by
  obtain ⟨hdone, hinbox⟩ := hsettled
  rcases (hlogs.jobs k job hjob he).outcome hdone with ⟨b, hb, hrows, hpubs⟩ | ⟨hrows, e, hpubs⟩
  · refine .inl ⟨b, hb, hrows, fun g => ?_⟩
    obtain ⟨sockets, hpresent, hdelivered⟩ := deliveries_of_settled hsockets hlogs hinbox hpubs g
    exact ⟨sockets, hpresent.1, hdelivered⟩
  · refine .inr ⟨hrows, e, fun g => ?_⟩
    obtain ⟨sockets, hpresent, hdelivered⟩ := deliveries_of_settled hsockets hlogs hinbox hpubs g
    refine ⟨sockets, hpresent.1, ?_⟩
    have hhome : job.sender ∈ sockets.map Socket.id → g = job.gateway := by
      intro hmem
      obtain ⟨socket, hsocket, hid⟩ := List.mem_map.mp hmem
      have hused := hpresent.2 socket hsocket
      rw [hid] at hused
      exact gateway_unique hsockets hused (hsockets.sender job (List.mem_of_getElem? hjob))
    have hemit : (handleMessage sockets (rejectPublication job.bid e)).1 =
        emitTo job.sender.text (.bidRejected job.bid.auctionId e) sockets := by
      rw [← job.fromSender]
      rfl
    rw [hdelivered, hemit, emitTo_id hpresent.1]
    by_cases hmem : job.sender ∈ sockets.map Socket.id
    · rw [if_pos hmem, if_pos ⟨hhome hmem, hmem⟩]
    · rw [if_neg hmem, if_neg fun h => hmem h.2]

theorem not_accepted_and_refused : ¬ (s.Accepted k job ∧ s.Refused k job) := by
  rintro ⟨⟨b, -, hrows, -⟩, hnone, -⟩
  cases hrows.symm.trans hnone

/-! A net left to itself. -/

theorem pending_step [Fintype ι] (hact : act.internal = true)
    (hstep : netStep throttle s act = some t) : t.pending < s.pending := by
  cases act with
  | job k a =>
    obtain ⟨job, st, job', pubs, hjob, hmove, rfl⟩ := netStep_job hstep
    obtain ⟨hweight, hpubs⟩ := jobStep_weight hmove
    obtain ⟨l, r, hjobs, rfl⟩ := Pool.split_at hjob
    have hsum : ((s.jobs.set l.length job').map Job.weight).sum + 1 ≤
        (s.jobs.map Job.weight).sum := by
      rw [hjobs]
      simp
      omega
    -- the unit of weight pays for the copies of the one message published
    have hmul := Nat.mul_le_mul_right (Fintype.card ι + 1) hsum
    have hcopies : Fintype.card ι * pubs.length ≤ Fintype.card ι := by
      simpa using Nat.mul_le_mul_left (Fintype.card ι) hpubs
    rw [Nat.add_mul, Nat.one_mul] at hmul
    simp only [Net.pending, Net.advance, pending_publish, List.length_map]
    omega
  | handle g i =>
    obtain ⟨e, redis, hr, rfl⟩ := netStep_handle hstep
    exact Nat.add_lt_add_left (pending_receive hr) _
  | _ => cases hact

/-- A net in which no handler can act has settled all its jobs. -/
theorem settled_of_stuck (hstuck : ∀ act : NetAction ι, act.internal = true →
    netStep throttle s act = none) (hjob : s.jobs[k]? = some job) : s.Settled k job := by
  refine ⟨?_, fun g e he => ?_⟩
  · by_contra hdone
    obtain ⟨a, ha⟩ := jobStep_isSome throttle s.stores hdone
    have hnone := hstuck (.job k a) rfl
    simp only [netStep, hjob, Option.map_eq_none_iff] at hnone
    rw [hnone] at ha
    cases ha
  · have hnone := hstuck (.handle g 0) rfl
    simp only [netStep, Option.map_eq_none_iff] at hnone
    have hsome := receive_isSome (s.sockets g) (List.length_pos_of_mem he)
    rw [hnone] at hsome
    cases hsome

end Steps

/-- After every failure-free run, a `placeBid` message whose job is over has had exactly one outcome;
    and the handlers, left alone, get every job there. -/
theorem one_outcome [Fintype ι] [DecidableEq ι] (throttle : Throttle) (world : World)
    (timestamps : BidTimestamps) (schedule : List (NetAction ι)) (s : Net ι)
    (hrun : exec (netStep throttle) (Net.start world timestamps) schedule = some s)
    (hfree : Along (netStep throttle) FailureFree (Net.start world timestamps) schedule) :
    s.OneOutcome world.db ∧ s.Settles throttle := by
  have hinv : Always (netStep throttle) (fun s => SocketsOk s ∧ LogsOk world.db s)
      (Net.start world timestamps) schedule := by
    refine always_of_inv ?_ (fun _ h => h) schedule ?_ hfree
    · intro s act t ⟨hsockets, hlogs⟩ hfree hstep
      exact ⟨socketsOk_step hsockets hstep, logsOk_step hlogs hfree hstep⟩
    · exact ⟨socketsOk_start world timestamps, logsOk_start world timestamps⟩
  obtain ⟨hsockets, hlogs⟩ := hinv.last hrun
  refine ⟨⟨hlogs.bid, fun k job hjob he hsettled => ⟨?_, not_accepted_and_refused⟩⟩, ?_⟩
  · exact outcome_of_settled hsockets hlogs hjob he hsettled
  · intro more t hinternal hexec
    refine ⟨?_, fun hstuck k job hjob => settled_of_stuck hstuck hjob⟩
    exact length_le_of_decreasing (fun _ _ _ hact hstep => pending_step hact hstep) more hinternal hexec

/-! Two instances with a socket each, both in the room of auction `1`: Ann's bid of `10` is
    committed, Bob's bid of `5` is too low. -/

/-- All statements of a job, one after another. -/
def wholeJob (k statements : ℕ) : List (NetAction (Fin 2)) :=
  List.replicate 6 (.job k (.gateway 1000)) ++ [.job k .eachBid] ++
    List.replicate statements (.job k (.statement ⟨1000, 0⟩)) ++ [.job k .eachAudit]

def twoBidders : List (NetAction (Fin 2)) :=
  [.connect 0 annSocket, .connect 1 bobSocket, .joinAuction 0 annSocket 1,
    .joinAuction 1 bobSocket 1, .placeBid 0 annSocket 1 10 7 "ann",
    .placeBid 1 bobSocket 1 5 8 "bob"] ++ wholeJob 0 4 ++ wholeJob 1 2 ++
  [.handle 0 1, .handle 1 0, .handle 0 0, .handle 1 0]

theorem one_outcome_two_bidders : ∃ s : Net (Fin 2),
    exec (netStep ⟨3, 3⟩) (Net.start sampleWorld fun _ => []) twoBidders = some s ∧
      (∀ k < 2, ∃ job ∈ s.jobs[k]?, Eligible sampleWorld.db job.bid ∧ s.Settled k job) ∧
      s.OneOutcome sampleWorld.db ∧ s.Settles ⟨3, 3⟩ := by
  obtain ⟨s, hs, hsettled⟩ : ∃ s ∈ exec (netStep ⟨3, 3⟩) (Net.start sampleWorld fun _ => []) twoBidders,
      ∀ k < 2, ∃ job ∈ s.jobs[k]?, Eligible sampleWorld.db job.bid ∧ s.Settled k job := by
    decide +kernel
  refine ⟨s, hs, hsettled, ?_⟩
  exact one_outcome ⟨3, 3⟩ sampleWorld (fun _ => []) twoBidders s hs (by decide +kernel)

end CarAuction
