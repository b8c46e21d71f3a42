import CarAuction.Calls

/- Schedules of calls, seen from one auction. `placing` singles out the `placeBid`
   calls in progress on it; `Serial` is the discipline of a partition with one
   consumer, which starts the next bid after the previous one returned, and
   `ExactAmounts` restricts the bids to whole cents. `rows_cases` says the only
   three things a statement can do to the rows of an auction: nothing, the commit
   of a bid, the close. -/
namespace CarAuction

open Sql Pool

namespace Call

/-- The call is a `placeBid` in progress on the auction. -/
def placing (a : ℤ) : Call → Bool
  | placeBid m pc => m.auctionId = a && !(placeBid m pc).finished
  | _ => false

/-- The bid event the call handles. -/
def message : Call → Option BidMessage
  | placeBid m _ => some m
  | _ => none

/-- A bid on the auction is in whole cents. -/
def ExactOn (a : ℤ) (c : Call) : Prop :=
  ∀ m ∈ c.message, m.auctionId = a → Numeric.HasScale 2 m.amount

/-- The bid of a transaction on the auction that has passed the checks and not committed yet. -/
def checkedBid (a : ℤ) : Call → Option BidMessage
  | placeBid m (.checked _) => if m.auctionId = a then some m else none
  | _ => none

instance {a : ℤ} {c : Call} : Decidable (c.ExactOn a) := by unfold ExactOn; infer_instance

variable {c c' : Call} {a : ℤ}

theorem throw_eq (h : c.throw = some c') : c.finished = false ∧ c'.finished = true ∧
    c'.auctionId = c.auctionId ∧ c'.message = c.message := by
  unfold throw at h
  split at h
  · cases h
  · next hf =>
    simp only [Option.some.injEq] at h
    cases c <;> cases h <;> exact ⟨by simpa using hf, rfl, rfl, rfl⟩

theorem placing_of_throw (h : c.throw = some c') : c'.placing a = false := by
  obtain ⟨-, hf, -, -⟩ := throw_eq h
  cases c' with
  | placeBid m pc => simp [placing, hf]
  | _ => rfl

theorem checkedBid_eq_some {m : BidMessage} : c.checkedBid a = some m ↔
    m.auctionId = a ∧ ∃ row, c = .placeBid m (.checked row) := by
  unfold checkedBid
  split
  · next m' row =>
    split
    · next h =>
      constructor
      · intro e; cases e; exact ⟨h, row, rfl⟩
      · rintro ⟨-, row', e⟩; cases e; rfl
    · next h =>
      refine ⟨nofun, ?_⟩
      rintro ⟨ha, row', e⟩; cases e; exact absurd ha h
  · next h =>
    refine ⟨nofun, ?_⟩
    rintro ⟨-, row, rfl⟩; exact absurd rfl (h m row)

theorem placing_of_checkedBid {m : BidMessage} (h : c.checkedBid a = some m) :
    c.placing a = true := by
  obtain ⟨rfl, row, rfl⟩ := checkedBid_eq_some.mp h
  simp [placing, finished]

theorem checkedBid_of_not_placing (h : c.placing a = false) : c.checkedBid a = none := by
  by_contra hne
  obtain ⟨m, hm⟩ := Option.ne_none_iff_exists'.mp hne
  rw [placing_of_checkedBid hm] at h
  cases h

end Call

/-- A `placeBid` on the auction starts only when no other is in progress. -/
def Serial (a : ℤ) : State → Action → State → Prop :=
  OnStart fun s c => c.placing a = true → ∀ q ∈ s.procs, q.placing a = false

/-- The bids on the auction are in whole cents. -/
def ExactAmounts (a : ℤ) : State → Action → State → Prop := OnStart fun _ c => c.ExactOn a

instance {a : ℤ} {s t : State} {act : Action} : Decidable (Serial a s act t) :=
  inferInstanceAs (Decidable (OnStart _ s act t))

instance {a : ℤ} {s t : State} {act : Action} : Decidable (ExactAmounts a s act t) :=
  inferInstanceAs (Decidable (OnStart _ s act t))

namespace CallStep

variable {i : Input} {w w' : World} {c c' : Call} {pubs : List Publication} {a : ℤ}

theorem message_eq (h : CallStep i w c w' c' pubs) : c'.message = c.message := by
  cases h <;> rfl

theorem unfinished (h : CallStep i w c w' c' pubs) : c.finished = false := by
  cases h <;> rfl

theorem placing_of (h : CallStep i w c w' c' pubs) (hp : c'.placing a = true) :
    c.placing a = true := by
  have hf := h.unfinished
  have hm := h.message_eq
  cases c' with
  | placeBid m' pc' =>
    cases c with
    | placeBid m pc =>
      cases hm
      simp only [Call.placing, Bool.and_eq_true, decide_eq_true_eq] at hp ⊢
      exact ⟨hp.1, by simp [hf]⟩
    | _ => cases hm
  | _ => cases hp

/-- A bid that has just passed the checks is above the row and the auction is open. -/
theorem checkedBid_of (h : CallStep i w c w' c' pubs) {m : BidMessage}
    (hm : c'.checkedBid a = some m) :
    w' = w ∧ ∃ row, w.db.auction a = some row ∧ row.isOpen = true ∧
      row.currentHighestBid.toRat < m.amount := by
  obtain ⟨ha, seen, rfl⟩ := Call.checkedBid_eq_some.mp hm
  cases h with
  | bidPasses hc =>
    obtain ⟨hrow, hopen, hhigh⟩ := checkBid_ok.mp hc
    exact ⟨rfl, seen, ha ▸ hrow, hopen, hhigh⟩

/-- What a statement does to the rows of an auction. -/
theorem rows_cases (h : CallStep i w c w' c' pubs) (a : ℤ) :
    (w'.db.auction a = w.db.auction a ∧ w'.db.bidsOf a = w.db.bidsOf a ∧
      ∀ m, c.checkedBid a = some m → ∃ e, w.db.commitBid m i.now = .error e) ∨
    (∃ m row newBid, m.auctionId = a ∧ c = .placeBid m (.checked row) ∧
      c' = .placeBid m (.committed newBid row.isOpen) ∧ pubs = [] ∧
      w.db.commitBid m i.now = .ok (w'.db, newBid)) ∨
    (∃ row, c = .endAuction a .foundOpen ∧ c' = .endAuction a .closed ∧ pubs = [] ∧
      w.db.auction a = some row ∧ w'.db.auction a = some (row.closedAt i.now) ∧
      w'.db.bidsOf a = w.db.bidsOf a) := by
  by_cases ha : c.auctionId = a
  · cases h with
    | bidCommits hc => exact .inr (.inl ⟨_, _, _, ha, rfl, rfl, rfl, hc⟩)
    | endCloses hrow =>
      cases ha
      exact .inr (.inr ⟨_, rfl, rfl, rfl, hrow, Database.setAuction_auction_self, rfl⟩)
    | bidThrows hc =>
      refine .inl ⟨rfl, rfl, fun m hm => ?_⟩
      obtain ⟨-, row, e⟩ := Call.checkedBid_eq_some.mp hm
      cases e
      exact ⟨_, hc⟩
    | _ => exact .inl ⟨rfl, rfl, fun _ hm => (by cases hm)⟩
  · refine .inl ⟨h.frame_auction ha, h.frame_bidsOf ha, fun m hm => ?_⟩
    obtain ⟨hid, row, rfl⟩ := Call.checkedBid_eq_some.mp hm
    exact absurd hid ha

end CallStep

/-! A small world to run schedules in: one open auction and two bidders. -/

def sampleRow : Auction := ⟨0, 86400000, 0, 0, true, 1, none⟩

def sampleWorld : World where
  db :=
    { user := fun id => if id = 7 then some ⟨"ann"⟩ else if id = 8 then some ⟨"bob"⟩ else none
      auction := fun id => if id = 1 then some sampleRow else none
      bid := [] }
  cache := fun _ => none

def annBids (amount : Number) : Call := .placeBid ⟨1, amount, 7, "ann", "socket-a"⟩ .begin

def bobBids (amount : Number) : Call := .placeBid ⟨1, amount, 8, "bob", "socket-b"⟩ .begin

/-- The next statement of the call with the number `i`, at the time `now`. -/
def stmt (i : ℕ) (now : Time) : Action := .run i ⟨now, 0⟩

/-- What holds of the bid events that start holds of all bid events. -/
theorem message_step {s t : State} {act : Action} {P : BidMessage → Prop}
    (h : Pool.Step system s act t) (hs : ∀ c ∈ s.procs, ∀ m ∈ c.message, P m)
    (hstart : ∀ c, act = .start c → ∀ m ∈ c.message, P m) :
    ∀ c ∈ t.procs, ∀ m ∈ c.message, P m := by
  refine h.forall_procs hs hstart ?_ ?_
  · intro i w c w' c' pubs hc hx
    rwa [(callStep_inv hc).message_eq]
  · intro c c' hc hx
    rwa [(Call.throw_eq hc).2.2.2]

/-- The bids of all calls stay in whole cents. -/
theorem exactOn_step {s t : State} {act : Action} {a : ℤ} (h : Pool.Step system s act t)
    (hs : ∀ c ∈ s.procs, c.ExactOn a) (hstart : ExactAmounts a s act t) :
    ∀ c ∈ t.procs, c.ExactOn a := by
  refine message_step h hs ?_
  rintro c rfl
  exact hstart

theorem user_step {s t : State} {act : Action} (h : Pool.Step system s act t) :
    t.world.db.user = s.world.db.user := by
  cases h with
  | run hc => exact (callStep_inv hc).user_eq
  | _ => rfl

/-- Serial starts keep at most one `placeBid` of the auction in progress. -/
theorem lone_step {s t : State} {act : Action} {a : ℤ} (h : Pool.Step system s act t)
    (hs : Lone (Call.placing a) s.procs) (hstart : Serial a s act t) :
    Lone (Call.placing a) t.procs := by
  cases h with
  | start _ => exact hs.start hstart
  | run hc => exact hs.replace (callStep_inv hc).placing_of
  | env k => exact hs
  | kill hk => exact hs.replace (fun hp => by rw [Call.placing_of_throw hk] at hp; cases hp)

end CarAuction
