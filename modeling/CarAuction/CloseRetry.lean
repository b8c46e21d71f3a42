import CarAuction.Schedule

/- One `endAuction` that is retried. Each of its `await`s may throw, before the
   statement has taken effect or after it, and the call is then made again, until
   one returns. Nothing else runs. The update of the row commits before the event
   is published and the cache written, and the next attempt finds the auction
   closed and does neither: `retry_finds_auction_closed`. `close_completed` says
   that an attempt that fails anywhere else is made good by the ones after it.

   Correspondence (TypeScript ↔ Lean):
     a statement of `endAuction`            ↔ `.run`
     an exception at an `await`, before or
     after the effect of the statement      ↔ `.fail`, `.lost` -/
namespace CarAuction

open Sql Machine

/-- The current attempt, and what was published since the first one started. -/
structure Closing where
  world : World
  pc : EndAuctionPc
  log : List Publication

inductive ClosingAction where
  | run (i : Input)
  | fail
  | lost (i : Input)
  | expire (auctionId : ℤ)

namespace EndAuctionPc

def finished : EndAuctionPc → Bool
  | returned _ => true
  | _ => false

/-- An attempt that threw is followed by another. -/
def again : EndAuctionPc → EndAuctionPc
  | threw => begin
  | pc => pc

end EndAuctionPc

def closingStep (a : ℤ) (s : Closing) : ClosingAction → Option Closing
  | .run i => (endAuctionStep a i.now i.pick s.world s.pc).map fun (w, pc, pubs) =>
    ⟨w, pc.again, s.log ++ pubs⟩
  | .fail => if s.pc.finished then none else some { s with pc := .begin }
  | .lost i => (endAuctionStep a i.now i.pick s.world s.pc).map fun (w, _, pubs) =>
    ⟨w, .begin, s.log ++ pubs⟩
  | .expire auctionId => some { s with world := s.world.expireCache auctionId }

/-- A highest bid with the name of its user, or nothing when there are no bids. -/
def IsWinner (a : ℤ) (db : Database) (winningBid : WinningBidSummary) : Prop :=
  (db.bidsOf a = [] ∧ winningBid = noBidsSummary) ∨
    ∃ b ∈ db.bidsOf a, Ledger.Top Bid.amount (db.bidsOf a) b ∧
      ∃ user ∈ db.user b.userId, winningBid = winnerSummary b user

/-- The auction is open, and its row, its cache entry and its channel are as they were. -/
def Untouched (a : ℤ) (start : World) (s : Closing) : Prop :=
  (∃ row ∈ s.world.db.auction a, row.isOpen = true) ∧
    s.world.db.auction a = start.db.auction a ∧ s.world.cache a = start.cache a ∧ s.log = []

/-- The auction is closed, its winner published and no cache entry calls it open. -/
def Announced (a : ℤ) (w : World) (log : List Publication) : Prop :=
  (∃ row ∈ w.db.auction a, row.isOpen = false) ∧
    (∃ winningBid ∈ auctionEndsOf a log, IsWinner a w.db winningBid) ∧
    ∀ room ∈ w.cache a, room.isOpen = .val false

/-- What holds when an attempt has returned. -/
def CloseCompleted (a : ℤ) (start : World) (s : Closing) : Prop :=
  s.pc.finished = true → Untouched a start s ∨ Announced a s.world s.log

/-- A cache entry calls the auction open. -/
def CachedOpen (a : ℤ) (w : World) : Prop := ∃ room ∈ w.cache a, room.isOpen ≠ .val false

/-- An exception there leaves the auction closed and not announced, or announced and cached open. -/
def EndAuctionPc.Exposed (a : ℤ) (w : World) : EndAuctionPc → Prop
  | closed => True
  | summarised _ _ => True
  | announced _ _ => CachedOpen a w
  | _ => False

/-- The attempt throws between the update of the row and the publish, or between the publish and the
    cache write while an entry calls the auction open. -/
def Interrupted (a : ℤ) (s : Closing) : ClosingAction → Prop
  | .fail => s.pc.Exposed a s.world
  | .lost _ => match s.pc with
    | .foundOpen => True
    | .closed => True
    | .summarised _ _ => CachedOpen a s.world
    | _ => False
  | _ => False

/-- What holds at each statement. -/
def Progress (a : ℤ) (w : World) (log : List Publication) (row : Auction) : EndAuctionPc → Prop
  | .begin => row.isOpen = true ∨ Announced a w log
  | .foundOpen => row.isOpen = true
  | .closed => row.isOpen = false
  | .summarised winningBid _ => row.isOpen = false ∧ IsWinner a w.db winningBid
  | .announced _ _ => row.isOpen = false ∧
    ∃ winningBid ∈ auctionEndsOf a log, IsWinner a w.db winningBid
  | .returned _ => Announced a w log
  | .threw => False

structure RetryInv (a : ℤ) (s : Closing) : Prop where
  users : ∀ b ∈ s.world.db.bidsOf a, (s.world.db.user b.userId).isSome
  row : ∃ row, s.world.db.auction a = some row ∧ Progress a s.world s.log row s.pc

variable {a : ℤ} {s t : Closing} {w w' start : World} {row : Auction} {pc pc' : EndAuctionPc}
  {log pubs : List Publication} {act : ClosingAction}

/-- An exception that exposes nothing leads back to the start. -/
theorem progress_retry (h : Progress a w log row pc) (hrow : w.db.auction a = some row)
    (hsafe : ¬ pc.Exposed a w) : Progress a w log row .begin := by
  cases pc with
  | begin => exact h
  | foundOpen => exact .inl h
  | closed => exact absurd trivial hsafe
  | summarised winningBid message => exact absurd trivial hsafe
  | announced winningBid message =>
    refine .inr ⟨⟨row, hrow, h.1⟩, h.2, fun room hroom => ?_⟩
    by_contra hopen
    exact hsafe ⟨room, hroom, hopen⟩
  | returned summary => exact .inr h
  | threw => exact h.elim

/-- One statement, up to the exception it may itself throw. -/
theorem progress_statement {i : Input}
    (hcall : CallStep i w (.endAuction a pc) w' (.endAuction a pc') pubs)
    (husers : ∀ b ∈ w.db.bidsOf a, (w.db.user b.userId).isSome)
    (hrow : w.db.auction a = some row) (h : Progress a w log row pc) :
    ∃ row', w'.db.auction a = some row' ∧ Progress a w' (log ++ pubs) row' pc' := by
  cases hcall with
  | endUnknown hnone => cases hrow.symm.trans hnone
  | endRefused hseen hclosed =>
    cases hrow.symm.trans hseen
    rw [List.append_nil]
    refine ⟨row, hrow, h.resolve_left ?_⟩
    rw [hclosed]
    exact Bool.false_ne_true
  | endPasses hseen hopen =>
    cases hrow.symm.trans hseen
    exact ⟨row, hrow, hopen⟩
  | endCloses hseen => exact ⟨_, Database.setAuction_auction_self, rfl⟩
  | endVanished hnone => cases hrow.symm.trans hnone
  | endNoBids hnil => exact ⟨row, hrow, h, .inl ⟨hnil, rfl⟩⟩
  | endWinner hbest huser =>
    exact ⟨row, hrow, h, .inr ⟨_, hbest.1, hbest, _, huser, rfl⟩⟩
  | endNoUser hbest huser =>
    have hsome := husers _ hbest.1
    rw [huser] at hsome
    cases hsome
  | endPublishes =>
    refine ⟨row, hrow, h.1, _, ?_, h.2⟩
    simp [auctionEndsOf, auctionEndPublication]
  | endCaches =>
    rw [List.append_nil]
    refine ⟨row, hrow, ⟨row, hrow, h.1⟩, h.2, fun room hroom => ?_⟩
    rw [World.setCache_cache_self] at hroom
    cases hroom
    rfl

/-- The same for the statement the machine runs, with the bids and users it leaves alone. -/
theorem retryInv_statement {i : Input} (h : RetryInv a s)
    (hs : endAuctionStep a i.now i.pick s.world s.pc = some (w', pc', pubs)) :
    RetryInv a ⟨w', pc', s.log ++ pubs⟩ := by
  have hcall := endAuctionStep_inv hs
  obtain ⟨row, hrow, hprogress⟩ := h.row
  have hbids : w'.db.bidsOf a = s.world.db.bidsOf a := by
    rcases hcall.rows_cases a with ⟨-, hbids, -⟩ | ⟨m, seen, newBid, -, hc, -⟩ | ⟨-, -, -, -, -, -, hbids⟩
    · exact hbids
    · cases hc
    · exact hbids
  refine ⟨?_, progress_statement hcall h.users hrow hprogress⟩
  rw [hbids, hcall.user_eq]
  exact h.users

theorem retryInv_retry (h : RetryInv a s) (hsafe : ¬ s.pc.Exposed a s.world) :
    RetryInv a { s with pc := .begin } := by
  obtain ⟨row, hrow, hprogress⟩ := h.row
  exact ⟨h.users, row, hrow, progress_retry hprogress hrow hsafe⟩

theorem announced_expire (h : Announced a w log) (key : ℤ) :
    Announced a (w.expireCache key) log := by
  refine ⟨h.1, h.2.1, fun room hroom => ?_⟩
  by_cases hkey : a = key
  · rw [hkey, World.expireCache_cache_self] at hroom
    cases hroom
  · rw [World.expireCache_cache_of_ne hkey] at hroom
    exact h.2.2 room hroom

/-- What is exposed after a statement that has taken effect was so before it. -/
theorem interrupted_of_exposed {i : Input}
    (hcall : CallStep i s.world (.endAuction a s.pc) w' (.endAuction a pc') pubs)
    (h : pc'.Exposed a w') : Interrupted a s (.lost i) := by
  obtain ⟨w, pc, log⟩ := s
  cases hcall <;> first | exact h.elim | exact trivial | exact h

theorem retryInv_step (h : RetryInv a s) (hquiet : ¬ Interrupted a s act)
    (hstep : closingStep a s act = some t) : RetryInv a t := by
  cases act with
  | run i =>
    obtain ⟨⟨w', pc', pubs⟩, hs, rfl⟩ := Option.map_eq_some_iff.mp hstep
    have hafter := retryInv_statement h hs
    cases pc' with
    | threw =>
      obtain ⟨row, -, hthrew⟩ := hafter.row
      exact hthrew.elim
    | _ => exact hafter
  | fail =>
    simp only [closingStep, Option.ite_none_left_eq_some, Option.some.injEq] at hstep
    obtain ⟨-, rfl⟩ := hstep
    exact retryInv_retry h hquiet
  | lost i =>
    obtain ⟨⟨w', pc', pubs⟩, hs, rfl⟩ := Option.map_eq_some_iff.mp hstep
    refine retryInv_retry (retryInv_statement h hs) (fun hexposed => hquiet ?_)
    exact interrupted_of_exposed (endAuctionStep_inv hs) hexposed
  | expire key =>
    cases hstep
    obtain ⟨row, hrow, hprogress⟩ := h.row
    refine ⟨h.users, row, hrow, ?_⟩
    obtain ⟨w, pc, log⟩ := s
    cases pc with
    | begin => exact hprogress.imp_right (fun hdone => announced_expire hdone key)
    | returned summary => exact announced_expire hprogress key
    | _ => exact hprogress

/-- Along every run of attempts on an open auction without such an exception, once an attempt has
    returned the auction is closed, its winner published and no cache entry calls it open. -/
theorem close_completed (w : World) (actions : List ClosingAction)
    (hopen : ∃ row ∈ w.db.auction a, row.isOpen = true)
    (husers : ∀ b ∈ w.db.bidsOf a, (w.db.user b.userId).isSome)
    (hquiet : Along (closingStep a) (fun s act _ => ¬ Interrupted a s act) ⟨w, .begin, []⟩ actions) :
    Always (closingStep a) (CloseCompleted a w) ⟨w, .begin, []⟩ actions := by
  obtain ⟨row, hrow, hopen⟩ := hopen
  have hstart : RetryInv a ⟨w, .begin, []⟩ := ⟨husers, row, hrow, .inl hopen⟩
  refine always_of_inv (I := RetryInv a) ?_ ?_ actions hstart hquiet
  · intro s act t hs hq ht
    exact retryInv_step hs hq ht
  · intro s hs hfinished
    obtain ⟨row, -, hprogress⟩ := hs.row
    obtain ⟨w, pc, log⟩ := s
    cases pc with
    | returned summary => exact .inr hprogress
    | _ => cases hfinished

instance {db : Database} {winningBid : WinningBidSummary} :
    Decidable (IsWinner a db winningBid) := by
  unfold IsWinner; infer_instance

instance : Decidable (CloseCompleted a start s) := by
  unfold CloseCompleted Untouched Announced; infer_instance

instance : Decidable (CachedOpen a w) := by unfold CachedOpen; infer_instance

instance : Decidable (pc.Exposed a w) := by
  cases pc <;> unfold EndAuctionPc.Exposed <;> infer_instance

instance : Decidable (Interrupted a s act) := by
  unfold Interrupted
  split
  · infer_instance
  · split <;> infer_instance
  · infer_instance

/-- The stores with Bob's bid of `20` placed. -/
def bidWorld : World :=
  match placeBid sampleWorld ⟨1, 20, 8, "bob", "socket-b"⟩ 1 with
  | some (w, _) => w
  | none => sampleWorld

/-- The publish fails; the second attempt returns that the auction is closed already. -/
theorem retry_finds_auction_closed :
    (∃ row ∈ bidWorld.db.auction 1, row.isOpen = true) ∧
      ¬ Always (closingStep 1) (CloseCompleted 1 bidWorld) ⟨bidWorld, .begin, []⟩
        [.run ⟨2, 0⟩, .run ⟨3, 0⟩, .run ⟨4, 0⟩, .fail, .run ⟨5, 0⟩] := by
  decide +kernel

/-- Both reads fail once, and the cache write of the third attempt loses its acknowledgement. -/
theorem close_completed_third_attempt :
    Always (closingStep 1) (CloseCompleted 1 bidWorld) ⟨bidWorld, .begin, []⟩
      [.fail, .run ⟨2, 0⟩, .fail, .run ⟨3, 0⟩, .run ⟨4, 0⟩, .run ⟨5, 0⟩, .run ⟨6, 0⟩, .lost ⟨7, 0⟩,
        .run ⟨8, 0⟩] :=
  close_completed bidWorld _ (by decide +kernel) (by decide +kernel) (by decide +kernel)

end CarAuction
