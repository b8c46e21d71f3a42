import CarAuction.SerialBids

/- `endAuction` called any number of times for one auction, by several admins or
   gateway instances. The test whether the auction is closed and the update that
   closes it are two statements, and the update goes by `id` alone, so two calls
   that both read the row while it is open both close the auction. `Recloses` is the
   statement in which the second does so; `ended_once_iff` says that the auction is
   ended once exactly along the schedules without it.

   Every call that closes the auction goes on to publish and to return success, so
   the successes and the `auctionEnd` events are bounded by the writes of `endTime`,
   which the machine counts. -/
namespace CarAuction

open Pool Machine

namespace Call

/-- The call has returned success. -/
def succeeded (a : ℤ) : Call → Bool
  | endAuction auctionId (.returned summary) => auctionId = a && summary.success
  | _ => false

/-- The call has closed the auction. -/
def hasClosed (a : ℤ) : Call → Bool
  | endAuction auctionId .closed => auctionId = a
  | endAuction auctionId (.summarised _ _) => auctionId = a
  | endAuction auctionId (.announced _ _) => auctionId = a
  | endAuction auctionId (.returned summary) => auctionId = a && summary.success
  | _ => false

/-- The call has closed the auction and not published it yet. -/
def toAnnounce (a : ℤ) : Call → Bool
  | endAuction auctionId .closed => auctionId = a
  | endAuction auctionId (.summarised _ _) => auctionId = a
  | _ => false

end Call

/-- The action runs the update of an `endAuction`, which writes `endTime`. -/
def WritesEndTime (a : ℤ) (s : State) (act : Action) : Prop :=
  moving s act = some (.endAuction a .foundOpen) ∧ (s.world.db.auction a).isSome

/-- The update closes an auction that is closed already. -/
def Recloses (a : ℤ) (s : State) (act : Action) : Prop :=
  moving s act = some (.endAuction a .foundOpen) ∧ ∃ row ∈ s.world.db.auction a, row.isOpen = false

instance {a : ℤ} {s : State} {act : Action} : Decidable (WritesEndTime a s act) := by
  unfold WritesEndTime; infer_instance

instance {a : ℤ} {s : State} {act : Action} : Decidable (Recloses a s act) := by
  unfold Recloses; infer_instance

/-- A step of the pool, counting the writes of `endTime`. -/
def endStep (a : ℤ) : State × ℕ → Action → Option (State × ℕ) :=
  counting poolStep (WritesEndTime a)

/-- At most one call has returned success, one `auctionEnd` has been published and `endTime` has
    been written once. -/
def EndedOnce (a : ℤ) (s : State × ℕ) : Prop :=
  s.1.procs.countP (Call.succeeded a) ≤ 1 ∧ (auctionEndsOf a s.1.log).length ≤ 1 ∧ s.2 ≤ 1

/-- What holds between any two statements, with the number of writes so far. -/
structure EndInv (a : ℤ) (s : State) (k : ℕ) : Prop where
  written : k ≠ 0 → ∃ row, s.world.db.auction a = some row ∧ row.isOpen = false
  fresh : k = 0 → ∀ row ∈ s.world.db.auction a, row.isOpen = false →
    Call.endAuction a .foundOpen ∉ s.procs
  closers : s.procs.countP (Call.hasClosed a) ≤ k
  events : (auctionEndsOf a s.log).length + s.procs.countP (Call.toAnnounce a) ≤ k

variable {a : ℤ} {k : ℕ} {c c' : Call} {pubs : List Publication} {s t : State} {act : Action}

theorem Call.hasClosed_of_succeeded (h : c.succeeded a = true) : c.hasClosed a = true := by
  unfold succeeded at h
  split at h
  · exact h
  · cases h

theorem EndInv.endedOnce (h : EndInv a s k) (hk : k ≤ 1) : EndedOnce a (s, k) := by
  have hmono : s.procs.countP (Call.succeeded a) ≤ s.procs.countP (Call.hasClosed a) :=
    List.countP_mono_left (fun c _ => Call.hasClosed_of_succeeded)
  have hclosers := h.closers
  have hevents := h.events
  refine ⟨?_, ?_, hk⟩
  · exact hmono.trans (hclosers.trans hk)
  · dsimp only
    omega

namespace CallStep

variable {i : Input} {w w' : World}

/-- A call that does not close the row adds nothing: what it publishes it had to announce. -/
theorem closers_le (h : CallStep i w c w' c' pubs)
    (hc : c = .endAuction a .foundOpen → w.db.auction a = none) :
    (c'.hasClosed a = true → c.hasClosed a = true) ∧
      (auctionEndsOf a pubs).length + (if c'.toAnnounce a then 1 else 0) ≤
        if c.toAnnounce a then 1 else 0 := by
  cases h with
  | @endCloses auctionId row hrow =>
    have ha : auctionId ≠ a := by
      rintro rfl
      cases hrow.symm.trans (hc rfl)
    simp [Call.hasClosed, Call.toAnnounce, auctionEndsOf, ha]
  | @endPublishes auctionId winningBid message =>
    by_cases ha : auctionId = a <;>
      simp [Call.hasClosed, Call.toAnnounce, auctionEndsOf, auctionEndPublication, ha]
  | endNoBids | endWinner => exact ⟨fun hclosed => hclosed, (Nat.zero_add _).le⟩
  | endNoUser => exact ⟨fun hclosed => (by cases hclosed), Nat.zero_le _⟩
  | endUnknown | endRefused | endCaches => simp [Call.hasClosed, Call.toAnnounce, auctionEndsOf]
  -- neither statement is past the close
  | _ => exact ⟨fun hclosed => hclosed, Nat.le_refl _⟩

/-- A row found closed was closed before, unless this statement closed it. -/
theorem closed_before (h : CallStep i w c w' c' pubs) {row' : Auction}
    (hrow' : w'.db.auction a = some row') (hclosed : row'.isOpen = false) :
    (∃ row, w.db.auction a = some row ∧ row.isOpen = false) ∨
      (c = .endAuction a .foundOpen ∧ (w.db.auction a).isSome) := by
  rcases h.rows_cases a with ⟨hsame, -, -⟩ | ⟨m, seen, newBid, ha, -, -, -, hcommit⟩ |
    ⟨row, hc, -, -, hrow, -⟩
  · exact .inl ⟨row', hsame ▸ hrow', hclosed⟩
  · obtain ⟨row, hrow, -, -, -, hafter, -⟩ := Database.commitBid_self hcommit ha
    cases hafter.symm.trans hrow'
    exact .inl ⟨row, hrow, hclosed⟩
  · exact .inr ⟨hc, by rw [hrow]; rfl⟩

end CallStep

/-- The update that writes `endTime` adds one to every bound. -/
theorem endInv_write {i : Input} {w w' : World} {log : List Publication} {l r : List Call}
    {row : Auction} (h : EndInv a ⟨w, l ++ .endAuction a .foundOpen :: r, log⟩ k)
    (hcall : CallStep i w (.endAuction a .foundOpen) w' c' pubs)
    (hrow : w.db.auction a = some row) :
    EndInv a ⟨w', l ++ c' :: r, log ++ pubs⟩ (k + 1) := by
  have hclosers := h.closers
  have hevents := h.events
  cases hcall with
  | @endCloses _ seen hseen =>
    have hmore := countP_replace (Call.hasClosed a) l r (.endAuction a .foundOpen)
      (.endAuction a .closed)
    have hannounce := countP_replace (Call.toAnnounce a) l r (.endAuction a .foundOpen)
      (.endAuction a .closed)
    simp only [Call.hasClosed, Call.toAnnounce, decide_true, if_true, Bool.false_eq_true,
      if_false] at hmore hannounce
    refine ⟨fun _ => ⟨_, Database.setAuction_auction_self, rfl⟩, nofun, ?_, ?_⟩
    · dsimp only at hclosers ⊢
      omega
    · dsimp only at hevents ⊢
      rw [List.append_nil]
      omega
  | endVanished hnone => cases hrow.symm.trans hnone

/-- The other statements add nothing. -/
theorem endInv_other {i : Input} {w w' : World} {log : List Publication} {l r : List Call}
    (h : EndInv a ⟨w, l ++ c :: r, log⟩ k) (hcall : CallStep i w c w' c' pubs)
    (hother : c = .endAuction a .foundOpen → w.db.auction a = none) :
    EndInv a ⟨w', l ++ c' :: r, log ++ pubs⟩ k := by
  obtain ⟨hkeep, hle⟩ := hcall.closers_le hother
  have hmore := countP_replace (Call.hasClosed a) l r c c'
  have hannounce := countP_replace (Call.toAnnounce a) l r c c'
  have hclosers := h.closers
  have hevents := h.events
  dsimp only at hclosers hevents
  refine ⟨fun hk => ?_, fun hk row' hrow' hclosed hmem => ?_, ?_, ?_⟩
  · obtain ⟨row, hrow, hclosed⟩ := h.written hk
    obtain ⟨row', hrow', hclosed'⟩ := hcall.closedStays row hrow hclosed
    exact ⟨row', hrow', hclosed'⟩
  · have hbefore : ∃ row, w.db.auction a = some row ∧ row.isOpen = false := by
      rcases hcall.closed_before hrow' hclosed with hbefore | hc
      · exact hbefore
      · rw [hother hc.1] at hc
        cases hc.2
    obtain ⟨row, hrow, hrowClosed⟩ := hbefore
    have hnot := h.fresh hk row hrow hrowClosed
    rcases mem_split.mp hmem with rfl | hmem
    · -- the call has just read the row open
      cases hcall with
      | endPasses hseen hopen =>
        cases hrow.symm.trans hseen
        cases hrowClosed.symm.trans hopen
    · exact hnot (mem_split.mpr (.inr hmem))
  · dsimp only
    by_cases hc' : c'.hasClosed a = true
    · rw [if_pos hc', if_pos (hkeep hc')] at hmore
      omega
    · rw [if_neg hc'] at hmore
      omega
  · rw [auctionEndsOf_append, List.length_append]
    dsimp only
    omega

/-- A call that starts or has failed has not closed the auction and is not about to. -/
theorem idle_of_begins (h : c.begins = true) :
    c.hasClosed a = false ∧ c.toAnnounce a = false ∧ c ≠ .endAuction a .foundOpen := by
  cases c with
  | endAuction id pc =>
    cases pc with
    | begin => exact ⟨rfl, rfl, nofun⟩
    | _ => cases h
  | _ => exact ⟨rfl, rfl, nofun⟩

theorem idle_of_throw (h : c.throw = some c') :
    c'.hasClosed a = false ∧ c'.toAnnounce a = false ∧ c' ≠ .endAuction a .foundOpen := by
  unfold Call.throw at h
  split at h
  · cases h
  · cases c <;> cases h <;> exact ⟨rfl, rfl, nofun⟩

theorem endInv_step (h : EndInv a s k) (hstep : Pool.Step system s act t) :
    EndInv a t (if WritesEndTime a s act then k + 1 else k) := by
  cases hstep with
  | @start w procs log c hbegins =>
    have hnot : ¬ WritesEndTime a ⟨w, procs, log⟩ (.start c) := fun h => nomatch h.1
    obtain ⟨hcloser, hannounce, hfound⟩ := idle_of_begins (a := a) hbegins
    rw [if_neg hnot]
    refine ⟨h.written, fun hk row hrow hclosed hmem => ?_, ?_, ?_⟩
    · rcases List.mem_append.mp hmem with hmem | hmem
      · exact h.fresh hk row hrow hclosed hmem
      · exact hfound (List.mem_singleton.mp hmem).symm
    · simpa [hcloser] using h.closers
    · simpa [hannounce] using h.events
  | @env w procs log key =>
    have hnot : ¬ WritesEndTime a ⟨w, procs, log⟩ (.env key) := fun h => nomatch h.1
    rw [if_neg hnot]
    exact ⟨h.written, h.fresh, h.closers, h.events⟩
  | @kill w l r log c c' hk =>
    have hnot : ¬ WritesEndTime a ⟨w, l ++ c :: r, log⟩ (.kill l.length) := fun h => nomatch h.1
    obtain ⟨hcloser, hannounce, hfound⟩ := idle_of_throw (a := a) hk
    have hmore := countP_replace (Call.hasClosed a) l r c c'
    have hevents := countP_replace (Call.toAnnounce a) l r c c'
    rw [hcloser, if_neg Bool.false_ne_true] at hmore
    rw [hannounce, if_neg Bool.false_ne_true] at hevents
    have hclosers := h.closers
    have hlog := h.events
    dsimp only at hclosers hlog
    rw [if_neg hnot]
    refine ⟨h.written, fun hk row hrow hclosed hmem => ?_, ?_, ?_⟩
    · rcases mem_split.mp hmem with heq | hmem
      · exact hfound heq.symm
      · exact h.fresh hk row hrow hclosed (mem_split.mpr (.inr hmem))
    · dsimp only
      omega
    · dsimp only
      omega
  | @run w w' l r log c c' pubs i hc =>
    have hcall := callStep_inv hc
    by_cases hwrite : WritesEndTime a ⟨w, l ++ c :: r, log⟩ (.run l.length i)
    · rw [if_pos hwrite]
      obtain ⟨hmove, hsome⟩ := hwrite
      rw [moving_run, Option.some.injEq] at hmove
      obtain ⟨row, hrow⟩ := Option.isSome_iff_exists.mp hsome
      subst hmove
      exact endInv_write h hcall hrow
    · rw [if_neg hwrite]
      refine endInv_other h hcall (fun hc => ?_)
      by_contra hne
      exact hwrite ⟨by rw [moving_run, hc], Option.isSome_iff_ne_none.mpr hne⟩

/-- Along every schedule of calls from any stores, the auction is ended at most once exactly when no
    update closes it again. -/
theorem ended_once_iff (w : World) (schedule : List Action) :
    Always (endStep a) (EndedOnce a) (⟨w, [], []⟩, 0) schedule ↔
      Along (endStep a) (fun s act _ => ¬ Recloses a s.1 act) (⟨w, [], []⟩, 0) schedule := by
  have hstart : EndInv a ⟨w, [], []⟩ 0 := ⟨nofun, fun _ _ _ _ => nofun, le_rfl, le_rfl⟩
  apply always_iff_of_inv (I := fun s => EndInv a s.1 s.2 ∧ s.2 ≤ 1) _ _ _ schedule
    ⟨hstart, Nat.zero_le 1⟩ (along_true schedule)
  · intro s hs
    exact hs.1.endedOnce hs.2
  · intro ⟨s, k⟩ act ⟨t, n⟩ ⟨hs, hk⟩ _ ht hquiet
    obtain ⟨hstep, rfl⟩ := counting_eq_some.mp ht
    refine ⟨endInv_step hs (step_inv hstep), ?_⟩
    split
    · next hwrite =>
      -- an open auction has not been closed before
      obtain ⟨hmove, -⟩ := hwrite
      by_contra hlt
      have hk : k ≠ 0 := by
        dsimp only at hlt
        omega
      obtain ⟨row, hrow, hclosed⟩ := hs.written hk
      exact hquiet ⟨hmove, row, hrow, hclosed⟩
    · exact hk
  · intro ⟨s, k⟩ act ⟨t, n⟩ ⟨hs, hk⟩ _ ht ⟨hmove, row, hrow, hclosed⟩ honce
    obtain ⟨-, -, hn⟩ := honce
    obtain ⟨hstep, rfl⟩ := counting_eq_some.mp ht
    have hwrite : WritesEndTime a s act := ⟨hmove, by rw [hrow]; rfl⟩
    have hmem : Call.endAuction a .foundOpen ∈ s.procs := mem_of_moving hmove
    have hk : k ≠ 0 := fun hzero => hs.fresh hzero row hrow hclosed hmem
    rw [if_pos hwrite] at hn
    dsimp only at hn
    omega

instance {s : State × ℕ} : Decidable (EndedOnce a s) := by unfold EndedOnce; infer_instance

/-- Two admins end the auction: both calls read the row before either updates it. -/
def endedTwice : List Action :=
  [.start (.endAuction 1 .begin), .start (.endAuction 1 .begin), stmt 0 1, stmt 1 2, stmt 0 3,
    stmt 0 4, stmt 0 5, stmt 0 6, stmt 1 7, stmt 1 8, stmt 1 9, stmt 1 10]

theorem auction_ended_twice :
    (∃ s ∈ exec (endStep 1) (⟨sampleWorld, [], []⟩, 0) endedTwice,
      s.1.procs.countP (Call.succeeded 1) = 2 ∧ (auctionEndsOf 1 s.1.log).length = 2 ∧ s.2 = 2) ∧
      ¬ Always (endStep 1) (EndedOnce 1) (⟨sampleWorld, [], []⟩, 0) endedTwice := by
  decide +kernel

end CarAuction
