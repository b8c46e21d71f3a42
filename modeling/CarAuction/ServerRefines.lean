import CarAuction.WinnerNames

/- The server refines the pool of calls. Most of the other modules are about runs of
   the service calls alone, over users that do not change. Here every run of the whole
   server, with its registrations, guards, bids on their way and expiring keys, is
   carried to a run of the calls: the same calls, in the same states, over the same
   rows and the same cache, with the same publications.

   The users of that run are those that the server has at its end. A statement that
   looks up a user finds it there already when the server's own statement found it, as
   rows are kept, and by `no_missing_rows` it is never looked up before it is there. -/
namespace CarAuction

open SerialTable Table Pool Machine Sql

/-- The stores with other users. -/
def World.withUsers (w : World) (user : ℤ → Option User) : World :=
  { w with db := { w.db with user := user } }

/-- The lookups of the next statement find the same users among the others. -/
def Call.SameUsers (user : ℤ → Option User) (w : World) : Call → Prop
  | placeBid m (.checked _) => (user m.bidderId).isNone = (w.db.user m.bidderId).isNone
  | endAuction auctionId .closed => ∀ bid ∈ w.db.topBids auctionId, user bid.userId = w.db.user bid.userId
  | getAuctionState _ (.foundRow _ winnerId) => user winnerId = w.db.user winnerId
  | _ => True

variable {user : ℤ → Option User} {w w' : World} {i : Input} {c c' : Call} {pubs : List Publication}

theorem commitBid_withUsers {m : BidMessage} {now : Time}
    (h : (user m.bidderId).isNone = (w.db.user m.bidderId).isNone) :
    (w.withUsers user).db.commitBid m now =
      (w.db.commitBid m now).map fun r => ({ r.1 with user := user }, r.2) := by
  have hcreate : (w.withUsers user).db.bidCreate m.amount now m.bidderId m.auctionId =
      (w.db.bidCreate m.amount now m.bidderId m.auctionId).map
        fun r => ({ r.1 with user := user }, r.2) := by
    unfold Database.bidCreate
    cases Numeric.ofRat 14 2 m.amount with
    | none => rfl
    | some stored =>
      simp only [World.withUsers, h]
      split
      · rfl
      · rfl
  unfold Database.commitBid
  rw [hcreate]
  cases w.db.bidCreate m.amount now m.bidderId m.auctionId with
  | error e => rfl
  | ok r =>
    have hupdate : Database.auctionUpdateBid { r.1 with user := user } m.auctionId m.amount m.bidderId =
        (r.1.auctionUpdateBid m.auctionId m.amount m.bidderId).map
          fun db => { db with user := user } := by
      unfold Database.auctionUpdateBid
      cases r.1.auction m.auctionId with
      | none => rfl
      | some row =>
        cases Numeric.ofRat 14 2 m.amount with
        | none => rfl
        | some stored =>
          simp only
          split
          · rfl
          · rfl
    simp only [Except.map, hupdate]
    cases r.1.auctionUpdateBid m.auctionId m.amount m.bidderId with
    | error e => rfl
    | ok db => rfl

/-! A statement whose lookups agree does the same over the other users. -/

theorem placeBidStep_withUsers {m : BidMessage} {now : Time} {pc pc' : PlaceBidPc}
    (hs : placeBidStep m now w pc = some (w', pc', pubs)) (hsame : (Call.placeBid m pc).SameUsers user w) :
    placeBidStep m now (w.withUsers user) pc = some (w'.withUsers user, pc', pubs) := by
  cases pc with
  | begin =>
    simp only [placeBidStep, World.withUsers, Database.auctionFindUnique] at hs ⊢
    split at hs
    · next hcheck => cases hs; rfl
    · next hcheck => cases hs; rfl
  | checked row =>
    simp only [placeBidStep] at hs ⊢
    rw [commitBid_withUsers hsame]
    cases hcommit : w.db.commitBid m now with
    | error e => rw [hcommit] at hs; cases hs; rfl
    | ok r => rw [hcommit] at hs; cases hs; rfl
  | committed newBid isOpen => cases hs; rfl
  | announced isOpen => cases hs; rfl
  | rejected e => cases hs; rfl
  | returned => cases hs
  | threw => cases hs

theorem endAuctionStep_withUsers {auctionId : ℤ} {now : Time} {pick : ℕ} {pc pc' : EndAuctionPc}
    (hs : endAuctionStep auctionId now pick w pc = some (w', pc', pubs))
    (hsame : (Call.endAuction auctionId pc).SameUsers user w) :
    endAuctionStep auctionId now pick (w.withUsers user) pc = some (w'.withUsers user, pc', pubs) := by
  cases pc with
  | begin =>
    simp only [endAuctionStep, World.withUsers, Database.auctionFindUnique] at hs ⊢
    split at hs
    · cases hs; rfl
    · split at hs
      · next hclosed => cases hs; rw [if_pos hclosed]
      · next hclosed => cases hs; rw [if_neg hclosed]
  | foundOpen =>
    simp only [endAuctionStep, World.withUsers, Database.auctionUpdateClosed] at hs ⊢
    cases hrow : w.db.auction auctionId with
    | none => rw [hrow] at hs; cases hs; rfl
    | some row => rw [hrow] at hs; cases hs; rfl
  | closed =>
    have htop : (w.withUsers user).db.topBids auctionId = w.db.topBids auctionId := rfl
    simp only [endAuctionStep, htop, Database.userFindUnique] at hs ⊢
    split at hs
    · cases hs; rfl
    · next b bs htops =>
      split at hs
      · cases hs
      · next winningBid hpick =>
        have hmem : winningBid ∈ w.db.topBids auctionId := by
          rw [htops]
          exact List.mem_of_getElem? hpick
        have huser : (w.withUsers user).db.user winningBid.userId = w.db.user winningBid.userId :=
          hsame winningBid hmem
        rw [huser]
        split at hs
        · cases hs; rfl
        · cases hs; rfl
  | summarised winningBid message => cases hs; rfl
  | announced winningBid message => cases hs; rfl
  | returned summary => cases hs
  | threw => cases hs

theorem getAuctionStateStep_withUsers {auctionId : ℤ} {pc pc' : GetStatePc}
    (hs : getAuctionStateStep auctionId w pc = some (w', pc'))
    (hsame : (Call.getAuctionState auctionId pc).SameUsers user w) :
    getAuctionStateStep auctionId (w.withUsers user) pc = some (w'.withUsers user, pc') := by
  cases pc with
  | begin =>
    simp only [getAuctionStateStep, World.getCache, World.withUsers] at hs ⊢
    split at hs
    · cases hs; rfl
    · cases hs; rfl
  | missed =>
    simp only [getAuctionStateStep, World.withUsers, Database.auctionFindUnique] at hs ⊢
    split at hs
    · cases hs; rfl
    · split at hs
      · cases hs; rfl
      · split at hs
        · next hzero => cases hs; rw [if_pos hzero]
        · next hzero => cases hs; rw [if_neg hzero]
  | foundRow row winnerId =>
    simp only [getAuctionStateStep, Database.userFindUnique] at hs ⊢
    have huser : (w.withUsers user).db.user winnerId = w.db.user winnerId := hsame
    rw [huser]
    split at hs
    · cases hs; rfl
    · cases hs; rfl
  | resolved room => cases hs; rfl
  | returned room => cases hs
  | threw => cases hs

theorem callStep_withUsers (h : callStep i w c = some (w', c', pubs)) (hsame : c.SameUsers user w) :
    callStep i (w.withUsers user) c = some (w'.withUsers user, c', pubs) := by
  cases c with
  | placeBid m pc =>
    obtain ⟨⟨w₁, pc', pubs₁⟩, hs, heq⟩ := Option.map_eq_some_iff.mp h
    cases heq
    exact Option.map_eq_some_iff.mpr ⟨_, placeBidStep_withUsers hs hsame, rfl⟩
  | endAuction auctionId pc =>
    obtain ⟨⟨w₁, pc', pubs₁⟩, hs, heq⟩ := Option.map_eq_some_iff.mp h
    cases heq
    exact Option.map_eq_some_iff.mpr ⟨_, endAuctionStep_withUsers hs hsame, rfl⟩
  | getAuctionState auctionId pc =>
    obtain ⟨⟨w₁, pc'⟩, hs, heq⟩ := Option.map_eq_some_iff.mp h
    cases heq
    exact Option.map_eq_some_iff.mpr ⟨_, getAuctionStateStep_withUsers hs hsame, rfl⟩

/-! The calls of a server. -/

def Process.asCall : Process → Option Call
  | call c => some c
  | _ => none

def publishedLog (log : List ServerEvent) : List Publication :=
  log.filterMap fun | .published p => some p | _ => none

/-- The state of the pool of calls that a state of the server has in it, over the users of `users`. -/
structure Projects (users : UserTable) (s : ServerState) (t : State) : Prop where
  world : t.world = s.world.stores.withUsers (userRows users)
  procs : t.procs.Perm (s.procs.filterMap Process.asCall)
  log : t.log = publishedLog s.log

variable {config : ServerConfig} {start : Backend} {s s' : ServerState} {t : State} {act : ServerAction}
  {users : UserTable} {b b' : Backend} {p p' : Process} {l r : List Process} {log es : List ServerEvent}

theorem publishedLog_append : publishedLog (log ++ es) = publishedLog log ++ publishedLog es :=
  List.filterMap_append

@[simp] theorem publishedLog_published : publishedLog (pubs.map .published) = pubs := by
  simp [publishedLog, List.filterMap_map]

theorem filterMap_replace (hp : p.asCall = none) (hp' : p'.asCall = none) :
    (l ++ p' :: r).filterMap Process.asCall = (l ++ p :: r).filterMap Process.asCall := by
  rw [List.filterMap_append, List.filterMap_append, List.filterMap_cons_none hp,
    List.filterMap_cons_none hp']

/-- A process that is no call has moved, and nothing the calls see has changed. -/
theorem Projects.stutter (h : Projects users ⟨b, l ++ p :: r, log⟩ t)
    (hworld : b'.stores.withUsers (userRows users) = b.stores.withUsers (userRows users))
    (hp : p.asCall = none) (hp' : p'.asCall = none) (hes : publishedLog es = []) :
    Projects users ⟨b', l ++ p' :: r, log ++ es⟩ t := by
  refine ⟨?_, ?_, ?_⟩
  · rw [hworld]
    exact h.world
  · rw [filterMap_replace hp hp']
    exact h.procs
  · rw [publishedLog_append, hes, List.append_nil]
    exact h.log

/-- A handler has begun a call. -/
theorem Projects.begins {handled : HandledMessage} (h : Projects users ⟨b, l ++ p :: r, log⟩ t)
    (hp : p.asCall = none) :
    Projects users ⟨b, l ++ .call c :: r, log ++ [.handled handled]⟩ { t with procs := t.procs ++ [c] } := by
  refine ⟨h.world, ?_, ?_⟩
  · have hprocs := h.procs
    rw [List.filterMap_append, List.filterMap_cons_none hp] at hprocs
    rw [List.filterMap_append]
    exact (hprocs.append_right [c]).trans ((List.perm_append_singleton _ _).trans List.perm_middle.symm)
  · rw [publishedLog_append, show publishedLog [.handled handled] = [] from rfl, List.append_nil]
    exact h.log

/-- A call of the server is one of the pool. -/
theorem Projects.split (h : Projects users ⟨b, l ++ .call c :: r, log⟩ t) :
    ∃ l' r', t.procs = l' ++ c :: r' ∧
      ∀ c', (l' ++ c' :: r').Perm ((l ++ .call c' :: r).filterMap Process.asCall) := by
  have hmem : c ∈ t.procs := by
    apply h.procs.mem_iff.mpr
    rw [List.mem_filterMap]
    exact ⟨.call c, by simp, rfl⟩
  obtain ⟨l', r', hsplit⟩ := List.append_of_mem hmem
  refine ⟨l', r', hsplit, fun c' => ?_⟩
  have hothers : ∀ c, (l ++ .call c :: r).filterMap Process.asCall =
      l.filterMap Process.asCall ++ c :: r.filterMap Process.asCall := by
    intro c
    rw [List.filterMap_append]
    rfl
  have hprocs := h.procs
  rw [hsplit, hothers] at hprocs
  rw [hothers]
  have hrest := (List.perm_middle.symm.trans (hprocs.trans List.perm_middle)).cons_inv
  exact List.perm_middle.trans ((hrest.cons c').trans List.perm_middle.symm)

/-- What a call looks up the users of the end have too. -/
theorem RowsInv.sameUsers (hs : RowsInv config start s) (hext : Extends s.world.users users)
    (hc : Process.call c ∈ s.procs) : c.SameUsers (userRows users) s.world.stores := by
  have hkept : ∀ {id user}, userRows s.world.users id = some user → userRows users id = some user := by
    intro id user huser
    obtain ⟨row, hrow, heq⟩ := Option.map_eq_some_iff.mp huser
    rw [userRows, hext.findId hrow]
    exact congrArg some heq
  unfold Call.SameUsers
  split
  · next m row =>
    have huser := (RowsInv.rowsThere hs).bidders m _ hc
    rw [hkept huser, huser]
  · next auctionId =>
    intro bid hbid
    have hmem : bid ∈ s.world.stores.db.bid := List.mem_of_mem_filter (List.mem_of_mem_filter hbid)
    obtain ⟨user, huser⟩ := Option.isSome_iff_exists.mp (userRows_isSome.mpr (hs.stores.bids bid hmem))
    rw [hkept huser]
    exact huser.symm
  · next auctionId row winnerId =>
    have hrefers : ∃ user ∈ s.world.users.rows, user.1 = winnerId := hs.calls _ hc
    obtain ⟨user, huser⟩ := Option.isSome_iff_exists.mp (userRows_isSome.mpr hrefers)
    rw [hkept huser]
    exact huser.symm
  · trivial

/-- A call begins in the pool as it does in the server. -/
theorem Projects.starts {w : Backend} {procs : List Process} (h : Projects users ⟨w, procs, log⟩ t)
    (hb : Process.begins (.call c) = true) :
    ∃ t', exec (Pool.step system) t [.start c] = some t' ∧
      Projects users ⟨w, procs ++ [.call c], log⟩ t' := by
  have hbegins : c.begins = true := by
    cases c with
    | placeBid m pc =>
      cases pc with
      | begin => rfl
      | _ => cases hb
    | endAuction auctionId pc => cases pc <;> cases hb
    | getAuctionState auctionId pc =>
      cases pc with
      | begin => rfl
      | _ => cases hb
  refine ⟨{ t with procs := t.procs ++ [c] }, ?_, h.world, ?_, h.log⟩
  · rw [exec_singleton, Pool.step, show system.begins c = true from hbegins]
    rfl
  · rw [List.filterMap_append]
    exact h.procs.append_right _

/-- A statement of a call is the statement of that call in the pool. -/
theorem Projects.runs {i : ServerInput} (h : Projects users ⟨b, l ++ .call c :: r, log⟩ t)
    (hsame : c.SameUsers (userRows users) b.stores)
    (hc : callStep ⟨b.gate.now, i.pick⟩ b.stores c = some (w', c', pubs)) :
    ∃ action t', exec (Pool.step system) t [action] = some t' ∧
      Projects users ⟨b.withStores w', l ++ .call c' :: r, log ++ pubs.map .published⟩ t' := by
  obtain ⟨l', r', hsplit, hperm⟩ := h.split
  have hwith := callStep_withUsers hc hsame
  have hget : t.procs[l'.length]? = some c := by simp [hsplit]
  refine ⟨.run l'.length ⟨b.gate.now, i.pick⟩,
    ⟨w'.withUsers (userRows users), l' ++ c' :: r', t.log ++ pubs⟩, ?_, rfl, hperm c', ?_⟩
  · rw [exec_singleton, Pool.step, hget]
    simp only [system, h.world, hwith, Option.map_some, hsplit]
    simp
  · rw [publishedLog_append, publishedLog_published, h.log]

/-- A call that fails in the server fails in the pool. -/
theorem Projects.kills (h : Projects users ⟨b, l ++ .call c :: r, log⟩ t) (hc : c.throw = some c') :
    ∃ action t', exec (Pool.step system) t [action] = some t' ∧
      Projects users ⟨b, l ++ .call c' :: r, log⟩ t' := by
  obtain ⟨l', r', hsplit, hperm⟩ := h.split
  have hget : t.procs[l'.length]? = some c := by simp [hsplit]
  refine ⟨.kill l'.length, { t with procs := l' ++ c' :: r' }, ?_, h.world, hperm c', h.log⟩
  rw [exec_singleton, Pool.step, hget]
  simp only [system, hc, Option.map_some, hsplit]
  simp

/-- A step of the server is some steps of the calls: none, or its own. -/
theorem Projects.step (h : Projects users s t) (hs : RowsInv config start s)
    (hext : Extends s.world.users users) (hstep : Pool.step (server config) s act = some s') :
    ∃ actions t', exec (Pool.step system) t actions = some t' ∧ Projects users s' t' := by
  cases Pool.step_inv hstep with
  | @start w procs log p hb =>
    cases p with
    | call c => exact ⟨[.start c], h.starts hb⟩
    | _ =>
      refine ⟨[], t, rfl, h.world, ?_, h.log⟩
      rw [List.filterMap_append]
      exact h.procs.trans (by rw [List.filterMap_cons_none rfl, List.filterMap_nil, List.append_nil])
  | @run w w' l r log p p' es i hrun =>
    cases p with
    | call c =>
      obtain ⟨⟨w₁, c', pubs⟩, hc, heq⟩ := Option.map_eq_some_iff.mp hrun
      cases heq
      have hsame := RowsInv.sameUsers hs hext (mem_split.mpr (.inl rfl))
      obtain ⟨action, hruns⟩ := h.runs hsame hc
      exact ⟨[action], hruns⟩
    | message m auctionId amount =>
      have hinv : ServerStep config i w (.message m auctionId amount) w' p' es := serverStep_inv hrun
      cases hinv with
      | guards _ =>
        refine ⟨[], t, rfl, h.stutter rfl rfl rfl ?_⟩
        simp [publishedLog, List.filterMap_map]
      | @handles _ user _ _ hpc huser =>
        unfold HandledMessage.body
        cases m.handler with
        | placeBid => exact ⟨[], t, rfl, h.stutter rfl rfl rfl rfl⟩
        | joinAuction => exact ⟨[.start (.getAuctionState auctionId .begin)], _, rfl, h.begins rfl⟩
        | endAuction => exact ⟨[.start (.endAuction auctionId .begin)], _, rfl, h.begins rfl⟩
      | hasNoUser _ _ => exact ⟨[], t, rfl, h.stutter rfl rfl rfl rfl⟩
    | auth c =>
      have hinv : ServerStep config i w (.auth c) w' p' es := serverStep_inv hrun
      cases hinv with
      | auth _ =>
        refine ⟨[], t, rfl, h.stutter rfl rfl rfl ?_⟩
        simp [publishedLog, List.filterMap_map]
    | bidding m pc =>
      have hinv : ServerStep config i w (.bidding m pc) w' p' es := serverStep_inv hrun
      cases hinv with
      | bids _ =>
        refine ⟨[], t, rfl, h.stutter ?_ rfl rfl rfl⟩
        rw [send_stores]
        rfl
  | @env w procs log e =>
    cases e with
    | elapse k => exact ⟨[], t, rfl, h.world, h.procs, h.log⟩
    | expireCache auctionId =>
      refine ⟨[.env auctionId], { t with world := t.world.expireCache auctionId }, rfl, ?_, h.procs, h.log⟩
      rw [show t.world = w.stores.withUsers (userRows users) from h.world]
      rfl
    | expireTimestamps username => exact ⟨[], t, rfl, h.world, h.procs, h.log⟩
  | @kill w l r log p p' hk =>
    have hquiet : p.asCall = none → p'.asCall = none → Projects users ⟨w, l ++ p' :: r, log⟩ t := by
      intro hp hp'
      refine ⟨h.world, ?_, h.log⟩
      rw [filterMap_replace hp hp']
      exact h.procs
    cases p with
    | call c =>
      obtain ⟨c', hc, rfl⟩ := Option.map_eq_some_iff.mp hk
      obtain ⟨action, hkills⟩ := h.kills hc
      exact ⟨[action], hkills⟩
    | auth c =>
      obtain ⟨c', hc, rfl⟩ := Option.map_eq_some_iff.mp hk
      exact ⟨[], t, rfl, hquiet rfl rfl⟩
    | message m auctionId amount =>
      obtain ⟨m', hm, rfl⟩ := Option.map_eq_some_iff.mp hk
      exact ⟨[], t, rfl, hquiet rfl rfl⟩
    | bidding m pc =>
      cases pc
      all_goals cases hk
      all_goals exact ⟨[], t, rfl, hquiet rfl rfl⟩

/-! Whole runs. -/

theorem step_extends (h : Pool.step (server config) s act = some s') :
    Extends s.world.users s'.world.users := by
  cases Pool.step_inv h with
  | start _ => exact Extends.refl _
  | run hrun =>
    cases serverStep_inv hrun with
    | auth hstep => exact hstep.extends
    | bids _ => rw [send_users]
    | _ => exact Extends.refl _
  | env e => cases e <;> exact Extends.refl _
  | kill _ => exact Extends.refl _

theorem projects_run (schedule : List ServerAction) {u : ServerState} (hs : RowsInv config start s)
    (hunforged : Along (Pool.step (server config)) Unforged s schedule)
    (hrun : exec (Pool.step (server config)) s schedule = some u)
    (h : Projects u.world.users s t) :
    ∃ actions t', exec (Pool.step system) t actions = some t' ∧ Projects u.world.users u t' := by
  induction schedule generalizing s t with
  | nil =>
    cases hrun
    exact ⟨[], t, rfl, h⟩
  | cons act schedule ih =>
    obtain ⟨s', hstep, hrest⟩ := Option.bind_eq_some_iff.mp hrun
    obtain ⟨hhonest, hunforged⟩ := hunforged s' hstep
    have hext : Extends s.world.users u.world.users := by
      refine (step_extends hstep).trans ?_
      exact exec_of_inv (I := fun v => Extends s'.world.users v.world.users)
        (fun v act v' hv hstep => hv.trans (step_extends hstep)) schedule (Extends.refl _) hrest
    obtain ⟨actions, t', hactions, h'⟩ := h.step hs hext hstep
    obtain ⟨rest, t'', hrest', h''⟩ := ih (lawInv_step rowLaw_kept hs hhonest hstep) hunforged hrest h'
    refine ⟨actions ++ rest, t'', ?_, h''⟩
    rw [exec_append, hactions]
    exact hrest'

/-- Every run of the server is a run of the calls alone, over the rows, the cache and the
    publications of the server, and the users that it has at its end. -/
theorem server_refines_calls (config : ServerConfig) (start : Backend) (schedule : List ServerAction)
    (hfresh : start.Fresh) (hkeys : ForeignKeys start.users start.stores)
    (hunforged : Along (Pool.step (server config)) Unforged ⟨start, [], []⟩ schedule)
    (s : ServerState) (hrun : exec (Pool.step (server config)) ⟨start, [], []⟩ schedule = some s) :
    ∃ actions t, exec (Pool.step system)
        ⟨start.stores.withUsers (userRows s.world.users), [], []⟩ actions = some t ∧
      Projects s.world.users s t :=
  projects_run schedule (lawInv_start hfresh hkeys) hunforged hrun ⟨rfl, List.Perm.refl _, rfl⟩

theorem server_refines_calls_ann_bob : ∃ s,
    exec (Pool.step (server serverConfig)) ⟨annBackend, [], []⟩ bobBidsAnnEnds = some s ∧
    ∃ actions t, exec (Pool.step system)
        ⟨annBackend.stores.withUsers (userRows s.world.users), [], []⟩ actions = some t ∧
      Projects s.world.users s t := by
  have hsome : (exec (Pool.step (server serverConfig)) ⟨annBackend, [], []⟩ bobBidsAnnEnds).isSome := by
    decide +kernel
  obtain ⟨s, hs⟩ := Option.isSome_iff_exists.mp hsome
  exact ⟨s, hs, server_refines_calls serverConfig annBackend bobBidsAnnEnds annBackend_fresh
    annBackend_keys bobBidsAnnEnds_unforged s hs⟩

end CarAuction
