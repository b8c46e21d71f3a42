import CarAuction.Sessions

/- Sockets of the same user that join and leave at the same time. The statements of
   their `registerSocket` and `unregisterSocket` calls interleave; each socket joins
   one auction and may leave it afterwards. `unregisterSocket` counts the sockets that
   are left and then takes the name out of the auction, so a join whose MULTI block
   comes in between is forgotten with its name.

   `presence_settles_iff`: when all calls have finished, the name is there exactly when
   a socket is, exactly when every name forgotten too early was restored: by the MULTI
   block of a later join, or by a leave that took the last socket out after all. -/
namespace CarAuction

open Machine Registry

/-- Where a socket is: in its `registerSocket` call, or in the `unregisterSocket` call after it. -/
inductive TabPc where
  | joining (pc : RegisterPc)
  | leaving (pc : UnregisterPc)
  deriving DecidableEq

/-- No call of the socket is in progress. -/
def TabPc.settled : TabPc → Bool
  | joining .begin => true
  | joining .finished => true
  | leaving .finished => true
  | _ => false

structure Tabs where
  registry : Registry
  tab : SocketId → TabPc
  updates : List SessionUpdate

def Tabs.start : Tabs := ⟨.empty, fun _ => .joining .begin, []⟩

def Tabs.settled (s : Tabs) : Prop := ∀ id, (s.tab id).settled = true

/-- The socket's calls after a statement. -/
def Tabs.moved (s : Tabs) (id : SocketId) (r : Registry) (pc : TabPc)
    (updates : List SessionUpdate) : Tabs :=
  ⟨r, Function.update s.tab id pc, s.updates ++ updates⟩

/-- The next statement of a socket, of the user `owner` in the auction `auction`. -/
def tabStep (owner : SocketId → Owner) (auction : SocketId → ℤ) (s : Tabs) :
    SocketId × Time → Option Tabs
  | (id, now) =>
    match s.tab id with
    | .joining .finished =>
      (unregisterStep id now s.registry .begin).map fun t => s.moved id t.1 (.leaving t.2.1) t.2.2
    | .joining pc =>
      (registerStep (owner id).username id (owner id).ip (auction id) now s.registry pc).map
        fun t => s.moved id t.1 (.joining t.2.1) t.2.2
    | .leaving pc =>
      (unregisterStep id now s.registry pc).map fun t => s.moved id t.1 (.leaving t.2.1) t.2.2

/-- The user has sockets in the auction, and is not online there. -/
def Forgotten (a : ℤ) (u : String) (s : Tabs) : Prop :=
  u ∉ s.registry.onlineInAuctionID a ∧ (s.registry.userAuction u (some a)).Nonempty

/-- The statement takes the name out of an auction where the user has a socket. -/
def ForgetsEarly (a : ℤ) (u : String) (s : Tabs) (act : SocketId × Time) : Prop :=
  s.tab act.1 = .leaving (.offline u (some a)) ∧ (s.registry.userAuction u (some a)).Nonempty

/-- The statement is the MULTI block of a join, or of the leave of the last socket. -/
def Restores (owner : SocketId → Owner) (auction : SocketId → ℤ) (a : ℤ) (u : String) (s : Tabs)
    (act : SocketId × Time) : Prop :=
  (s.tab act.1 = .joining .begin ∧ (owner act.1).username = u ∧ auction act.1 = a) ∨
    ((∃ ip, s.tab act.1 = .leaving (.foundAuctionId u ip (some a))) ∧
      ∀ id ∈ s.registry.userAuction u (some a), id = act.1)

/-- A socket has seen that none is left, or is about to. -/
def Leaving (a : ℤ) (u : String) (s : Tabs) : Prop :=
  ∃ id, s.tab id = .leaving (.removed u (some a)) ∨ s.tab id = .leaving (.offline u (some a))

/-- An online user without sockets is about to be taken out. -/
def LeavingInv (a : ℤ) (u : String) (s : Tabs) : Prop :=
  s.registry.userAuction u (some a) = ∅ → u ∈ s.registry.onlineInAuctionID a → Leaving a u s

variable {owner : SocketId → Owner} {auction : SocketId → ℤ} {s t : Tabs} {act : SocketId × Time}
  {a : ℤ} {u : String} {id : SocketId} {now : Time}

/-! One statement. -/

/-- The next statement writes to the registry. -/
def TabPc.writes : TabPc → Bool
  | joining .begin => true
  | leaving (.foundAuctionId _ _ _) => true
  | leaving (.offline _ _) => true
  | _ => false

inductive TabStep (owner : SocketId → Owner) (auction : SocketId → ℤ) (s : Tabs) (id : SocketId) :
    Tabs → Prop where
  | registers {pc us} : s.tab id = .joining .begin →
      TabStep owner auction s id (s.moved id (s.registry.registerMulti (owner id).username id
        (owner id).ip (auction id)) pc us)
  | removes {username ip auctionId us} : s.tab id = .leaving (.foundAuctionId username ip auctionId) →
      TabStep owner auction s id (s.moved id (s.registry.unregisterMulti id username ip auctionId)
        (.leaving (.removed username auctionId)) us)
  | counts {username auctionId us} : s.tab id = .leaving (.removed username auctionId) →
      s.registry.userAuction username auctionId = ∅ →
      TabStep owner auction s id (s.moved id s.registry (.leaving (.offline username auctionId)) us)
  | forgets {username auctionId pc us} : s.tab id = .leaving (.offline username auctionId) →
      TabStep owner auction s id
        (s.moved id (s.registry.forgetUsername username auctionId) pc us)
  | passes {pc us} : (s.tab id).writes = false →
      (∀ username auctionId, s.tab id = .leaving (.removed username auctionId) →
        s.registry.userAuction username auctionId ≠ ∅) →
      TabStep owner auction s id (s.moved id s.registry pc us)

theorem tabStep_inv (h : tabStep owner auction s (id, now) = some t) :
    TabStep owner auction s id t := by
  simp only [tabStep] at h
  cases htab : s.tab id with
  | joining pc =>
    rw [htab] at h
    cases pc with
    | begin => cases h; exact .registers htab
    | registered => cases h; exact .passes (by rw [htab]; rfl) (by simp [htab])
    | finished =>
      have hpasses : ∀ pc us, TabStep owner auction s id (s.moved id s.registry pc us) :=
        fun pc us => .passes (by rw [htab]; rfl) (by simp [htab])
      obtain ⟨⟨r, pc, us⟩, hstep, rfl⟩ := Option.map_eq_some_iff.mp h
      simp only [unregisterStep] at hstep
      split at hstep
      · cases hstep; exact hpasses _ _
      · split at hstep
        · cases hstep; exact hpasses _ _
        · cases hstep; exact hpasses _ _
  | leaving pc =>
    rw [htab] at h
    obtain ⟨⟨r, pc', us⟩, hstep, rfl⟩ := Option.map_eq_some_iff.mp h
    cases pc with
    | foundAuctionId username ip auctionId => cases hstep; exact .removes htab
    | removed username auctionId =>
      simp only [unregisterStep, Finset.card_eq_zero] at hstep
      split at hstep
      · next hlast => cases hstep; exact .counts htab hlast
      · next hmore =>
        cases hstep
        refine .passes (by rw [htab]; rfl) fun username' auctionId' heq => ?_
        cases htab.symm.trans heq
        exact hmore
    | offline username auctionId => cases hstep; exact .forgets htab
    | begin =>
      have hpasses : ∀ pc us, TabStep owner auction s id (s.moved id s.registry pc us) :=
        fun pc us => .passes (by rw [htab]; rfl) (by simp [htab])
      simp only [unregisterStep] at hstep
      split at hstep
      · cases hstep; exact hpasses _ _
      · split at hstep
        · cases hstep; exact hpasses _ _
        · cases hstep; exact hpasses _ _
    | finished => cases hstep
    | _ => cases hstep; exact .passes (by rw [htab]; rfl) (by simp [htab])

theorem Tabs.moved_registry {r : Registry} {pc : TabPc} {us : List SessionUpdate} :
    (s.moved id r pc us).registry = r := rfl

/-- Only a statement that forgets early makes a name forgotten. -/
theorem forgotten_of_not (h : TabStep owner auction s id t) (hs : ¬ Forgotten a u s) :
    Forgotten a u t ↔ ForgetsEarly a u s (id, now) := by
  -- names that stay, with no new socket, are not forgotten by the statement
  have hkept : s.registry.onlineInAuctionID a = t.registry.onlineInAuctionID a →
      t.registry.userAuction u (some a) ⊆ s.registry.userAuction u (some a) → ¬ Forgotten a u t := by
    intro honline hsub hforgotten
    exact hs ⟨honline ▸ hforgotten.1, hforgotten.2.mono hsub⟩
  cases h with
  | registers htab =>
    refine iff_of_false (fun hforgotten => ?_) (fun h => by cases htab.symm.trans h.1)
    obtain ⟨hoff, id', hid'⟩ := hforgotten
    rw [Tabs.moved_registry, registerMulti_online] at hoff
    rw [Tabs.moved_registry, mem_registerMulti_userAuction, Option.some_inj] at hid'
    have hmem : id' ∈ s.registry.userAuction u (some a) :=
      hid'.resolve_left fun h => hoff (.inl h.1)
    exact hs ⟨fun h => hoff (.inr h), id', hmem⟩
  | removes htab =>
    refine iff_of_false (hkept rfl fun id' hid' => ?_) (fun h => by cases htab.symm.trans h.1)
    exact (mem_unregisterMulti_userAuction.mp hid').2
  | counts htab => exact iff_of_false (hkept rfl subset_rfl) (fun h => by cases htab.symm.trans h.1)
  | @forgets username auctionId pc us htab =>
    have hmatch : s.tab id = .leaving (.offline u (some a)) ↔ u = username ∧ auctionId = some a := by
      rw [htab, TabPc.leaving.injEq, UnregisterPc.offline.injEq, eq_comm (a := username)]
    rw [ForgetsEarly, hmatch, Forgotten, Tabs.moved_registry, forgetUsername_online,
      forgetUsername_userAuction]
    have honline : (s.registry.userAuction u (some a)).Nonempty → u ∈ s.registry.onlineInAuctionID a :=
      fun hne => by_contra fun hoff => hs ⟨hoff, hne⟩
    tauto
  | passes hwrites =>
    refine iff_of_false (hkept rfl subset_rfl) (fun h => ?_)
    rw [h.1] at hwrites
    cases hwrites

/-- A forgotten name stays so until a statement restores it. -/
theorem forgotten_of_forgotten (h : TabStep owner auction s id t) (hs : Forgotten a u s) :
    Forgotten a u t ↔ ¬ Restores owner auction a u s (id, now) := by
  obtain ⟨hoff, id', hid'⟩ := hs
  cases h with
  | registers htab =>
    have hrestores : Restores owner auction a u s (id, now) ↔ u = (owner id).username ∧ a = auction id := by
      simp [Restores, htab, eq_comm]
    rw [hrestores, Forgotten, Tabs.moved_registry, registerMulti_online]
    have hstill : id' ∈ (s.registry.registerMulti (owner id).username id (owner id).ip
        (auction id)).userAuction u (some a) := mem_registerMulti_userAuction.mpr (.inr hid')
    have hne : ((s.registry.registerMulti (owner id).username id (owner id).ip
        (auction id)).userAuction u (some a)).Nonempty := ⟨id', hstill⟩
    tauto
  | @removes username ip auctionId us htab =>
    have hrestores : Restores owner auction a u s (id, now) ↔ (username = u ∧ auctionId = some a) ∧
        ∀ id' ∈ s.registry.userAuction u (some a), id' = id := by
      simp [Restores, htab]
    rw [hrestores, Forgotten, Tabs.moved_registry, unregisterMulti_online, and_iff_right hoff]
    simp only [Finset.Nonempty, mem_unregisterMulti_userAuction]
    by_cases hmatch : username = u ∧ auctionId = some a
    · simp [hmatch.1, hmatch.2, and_comm]
    · have hother : ¬ (u = username ∧ some a = auctionId) := fun h => hmatch ⟨h.1.symm, h.2.symm⟩
      simp only [hmatch, hother, false_and, not_false_eq_true, true_and, iff_true]
      exact ⟨id', hid'⟩
  | counts htab => exact iff_of_true ⟨hoff, id', hid'⟩ (by simp [Restores, htab])
  | forgets htab =>
    refine iff_of_true ⟨fun h => hoff (forgetUsername_online.mp h).1, id', hid'⟩ ?_
    simp [Restores, htab]
  | passes hwrites =>
    refine iff_of_true ⟨hoff, id', hid'⟩ ?_
    rintro (⟨h, -⟩ | ⟨⟨ip, h⟩, -⟩)
    · rw [h] at hwrites
      cases hwrites
    · rw [h] at hwrites
      cases hwrites

/-- The tabs of the others are where they were. -/
theorem Leaving.of_other {r : Registry} {pc : TabPc} {us : List SessionUpdate} (h : Leaving a u s)
    (hself : s.tab id = .leaving (.removed u (some a)) ∨ s.tab id = .leaving (.offline u (some a)) →
      pc = .leaving (.removed u (some a)) ∨ pc = .leaving (.offline u (some a))) :
    Leaving a u (s.moved id r pc us) := by
  obtain ⟨id', hid'⟩ := h
  refine ⟨id', ?_⟩
  by_cases heq : id' = id
  · rw [heq] at hid' ⊢
    simpa [Tabs.moved] using hself hid'
  · simpa [Tabs.moved, heq] using hid'

theorem leavingInv_step (h : TabStep owner auction s id t) (hs : LeavingInv a u s) :
    LeavingInv a u t := by
  intro hempty honline
  cases h with
  | registers htab =>
    rw [Tabs.moved_registry, registerMulti_userAuction] at hempty
    rw [Tabs.moved_registry, registerMulti_online] at honline
    split at hempty
    · simp at hempty
    · next hne =>
      rw [Option.some_inj] at hne
      exact (hs hempty (honline.resolve_left hne)).of_other (by simp [htab])
  | @removes username ip auctionId us htab =>
    rw [Tabs.moved_registry, unregisterMulti_userAuction] at hempty
    split at hempty
    · next hmatch => exact ⟨id, .inl (by simp [Tabs.moved, hmatch.1, hmatch.2])⟩
    · exact (hs hempty honline).of_other (by simp [htab])
  | counts htab => exact (hs hempty honline).of_other (by simp [htab])
  | forgets htab =>
    rw [Tabs.moved_registry, forgetUsername_online] at honline
    refine (hs hempty honline.1).of_other fun h => absurd ?_ honline.2
    simpa [htab, eq_comm] using h
  | passes hwrites hcount =>
    -- a call of the user that was about to count has found a socket
    refine (hs hempty honline).of_other fun h => ?_
    rcases h with h | h
    · exact absurd hempty (hcount u (some a) h)
    · rw [h] at hwrites
      cases hwrites

/-! Whole schedules. -/

theorem tabStep_other {act : SocketId × Time} (h : tabStep owner auction s act = some t)
    (hne : id ≠ act.1) : t.tab id = s.tab id := by
  have hmoved : ∀ r pc us, (s.moved act.1 r pc us).tab id = s.tab id :=
    fun r pc us => Function.update_of_ne hne _ _
  cases tabStep_inv h <;> exact hmoved _ _ _

/-- A socket that is not scheduled stays where it is. -/
theorem exec_other {schedule : List (SocketId × Time)} (h : exec (tabStep owner auction) s schedule = some t)
    (hid : ∀ act ∈ schedule, id ≠ act.1) : t.tab id = s.tab id := by
  induction schedule generalizing s with
  | nil => cases h; rfl
  | cons act schedule ih =>
    obtain ⟨s', hs', h⟩ := Option.bind_eq_some_iff.mp h
    rw [ih h fun act hact => hid act (List.mem_cons_of_mem _ hact)]
    exact tabStep_other hs' (hid act List.mem_cons_self)

theorem settled_of_scheduled {schedule : List (SocketId × Time)}
    (h : exec (tabStep owner auction) .start schedule = some s)
    (hall : ∀ act ∈ schedule, (s.tab act.1).settled = true) : s.settled := by
  intro id
  by_cases hid : ∃ act ∈ schedule, id = act.1
  · obtain ⟨act, hact, rfl⟩ := hid
    exact hall act hact
  · rw [exec_other h fun act hact heq => hid ⟨act, hact, heq⟩]
    rfl

/-- When all calls have finished, the user is online exactly when a socket of the user is there,
    exactly when every name forgotten too early was restored. -/
theorem presence_settles_iff (owner : SocketId → Owner) (auction : SocketId → ℤ) (a : ℤ) (u : String)
    (schedule : List (SocketId × Time)) (s : Tabs)
    (hrun : exec (tabStep owner auction) .start schedule = some s) (hdone : s.settled) :
    (u ∈ s.registry.onlineInAuctionID a ↔ (s.registry.userAuction u (some a)).Nonempty) ↔
      Repaired (tabStep owner auction) (ForgetsEarly a u) (Restores owner auction a u) .start
        schedule := by
  have hstart : LeavingInv a u .start := fun _ h => absurd h (Finset.notMem_empty u)
  have hleaving : LeavingInv a u s :=
    exec_of_inv (fun _ _ _ hs h => leavingInv_step (tabStep_inv h) hs) schedule hstart hrun
  have hnone : ¬ Leaving a u s := by
    rintro ⟨id, h | h⟩
    · have := hdone id
      rw [h] at this
      cases this
    · have := hdone id
      rw [h] at this
      cases this
  -- nobody is about to take a name out any more, so the name can only be missing
  have hgood : (u ∈ s.registry.onlineInAuctionID a ↔
      (s.registry.userAuction u (some a)).Nonempty) ↔ ¬ Forgotten a u s := by
    refine ⟨fun h hforgotten => hforgotten.1 (h.mpr hforgotten.2), fun h => ⟨fun honline => ?_, ?_⟩⟩
    · rw [Finset.nonempty_iff_ne_empty]
      exact fun hempty => hnone (hleaving hempty honline)
    · exact fun hne => by_contra fun hoff => h ⟨hoff, hne⟩
  rw [hgood]
  refine (last_iff_of_repaired (J := Forgotten a u)
    (fun _ _ _ hs h => forgotten_of_not (tabStep_inv h) hs)
    (fun _ _ _ hs h => forgotten_of_forgotten (tabStep_inv h) hs) ?_ schedule hrun).1 ?_
  · rintro s act ⟨h, -⟩ (⟨h', -⟩ | ⟨⟨ip, h'⟩, -⟩)
    · cases h.symm.trans h'
    · cases h.symm.trans h'
  · exact fun h => Finset.not_nonempty_empty h.2

/-- Another tab of Ann. -/
def annOtherSocket : SocketId where
  text := "socket-o"
  nonempty := by decide
  notRoom := ne_toString (show 's' ∈ "socket-o".toList by decide) rfl (by decide)

/-- The first tab leaves and finds no other; the second one joins; then the name is taken out. -/
def overlappingTabs : List (SocketId × Time) :=
  List.replicate 2 (annSocket, 0) ++ List.replicate 5 (annSocket, 1) ++
    List.replicate 2 (annOtherSocket, 2) ++ List.replicate 2 (annSocket, 3)

theorem presence_lost : ∃ s, exec (tabStep (fun _ => annOwner) fun _ => 1) .start overlappingTabs =
    some s ∧ s.settled ∧ "ann" ∉ s.registry.onlineInAuctionID 1 ∧
      (s.registry.userAuction "ann" (some 1)).Nonempty := by
  obtain ⟨s, hs, hall, hoff, hmem⟩ : ∃ s ∈ exec (tabStep (fun _ => annOwner) fun _ => 1) .start
      overlappingTabs, (∀ act ∈ overlappingTabs, (s.tab act.1).settled = true) ∧
        "ann" ∉ s.registry.onlineInAuctionID 1 ∧ annOtherSocket ∈ s.registry.userAuction "ann" (some 1) := by
    decide +kernel
  exact ⟨s, hs, settled_of_scheduled hs hall, hoff, annOtherSocket, hmem⟩

/-- The second tab joins in time. -/
def orderlyTabs : List (SocketId × Time) :=
  List.replicate 2 (annSocket, 0) ++ List.replicate 2 (annOtherSocket, 0) ++
    List.replicate 5 (annSocket, 1)

theorem presence_settles_iff_orderly : ∃ s, exec (tabStep (fun _ => annOwner) fun _ => 1) .start
    orderlyTabs = some s ∧
      ((("ann" ∈ s.registry.onlineInAuctionID 1 ↔
        (s.registry.userAuction "ann" (some 1)).Nonempty)) ↔
        Repaired (tabStep (fun _ => annOwner) fun _ => 1) (ForgetsEarly 1 "ann")
          (Restores (fun _ => annOwner) (fun _ => 1) 1 "ann") .start orderlyTabs) := by
  obtain ⟨s, hs, hend⟩ : ∃ s ∈ exec (tabStep (fun _ => annOwner) fun _ => 1) .start orderlyTabs,
      ∀ act ∈ orderlyTabs, (s.tab act.1).settled = true := by decide +kernel
  exact ⟨s, hs, presence_settles_iff _ _ 1 "ann" orderlyTabs s hs (settled_of_scheduled hs hend)⟩

end CarAuction
