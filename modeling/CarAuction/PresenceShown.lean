import CarAuction.Presence
import CarAuction.PresenceRace

/- The names that a socket in a room shows, against those that are online.

   What its instance handles between the read of the list and the join the socket is not
   told. And a message need not say what is the case: the name is written first and the
   message published after it, so two calls about one name can write in one order and
   publish in the other, or one can publish when the other has written.

   `presence_shown_iff` says when a name is shown as it should be: no run is excluded.
   `prompt_joiners_see_everyone` is the case of a socket that has missed nothing. -/
namespace CarAuction

open Machine Registry

variable {ι : Type}

/-- A call has written the name, or taken it out, and its message is still to be published. -/
def Announcing (config : PresenceConfig ι) (a : ℤ) (u : String) (s : Presence ι) : Prop :=
  (∃ id room, s.join id = .registered room ∧ (config.client id).username = u ∧ config.auction id = a) ∨
    ∃ id, s.leave id = some (.forgotten u (some a))

/-- Every message published can be handled. In a room whose instance has handled them all a name is
    shown as it should be exactly when two questions have one answer: has a message about it come
    since the join, or was it listed as the messages before the join say; and was the last message
    about it true when it was published. -/
structure PresenceLaw [DecidableEq ι] (config : PresenceConfig ι) (s : Presence ι) : Prop where
  handles : ∀ i, s.delivered i < s.updates.length → (s.deliver config i).isSome = true
  shown : ∀ id u, s.inRoom id (config.auction id) →
    s.delivered (config.gateway id) = s.updates.length → ¬ Announcing config (config.auction id) u s →
    ((u ∈ (s.view id).shown ↔ u ∈ s.registry.onlineInAuctionID (config.auction id)) ↔
      ((presenceEvents (config.auction id) u (s.updates.drop (s.view id).joinedAt) ≠ [] ∨
        (u ∈ (s.view id).listed ↔
          lastPresence (config.auction id) u (s.updates.take (s.view id).joinedAt) = .userOnline)) ↔
        s.truthful (config.auction id) u = true))

/-- A socket that entered the room before its instance had handled anything published since the names
    were read shows a name as it should exactly when no message about it has come since the join, or
    the last one was true when it was published. -/
def PromptJoiners (config : PresenceConfig ι) (s : Presence ι) : Prop :=
  ∀ id u, s.inRoom id (config.auction id) → (s.view id).joinedAt ≤ (s.view id).readAt →
    s.delivered (config.gateway id) = s.updates.length → ¬ Announcing config (config.auction id) u s →
    ((u ∈ (s.view id).shown ↔ u ∈ s.registry.onlineInAuctionID (config.auction id)) ↔
      presenceEvents (config.auction id) u (s.updates.drop (s.view id).joinedAt) = [] ∨
        s.truthful (config.auction id) u = true)

variable {config : PresenceConfig ι} {s t : Presence ι} {act : PresenceAction ι} {id : SocketId}
  {room : AuctionRoom} {a : ℤ} {u username : String} {now : Time} {names : Finset String}
  {before after : PresenceEvent} {p : SessionUpdate} {us vs : List SessionUpdate} {pc : JoinPc}

/-! Names and events. -/

@[simp] theorem presenceIn_eq_online : presenceIn names u = .userOnline ↔ u ∈ names := by
  unfold presenceIn
  split
  · next h => exact iff_of_true rfl h
  · next h => exact iff_of_false (by simp) h

theorem presenceIn_eq_iff {names' : Finset String} :
    presenceIn names u = presenceIn names' u ↔ (u ∈ names ↔ u ∈ names') := by
  rw [← presenceIn_eq_online, ← @presenceIn_eq_online u names']
  cases presenceIn names u <;> cases presenceIn names' u <;> simp

theorem presenceIn_applyDelta : presenceIn (applyDelta names after username) u =
    if username = u then after else presenceIn names u := by
  cases after with
  | userOnline =>
    by_cases h : username = u
    · simp [presenceIn, applyDelta, h]
    · simp [presenceIn, applyDelta, h, Ne.symm h]
  | userOffline =>
    by_cases h : username = u
    · simp [presenceIn, applyDelta, h]
    · simp [presenceIn, applyDelta, h, Ne.symm h]

@[simp] theorem presenceEvents_append :
    presenceEvents a u (us ++ vs) = presenceEvents a u us ++ presenceEvents a u vs := by
  simp [presenceEvents]

theorem presenceEvents_singleton : presenceEvents a u [p] =
    if p.auctionId = some a ∧ p.username = u then [p.event] else [] := by
  unfold presenceEvents
  split
  · next h => simp [h]
  · next h => simp [h]

theorem presenceAfter_append : presenceAfter before a u (us ++ vs) =
    presenceAfter (presenceAfter before a u us) a u vs := by
  unfold presenceAfter
  rw [presenceEvents_append, List.getLast?_append]
  cases (presenceEvents a u vs).getLast? <;> rfl

theorem presenceAfter_singleton : presenceAfter before a u [p] =
    if p.auctionId = some a ∧ p.username = u then p.event else before := by
  unfold presenceAfter
  rw [presenceEvents_singleton]
  split <;> rfl

/-- The last event decides; without one the presence is what it was. -/
theorem presenceAfter_eq_iff : presenceAfter before a u us = presenceAfter after a u us ↔
    presenceEvents a u us ≠ [] ∨ before = after := by
  unfold presenceAfter
  cases h : (presenceEvents a u us).getLast? with
  | none => simp [List.getLast?_eq_none_iff.mp h]
  | some event =>
    have hne : presenceEvents a u us ≠ [] := by
      intro hnil
      rw [hnil] at h
      cases h
    exact iff_of_true rfl (.inl hne)

theorem presenceAfter_of_nil (h : presenceEvents a u us = []) :
    presenceAfter before a u us = before := by
  rw [presenceAfter, h]
  rfl

theorem lastPresence_eq : lastPresence a u us = presenceAfter .userOffline a u us := rfl

/-! Names and messages. -/

/-- What a step that publishes `vs` does about a name: a call has still to announce it, or it is told,
    or nothing happens to it. -/
inductive NameStep (config : PresenceConfig ι) (a : ℤ) (u : String) (s t : Presence ι)
    (vs : List SessionUpdate) : Prop where
  | announcing : Announcing config a u t → NameStep config a u s t vs
  | told : presenceEvents a u vs ≠ [] →
      (presenceIn (t.registry.onlineInAuctionID a) u = lastPresence a u t.updates ↔
        t.truthful a u = true) → NameStep config a u s t vs
  | same : ¬ Announcing config a u s → presenceEvents a u vs = [] →
      (u ∈ t.registry.onlineInAuctionID a ↔ u ∈ s.registry.onlineInAuctionID a) →
      t.truthful a u = s.truthful a u → NameStep config a u s t vs

theorem Announcing.kept (h : Announcing config a u s)
    (hjoin : ∀ id room, s.join id = .registered room → t.join id = .registered room)
    (hleave : ∀ id, s.leave id = some (.forgotten u (some a)) →
      t.leave id = some (.forgotten u (some a))) : Announcing config a u t := by
  rcases h with ⟨id, room, hid, hwho⟩ | ⟨id, hid⟩
  · exact .inl ⟨id, room, hjoin id room hid, hwho⟩
  · exact .inr ⟨id, hleave id hid⟩

/-- A statement of a join that publishes nothing. -/
theorem Announcing.moved (hid : ∀ room, s.join id ≠ .registered room)
    (hjoin : t.join = Function.update s.join id pc) (hleave : t.leave = s.leave)
    (h : Announcing config a u s) : Announcing config a u t := by
  refine h.kept (fun other room hother => ?_) fun other hother => ?_
  · rw [hjoin]
    exact update_kept (hid room) hother
  · rw [hleave]
    exact hother

/-- A step that neither writes nor tells. -/
theorem NameStep.quiet (hnames : u ∈ t.registry.onlineInAuctionID a ↔ u ∈ s.registry.onlineInAuctionID a)
    (htruthful : t.truthful = s.truthful)
    (hann : Announcing config a u s → Announcing config a u t) : NameStep config a u s t [] := by
  by_cases hs : Announcing config a u s
  · exact .announcing (hann hs)
  · exact .same hs rfl hnames (by rw [htruthful])

/-- A publication, by a call that had only the name of its message to announce. -/
theorem NameStep.published (hr : t.registry = s.registry) (htruthful : t.truthful = s.truthful)
    (hann : ¬ (p.auctionId = some a ∧ p.username = u) → Announcing config a u s →
      Announcing config a u t) : NameStep config a u s (t.publish p) [p] := by
  by_cases hself : p.auctionId = some a ∧ p.username = u
  · refine .told ?_ ?_
    · rw [presenceEvents_singleton, if_pos hself]
      exact List.cons_ne_nil _ _
    · show _ = lastPresence a u (t.updates ++ [p]) ↔
        (if p.auctionId = some a ∧ p.username = u then
          decide (presenceIn (t.registry.onlineInAuctionID a) u = p.event) else t.truthful a u) = true
      rw [lastPresence_append, if_pos hself, if_pos hself, decide_eq_true_iff]
      rfl
  · by_cases hs : Announcing config a u s
    · exact .announcing (hann hself hs)
    · refine .same hs ?_ ?_ ?_
      · rw [presenceEvents_singleton, if_neg hself]
      · show u ∈ t.registry.onlineInAuctionID a ↔ _
        rw [hr]
      · show (if p.auctionId = some a ∧ p.username = u then
          decide (presenceIn (t.registry.onlineInAuctionID a) u = p.event) else t.truthful a u) = _
        rw [if_neg hself, htruthful]

theorem Announcing.disconnect (h : Announcing config a u s) : Announcing config a u (s.disconnect id) := by
  refine h.kept (by simp) fun other hother => ?_
  rw [Presence.disconnect_leave, if_neg]
  · exact hother
  · rintro ⟨rfl, hnone⟩
    rw [hnone] at hother
    cases hother

/-- A statement of a leave. -/
theorem nameStep_leave {r' : Registry} {pc' pc'' : UnregisterPc} (hid : s.leave id = some pc')
    (h : LeaveStep id now s.registry pc' r' pc'' us) :
    NameStep config a u s (us.foldl Presence.publish
      { s with registry := r', leave := Function.update s.leave id (some pc'') }) us := by
  have hkept : ∀ pc'', pc' ≠ .forgotten u (some a) → Announcing config a u s →
      Announcing config a u { s with
        registry := r', leave := Function.update s.leave id (some pc'') } := by
    intro pc'' hpc hs
    refine hs.kept (fun _ _ heq => heq) fun other hother => update_kept ?_ hother
    rw [hid]
    exact fun heq => hpc (Option.some.inj heq)
  cases h with
  | @forgets username auctionId =>
    by_cases hself : u = username ∧ auctionId = some a
    · obtain ⟨rfl, rfl⟩ := hself
      exact .announcing (.inr ⟨id, Function.update_self ..⟩)
    · refine .quiet ?_ rfl (hkept _ (by simp))
      show u ∈ (s.registry.forgetUsername username auctionId).onlineInAuctionID a ↔ _
      rw [forgetUsername_online, and_iff_left hself]
  | @announces username auctionId =>
    refine .published rfl rfl fun hother => hkept _ fun heq => ?_
    cases heq
    exact hother ⟨rfl, rfl⟩
  | removes => exact .quiet Iff.rfl rfl (hkept _ (by simp))
  | _ => exact .quiet Iff.rfl rfl (hkept _ (by simp))

/-- The messages of a step, and what it does about every name. -/
theorem presenceStep_names [DecidableEq ι] (h : PresenceStep config s act t) :
    ∃ vs, t.updates = s.updates ++ vs ∧ ∀ a u, NameStep config a u s t vs := by
  cases h with
  | finds hid =>
    exact ⟨[], (List.append_nil _).symm, fun a u => .quiet Iff.rfl rfl (.moved (by simp [hid]) rfl rfl)⟩
  | refuses hid =>
    refine ⟨[], by simp, fun a u => .quiet (by simp) (by simp) fun hs => ?_⟩
    exact Announcing.disconnect (hs.moved (by simp [hid]) rfl rfl)
  | reports hid =>
    exact ⟨[], (List.append_nil _).symm, fun a u => .quiet Iff.rfl rfl (.moved (by simp [hid]) rfl rfl)⟩
  | lists hid =>
    exact ⟨[], (List.append_nil _).symm, fun a u => .quiet Iff.rfl rfl (.moved (by simp [hid]) rfl rfl)⟩
  | @registers id room room' now hid =>
    refine ⟨[], (List.append_nil _).symm, fun a u => ?_⟩
    by_cases hself : u = (config.client id).username ∧ a = config.auction id
    · exact .announcing (.inl ⟨id, room', Function.update_self .., hself.1.symm, hself.2.symm⟩)
    · refine .quiet ?_ rfl (.moved (by simp [hid]) rfl rfl)
      rw [registerMulti_online, or_iff_right hself]
  | @announces id room room' now hid =>
    refine ⟨_, rfl, fun a u => .published rfl rfl fun hother hs => ?_⟩
    rcases hs with ⟨other, room, heq, hwho⟩ | hleave
    · have hne : other ≠ id := by
        rintro rfl
        exact hother ⟨congrArg some hwho.2, hwho.1⟩
      exact .inl ⟨other, room, (Function.update_of_ne hne ..).trans heq, hwho⟩
    · exact .inr hleave
  | enters hid =>
    exact ⟨[], (List.append_nil _).symm, fun a u => .quiet Iff.rfl rfl (.moved (by simp [hid]) rfl rfl)⟩
  | turnsAway hid =>
    refine ⟨[], by simp [Presence.perform, Presence.setView], fun a u => .quiet ?_ ?_ fun hs => ?_⟩
    · rw [Presence.disconnect_registry]
      rfl
    · rw [Presence.disconnect_truthful]
      rfl
    · exact Announcing.disconnect (hs.moved (by simp [hid]) rfl rfl)
  | disconnects =>
    exact ⟨[], by simp, fun a u => .quiet (by simp) (by simp) Announcing.disconnect⟩
  | @leaves id now pc pc' r us hid hstep =>
    refine ⟨us, ?_, fun a u => nameStep_leave hid hstep⟩
    cases hstep with
    | announces => rfl
    | _ => exact (List.append_nil _).symm
  | delivers _ _ => exact ⟨[], (List.append_nil _).symm, fun a u => .quiet Iff.rfl rfl id⟩
  | @ends i b =>
    refine ⟨[], (List.append_nil _).symm, fun a u => .quiet Iff.rfl rfl fun hs => ?_⟩
    refine hs.kept (fun _ _ heq => heq) fun other hother => ?_
    have hout : ¬ (config.gateway other = i ∧ s.inRoom other b) := by
      rintro ⟨-, hnone, -⟩
      rw [hnone] at hother
      cases hother
    show (if config.gateway other = i ∧ s.inRoom other b then _ else s.leave other) = _
    rw [if_neg hout]
    exact hother

/-- A name is online as the last message says exactly if that message was true, unless a call has still
    to announce what it has written. -/
def Told (config : PresenceConfig ι) (s : Presence ι) : Prop :=
  ∀ a u, Announcing config a u s ∨
    (presenceIn (s.registry.onlineInAuctionID a) u = lastPresence a u s.updates ↔
      s.truthful a u = true)

/-- The names were read when the first `n` messages were published: what has become of them since is
    announced, or about to be. -/
def WasRead (config : PresenceConfig ι) (s : Presence ι) (a : ℤ) (n : ℕ) (names : Finset String) : Prop :=
  n ≤ s.updates.length ∧ ∀ u, Announcing config a u s ∨ presenceEvents a u (s.updates.drop n) ≠ [] ∨
    (u ∈ names ↔ u ∈ s.registry.onlineInAuctionID a)

theorem told_step (h : Told config s) (hu : t.updates = s.updates ++ vs)
    (hn : ∀ a u, NameStep config a u s t vs) : Told config t := by
  intro a u
  rcases hn a u with hann | ⟨-, htold⟩ | ⟨hnot, hevents, honline, htruthful⟩
  · exact .inl hann
  · exact .inr htold
  · refine .inr ?_
    rw [hu, lastPresence_eq, presenceAfter_append, presenceAfter_of_nil hevents, ← lastPresence_eq,
      htruthful, presenceIn_eq_iff.mpr honline]
    exact (h a u).resolve_left hnot

theorem WasRead.step {n : ℕ} (h : WasRead config s a n names) (hu : t.updates = s.updates ++ vs)
    (hn : ∀ a u, NameStep config a u s t vs) : WasRead config t a n names := by
  obtain ⟨hle, hread⟩ := h
  refine ⟨?_, fun u => ?_⟩
  · rw [hu, List.length_append]
    omega
  · rw [hu, List.drop_append_of_le_length hle, presenceEvents_append]
    rcases hn a u with hann | ⟨hevents, -⟩ | ⟨hnot, -, honline, -⟩
    · exact .inl hann
    · exact .inr (.inl (by simp [hevents]))
    · rcases (hread u).resolve_left hnot with hlater | hsame
      · exact .inr (.inl (by simp [hlater]))
      · exact .inr (.inr (by rw [honline, hsame]))

/-- With the auction found under the socket's key. -/
def UnregisterPc.KnowsAuction (found : Option ℤ) : UnregisterPc → Prop
  | foundUsername _ => found ≠ none
  | foundIp _ _ => found ≠ none
  | foundAuctionId _ _ auctionId => auctionId ≠ none
  | removed _ auctionId => auctionId ≠ none
  | offline _ auctionId => auctionId ≠ none
  | forgotten _ auctionId => auctionId ≠ none
  | _ => True

/-- No call takes a socket for one of no auction. -/
structure AuctionsKnown (s : Presence ι) : Prop where
  keys : ∀ id, s.registry.socketUsername id ≠ none → s.registry.socketAuctionId id ≠ none
  leaving : ∀ id, ∀ pc ∈ s.leave id, pc.KnowsAuction (s.registry.socketAuctionId id)
  published : ∀ p ∈ s.updates, p.auctionId ≠ none

theorem UnregisterPc.KnowsAuction.mono {pc : UnregisterPc} {found found' : Option ℤ}
    (h : pc.KnowsAuction found) (hfound : found ≠ none → found' ≠ none) : pc.KnowsAuction found' := by
  cases pc with
  | foundUsername username => exact hfound h
  | foundIp username ip => exact hfound h
  | _ => exact h

theorem AuctionsKnown.same (h : AuctionsKnown s) (hr : t.registry = s.registry)
    (hu : t.updates = s.updates) (hleave : ∀ id, t.leave id = s.leave id ∨ t.leave id = some .begin) :
    AuctionsKnown t := by
  refine ⟨?_, fun id pc hpc => ?_, ?_⟩
  · rw [hr]
    exact h.keys
  · rw [hr]
    rcases hleave id with heq | heq
    · rw [heq] at hpc
      exact h.leaving id pc hpc
    · rw [heq] at hpc
      cases hpc
      trivial
  · rw [hu]
    exact h.published

theorem AuctionsKnown.disconnect (h : AuctionsKnown s) : AuctionsKnown (s.disconnect id) := by
  refine h.same (by simp) (by simp) fun other => ?_
  rw [Presence.disconnect_leave]
  split
  · exact .inr rfl
  · exact .inl rfl

theorem AuctionsKnown.leaves {pc pc' : UnregisterPc} {r' : Registry} (h : AuctionsKnown s)
    (hid : s.leave id = some pc) (hstep : LeaveStep id now s.registry pc r' pc' us) :
    AuctionsKnown (us.foldl Presence.publish
      { s with registry := r', leave := Function.update s.leave id (some pc') }) := by
  have hpc := h.leaving id pc hid
  -- a statement that leaves the keys alone
  have hkept : pc'.KnowsAuction (s.registry.socketAuctionId id) → ∀ other,
      ∀ pc ∈ Function.update s.leave id (some pc') other,
        pc.KnowsAuction (s.registry.socketAuctionId other) := by
    intro hknows other pc hother
    by_cases hne : other = id
    · subst hne
      rw [Function.update_self] at hother
      cases hother
      exact hknows
    · rw [Function.update_of_ne hne] at hother
      exact h.leaving other pc hother
  cases hstep with
  | unknown _ => exact ⟨h.keys, hkept trivial, h.published⟩
  | findsUsername hname => exact ⟨h.keys, hkept (h.keys id (by simp [hname])), h.published⟩
  | findsIp => exact ⟨h.keys, hkept hpc, h.published⟩
  | findsAuctionId => exact ⟨h.keys, hkept hpc, h.published⟩
  | removes =>
    refine ⟨fun other => ?_, fun other pc hother => ?_, h.published⟩
    · by_cases hne : other = id
      · simp [hne, unregisterMulti]
      · simpa [hne, unregisterMulti] using h.keys other
    · have hother : Function.update s.leave id _ other = some pc := hother
      by_cases hne : other = id
      · subst hne
        rw [Function.update_self] at hother
        cases hother
        exact hpc
      · simpa [hne, unregisterMulti] using hkept hpc other pc hother
  | counts _ => exact ⟨h.keys, hkept hpc, h.published⟩
  | remains _ => exact ⟨h.keys, hkept trivial, h.published⟩
  | forgets => exact ⟨h.keys, hkept hpc, h.published⟩
  | announces =>
    refine ⟨h.keys, hkept trivial, fun p hp => ?_⟩
    rcases List.mem_append.mp hp with hp | hp
    · exact h.published p hp
    · rw [List.mem_singleton.mp hp]
      exact hpc

theorem auctionsKnown_step [DecidableEq ι] (h : AuctionsKnown s) (ht : PresenceStep config s act t) :
    AuctionsKnown t := by
  cases ht with
  | finds _ => exact ⟨h.keys, h.leaving, h.published⟩
  | refuses _ => exact AuctionsKnown.disconnect ⟨h.keys, h.leaving, h.published⟩
  | reports _ => exact ⟨h.keys, h.leaving, h.published⟩
  | lists _ => exact ⟨h.keys, h.leaving, h.published⟩
  | @registers id room room' now _ =>
    refine ⟨fun other => ?_, fun other pc hpc => ?_, h.published⟩
    · by_cases hne : other = id
      · simp [hne, registerMulti]
      · simpa [hne, registerMulti] using h.keys other
    · refine (h.leaving other pc hpc).mono ?_
      by_cases hne : other = id
      · simp [hne, registerMulti]
      · simp [hne, registerMulti]
  | announces _ =>
    refine ⟨h.keys, h.leaving, fun p hp => ?_⟩
    rcases List.mem_append.mp hp with hp | hp
    · exact h.published p hp
    · rw [List.mem_singleton.mp hp]
      simp
  | enters _ => exact ⟨h.keys, h.leaving, h.published⟩
  | turnsAway _ => exact AuctionsKnown.disconnect ⟨h.keys, h.leaving, h.published⟩
  | disconnects => exact h.disconnect
  | leaves hid hstep => exact h.leaves hid hstep
  | delivers _ _ => exact ⟨h.keys, h.leaving, h.published⟩
  | ends =>
    refine h.same rfl rfl fun id => ?_
    unfold Presence.auctionEnd
    simp only
    split
    · exact .inr rfl
    · exact .inl rfl

/-! The sockets. -/

/-- The names shown are the ones listed, with the events since the join that were handled. -/
def Heard (a : ℤ) (updates : List SessionUpdate) (delivered : ℕ) (v : PresenceView) : Prop :=
  v.joinedAt ≤ delivered ∧ ∀ u, presenceIn v.shown u =
    presenceAfter (presenceIn v.listed u) a u ((updates.take delivered).drop v.joinedAt)

/-- What a socket has been told. -/
structure SocketInv (config : PresenceConfig ι) (s : Presence ι) (id : SocketId) : Prop where
  outside : s.join id ≠ .finished → (s.view id).joined = [] ∧ (s.view id).shown = (s.view id).listed
  ownRoom : ∀ c ∈ (s.view id).joined, c = config.auction id
  heard : s.leave id = none → config.auction id ∈ (s.view id).joined →
    Heard (config.auction id) s.updates (s.delivered (config.gateway id)) (s.view id)

structure ViewInv (config : PresenceConfig ι) (s : Presence ι) : Prop where
  handled : ∀ i, s.delivered i ≤ s.updates.length
  sockets : ∀ id, SocketInv config s id

/-- The socket is told nothing, and may be gone from its room. -/
structure Untold (s t : Presence ι) (id : SocketId) : Prop where
  join : s.join id = .finished → t.join id = .finished
  leave : t.leave id = none → s.leave id = none
  view : t.view id = s.view id ∨ t.view id = { s.view id with joined := [] }

variable {d : ℕ} {v : PresenceView}

theorem Heard.append (h : Heard a us d v) (hd : d ≤ us.length) : Heard a (us ++ vs) d v := by
  unfold Heard
  rw [List.take_append_of_le_length hd]
  exact h

theorem drop_take_next (hp : us[d]? = some p) {j : ℕ} (hj : j ≤ d) :
    (us.take (d + 1)).drop j = (us.take d).drop j ++ [p] := by
  have hlength : d < us.length := (List.getElem?_eq_some_iff.mp hp).1
  rw [List.take_add_one, hp, Option.toList_some, List.drop_append_of_le_length]
  rw [List.length_take]
  omega

/-- The next message, of the auction or not. -/
theorem Heard.next (h : Heard a us d v) (hp : us[d]? = some p) :
    Heard a us (d + 1) (if p.auctionId = some a then
      { v with shown := applyDelta v.shown p.event p.username } else v) := by
  obtain ⟨hle, hshown⟩ := h
  by_cases ha : p.auctionId = some a
  · rw [if_pos ha]
    refine ⟨Nat.le_succ_of_le hle, fun u => ?_⟩
    show presenceIn (applyDelta v.shown p.event p.username) u = _
    rw [drop_take_next hp hle, presenceAfter_append, ← hshown, presenceAfter_singleton,
      presenceIn_applyDelta]
    simp [ha]
  · rw [if_neg ha]
    refine ⟨Nat.le_succ_of_le hle, fun u => ?_⟩
    rw [drop_take_next hp hle, presenceAfter_append, ← hshown, presenceAfter_singleton,
      if_neg fun hself => ha hself.1]

theorem SocketInv.untold (h : SocketInv config s id) (hn : Untold s t id)
    (hhandled : s.delivered (config.gateway id) ≤ s.updates.length) (hu : t.updates = s.updates ++ vs)
    (hd : t.delivered = s.delivered) : SocketInv config t id := by
  obtain ⟨hjoin, hleave, hview⟩ := hn
  rcases hview with hview | hview
  · refine ⟨fun hnot => ?_, ?_, fun hnone hin => ?_⟩
    · rw [hview]
      exact h.outside (mt hjoin hnot)
    · rw [hview]
      exact h.ownRoom
    · rw [hview] at hin ⊢
      rw [hu, hd]
      exact (h.heard (hleave hnone) hin).append hhandled
  · refine ⟨fun hnot => ?_, fun c hc => ?_, fun _ hin => ?_⟩
    · rw [hview]
      exact ⟨rfl, (h.outside (mt hjoin hnot)).2⟩
    · rw [hview] at hc
      cases hc
    · rw [hview] at hin
      cases hin

/-- A step in which the instances handle nothing. -/
theorem ViewInv.step (h : ViewInv config s) (hu : t.updates = s.updates ++ vs)
    (hd : t.delivered = s.delivered) (hsockets : ∀ id, Untold s t id ∨ SocketInv config t id) :
    ViewInv config t := by
  constructor
  case handled =>
    intro i
    have hle := h.handled i
    rw [hu, hd, List.length_append]
    omega
  case sockets =>
    intro id
    rcases hsockets id with huntold | hself
    · exact (h.sockets id).untold huntold (h.handled _) hu hd
    · exact hself

theorem Untold.disconnect (id other : SocketId) : Untold s (s.disconnect id) other := by
  refine ⟨fun hother => ?_, fun hnone => ?_, ?_⟩
  · rw [Presence.disconnect_join]
    exact hother
  · rw [Presence.disconnect_leave] at hnone
    split at hnone
    · cases hnone
    · exact hnone
  · rw [Presence.disconnect_view]
    split
    · next hself => exact .inr (by rw [hself.1])
    · exact .inl rfl

theorem ViewInv.disconnect (h : ViewInv config s) (id : SocketId) : ViewInv config (s.disconnect id) := by
  have hu : (s.disconnect id).updates = s.updates ++ [] := by simp
  exact h.step hu (by simp) fun other => .inl (Untold.disconnect id other)

theorem ViewInv.enters (h : ViewInv config s) (hid : s.join id = .announced room) :
    ViewInv config (({ s with join := Function.update s.join id .finished } : Presence ι).perform config id
      (.joined (config.auction id))) := by
  obtain ⟨hjoined, hshown⟩ := (h.sockets id).outside (by simp [hid])
  refine h.step (List.append_nil _).symm rfl fun other => ?_
  by_cases hne : other = id
  · subst hne
    right
    constructor
    case outside => exact fun hnot => absurd (Function.update_self ..) hnot
    case ownRoom =>
      intro c hc
      simp only [Presence.perform, Presence.setView_view, hjoined] at hc
      exact List.mem_singleton.mp hc
    case heard =>
      intro _ _
      simp only [Presence.perform, Presence.setView_view]
      refine ⟨le_rfl, fun u => ?_⟩
      -- nothing has been handled since the join
      show presenceIn (s.view other).shown u = presenceAfter (presenceIn (s.view other).listed u) _ u
        ((s.updates.take (s.delivered (config.gateway other))).drop (s.delivered (config.gateway other)))
      rw [hshown, List.drop_eq_nil_of_le (List.length_take_le _ _)]
      rfl
  · left
    exact ⟨fun hother => update_kept (by simp [hid]) hother, fun hnone => hnone,
      .inl (Function.update_of_ne hne ..)⟩

theorem ViewInv.delivers [DecidableEq ι] {i : ι} (h : ViewInv config s)
    (hp : s.updates[s.delivered i]? = some p) (ha : p.auctionId = some a) :
    ViewInv config { s with
      delivered := Function.update s.delivered i (s.delivered i + 1)
      view := fun id =>
        if config.gateway id = i ∧ s.inRoom id a then
          { s.view id with shown := applyDelta (s.view id).shown p.event p.username }
        else s.view id } := by
  have hlength : s.delivered i < s.updates.length := (List.getElem?_eq_some_iff.mp hp).1
  constructor
  case handled =>
    intro i'
    show Function.update s.delivered i _ i' ≤ s.updates.length
    rw [Function.update_apply]
    split
    · omega
    · exact h.handled i'
  case sockets =>
    intro id
    obtain ⟨houtside, hownRoom, hheard⟩ := h.sockets id
    by_cases htold : config.gateway id = i ∧ s.inRoom id a
    · -- the message is of the room of the socket
      obtain ⟨hgateway, hin⟩ := htold
      obtain ⟨hnone, hmem⟩ := Presence.inRoom_iff.mp hin
      have hroom : a = config.auction id := hownRoom a hmem
      subst hroom
      have hnext := (hheard hnone hmem).next (by rwa [hgateway])
      rw [if_pos ha, hgateway] at hnext
      constructor
      case outside =>
        intro hrunning
        rw [(houtside hrunning).1] at hmem
        cases hmem
      case ownRoom => simpa only [hgateway, hin, and_self, if_true] using hownRoom
      case heard => simpa [hgateway, hin] using fun _ _ => hnext
    · constructor
      case outside => simpa only [htold, if_false] using houtside
      case ownRoom => simpa only [htold, if_false] using hownRoom
      case heard =>
        simp only [htold, if_false]
        intro hnone hmem
        by_cases hgateway : config.gateway id = i
        · -- a message of another auction
          have hother : p.auctionId ≠ some (config.auction id) := by
            rw [ha]
            intro heq
            cases heq
            exact htold ⟨hgateway, Presence.inRoom_iff.mpr ⟨hnone, hmem⟩⟩
          have hnext := (hheard hnone hmem).next (by rwa [hgateway])
          rw [if_neg hother, hgateway] at hnext
          rw [hgateway, Function.update_self]
          exact hnext
        · rw [Function.update_of_ne hgateway]
          exact hheard hnone hmem

theorem viewInv_step [DecidableEq ι] (h : ViewInv config s) (ht : PresenceStep config s act t) :
    ViewInv config t := by
  -- a statement of a join that tells the socket nothing
  have hmoved : ∀ {id : SocketId} {pc : JoinPc} {r : Registry}, s.join id ≠ .finished →
      ViewInv config { s with registry := r, join := Function.update s.join id pc } := by
    intro id pc r hid
    exact h.step (List.append_nil _).symm rfl fun other =>
      .inl ⟨update_kept hid, fun hnone => hnone, .inl rfl⟩
  cases ht with
  | finds hid => exact hmoved (by simp [hid])
  | @refuses id _ _ hid => exact ViewInv.disconnect (hmoved (by simp [hid])) id
  | reports hid => exact hmoved (by simp [hid])
  | @lists id room room' now hid =>
    obtain ⟨hjoined, -⟩ := (h.sockets id).outside (by simp [hid])
    refine h.step (List.append_nil _).symm rfl fun other => ?_
    by_cases hne : other = id
    · subst hne
      refine .inr ⟨fun _ => ?_, ?_, fun _ hin => ?_⟩
      · simp [hjoined]
      · simp [hjoined]
      · simp [hjoined] at hin
    · exact .inl ⟨fun hother => update_kept (by simp [hid]) hother, fun hnone => hnone,
        .inl (Function.update_of_ne hne ..)⟩
  | registers hid => exact hmoved (by simp [hid])
  | @announces id room room' now hid =>
    exact h.step rfl rfl fun other =>
      .inl ⟨update_kept (by simp [hid]), fun hnone => hnone, .inl rfl⟩
  | enters hid => exact h.enters hid
  | @turnsAway id _ _ _ hid => exact (h.enters hid).disconnect id
  | @disconnects id => exact h.disconnect id
  | @leaves id now pc pc' r us hid hstep =>
    have hleft : ∀ other, Function.update s.leave id (some pc') other = none → s.leave other = none := by
      intro other hnone
      rw [Function.update_apply] at hnone
      split at hnone
      · cases hnone
      · exact hnone
    cases hstep with
    | announces => exact h.step rfl rfl fun other => .inl ⟨fun hother => hother, hleft other, .inl rfl⟩
    | _ =>
      exact h.step (List.append_nil _).symm rfl fun other =>
        .inl ⟨fun hother => hother, hleft other, .inl rfl⟩
  | delivers hp ha => exact h.delivers hp ha
  | @ends i a =>
    refine h.step (List.append_nil _).symm rfl fun other => .inl ⟨fun hother => hother, fun hnone => ?_, ?_⟩
    · simp only [Presence.auctionEnd] at hnone
      split at hnone
      · cases hnone
      · exact hnone
    · simp only [Presence.auctionEnd]
      split
      · exact .inr rfl
      · exact .inl rfl

theorem Presence.disconnect_listed {other : SocketId} :
    ((s.disconnect id).view other).listed = (s.view other).listed ∧
      ((s.disconnect id).view other).readAt = (s.view other).readAt := by
  rw [Presence.disconnect_view]
  split
  · next hself => simp [hself.1]
  · exact ⟨rfl, rfl⟩

/-- A list stays as it was read, or is read. -/
theorem presenceStep_listed [DecidableEq ι] (ht : PresenceStep config s act t) (id : SocketId) :
    ((t.view id).listed = (s.view id).listed ∧ (t.view id).readAt = (s.view id).readAt) ∨
      ((t.view id).listed = t.registry.onlineInAuctionID (config.auction id) ∧
        (t.view id).readAt = t.updates.length) := by
  cases ht with
  | refuses _ => exact .inl Presence.disconnect_listed
  | @lists other _ _ _ _ =>
    by_cases hne : id = other
    · subst hne
      simp only [Presence.setView_view]
      exact .inr ⟨rfl, rfl⟩
    · simp [Presence.setView, hne]
  | @enters other _ _ _ _ =>
    by_cases hne : id = other
    · simp [Presence.perform, Presence.setView, hne]
    · simp [Presence.perform, Presence.setView, hne]
  | @turnsAway other _ _ _ _ =>
    rw [Presence.disconnect_listed.1, Presence.disconnect_listed.2]
    by_cases hne : id = other
    · simp [Presence.perform, Presence.setView, hne]
    · simp [Presence.perform, Presence.setView, hne]
  | disconnects => exact .inl Presence.disconnect_listed
  | leaves _ hstep =>
    cases hstep with
    | _ => exact .inl ⟨rfl, rfl⟩
  | delivers _ _ =>
    left
    simp only
    split <;> exact ⟨rfl, rfl⟩
  | ends =>
    left
    simp only [Presence.auctionEnd]
    split <;> exact ⟨rfl, rfl⟩
  | _ => exact .inl ⟨rfl, rfl⟩

/-! Whole runs. -/

structure PresenceInv (config : PresenceConfig ι) (s : Presence ι) : Prop where
  known : AuctionsKnown s
  told : Told config s
  read : ∀ id, WasRead config s (config.auction id) (s.view id).readAt (s.view id).listed
  views : ViewInv config s

theorem presenceInv_start : PresenceInv config .start := by
  constructor
  case known =>
    exact ⟨fun id hid => absurd rfl hid, fun id pc hpc => (by cases hpc),
      fun p hp => absurd hp List.not_mem_nil⟩
  case told => exact fun a u => .inr (iff_of_true rfl rfl)
  case read => exact fun id => ⟨le_rfl, fun u => .inr (.inr Iff.rfl)⟩
  case views =>
    exact ⟨fun i => le_rfl, fun id => ⟨fun _ => ⟨rfl, rfl⟩, fun c hc => absurd hc List.not_mem_nil,
      fun _ hin => absurd hin List.not_mem_nil⟩⟩

theorem presenceInv_step [DecidableEq ι] (s : Presence ι) (act : PresenceAction ι) (t : Presence ι)
    (h : PresenceInv config s) (ht : presenceStep config s act = some t) : PresenceInv config t := by
  have hstep := presenceStep_inv ht
  obtain ⟨vs, hu, hn⟩ := presenceStep_names hstep
  refine ⟨auctionsKnown_step h.known hstep, told_step h.told hu hn, fun id => ?_,
    viewInv_step h.views hstep⟩
  rcases presenceStep_listed hstep id with ⟨hlisted, hread⟩ | ⟨hlisted, hread⟩
  · rw [hlisted, hread]
    exact (h.read id).step hu hn
  · rw [hlisted, hread]
    exact ⟨le_rfl, fun u => .inr (.inr Iff.rfl)⟩

theorem always_of_presenceInv [DecidableEq ι] {Q : Presence ι → Prop}
    (hQ : ∀ s, PresenceInv config s → Q s) (schedule : List (PresenceAction ι)) :
    Always (presenceStep config) Q .start schedule :=
  always_of_inv (fun s act t hs _ ht => presenceInv_step s act t hs ht) hQ schedule presenceInv_start
    (along_true schedule)

theorem PresenceInv.handles [DecidableEq ι] (h : PresenceInv config s) {i : ι}
    (hi : s.delivered i < s.updates.length) : (s.deliver config i).isSome = true := by
  have hp : s.updates[s.delivered i]? = some s.updates[s.delivered i] := List.getElem?_eq_getElem hi
  obtain ⟨a, ha⟩ := Option.ne_none_iff_exists'.mp (h.known.published _ (List.getElem_mem hi))
  simp [Presence.deliver, hp, ha]

/-- A name in the room, with all messages handled. -/
theorem PresenceInv.shown (h : PresenceInv config s) (hin : s.inRoom id (config.auction id))
    (hall : s.delivered (config.gateway id) = s.updates.length) : presenceIn (s.view id).shown u =
      presenceAfter (presenceIn (s.view id).listed u) (config.auction id) u
        (s.updates.drop (s.view id).joinedAt) := by
  obtain ⟨hnone, hmem⟩ := Presence.inRoom_iff.mp hin
  obtain ⟨-, hshown⟩ := (h.views.sockets id).heard hnone hmem
  rw [hshown, hall, List.take_length]

/-- What has not come since some point has not come since a later one. -/
theorem presenceEvents_drop_nil {n m : ℕ} (h : presenceEvents a u (us.drop n) = []) (hm : n ≤ m) :
    presenceEvents a u (us.drop m) = [] := by
  obtain ⟨k, rfl⟩ := Nat.exists_eq_add_of_le hm
  rw [← List.take_append_drop k (us.drop n), presenceEvents_append, List.append_eq_nil_iff] at h
  rw [← List.drop_drop]
  exact h.2

/-- The last message, from any point on. -/
theorem lastPresence_split (n : ℕ) : lastPresence a u us =
    presenceAfter (lastPresence a u (us.take n)) a u (us.drop n) := by
  rw [lastPresence_eq, lastPresence_eq, ← presenceAfter_append, List.take_append_drop]

/-- Of three presences, two agree exactly as each does with the third. -/
theorem presence_agree {x y z : PresenceEvent} : x = y ↔ (x = z ↔ y = z) := by
  cases x <;> cases y <;> cases z <;> simp

theorem PresenceInv.toLaw [DecidableEq ι] (h : PresenceInv config s) : PresenceLaw config s := by
  refine ⟨fun i => h.handles, fun id u hin hall hann => ?_⟩
  have htold := (h.told (config.auction id) u).resolve_left hann
  have hlisted : (u ∈ (s.view id).listed ↔
      lastPresence (config.auction id) u (s.updates.take (s.view id).joinedAt) = .userOnline) ↔
      presenceIn (s.view id).listed u =
        lastPresence (config.auction id) u (s.updates.take (s.view id).joinedAt) := by
    rw [← @presenceIn_eq_online u (s.view id).listed]
    exact presence_agree.symm
  rw [hlisted, ← presenceAfter_eq_iff, ← h.shown hin hall, ← lastPresence_split, ← htold,
    ← presenceIn_eq_iff]
  exact presence_agree

theorem PresenceInv.toPrompt (h : PresenceInv config s) : PromptJoiners config s := by
  intro id u hin hprompt hall hann
  have htold := (h.told (config.auction id) u).resolve_left hann
  have hshown := h.shown (u := u) hin hall
  by_cases hnone : presenceEvents (config.auction id) u (s.updates.drop (s.view id).joinedAt) = []
  · -- nothing since the join, so nothing since the later read
    refine iff_of_true ?_ (.inl hnone)
    have hlater := presenceEvents_drop_nil hnone hprompt
    rw [presenceAfter_of_nil hnone] at hshown
    rw [presenceIn_eq_iff.mp hshown]
    exact (((h.read id).2 u).resolve_left hann).resolve_left fun hne => hne hlater
  · rw [← htold, ← presenceIn_eq_iff, hshown, lastPresence_split (s.view id).joinedAt,
      presenceAfter_eq_iff.mpr (.inl hnone)]
    exact ⟨fun heq => .inr heq.symm, fun h => (h.resolve_left hnone).symm⟩

/-- In every run: nothing is missed by a socket that enters before its instance handles what came after
    the read, but what a later message tells wrongly. -/
theorem prompt_joiners_see_everyone [DecidableEq ι] (config : PresenceConfig ι)
    (schedule : List (PresenceAction ι)) :
    Always (presenceStep config) (PromptJoiners config) .start schedule :=
  always_of_presenceInv (fun _ hs => hs.toPrompt) schedule

/-- Ann is gone when Bob enters, and Bob has been told that she is there. -/
example : (exec (presenceStep annAndBob) .start (joins annSocket 5 ++ joins bobSocket 4 ++
    [.disconnect annSocket] ++ leaves annSocket 7 ++ List.replicate 3 (.deliver ()) ++
    joins bobSocket 1)).map (fun s =>
      ((s.view bobSocket).shown, s.registry.onlineInAuctionID 1, s.truthful 1 "ann")) =
    some ({"ann"}, {"bob"}, true) := by
  decide +kernel

/-- Bob enters in time. Ann's first tab finds no other and takes her name out when her second tab has
    registered, whose message comes last and is not true. -/
example : (exec (presenceStep annAndBob) .start (joins annSocket 5 ++ joins bobSocket 5 ++
    [.disconnect annSocket] ++ leaves annSocket 5 ++ joins annOtherSocket 3 ++
    leaves annSocket 2 ++ joins annOtherSocket 2 ++ List.replicate 4 (.deliver ()))).map (fun s =>
      ((s.view bobSocket).shown, s.registry.onlineInAuctionID 1, s.truthful 1 "ann")) =
    some ({"ann", "bob"}, {"bob"}, false) := by
  decide +kernel

end CarAuction
