import CarAuction.Sessions

/- What `registerSocket` and `unregisterSocket` keep, called one at a time for any
   sockets. A socket keeps its user and its address, but may register again, for the
   same or another auction, and `unregisterSocket` may be called for a socket that is
   not registered.

   The sets of a user and of an address have the sockets that have registered and
   were not unregistered since. Of an auction and a user three places agree: the names
   online, the user's sockets there, and the last presence event. That is so even of a
   socket which registers for a second auction and is then unregistered from that one
   only: it stays in the first in all three. -/
namespace CarAuction

open Machine Registry

inductive SessionCall where
  | register (id : SocketId) (auctionId : ℤ) (now : Time)
  | unregister (id : SocketId) (now : Time)

namespace SessionCall

def socket : SessionCall → SocketId
  | register id _ _ => id
  | unregister id _ => id

def run (owner : SocketId → Owner) (r : Registry) : SessionCall → Registry × List SessionUpdate
  | register id auctionId now =>
    r.registerSocket now (owner id).username id (owner id).ip auctionId
  | unregister id now => r.unregisterSocket now id

end SessionCall

/-- The registry, what was published on `session_updates`, and the calls so far. -/
structure Sessions where
  registry : Registry
  updates : List SessionUpdate
  calls : List SessionCall

def Sessions.start : Sessions := ⟨.empty, [], []⟩

def sessionStep (owner : SocketId → Owner) (s : Sessions) (c : SessionCall) : Option Sessions :=
  let (r, updates) := c.run owner s.registry
  some ⟨r, s.updates ++ updates, s.calls ++ [c]⟩

/-- The socket has registered, and has not been unregistered since. -/
def Registered (id : SocketId) (calls : List SessionCall) : Prop :=
  ∃ before after auctionId now, calls = before ++ .register id auctionId now :: after ∧
    ∀ later, SessionCall.unregister id later ∉ after

/-- The presence events of a user in an auction, in order. -/
def presenceEvents (a : ℤ) (u : String) (updates : List SessionUpdate) : List PresenceEvent :=
  (updates.filter fun p => p.auctionId = some a ∧ p.username = u).map SessionUpdate.event

/-- The last one; without any the user is offline. -/
def lastPresence (a : ℤ) (u : String) (updates : List SessionUpdate) : PresenceEvent :=
  (presenceEvents a u updates).getLast?.getD .userOffline

/-- The names online, the user's sockets in the auction and the last event agree. -/
def PresenceAgrees (r : Registry) (updates : List SessionUpdate) : Prop :=
  ∀ a u, (u ∈ r.onlineInAuctionID a ↔ (r.userAuction u (some a)).Nonempty) ∧
    (lastPresence a u updates = .userOnline ↔ (r.userAuction u (some a)).Nonempty)

structure SessionLaw (owner : SocketId → Owner) (s : Sessions) : Prop where
  userSockets : ∀ u id, id ∈ s.registry.userSockets u ↔ (owner id).username = u ∧ Registered id s.calls
  ipSockets : ∀ ip id, id ∈ s.registry.ipSockets ip ↔ (owner id).ip = ip ∧ Registered id s.calls
  presence : PresenceAgrees s.registry s.updates

/-- In every set the sockets other than this one are what they were. -/
def OthersKept (id : SocketId) (r r' : Registry) : Prop :=
  ∀ other, other ≠ id → (∀ u, other ∈ r'.userSockets u ↔ other ∈ r.userSockets u) ∧
    (∀ ip, other ∈ r'.ipSockets ip ↔ other ∈ r.ipSockets ip) ∧
    ∀ u a, other ∈ r'.userAuction u a ↔ other ∈ r.userAuction u a

/-- The law, and the keys of the sockets that are registered. -/
structure SessionInv (owner : SocketId → Owner) (s : Sessions) : Prop where
  law : SessionLaw owner s
  keys : ∀ id, Registered id s.calls → s.registry.socketUsername id = some (owner id).username ∧
    s.registry.socketIp id = some (owner id).ip
  gone : ∀ id, ¬ Registered id s.calls → s.registry.socketUsername id = none

variable {owner : SocketId → Owner} {s t : Sessions} {c : SessionCall} {calls : List SessionCall}
  {r : Registry} {updates : List SessionUpdate} {p : SessionUpdate} {id other : SocketId} {a auctionId : ℤ}
  {u username ip : String} {now : Time}

/-! The history of calls, and of events. -/

theorem registered_append : Registered id (calls ++ [c]) ↔
    (∃ auctionId now, c = .register id auctionId now) ∨
      (Registered id calls ∧ ∀ later, c ≠ .unregister id later) := by
  constructor
  · rintro ⟨before, after, auctionId, now, heq, hafter⟩
    rcases after.eq_nil_or_concat' with rfl | ⟨after, last, rfl⟩
    · exact .inl ⟨auctionId, now, (List.append_inj_right' heq rfl |> List.singleton_inj.mp)⟩
    · rw [← List.cons_append, ← List.append_assoc] at heq
      obtain ⟨rfl, hlast⟩ := List.append_inj' heq rfl
      cases hlast
      refine .inr ⟨⟨before, after, auctionId, now, rfl, fun later hmem => ?_⟩, fun later heq => ?_⟩
      · exact hafter later (List.mem_append_left _ hmem)
      · exact hafter later (by simp [heq])
  · rintro (⟨auctionId, now, rfl⟩ | ⟨⟨before, after, auctionId, now, rfl, hafter⟩, hnot⟩)
    · exact ⟨calls, [], auctionId, now, rfl, fun later hmem => by cases hmem⟩
    · refine ⟨before, after ++ [c], auctionId, now, by simp, fun later hmem => ?_⟩
      rcases List.mem_append.mp hmem with hmem | hmem
      · exact hafter later hmem
      · exact hnot later (List.mem_singleton.mp hmem).symm

@[simp] theorem registered_register : Registered other (calls ++ [.register id auctionId now]) ↔
    other = id ∨ Registered other calls := by
  rw [registered_append]
  constructor
  · rintro (⟨_, _, heq⟩ | ⟨hreg, -⟩)
    · cases heq
      exact .inl rfl
    · exact .inr hreg
  · rintro (rfl | hreg)
    · exact .inl ⟨auctionId, now, rfl⟩
    · exact .inr ⟨hreg, fun later heq => by cases heq⟩

@[simp] theorem registered_unregister : Registered other (calls ++ [.unregister id now]) ↔
    other ≠ id ∧ Registered other calls := by
  rw [registered_append]
  constructor
  · rintro (⟨_, _, heq⟩ | ⟨hreg, hnot⟩)
    · cases heq
    · exact ⟨fun heq => hnot now (by rw [heq]), hreg⟩
  · rintro ⟨hne, hreg⟩
    refine .inr ⟨hreg, fun later heq => ?_⟩
    cases heq
    exact hne rfl

theorem lastPresence_append : lastPresence a u (updates ++ [p]) =
    if p.auctionId = some a ∧ p.username = u then p.event else lastPresence a u updates := by
  unfold lastPresence presenceEvents
  by_cases hp : p.auctionId = some a ∧ p.username = u
  · simp [hp]
  · simp [hp]

/-! What one call keeps. -/

theorem PresenceAgrees.register (h : PresenceAgrees r updates) (id : SocketId) :
    PresenceAgrees (r.registerMulti username id ip auctionId)
      (updates ++ [⟨.userOnline, some auctionId, username, now⟩]) := by
  intro a u
  obtain ⟨honline, hevent⟩ := h a u
  rw [registerMulti_online, registerMulti_userAuction, lastPresence_append]
  by_cases hself : u = username ∧ a = auctionId
  · obtain ⟨rfl, rfl⟩ := hself
    simp
  · have hset : ¬ (u = username ∧ some a = some auctionId) := by simpa using hself
    have hother : ¬ (some auctionId = some a ∧ username = u) :=
      fun heq => hself ⟨heq.2.symm, (Option.some.inj heq.1).symm⟩
    rw [if_neg hset, if_neg hother, or_iff_right hself]
    exact ⟨honline, hevent⟩

theorem PresenceAgrees.unregister (h : PresenceAgrees r updates) (now : Time) (id : SocketId) :
    PresenceAgrees (r.unregisterSocket now id).1 (updates ++ (r.unregisterSocket now id).2) := by
  obtain ⟨-, heq⟩ | ⟨username, r', -, -, rfl, hcases⟩ := unregisterSocket_cases r now id
  · rw [heq, List.append_nil]
    exact h
  · -- of another user or auction nothing changes; here the sockets that are left decide
    intro a u
    obtain ⟨honline, hevent⟩ := h a u
    by_cases hself : u = username ∧ some a = r.socketAuctionId id
    · obtain ⟨rfl, hauction⟩ := hself
      rw [← hauction] at hcases
      rcases hcases with ⟨hlast, heq⟩ | ⟨hmore, heq⟩
      · rw [heq, lastPresence_append, if_pos ⟨rfl, rfl⟩, forgetUsername_userAuction, hlast,
          forgetUsername_online]
        simp
      · have hleft : ((r.unregisterMulti id u (r.socketIp id) (some a)).userAuction u
            (some a)).Nonempty := Finset.nonempty_iff_ne_empty.mpr hmore
        have hbefore : (r.userAuction u (some a)).Nonempty := by
          rw [unregisterMulti_userAuction, if_pos ⟨rfl, rfl⟩] at hleft
          exact hleft.mono (Finset.erase_subset _ _)
        rw [heq, List.append_nil, unregisterMulti_online]
        exact ⟨iff_of_true (honline.mpr hbefore) hleft, iff_of_true (hevent.mpr hbefore) hleft⟩
    · have hset : (r.unregisterMulti id username (r.socketIp id) (r.socketAuctionId id)).userAuction u
          (some a) = r.userAuction u (some a) := by
        rw [unregisterMulti_userAuction, if_neg hself]
      rcases hcases with ⟨-, heq⟩ | ⟨-, heq⟩
      · have hother : ¬ (r.socketAuctionId id = some a ∧ username = u) :=
          fun hp => hself ⟨hp.2.symm, hp.1.symm⟩
        have hkept : ¬ (u = username ∧ r.socketAuctionId id = some a) :=
          fun hp => hself ⟨hp.1, hp.2.symm⟩
        rw [heq, lastPresence_append, if_neg hother, forgetUsername_online, and_iff_left hkept]
        rw [forgetUsername_userAuction, hset]
        exact ⟨honline, hevent⟩
      · rw [heq, List.append_nil, hset]
        exact ⟨honline, hevent⟩

theorem registerMulti_othersKept :
    OthersKept id r (r.registerMulti username id ip auctionId) := by
  intro other hne
  refine ⟨fun u => ?_, fun i => ?_, fun u a => ?_⟩
  · exact mem_registerMulti_userSockets.trans (or_iff_right fun hself => hne hself.2)
  · exact mem_registerMulti_ipSockets.trans (or_iff_right fun hself => hne hself.2)
  · exact mem_registerMulti_userAuction.trans (or_iff_right fun hself => hne hself.2)

theorem unregisterMulti_othersKept {ip : Option String} {auctionId : Option ℤ} :
    OthersKept id r (r.unregisterMulti id username ip auctionId) := by
  intro other hne
  refine ⟨fun u => ?_, fun i => ?_, fun u a => ?_⟩
  · exact mem_unregisterMulti_userSockets.trans (and_iff_right fun hself => hne hself.2)
  · exact mem_unregisterMulti_ipSockets.trans (and_iff_right fun hself => hne hself.2)
  · exact mem_unregisterMulti_userAuction.trans (and_iff_right fun hself => hne hself.2)

theorem unregisterSocket_othersKept (r : Registry) (now : Time) (id : SocketId) :
    OthersKept id r (r.unregisterSocket now id).1 := by
  obtain ⟨-, heq⟩ | ⟨username, r', -, -, rfl, ⟨-, heq⟩ | ⟨-, heq⟩⟩ := unregisterSocket_cases r now id
  · intro other _
    simp [heq]
  · rw [heq]
    exact unregisterMulti_othersKept
  · rw [heq]
    exact unregisterMulti_othersKept

theorem othersKept_run (owner : SocketId → Owner) (r : Registry) (c : SessionCall) :
    OthersKept c.socket r (c.run owner r).1 := by
  cases c with
  | register id auctionId now => exact registerMulti_othersKept
  | unregister id now => exact unregisterSocket_othersKept r now id

/-- The sets under `key` gain the socket that registers. -/
theorem mem_after_register (key : SocketId → String) {k : String} :
    (k = key id ∧ other = id) ∨ (key other = k ∧ Registered other calls) ↔
      key other = k ∧ Registered other (calls ++ [.register id auctionId now]) := by
  rw [registered_register]
  constructor
  · rintro (⟨rfl, rfl⟩ | ⟨hkey, hreg⟩)
    · exact ⟨rfl, .inl rfl⟩
    · exact ⟨hkey, .inr hreg⟩
  · rintro ⟨rfl, rfl | hreg⟩
    · exact .inl ⟨rfl, rfl⟩
    · exact .inr ⟨rfl, hreg⟩

/-- They lose the one that is unregistered. -/
theorem mem_after_unregister (key : SocketId → String) {k : String} :
    (¬ (k = key id ∧ other = id) ∧ key other = k ∧ Registered other calls) ↔
      key other = k ∧ Registered other (calls ++ [.unregister id now]) := by
  rw [registered_unregister]
  constructor
  · rintro ⟨hnot, rfl, hreg⟩
    exact ⟨rfl, fun hid => hnot ⟨by rw [hid], hid⟩, hreg⟩
  · rintro ⟨rfl, hid, hreg⟩
    exact ⟨fun hself => hid hself.2, rfl, hreg⟩

theorem sessionInv_register (h : SessionInv owner s) (id : SocketId) (auctionId : ℤ) (now : Time) :
    SessionInv owner ⟨s.registry.registerMulti (owner id).username id (owner id).ip auctionId,
      s.updates ++ [⟨.userOnline, some auctionId, (owner id).username, now⟩],
      s.calls ++ [.register id auctionId now]⟩ := by
  refine ⟨⟨fun u other => ?_, fun ip other => ?_, h.law.presence.register id⟩, fun other hreg => ?_,
    fun other hnot => ?_⟩
  · rw [mem_registerMulti_userSockets, h.law.userSockets]
    exact mem_after_register fun id => (owner id).username
  · rw [mem_registerMulti_ipSockets, h.law.ipSockets]
    exact mem_after_register fun id => (owner id).ip
  · by_cases hid : other = id
    · subst hid
      simp [registerMulti]
    · have hold := h.keys other ((registered_register.mp hreg).resolve_left hid)
      simpa [registerMulti, hid] using hold
  · obtain ⟨hid, hold⟩ := not_or.mp (mt registered_register.mpr hnot)
    have hgone := h.gone other hold
    simpa [registerMulti, hid] using hgone

/-- The MULTI block with what the keys of a registered socket say. -/
theorem sessionInv_removed (h : SessionInv owner s)
    (hsets : r.userSockets = (s.registry.unregisterMulti id (owner id).username
      (some (owner id).ip) (s.registry.socketAuctionId id)).userSockets)
    (hips : r.ipSockets = (s.registry.unregisterMulti id (owner id).username
      (some (owner id).ip) (s.registry.socketAuctionId id)).ipSockets)
    (husername : r.socketUsername = Function.update s.registry.socketUsername id none)
    (hip : r.socketIp = Function.update s.registry.socketIp id none)
    (hpresence : PresenceAgrees r updates) :
    SessionInv owner ⟨r, updates, s.calls ++ [.unregister id now]⟩ := by
  refine ⟨⟨fun u other => ?_, fun i other => ?_, hpresence⟩, fun other hother => ?_,
    fun other hnot => ?_⟩
  · rw [hsets, mem_unregisterMulti_userSockets, h.law.userSockets]
    exact mem_after_unregister fun id => (owner id).username
  · rw [hips, mem_unregisterMulti_ipSockets, h.law.ipSockets]
    exact mem_after_unregister fun id => (owner id).ip
  · obtain ⟨hid, hold⟩ := registered_unregister.mp hother
    simpa [husername, hip, hid] using h.keys other hold
  · by_cases hid : other = id
    · simp [husername, hid]
    · have hold : ¬ Registered other s.calls :=
        fun hold => hnot (registered_unregister.mpr ⟨hid, hold⟩)
      simpa [husername, hid] using h.gone other hold

theorem sessionInv_unregister (h : SessionInv owner s) (id : SocketId) (now : Time) :
    SessionInv owner ⟨(s.registry.unregisterSocket now id).1,
      s.updates ++ (s.registry.unregisterSocket now id).2, s.calls ++ [.unregister id now]⟩ := by
  have hpresence := h.law.presence.unregister now id
  by_cases hreg : Registered id s.calls
  · obtain ⟨husername, hip⟩ := h.keys id hreg
    obtain ⟨-, heq⟩ | ⟨-, heq⟩ := unregisterSocket_registered now husername (owner id).nonempty rfl
    · rw [heq, hip] at hpresence ⊢
      exact sessionInv_removed h rfl rfl rfl rfl hpresence
    · rw [heq, hip] at hpresence ⊢
      exact sessionInv_removed h rfl rfl rfl rfl hpresence
  · -- nothing is known of the socket, and nothing happens
    have hsame : ∀ other, Registered other (s.calls ++ [.unregister id now]) ↔
        Registered other s.calls := by
      intro other
      rw [registered_unregister, and_iff_right_iff_imp]
      rintro hother rfl
      exact hreg hother
    rw [unregisterSocket_gone now (h.gone id hreg), List.append_nil]
    refine ⟨⟨?_, ?_, h.law.presence⟩, ?_, ?_⟩
    · simpa only [hsame] using h.law.userSockets
    · simpa only [hsame] using h.law.ipSockets
    · simpa only [hsame] using h.keys
    · simpa only [hsame] using h.gone

theorem sessionInv_start : SessionInv owner .start := by
  have hnone : ∀ id, ¬ Registered id [] := by
    rintro id ⟨before, after, auctionId, now, heq, -⟩
    simp at heq
  refine ⟨⟨fun u id => ?_, fun ip id => ?_, fun a u => ?_⟩, fun id hreg => ?_, fun id _ => rfl⟩
  · simp [Sessions.start, Registry.empty, hnone]
  · simp [Sessions.start, Registry.empty, hnone]
  · simp [Sessions.start, Registry.empty, onlineInAuctionID, lastPresence, presenceEvents]
  · exact absurd hreg (hnone id)

/-- Along every run of calls the registry obeys the session law after each of them, and a call
    changes no set's membership of another socket. -/
theorem session_law (owner : SocketId → Owner) (calls : List SessionCall) :
    Along (sessionStep owner) (fun s c t => OthersKept c.socket s.registry t.registry) .start calls ∧
      Always (sessionStep owner) (SessionLaw owner) .start calls := by
  refine run_of_inv (I := SessionInv owner) (P := fun _ _ _ => True) ?_ (fun s hs => hs.law) calls
    sessionInv_start (along_true calls)
  intro s c t hs _ ht
  cases ht
  refine ⟨?_, othersKept_run owner s.registry c⟩
  cases c with
  | register id auctionId now => exact sessionInv_register hs id auctionId now
  | unregister id now => exact sessionInv_unregister hs id now

end CarAuction
