import CarAuction.ConnectionCaps
import CarAuction.SessionLaw

/- Is a user shown online in an auction exactly while a socket of the user is in its
   room? A socket may join several auctions, but `socket:<id>:auctionId` names only
   the last one, so a disconnect takes the socket out of that auction alone. In the
   others its id stays in `user:<u>:<a>`, the user stays online there, and so does
   every later socket of the user that leaves them last.

   `no_ghost_iff`: presence is right along a run exactly when no socket leaves an
   auction as its user's last one there while the registry keeps the user in it. -/
namespace CarAuction

open Machine Registry

/-- The gateways, and the auctions whose rooms the connected sockets are in. -/
structure Rooms where
  connections : Connections
  joined : SocketId → Finset ℤ

def Rooms.start : Rooms := ⟨.start, fun _ => ∅⟩

/-- The room that the event takes the socket into, if it stays. -/
def ConnectionEvent.room (id : SocketId) : ConnectionEvent → Finset ℤ
  | .joinAuction id' auctionId _ _ => if id' = id then {auctionId} else ∅
  | _ => ∅

def roomStep (limits : Limits) (client : SocketId → Client) (s : Rooms) (e : ConnectionEvent) :
    Option Rooms :=
  (connectionStep limits client s.connections e).map fun t =>
    { connections := t
      joined := fun id => if id ∈ t.connected then s.joined id ∪ e.room id else ∅ }

/-- A connected socket of the user is in the room. -/
def InAuction (client : SocketId → Client) (connected : Finset SocketId)
    (joined : SocketId → Finset ℤ) (a : ℤ) (u : String) : Prop :=
  ∃ id ∈ connected, (client id).username = u ∧ a ∈ joined id

/-- The names online are those of the users in the room; of a user who has left altogether none is
    online, and wherever there was a presence event the last one was `user_offline`. -/
def NoGhost (client : SocketId → Client) (s : Rooms) : Prop :=
  (∀ a u, u ∈ s.connections.registry.onlineInAuctionID a ↔
    InAuction client s.connections.connected s.joined a u) ∧
  ∀ u, (∀ id ∈ s.connections.connected, (client id).username ≠ u) → ∀ a,
    u ∉ s.connections.registry.onlineInAuctionID a ∧
      (presenceEvents a u s.connections.updates ≠ [] →
        (presenceEvents a u s.connections.updates).getLast? = some .userOffline)

/-- No other connected socket of the user is in the auction, and the registry does not take the user
    out of it with this one: the key names another auction, or an id that is gone is still there. -/
def StaysBehind (client : SocketId → Client) (s : Rooms) (id : SocketId) (a : ℤ) : Prop :=
  (∀ other ∈ s.connections.connected, other ≠ id →
    (client other).username = (client id).username → a ∉ s.joined other) ∧
  (s.connections.registry.socketAuctionId id ≠ some a ∨
    ∃ other ∈ s.connections.registry.userAuction (client id).username (some a), other ≠ id)

/-- A socket leaves, and the user's ghost stays in an auction. -/
def LeavesGhost (limits : Limits) (client : SocketId → Client) (s : Rooms) (e : ConnectionEvent) :
    Prop :=
  ∃ id, Leaves limits client s.connections id e ∧ ∃ a ∈ s.joined id, StaysBehind client s id a

structure RoomsInv (client : SocketId → Client) (s : Rooms) : Prop where
  noGhost : ∀ a u, u ∈ s.connections.registry.onlineInAuctionID a ↔
    InAuction client s.connections.connected s.joined a u
  presence : PresenceAgrees s.connections.registry s.connections.updates
  members : ∀ id, ∀ a ∈ s.joined id,
    id ∈ s.connections.registry.userAuction (client id).username (some a)
  keys : ∀ id, (s.joined id).Nonempty →
    s.connections.registry.socketUsername id = some (client id).username ∧
      ∃ a ∈ s.joined id, s.connections.registry.socketAuctionId id = some a
  gone : ∀ id, s.joined id = ∅ → s.connections.registry.socketUsername id = none
  outside : ∀ id, id ∉ s.connections.connected → s.joined id = ∅

variable {limits : Limits} {client : SocketId → Client} {s t : Rooms} {e : ConnectionEvent}
  {r : Registry} {id : SocketId} {a : ℤ} {u : String} {now : Time}

/-! What a disconnect does to presence. -/

/-- A disconnected user goes offline in the auction that the key names, if no other id is left. -/
theorem unregisterSocket_online (husername : r.socketUsername id = some (client id).username) :
    u ∈ (r.unregisterSocket now id).1.onlineInAuctionID a ↔ u ∈ r.onlineInAuctionID a ∧
      ¬ (u = (client id).username ∧ r.socketAuctionId id = some a ∧
        ∀ other ∈ r.userAuction (client id).username (some a), other = id) := by
  have hempty : ∀ auctionId, (r.unregisterMulti id (client id).username (r.socketIp id)
      auctionId).userAuction (client id).username auctionId = ∅ ↔
        ∀ other ∈ r.userAuction (client id).username auctionId, other = id := by
    intro auctionId
    rw [Finset.eq_empty_iff_forall_notMem]
    simp only [mem_unregisterMulti_userAuction, and_self, true_and, not_and, not_imp_not]
  obtain ⟨hlast, heq⟩ | ⟨hmore, heq⟩ :=
    unregisterSocket_registered now husername (client id).nonempty rfl
  · rw [heq, forgetUsername_online, unregisterMulti_online]
    refine and_congr_right fun _ => not_congr ⟨fun h => ⟨h.1, h.2, ?_⟩, fun h => ⟨h.1, h.2.1⟩⟩
    rw [h.2] at hlast
    exact (hempty _).mp hlast
  · rw [heq, unregisterMulti_online, iff_self_and]
    rintro - ⟨-, hauction, hothers⟩
    rw [hauction] at hmore
    exact hmore ((hempty _).mpr hothers)

section

variable {connected : Finset SocketId} {joined : SocketId → Finset ℤ}

theorem not_inAuction_erase : ¬ InAuction client (connected.erase id) joined a u ↔
    ∀ other ∈ connected, other ≠ id → (client other).username = u → a ∉ joined other := by
  constructor
  · intro hnot other hother hne hu hin
    exact hnot ⟨other, Finset.mem_erase.mpr ⟨hne, hother⟩, hu, hin⟩
  · rintro halone ⟨other, hother, hu, hin⟩
    obtain ⟨hne, hother⟩ := Finset.mem_erase.mp hother
    exact halone other hother hne hu hin

/-- A socket that leaves does not matter in the auctions where it was not, nor to other users. -/
theorem inAuction_erase_of_not (hself : ¬ (u = (client id).username ∧ a ∈ joined id)) :
    InAuction client (connected.erase id) joined a u ↔ InAuction client connected joined a u := by
  constructor
  · rintro ⟨other, hother, hu, hin⟩
    exact ⟨other, Finset.mem_of_mem_erase hother, hu, hin⟩
  · rintro ⟨other, hother, hu, hin⟩
    refine ⟨other, Finset.mem_erase.mpr ⟨?_, hother⟩, hu, hin⟩
    rintro rfl
    exact hself ⟨hu.symm, hin⟩

end

/-- In an auction where the socket was, presence is right after it has left exactly when its user does not
    stay behind there. -/
theorem online_behind (now : Time) (h : RoomsInv client s) (ha : a ∈ s.joined id) :
    ((client id).username ∈ (s.connections.registry.unregisterSocket now id).1.onlineInAuctionID a ↔
      InAuction client (s.connections.connected.erase id) s.joined a (client id).username) ↔
    ¬ StaysBehind client s id a := by
  have hconnected : id ∈ s.connections.connected := by
    by_contra hout
    rw [h.outside id hout] at ha
    exact Finset.notMem_empty a ha
  have hin : InAuction client s.connections.connected s.joined a (client id).username :=
    ⟨id, hconnected, rfl, ha⟩
  rw [unregisterSocket_online (h.keys id ⟨a, ha⟩).1, h.noGhost]
  by_cases hstill : InAuction client (s.connections.connected.erase id) s.joined a (client id).username
  · refine iff_of_true (iff_of_true ⟨hin, fun hforget => ?_⟩ hstill) fun hbehind => ?_
    · obtain ⟨other, hother, hu, hroom⟩ := hstill
      have hmem := h.members other a hroom
      exact (Finset.mem_erase.mp hother).1 (hforget.2.2 other (hu ▸ hmem))
    · exact not_inAuction_erase.mpr hbehind.1 hstill
  · have halone := not_inAuction_erase.mp hstill
    constructor
    · rintro hright ⟨-, hkept⟩
      obtain ⟨-, hnamed, hothers⟩ := not_and_not_right.mp (mt hright.mp hstill) hin
      rcases hkept with hnot | ⟨other, hother, hne⟩
      · exact hnot hnamed
      · exact hne (hothers other hother)
    · -- the last one: the key names this auction, and no other id is left
      intro hgone
      refine iff_of_false (fun hon => hon.2 ⟨rfl, ?_, fun other hother => ?_⟩) hstill
      · by_contra hne
        exact hgone ⟨halone, .inl hne⟩
      · by_contra hne
        exact hgone ⟨halone, .inr ⟨other, hother, hne⟩⟩

/-- Presence is right after a socket has left exactly when its user stays behind nowhere. -/
theorem online_after_leaving (now : Time) (h : RoomsInv client s) (hjoined : (s.joined id).Nonempty) :
    (∀ a u, u ∈ (s.connections.registry.unregisterSocket now id).1.onlineInAuctionID a ↔
      InAuction client (s.connections.connected.erase id) s.joined a u) ↔
    ¬ ∃ a ∈ s.joined id, StaysBehind client s id a := by
  obtain ⟨husername, last, hlast, hauction⟩ := h.keys id hjoined
  constructor
  · rintro hright ⟨a, ha, hbehind⟩
    exact (online_behind now h ha).mp (hright a _) hbehind
  · intro hleft a u
    by_cases hself : u = (client id).username ∧ a ∈ s.joined id
    · obtain ⟨rfl, ha⟩ := hself
      exact (online_behind now h ha).mpr fun hbehind => hleft ⟨a, ha, hbehind⟩
    · rw [unregisterSocket_online husername, h.noGhost, inAuction_erase_of_not hself]
      refine and_iff_left ?_
      rintro ⟨rfl, hnamed, -⟩
      rw [hauction, Option.some.injEq] at hnamed
      exact hself ⟨rfl, hnamed ▸ hlast⟩

/-! One event. -/

theorem Leaves.unique {s : Connections} {id' : SocketId} (h : Leaves limits client s id e)
    (h' : Leaves limits client s id' e) : id = id' := by
  cases e with
  | connect => exact h.elim
  | joinAuction => exact h.1.symm.trans h'.1
  | placeBid => exact h.1.symm.trans h'.1
  | disconnect => exact h.symm.trans h'

theorem room_of_leaves {s : Connections} {other : SocketId} (h : Leaves limits client s id e)
    (hne : other ≠ id) : e.room other = ∅ := by
  cases e with
  | joinAuction => exact if_neg fun heq => hne (heq.symm.trans h.1)
  | _ => rfl

/-- The outcomes of an event, with the rooms. -/
theorem roomStep_cases (houtside : ∀ id, id ∉ s.connections.connected → s.joined id = ∅)
    (h : roomStep limits client s e = some t) :
    (∃ id, t = ⟨{ s.connections with connected := insert id s.connections.connected }, s.joined⟩ ∧
      ∀ id', ¬ Leaves limits client s.connections id' e) ∨
    (t = s ∧ ∀ id', ¬ Leaves limits client s.connections id' e) ∨
    (∃ id now, Leaves limits client s.connections id e ∧
      t = ⟨s.connections.disconnect id now, Function.update s.joined id ∅⟩) ∨
    ∃ id a now, id ∈ s.connections.connected ∧
      t = ⟨s.connections.letIn client id a now,
        Function.update s.joined id (insert a (s.joined id))⟩ ∧
      ∀ id', ¬ Leaves limits client s.connections id' e := by
  obtain ⟨c, hc, rfl⟩ := Option.map_eq_some_iff.mp h
  obtain ⟨id, rfl, rfl⟩ | ⟨id, now, rfl, hguard, rfl⟩ | ⟨id, now, -, hleaves, rfl⟩ |
    ⟨id, a, now, room, rfl, hin, hexist, hguard, rfl⟩ := connectionStep_cases hc
  · refine .inl ⟨id, ?_, fun _ h => h⟩
    congr
    funext other
    by_cases hother : other ∈ insert id s.connections.connected
    · simp [ConnectionEvent.room, hother]
    · rw [if_neg hother, houtside other fun hmem => hother (Finset.mem_insert_of_mem hmem)]
  · refine .inr (.inl ⟨?_, ?_⟩)
    · congr
      funext other
      by_cases hother : other ∈ s.connections.connected
      · simp [ConnectionEvent.room, hother]
      · rw [if_neg hother, houtside other hother]
    · rintro id' ⟨rfl, hrefused⟩
      simp [hguard] at hrefused
  · refine .inr (.inr (.inl ⟨id, now, hleaves, ?_⟩))
    congr
    funext other
    by_cases hself : other = id
    · simp [hself, Connections.disconnect]
    · by_cases hother : other ∈ s.connections.connected
      · simp [Connections.disconnect, hself, hother, room_of_leaves hleaves hself]
      · simp [Connections.disconnect, hself, hother, houtside other hother]
  · refine .inr (.inr (.inr ⟨id, a, now, hin, ?_, ?_⟩))
    · congr
      funext other
      by_cases hself : other = id
      · subst hself
        simp [Connections.letIn, ConnectionEvent.room, hin]
      · by_cases hother : other ∈ s.connections.connected
        · simp [Connections.letIn, ConnectionEvent.room, hself, hother, Ne.symm hself]
        · simp [Connections.letIn, hself, hother, houtside other hother]
    · rintro id' ⟨rfl, hrefused | hmissing⟩
      · simp [hguard] at hrefused
      · rw [hexist] at hmissing
        cases hmissing

/-- What the rooms of the others are does not depend on those of a socket that is gone. -/
theorem inAuction_erase {connected : Finset SocketId} {joined : SocketId → Finset ℤ}
    {rooms : Finset ℤ} :
    InAuction client (connected.erase id) (Function.update joined id rooms) a u ↔
      InAuction client (connected.erase id) joined a u := by
  refine exists_congr fun other => and_congr_right fun hother => ?_
  rw [Function.update_of_ne (Finset.mem_erase.mp hother).1]

/-- A socket that enters a room takes its user there, and nothing else changes. -/
theorem inAuction_insert {connected : Finset SocketId} {joined : SocketId → Finset ℤ} {b : ℤ}
    (hin : id ∈ connected) :
    InAuction client connected (Function.update joined id (insert a (joined id))) b u ↔
      (u = (client id).username ∧ b = a) ∨ InAuction client connected joined b u := by
  constructor
  · rintro ⟨other, hother, hu, hroom⟩
    by_cases hself : other = id
    · subst hself
      rw [Function.update_self, Finset.mem_insert] at hroom
      rcases hroom with rfl | hroom
      · exact .inl ⟨hu.symm, rfl⟩
      · exact .inr ⟨other, hother, hu, hroom⟩
    · rw [Function.update_of_ne hself] at hroom
      exact .inr ⟨other, hother, hu, hroom⟩
  · rintro (⟨rfl, rfl⟩ | ⟨other, hother, hu, hroom⟩)
    · exact ⟨id, hin, rfl, by simp⟩
    · refine ⟨other, hother, hu, ?_⟩
      by_cases hself : other = id
      · subst hself
        simp [hroom]
      · simpa [hself] using hroom

theorem roomsInv_leave (h : RoomsInv client s) (hleft : ¬ ∃ a ∈ s.joined id, StaysBehind client s id a) :
    RoomsInv client ⟨s.connections.disconnect id now, Function.update s.joined id ∅⟩ := by
  have hname : s.connections.registry.socketUsername id ≠ some "" := by
    rcases (s.joined id).eq_empty_or_nonempty with hempty | hjoined
    · rw [h.gone id hempty]
      exact fun h => nomatch h
    · rw [(h.keys id hjoined).1]
      exact fun heq => (client id).nonempty (Option.some.inj heq)
  obtain ⟨husername, hkeys⟩ := unregisterSocket_keys s.connections.registry now id hname
  have hothers := unregisterSocket_othersKept s.connections.registry now id
  refine ⟨fun a u => ?_, h.presence.unregister now id, fun other b hb => ?_, fun other hjoined => ?_,
    fun other hempty => ?_, fun other hout => ?_⟩
  · rw [Connections.disconnect, inAuction_erase]
    rcases (s.joined id).eq_empty_or_nonempty with hempty | hjoined
    · -- it was in no room
      rw [handleDisconnect, unregisterSocket_gone now (h.gone id hempty), h.noGhost,
        inAuction_erase_of_not]
      rintro ⟨-, hin⟩
      rw [hempty] at hin
      exact Finset.notMem_empty a hin
    · exact (online_after_leaving now h hjoined).mpr hleft a u
  · by_cases hself : other = id
    · simp [hself] at hb
    · simp only [Function.update_of_ne hself] at hb
      exact ((hothers other hself).2.2 _ _).mpr (h.members other b hb)
  · by_cases hself : other = id
    · simp [hself] at hjoined
    · simp only [Function.update_of_ne hself] at hjoined ⊢
      simp only [Connections.disconnect, handleDisconnect, husername, Function.update_of_ne hself,
        (hkeys other hself).2]
      exact h.keys other hjoined
  · by_cases hself : other = id
    · simp [hself, Connections.disconnect, handleDisconnect, husername]
    · simp only [Function.update_of_ne hself] at hempty
      simp only [Connections.disconnect, handleDisconnect, husername, Function.update_of_ne hself]
      exact h.gone other hempty
  · by_cases hself : other = id
    · simp [hself]
    · simp only [Function.update_of_ne hself]
      exact h.outside other fun hmem => hout (Finset.mem_erase.mpr ⟨hself, hmem⟩)

theorem roomsInv_letIn (h : RoomsInv client s) (hin : id ∈ s.connections.connected) :
    RoomsInv client ⟨s.connections.letIn client id a now,
      Function.update s.joined id (insert a (s.joined id))⟩ := by
  refine ⟨fun b u => ?_, h.presence.register id, fun other b hb => ?_, fun other hjoined => ?_,
    fun other hempty => ?_, fun other hout => ?_⟩
  · rw [Connections.letIn, registerMulti_online, h.noGhost, inAuction_insert hin]
  · rw [Connections.letIn, mem_registerMulti_userAuction]
    by_cases hself : other = id
    · subst hself
      simp only [Function.update_self, Finset.mem_insert] at hb
      rcases hb with rfl | hb
      · exact .inl ⟨⟨rfl, rfl⟩, rfl⟩
      · exact .inr (h.members other b hb)
    · simp only [Function.update_of_ne hself] at hb
      exact .inr (h.members other b hb)
  · by_cases hself : other = id
    · subst hself
      exact ⟨by simp [Connections.letIn, registerMulti], a, by simp,
        by simp [Connections.letIn, registerMulti]⟩
    · simp only [Function.update_of_ne hself] at hjoined ⊢
      simp only [Connections.letIn, registerMulti, Function.update_of_ne hself]
      exact h.keys other hjoined
  · by_cases hself : other = id
    · simp [hself] at hempty
    · simp only [Function.update_of_ne hself] at hempty
      simp only [Connections.letIn, registerMulti, Function.update_of_ne hself]
      exact h.gone other hempty
  · have hself : other ≠ id := by
      rintro rfl
      exact hout hin
    simp only [Function.update_of_ne hself]
    exact h.outside other hout

/-- A socket that connects is in no room yet. -/
theorem roomsInv_connect (h : RoomsInv client s) :
    RoomsInv client ⟨{ s.connections with connected := insert id s.connections.connected },
      s.joined⟩ := by
  refine ⟨fun a u => ?_, h.presence, h.members, h.keys, h.gone, fun other hout => ?_⟩
  · rw [h.noGhost]
    constructor
    · rintro ⟨other, hother, hu, hroom⟩
      exact ⟨other, Finset.mem_insert_of_mem hother, hu, hroom⟩
    · rintro ⟨other, hother, hu, hroom⟩
      refine ⟨other, ?_, hu, hroom⟩
      by_contra hout
      rw [h.outside other hout] at hroom
      exact Finset.notMem_empty _ hroom
  · exact h.outside other fun hmem => hout (Finset.mem_insert_of_mem hmem)

theorem roomsInv_start : RoomsInv client .start := by
  refine ⟨fun a u => ?_, fun a u => ?_, fun id b hb => ?_, fun id hjoined => ?_, fun _ _ => rfl,
    fun _ _ => rfl⟩
  · simp [Rooms.start, Connections.start, Registry.empty, onlineInAuctionID, InAuction]
  · simp [Rooms.start, Connections.start, Registry.empty, onlineInAuctionID, lastPresence,
      presenceEvents]
  · exact absurd hb (Finset.notMem_empty _)
  · exact absurd hjoined Finset.not_nonempty_empty

theorem RoomsInv.toNoGhost (h : RoomsInv client s) : NoGhost client s := by
  refine ⟨h.noGhost, fun u hgone a => ?_⟩
  have hoff : u ∉ s.connections.registry.onlineInAuctionID a := by
    rw [h.noGhost]
    rintro ⟨id, hid, hu, -⟩
    exact hgone id hid hu
  refine ⟨hoff, fun hevents => ?_⟩
  obtain ⟨honline, hlast⟩ := h.presence a u
  have hnot : lastPresence a u s.connections.updates ≠ .userOnline :=
    fun heq => hoff (honline.mpr (hlast.mp heq))
  obtain ⟨event, hevent⟩ := Option.isSome_iff_exists.mp (List.getLast?_isSome.mpr hevents)
  rw [lastPresence, hevent, Option.getD_some] at hnot
  rw [hevent]
  cases event with
  | userOnline => exact absurd rfl hnot
  | userOffline => rfl

/-- Along every run the users shown online in an auction are exactly those with a connected socket in
    its room, exactly when no socket leaves a ghost behind. -/
theorem no_ghost_iff (limits : Limits) (client : SocketId → Client)
    (schedule : List ConnectionEvent) :
    Always (roomStep limits client) (NoGhost client) .start schedule ↔
      Along (roomStep limits client) (fun s e _ => ¬ LeavesGhost limits client s e) .start schedule := by
  refine always_iff_of_inv (I := RoomsInv client) (D := fun _ _ _ => True) (fun s hs => hs.toNoGhost)
    ?_ ?_ schedule roomsInv_start (along_true schedule)
  · intro s e t hs _ ht hquiet
    obtain ⟨id, rfl, -⟩ | ⟨rfl, -⟩ | ⟨id, now, hleaves, rfl⟩ | ⟨id, a, now, hin, rfl, -⟩ :=
      roomStep_cases hs.outside ht
    · exact roomsInv_connect hs
    · exact hs
    · exact roomsInv_leave hs fun hghost => hquiet ⟨id, hleaves, hghost⟩
    · exact roomsInv_letIn hs hin
  · intro s e t hs _ ht ⟨id', hleaves', a, ha, hbehind⟩ hright
    obtain ⟨id, -, hnone⟩ | ⟨-, hnone⟩ | ⟨id, now, hleaves, rfl⟩ | ⟨id, a, now, -, -, hnone⟩ :=
      roomStep_cases hs.outside ht
    · exact hnone id' hleaves'
    · exact hnone id' hleaves'
    · cases hleaves.unique hleaves'
      have hpresence := online_after_leaving now hs ⟨a, ha⟩
      refine hpresence.mp (fun b u => ?_) ⟨a, ha, hbehind⟩
      rw [← inAuction_erase]
      exact hright.1 b u
    · exact hnone id' hleaves'

/-- Ann joins two auctions with one socket, and disconnects. -/
def joinsTwo : List ConnectionEvent :=
  [.connect annSocket, .joinAuction annSocket 1 0 openRoom, .joinAuction annSocket 2 1 openRoom,
    .disconnect annSocket 2]

theorem ghost_stays_online : ¬ Always (roomStep ⟨3, 10⟩ fun _ => annClient)
    (NoGhost fun _ => annClient) .start joinsTwo := by
  intro h
  obtain ⟨s, hs, hempty, honline⟩ : ∃ s ∈ exec (roomStep ⟨3, 10⟩ fun _ => annClient) .start joinsTwo,
      s.connections.connected = ∅ ∧ "ann" ∈ s.connections.registry.onlineInAuctionID 1 := by
    decide +kernel
  obtain ⟨id, hid, -⟩ := ((h.last hs).1 1 "ann").mp honline
  rw [hempty] at hid
  exact Finset.notMem_empty _ hid

end CarAuction
