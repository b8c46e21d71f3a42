import CarAuction.Lib.Machine
import CarAuction.Gateway
import Mathlib.Data.Finset.Card

/- The sessions of `RedisService`: which sockets a user, an address and an auction
   have, kept in Redis sets and in three keys of each socket.

   Correspondence (TypeScript ↔ Lean):
     `ip:<ip>:sockets`, `user:<u>:sockets`             ↔ `ipSockets`, `userSockets`
     `user:<u>:<a>`, `auction:<a>:username`            ↔ `userAuction`, `auctionUsername`
     `socket:<id>:ip`, `:username`, `:auctionId`       ↔ `socketIp`, `socketUsername`, `socketAuctionId`
     `scard` of an absent key                          ↔ the size of the empty set
     a `get` that answers `null`, in a template        ↔ `none`, the text `null`
     the MULTI blocks                                  ↔ `registerMulti`, `unregisterMulti`
     `registerSocket`, `unregisterSocket`, undisturbed ↔ the functions of these names
     the same, statement by statement                  ↔ `registerStep`, `unregisterStep`
   No key expires here. -/
namespace CarAuction

open Machine

structure Registry where
  ipSockets : String → Finset SocketId
  userSockets : String → Finset SocketId
  userAuction : String → Option ℤ → Finset SocketId
  auctionUsername : Option ℤ → Finset String
  socketIp : SocketId → Option String
  socketUsername : SocketId → Option String
  socketAuctionId : SocketId → Option ℤ

def Registry.empty : Registry where
  ipSockets := fun _ => ∅
  userSockets := fun _ => ∅
  userAuction := fun _ _ => ∅
  auctionUsername := fun _ => ∅
  socketIp := fun _ => none
  socketUsername := fun _ => none
  socketAuctionId := fun _ => none

/-- Whose a socket is, and where it connects from. -/
structure Owner where
  username : String
  nonempty : username ≠ ""
  ip : String

theorem ann_nonempty : "ann" ≠ "" := by decide

def annOwner : Owner := ⟨"ann", ann_nonempty, "10.0.0.1"⟩

inductive PresenceEvent where
  | userOnline
  | userOffline
  deriving DecidableEq

/-- A message on `session_updates`. -/
structure SessionUpdate where
  event : PresenceEvent
  auctionId : Option ℤ
  username : String
  lastSeen : Time
  deriving DecidableEq

namespace Registry

/-- `onlineInAuctionID`. -/
def onlineInAuctionID (r : Registry) (auctionId : ℤ) : Finset String := r.auctionUsername (some auctionId)

/-- The MULTI block of `registerSocket`. -/
def registerMulti (r : Registry) (username : String) (id : SocketId) (ip : String)
    (auctionId : ℤ) : Registry where
  ipSockets := Function.update r.ipSockets ip (insert id (r.ipSockets ip))
  socketIp := Function.update r.socketIp id (some ip)
  userSockets := Function.update r.userSockets username (insert id (r.userSockets username))
  socketUsername := Function.update r.socketUsername id (some username)
  socketAuctionId := Function.update r.socketAuctionId id (some auctionId)
  auctionUsername := Function.update r.auctionUsername (some auctionId)
    (insert username (r.auctionUsername (some auctionId)))
  userAuction := Function.update r.userAuction username
    (Function.update (r.userAuction username) (some auctionId)
      (insert id (r.userAuction username (some auctionId))))

/-- The MULTI block of `unregisterSocket`, with what its reads have returned. -/
def unregisterMulti (r : Registry) (id : SocketId) (username : String) (ip : Option String)
    (auctionId : Option ℤ) : Registry where
  ipSockets := Function.update r.ipSockets (ip.getD "null") ((r.ipSockets (ip.getD "null")).erase id)
  socketIp := Function.update r.socketIp id none
  userSockets := Function.update r.userSockets username ((r.userSockets username).erase id)
  socketUsername := Function.update r.socketUsername id none
  socketAuctionId := Function.update r.socketAuctionId id none
  auctionUsername := r.auctionUsername
  userAuction := Function.update r.userAuction username
    (Function.update (r.userAuction username) auctionId
      ((r.userAuction username auctionId).erase id))

/-- `srem` of the username from the auction's set. -/
def forgetUsername (r : Registry) (username : String) (auctionId : Option ℤ) : Registry :=
  { r with auctionUsername :=
      Function.update r.auctionUsername auctionId ((r.auctionUsername auctionId).erase username) }

def registerSocket (r : Registry) (now : Time) (username : String) (id : SocketId) (ip : String)
    (auctionId : ℤ) : Registry × List SessionUpdate :=
  (r.registerMulti username id ip auctionId, [⟨.userOnline, some auctionId, username, now⟩])

def unregisterSocket (r : Registry) (now : Time) (id : SocketId) : Registry × List SessionUpdate :=
  match r.socketUsername id with
  | none => (r, [])
  | some username =>
    -- an empty name is falsy
    if username = "" then (r, [])
    else
      let auctionId := r.socketAuctionId id
      let r := r.unregisterMulti id username (r.socketIp id) auctionId
      if (r.userAuction username auctionId).card = 0 then
        (r.forgetUsername username auctionId, [⟨.userOffline, auctionId, username, now⟩])
      else (r, [])

end Registry

/-- Where a `registerSocket` call is. -/
inductive RegisterPc where
  | begin
  | registered
  | finished
  deriving DecidableEq

/-- The next statement of a `registerSocket` call, with the clock reading `now`. -/
def registerStep (username : String) (id : SocketId) (ip : String) (auctionId : ℤ) (now : Time)
    (r : Registry) : RegisterPc → Option (Registry × RegisterPc × List SessionUpdate)
  | .begin => some (r.registerMulti username id ip auctionId, .registered, [])
  | .registered => some (r, .finished, [⟨.userOnline, some auctionId, username, now⟩])
  | .finished => none

/-- Where an `unregisterSocket` call is. -/
inductive UnregisterPc where
  | begin
  | foundUsername (username : String)
  | foundIp (username : String) (ip : Option String)
  | foundAuctionId (username : String) (ip : Option String) (auctionId : Option ℤ)
  | removed (username : String) (auctionId : Option ℤ)
  | offline (username : String) (auctionId : Option ℤ)
  | forgotten (username : String) (auctionId : Option ℤ)
  | finished
  deriving DecidableEq

/-- The next statement of an `unregisterSocket` call, with the clock reading `now`. -/
def unregisterStep (id : SocketId) (now : Time) (r : Registry) :
    UnregisterPc → Option (Registry × UnregisterPc × List SessionUpdate)
  | .begin =>
    match r.socketUsername id with
    | none => some (r, .finished, [])
    | some username =>
      if username = "" then some (r, .finished, []) else some (r, .foundUsername username, [])
  | .foundUsername username => some (r, .foundIp username (r.socketIp id), [])
  | .foundIp username ip => some (r, .foundAuctionId username ip (r.socketAuctionId id), [])
  | .foundAuctionId username ip auctionId =>
    some (r.unregisterMulti id username ip auctionId, .removed username auctionId, [])
  | .removed username auctionId =>
    if (r.userAuction username auctionId).card = 0 then some (r, .offline username auctionId, [])
    else some (r, .finished, [])
  | .offline username auctionId =>
    -- sent, but not awaited, before the publication
    some (r.forgetUsername username auctionId, .forgotten username auctionId, [])
  | .forgotten username auctionId =>
    some (r, .finished, [⟨.userOffline, auctionId, username, now⟩])
  | .finished => none

/-! Undisturbed calls. -/

/-- A call alone with the registry, with its effects so far, driven by clock readings. -/
def driven {pc ε : Type*} (step : Time → Registry → pc → Option (Registry × pc × List ε))
    (s : Registry × pc × List ε) (now : Time) : Option (Registry × pc × List ε) :=
  (step now s.1 s.2.1).map fun t => (t.1, t.2.1, s.2.2 ++ t.2.2)

theorem registerSocket_statements (r : Registry) (now : Time) (username : String) (id : SocketId)
    (ip : String) (auctionId : ℤ) :
    exec (driven (registerStep username id ip auctionId)) (r, .begin, []) [now, now] =
      some ((r.registerSocket now username id ip auctionId).1, .finished,
        (r.registerSocket now username id ip auctionId).2) := rfl

/-- The statements of `unregisterSocket`, undisturbed, do what the function does. -/
theorem unregisterSocket_statements (r : Registry) (now : Time) (id : SocketId) :
    ∃ n, exec (driven (unregisterStep id)) (r, .begin, []) (List.replicate n now) =
      some ((r.unregisterSocket now id).1, .finished, (r.unregisterSocket now id).2) := by
  unfold Registry.unregisterSocket
  cases husername : r.socketUsername id with
  | none => exact ⟨1, by simp [driven, unregisterStep, husername]⟩
  | some username =>
    by_cases hempty : username = ""
    · exact ⟨1, by simp [driven, unregisterStep, husername, hempty]⟩
    · simp only [if_neg hempty]
      split
      · next hcard =>
        refine ⟨7, ?_⟩
        simp [List.replicate, exec, driven, unregisterStep, husername, hempty,
          Finset.card_eq_zero.mp hcard]
      · next hcard =>
        refine ⟨5, ?_⟩
        simp only [List.replicate, exec, driven, unregisterStep, husername, if_neg hempty,
          if_neg hcard, Option.map_some, Option.bind_some, List.append_nil]

/-! The members of the sets. -/

variable {r : Registry} {username u : String} {id id' : SocketId} {ip i : String} {auctionId : ℤ}

namespace Registry

/-- An update at a key that is computed from the value there. -/
theorem update_at {α β : Type*} [DecidableEq α] (f : α → β) (k x : α) (g : β → β) :
    Function.update f k (g (f k)) x = if x = k then g (f x) else f x := by
  rw [Function.update_apply]
  split
  · next h => rw [h]
  · rfl

@[simp] theorem registerMulti_userSockets : (r.registerMulti username id ip auctionId).userSockets u =
    if u = username then insert id (r.userSockets u) else r.userSockets u :=
  update_at r.userSockets username u (insert id)

@[simp] theorem registerMulti_ipSockets : (r.registerMulti username id ip auctionId).ipSockets i =
    if i = ip then insert id (r.ipSockets i) else r.ipSockets i :=
  update_at r.ipSockets ip i (insert id)

@[simp] theorem unregisterMulti_userSockets {ip : Option String} {auctionId : Option ℤ} :
    (r.unregisterMulti id username ip auctionId).userSockets u =
      if u = username then (r.userSockets u).erase id else r.userSockets u :=
  update_at r.userSockets username u fun sockets => sockets.erase id

@[simp] theorem unregisterMulti_ipSockets {ip : Option String} {auctionId : Option ℤ} :
    (r.unregisterMulti id username ip auctionId).ipSockets i =
      if i = ip.getD "null" then (r.ipSockets i).erase id else r.ipSockets i :=
  update_at r.ipSockets (ip.getD "null") i fun sockets => sockets.erase id

/-- The same for two keys. -/
theorem update_at_at {α α' β : Type*} [DecidableEq α] [DecidableEq α'] (f : α → α' → β) (k x : α)
    (k' x' : α') (g : β → β) :
    Function.update f k (Function.update (f k) k' (g (f k k'))) x x' =
      if x = k ∧ x' = k' then g (f x x') else f x x' := by
  rw [Function.update_apply]
  by_cases hx : x = k
  · rw [if_pos hx, ← hx, update_at]
    simp
  · simp [hx]

@[simp] theorem registerMulti_userAuction {a : Option ℤ} :
    (r.registerMulti username id ip auctionId).userAuction u a =
      if u = username ∧ a = some auctionId then insert id (r.userAuction u a)
      else r.userAuction u a :=
  update_at_at r.userAuction username u (some auctionId) a (insert id)

@[simp] theorem unregisterMulti_userAuction {ip : Option String} {auctionId a : Option ℤ} :
    (r.unregisterMulti id username ip auctionId).userAuction u a =
      if u = username ∧ a = auctionId then (r.userAuction u a).erase id
      else r.userAuction u a :=
  update_at_at r.userAuction username u auctionId a fun sockets => sockets.erase id

theorem mem_registerMulti_userSockets :
    id' ∈ (r.registerMulti username id ip auctionId).userSockets u ↔
      (u = username ∧ id' = id) ∨ id' ∈ r.userSockets u := by
  rw [registerMulti_userSockets]
  split <;> simp [*]

theorem mem_registerMulti_ipSockets :
    id' ∈ (r.registerMulti username id ip auctionId).ipSockets i ↔
      (i = ip ∧ id' = id) ∨ id' ∈ r.ipSockets i := by
  rw [registerMulti_ipSockets]
  split <;> simp [*]

theorem mem_registerMulti_userAuction {a : Option ℤ} :
    id' ∈ (r.registerMulti username id ip auctionId).userAuction u a ↔
      ((u = username ∧ a = some auctionId) ∧ id' = id) ∨ id' ∈ r.userAuction u a := by
  rw [registerMulti_userAuction]
  split <;> simp [*]

theorem mem_unregisterMulti_userSockets {ip : Option String} {auctionId : Option ℤ} :
    id' ∈ (r.unregisterMulti id username ip auctionId).userSockets u ↔
      ¬ (u = username ∧ id' = id) ∧ id' ∈ r.userSockets u := by
  rw [unregisterMulti_userSockets]
  split <;> simp [*]

theorem mem_unregisterMulti_ipSockets {ip : Option String} {auctionId : Option ℤ} :
    id' ∈ (r.unregisterMulti id username ip auctionId).ipSockets i ↔
      ¬ (i = ip.getD "null" ∧ id' = id) ∧ id' ∈ r.ipSockets i := by
  rw [unregisterMulti_ipSockets]
  split <;> simp [*]

theorem mem_unregisterMulti_userAuction {ip : Option String} {auctionId a : Option ℤ} :
    id' ∈ (r.unregisterMulti id username ip auctionId).userAuction u a ↔
      ¬ ((u = username ∧ a = auctionId) ∧ id' = id) ∧ id' ∈ r.userAuction u a := by
  rw [unregisterMulti_userAuction]
  split <;> simp [*]

@[simp] theorem registerMulti_online {a : ℤ} :
    u ∈ (r.registerMulti username id ip auctionId).onlineInAuctionID a ↔
      (u = username ∧ a = auctionId) ∨ u ∈ r.onlineInAuctionID a := by
  have hset : (r.registerMulti username id ip auctionId).onlineInAuctionID a =
      if some a = some auctionId then insert username (r.onlineInAuctionID a)
      else r.onlineInAuctionID a :=
    update_at r.auctionUsername (some auctionId) (some a) (insert username)
  rw [hset]
  by_cases ha : a = auctionId
  · simp [ha]
  · simp [ha]

@[simp] theorem unregisterMulti_online {ip : Option String} {auctionId : Option ℤ} {a : ℤ} :
    (r.unregisterMulti id username ip auctionId).onlineInAuctionID a = r.onlineInAuctionID a := rfl

@[simp] theorem forgetUsername_online {auctionId : Option ℤ} {a : ℤ} :
    u ∈ (r.forgetUsername username auctionId).onlineInAuctionID a ↔
      u ∈ r.onlineInAuctionID a ∧ ¬ (u = username ∧ auctionId = some a) := by
  have hset : (r.forgetUsername username auctionId).onlineInAuctionID a =
      if some a = auctionId then (r.onlineInAuctionID a).erase username
      else r.onlineInAuctionID a :=
    update_at r.auctionUsername auctionId (some a) fun names => names.erase username
  rw [hset]
  by_cases ha : auctionId = some a
  · simp [ha, and_comm]
  · simp [ha, Ne.symm ha]

@[simp] theorem forgetUsername_userAuction {auctionId : Option ℤ} :
    (r.forgetUsername username auctionId).userAuction = r.userAuction := rfl

/-- The outcomes of an `unregisterSocket` call: the socket is not registered, or it is removed, and
    its user goes offline in the auction with the last socket there. -/
theorem unregisterSocket_cases (r : Registry) (now : Time) (id : SocketId) :
    ((r.socketUsername id = none ∨ r.socketUsername id = some "") ∧
      r.unregisterSocket now id = (r, [])) ∨
    ∃ username r', r.socketUsername id = some username ∧ username ≠ "" ∧
      r' = r.unregisterMulti id username (r.socketIp id) (r.socketAuctionId id) ∧
      ((r'.userAuction username (r.socketAuctionId id) = ∅ ∧ r.unregisterSocket now id =
          (r'.forgetUsername username (r.socketAuctionId id),
            [⟨.userOffline, r.socketAuctionId id, username, now⟩])) ∨
        (r'.userAuction username (r.socketAuctionId id) ≠ ∅ ∧ r.unregisterSocket now id = (r', []))) := by
  unfold unregisterSocket
  cases husername : r.socketUsername id with
  | none => exact .inl ⟨.inl rfl, rfl⟩
  | some username =>
    by_cases hempty : username = ""
    · exact .inl ⟨.inr (by rw [hempty]), by simp [hempty]⟩
    · refine .inr ⟨username, _, rfl, hempty, rfl, ?_⟩
      simp only [if_neg hempty, Finset.card_eq_zero]
      split
      · next hlast => exact .inl ⟨hlast, rfl⟩
      · next hmore => exact .inr ⟨hmore, rfl⟩

/-- The call for a socket without a username key. -/
theorem unregisterSocket_gone (now : Time) (h : r.socketUsername id = none) :
    r.unregisterSocket now id = (r, []) := by
  rw [unregisterSocket, h]

/-- The call for a socket that is registered. -/
theorem unregisterSocket_registered (now : Time) (h : r.socketUsername id = some username)
    (hne : username ≠ "") {r' : Registry}
    (hr' : r' = r.unregisterMulti id username (r.socketIp id) (r.socketAuctionId id)) :
    (r'.userAuction username (r.socketAuctionId id) = ∅ ∧ r.unregisterSocket now id =
        (r'.forgetUsername username (r.socketAuctionId id),
          [⟨.userOffline, r.socketAuctionId id, username, now⟩])) ∨
      (r'.userAuction username (r.socketAuctionId id) ≠ ∅ ∧ r.unregisterSocket now id = (r', [])) := by
  obtain ⟨hnone | hempty, -⟩ | ⟨username', r'', hname, -, rfl, hcases⟩ := unregisterSocket_cases r now id
  · cases h.symm.trans hnone
  · exact absurd (Option.some.inj (h.symm.trans hempty)) hne
  · cases h.symm.trans hname
    rw [hr']
    exact hcases

/-- The keys of the socket are gone afterwards, those of the others are what they were. -/
theorem unregisterSocket_keys (r : Registry) (now : Time) (id : SocketId) (h : r.socketUsername id ≠ some "") :
    (r.unregisterSocket now id).1.socketUsername = Function.update r.socketUsername id none ∧
      ∀ id', id' ≠ id → (r.unregisterSocket now id).1.socketIp id' = r.socketIp id' ∧
        (r.unregisterSocket now id).1.socketAuctionId id' = r.socketAuctionId id' := by
  obtain ⟨hnone, heq⟩ | ⟨username, r', -, -, rfl, ⟨-, heq⟩ | ⟨-, heq⟩⟩ :=
    unregisterSocket_cases r now id
  · rw [heq, ← hnone.resolve_right h, Function.update_eq_self]
    exact ⟨rfl, fun _ _ => ⟨rfl, rfl⟩⟩
  · rw [heq]
    exact ⟨rfl, fun id' hne => ⟨Function.update_of_ne hne _ _, Function.update_of_ne hne _ _⟩⟩
  · rw [heq]
    exact ⟨rfl, fun id' hne => ⟨Function.update_of_ne hne _ _, Function.update_of_ne hne _ _⟩⟩

/-- What an `unregisterSocket` call that finds a username does to the sets of sockets, the last
    socket of the user or not. -/
theorem unregisterSocket_sets (r : Registry) (now : Time) (id : SocketId) :
    (r.unregisterSocket now id).1 = r ∨ ∃ username ip auctionId, r.socketUsername id = some username ∧
      (r.unregisterSocket now id).1.userSockets =
        (r.unregisterMulti id username ip auctionId).userSockets ∧
      (r.unregisterSocket now id).1.ipSockets =
        (r.unregisterMulti id username ip auctionId).ipSockets := by
  obtain ⟨-, heq⟩ | ⟨username, r', husername, -, rfl, ⟨-, heq⟩ | ⟨-, heq⟩⟩ :=
    unregisterSocket_cases r now id
  · exact .inl (by rw [heq])
  · refine .inr ⟨username, r.socketIp id, r.socketAuctionId id, husername, ?_⟩
    rw [heq]
    exact ⟨rfl, rfl⟩
  · refine .inr ⟨username, r.socketIp id, r.socketAuctionId id, husername, ?_⟩
    rw [heq]
    exact ⟨rfl, rfl⟩

theorem unregisterSocket_userSockets_subset (r : Registry) (now : Time) (id : SocketId) (u : String) :
    (r.unregisterSocket now id).1.userSockets u ⊆ r.userSockets u := by
  obtain h | ⟨username, ip, auctionId, -, h, -⟩ := unregisterSocket_sets r now id
  · rw [h]
  · intro other hother
    rw [h] at hother
    exact (mem_unregisterMulti_userSockets.mp hother).2

theorem unregisterSocket_ipSockets_subset (r : Registry) (now : Time) (id : SocketId) (i : String) :
    (r.unregisterSocket now id).1.ipSockets i ⊆ r.ipSockets i := by
  obtain h | ⟨username, ip, auctionId, -, -, h⟩ := unregisterSocket_sets r now id
  · rw [h]
  · intro other hother
    rw [h] at hother
    exact (mem_unregisterMulti_ipSockets.mp hother).2

/-- The socket is in no set and has no key. -/
structure Freed (r : Registry) (id : SocketId) : Prop where
  userSockets : ∀ u, id ∉ r.userSockets u
  ipSockets : ∀ i, id ∉ r.ipSockets i
  userAuction : ∀ u a, id ∉ r.userAuction u a
  socketIp : r.socketIp id = none
  socketUsername : r.socketUsername id = none
  socketAuctionId : r.socketAuctionId id = none

/-- The socket is registered under that name, address and auction, and in no other set. -/
structure Holds (r : Registry) (id : SocketId) (username ip : String) (auctionId : ℤ) : Prop where
  userSockets : ∀ u, id ∈ r.userSockets u → u = username
  ipSockets : ∀ i, id ∈ r.ipSockets i → i = ip
  userAuction : ∀ u a, id ∈ r.userAuction u a → u = username ∧ a = some auctionId
  socketIp : r.socketIp id = some ip
  socketUsername : r.socketUsername id = some username
  socketAuctionId : r.socketAuctionId id = some auctionId

theorem Freed.register (h : Freed r id) :
    Holds (r.registerMulti username id ip auctionId) id username ip auctionId := by
  refine ⟨fun u hu => ?_, fun i hi => ?_, fun u a hu => ?_, ?_, ?_, ?_⟩
  · rcases mem_registerMulti_userSockets.mp hu with ⟨hsame, -⟩ | hold
    · exact hsame
    · exact absurd hold (h.userSockets u)
  · rcases mem_registerMulti_ipSockets.mp hi with ⟨hsame, -⟩ | hold
    · exact hsame
    · exact absurd hold (h.ipSockets i)
  · rcases mem_registerMulti_userAuction.mp hu with ⟨hsame, -⟩ | hold
    · exact hsame
    · exact absurd hold (h.userAuction u a)
  · simp [registerMulti]
  · simp [registerMulti]
  · simp [registerMulti]

theorem Holds.unregister (h : Holds r id username ip auctionId) :
    Freed (r.unregisterMulti id username (some ip) (some auctionId)) id := by
  refine ⟨fun u hu => ?_, fun i hi => ?_, fun u a hu => ?_, ?_, ?_, ?_⟩
  · obtain ⟨hnot, hold⟩ := mem_unregisterMulti_userSockets.mp hu
    exact hnot ⟨h.userSockets u hold, rfl⟩
  · obtain ⟨hnot, hold⟩ := mem_unregisterMulti_ipSockets.mp hi
    exact hnot ⟨h.ipSockets i hold, rfl⟩
  · obtain ⟨hnot, hold⟩ := mem_unregisterMulti_userAuction.mp hu
    exact hnot ⟨h.userAuction u a hold, rfl⟩
  · simp [unregisterMulti]
  · simp [unregisterMulti]
  · simp [unregisterMulti]

theorem Freed.forget {auctionId : Option ℤ} (h : Freed r id) :
    Freed (r.forgetUsername username auctionId) id := ⟨h.1, h.2, h.3, h.4, h.5, h.6⟩

end Registry

end CarAuction
