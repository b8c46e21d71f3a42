import CarAuction.Lib.Machine
import CarAuction.StoredRegistry

/- The lookups of `RedisService` against its registrations, called one at a time for
   any sockets, which may register again under another name. `registerSocket` keeps
   the name of a socket at `socket:<id>:username`, and `getUsernameIdBySocket` asks
   for `socket:<id>username`: no call writes that key, unless the id ends in a colon
   and the rest of it is the id of another socket. So the lookups invert the
   registrations exactly as long as there is nothing to look up.

   Correspondence (TypeScript ↔ Lean):
     `getUsernameIdBySocket`, `getSocketsByUsername`  ↔ the functions of these names
     a run of calls                                   ↔ `storedStep`
     the name of the last registration                ↔ `registeredAs` -/
namespace CarAuction

open Machine Keyspace Registry

namespace RedisStore

def getUsernameIdBySocket (s : RedisStore) (socketId : String) : Except WrongType (Option String) :=
  get s ("socket:" ++ socketId ++ "username")

def getSocketsByUsername (s : RedisStore) (username : String) : Except WrongType (Finset String) :=
  smembers s (userSocketsKey username)

end RedisStore

inductive RegistryCall where
  | registerSocket (username : String) (id : SocketId) (ip : String) (auctionId : ℤ)
  | unregisterSocket (id : SocketId)

/-- The store, and the calls so far, the last one first. -/
structure Stored where
  store : RedisStore
  calls : List RegistryCall

def Stored.start : Stored := ⟨fun _ => none, []⟩

/-- The next call; one that throws ends the run. -/
def storedStep (s : Stored) (call : RegistryCall) : Option Stored :=
  match call with
  | .registerSocket username id ip auctionId =>
    some ⟨s.store.registerSocket username id.text ip auctionId, call :: s.calls⟩
  | .unregisterSocket id =>
    match s.store.unregisterSocket id.text with
    | .ok store => some ⟨store, call :: s.calls⟩
    | .error _ => none

/-- The name under which the socket last registered, if it has not been unregistered since. -/
def registeredAs (id : SocketId) : List RegistryCall → Option String
  | [] => none
  | .registerSocket username id' _ _ :: calls =>
    if id' = id then some username else registeredAs id calls
  | .unregisterSocket id' :: calls => if id' = id then none else registeredAs id calls

/-- Either lookup is the inverse of the registrations, and of the other. -/
structure LookupsInvert (s : Stored) : Prop where
  username : ∀ id : SocketId,
    s.store.getUsernameIdBySocket id.text = .ok (registeredAs id s.calls)
  sockets : ∀ u, ∃ sockets, s.store.getSocketsByUsername u = .ok sockets ∧
    ∀ id : SocketId, id.text ∈ sockets ↔ s.store.getUsernameIdBySocket id.text = .ok (some u)

variable {r : Registry} {s t : Stored} {call : RegistryCall} {id : SocketId} {calls : List RegistryCall}

/-! The registry behind the store. -/

/-- A registered socket has its name, and a socket with a name is in the set of its user. -/
structure NamesKept (r : Registry) (calls : List RegistryCall) : Prop where
  names : ∀ id u, registeredAs id calls = some u → r.socketUsername id = some u
  sockets : ∀ id u, r.socketUsername id = some u → id ∈ r.userSockets u

theorem NamesKept.register (h : NamesKept r calls) (username : String) (id : SocketId) (ip : String)
    (auctionId : ℤ) : NamesKept (r.registerMulti username id ip auctionId)
      (.registerSocket username id ip auctionId :: calls) := by
  have hname : ∀ id', (r.registerMulti username id ip auctionId).socketUsername id' =
      if id = id' then some username else r.socketUsername id' := by
    intro id'
    by_cases hid : id = id'
    · subst hid
      simp [registerMulti]
    · simp [registerMulti, hid, Ne.symm hid]
  refine ⟨fun id' u hu => ?_, fun id' u hu => ?_⟩
  · rw [registeredAs] at hu
    rw [hname]
    split at hu
    · next hid => rw [if_pos hid, hu]
    · next hid => rw [if_neg hid, h.names id' u hu]
  · rw [hname] at hu
    rw [mem_registerMulti_userSockets]
    split at hu
    · next hid => exact .inl ⟨(Option.some.inj hu).symm, hid.symm⟩
    · exact .inr (h.sockets id' u hu)

theorem NamesKept.unregisterMulti (h : NamesKept r calls) (id : SocketId) (username : String)
    (ip : Option String) (auctionId : Option ℤ) :
    NamesKept (r.unregisterMulti id username ip auctionId) (.unregisterSocket id :: calls) := by
  have hname : ∀ id', (r.unregisterMulti id username ip auctionId).socketUsername id' =
      if id = id' then none else r.socketUsername id' := by
    intro id'
    by_cases hid : id = id'
    · subst hid
      simp [Registry.unregisterMulti]
    · simp [Registry.unregisterMulti, hid, Ne.symm hid]
  refine ⟨fun id' u hu => ?_, fun id' u hu => ?_⟩
  · rw [registeredAs] at hu
    rw [hname]
    split at hu
    · cases hu
    · next hid => rw [if_neg hid, h.names id' u hu]
  · rw [hname] at hu
    split at hu
    · cases hu
    · next hid =>
      rw [mem_unregisterMulti_userSockets]
      exact ⟨fun hsame => hid hsame.2.symm, h.sockets id' u hu⟩

/-- The call may do nothing, where there is no name or an empty one. -/
theorem NamesKept.unregister (h : NamesKept r calls) (now : Time) (id : SocketId) :
    NamesKept (r.unregisterSocket now id).1 (.unregisterSocket id :: calls) := by
  obtain ⟨-, heq⟩ | ⟨username, r', -, -, rfl, ⟨-, heq⟩ | ⟨-, heq⟩⟩ :=
    unregisterSocket_cases r now id
  · rw [heq]
    refine ⟨fun id' u hu => ?_, h.sockets⟩
    rw [registeredAs] at hu
    split at hu
    · cases hu
    · exact h.names id' u hu
  · rw [heq]
    have hkept := h.unregisterMulti id username (r.socketIp id) (r.socketAuctionId id)
    exact ⟨hkept.names, hkept.sockets⟩
  · rw [heq]
    exact h.unregisterMulti id username (r.socketIp id) (r.socketAuctionId id)

def StoredInv (s : Stored) : Prop := ∃ r, Represents r s.store ∧ NamesKept r s.calls

theorem storedInv_start : StoredInv .start := by
  refine ⟨.empty, represents_empty, fun id u h => ?_, fun id u h => ?_⟩
  · cases h
  · cases h

/-- Every call returns, and keeps the invariant. -/
theorem storedInv_step (h : StoredInv s) (call : RegistryCall) :
    ∃ t, storedStep s call = some t ∧ StoredInv t := by
  obtain ⟨r, hrep, hnames⟩ := h
  cases call with
  | registerSocket username id ip auctionId =>
    exact ⟨_, rfl, _, hrep.register, hnames.register username id ip auctionId⟩
  | unregisterSocket id =>
    obtain ⟨store, hcall, hrep⟩ := hrep.unregister 0 id
    refine ⟨⟨store, .unregisterSocket id :: s.calls⟩, ?_, _, hrep, hnames.unregister 0 id⟩
    simp only [storedStep, hcall]

theorem StoredInv.of_step (h : StoredInv s) (ht : storedStep s call = some t) : StoredInv t := by
  obtain ⟨t', ht', hinv⟩ := storedInv_step h call
  rw [Option.some.inj (ht.symm.trans ht')]
  exact hinv

/-! What the lookups find. -/

theorem Represents.getSocketsByUsername (h : Represents r s.store) (u : String) :
    s.store.getSocketsByUsername u = .ok ((r.userSockets u).image SocketId.text) := by
  rw [← h.userSockets]
  exact smembers_of_kind (k := Key.userSockets u) h.kinded rfl

/-- A key of the schema that a lookup asks for is that of the name of another socket. -/
theorem socketUsername_of_text {k : Key} {x : String} (h : k.text = "socket:" ++ x ++ "username") :
    ∃ y, k = .socketUsername y ∧ x = y ++ ":" := by
  have hlist := congrArg String.toList h
  cases k with
  | socketUsername y =>
    have hcolon : (y.toList ++ [':']) ++ "username".toList = x.toList ++ "username".toList := by
      simpa [Key.text, socketUsernameKey] using hlist
    refine ⟨y, rfl, String.toList_inj.mp ?_⟩
    rw [← List.append_cancel_right hcolon, String.toList_append]
    rfl
  | socketIp y =>
    have hrest : y.toList ++ ":ip".toList = x.toList ++ "username".toList := by
      simpa [Key.text, socketIpKey] using hlist
    have hlast := congrArg List.getLast? hrest
    simp at hlast
  | socketAuctionId y =>
    have hrest : y.toList ++ ":auctionId".toList = x.toList ++ "username".toList := by
      simpa [Key.text, socketAuctionIdKey] using hlist
    have hlast := congrArg List.getLast? hrest
    simp at hlast
  | userSockets u => simp [Key.text, userSocketsKey] at hlist
  | userAuction u a => simp [Key.text, userAuctionKey] at hlist
  | userBidTimestamps u => simp [Key.text, userBidTimestampsKey] at hlist
  | ipSockets ip => simp [Key.text, ipSocketsKey] at hlist
  | auctionUsername a => simp [Key.text, auctionUsernameKey] at hlist
  | auctionState a => simp [Key.text, auctionStateKey] at hlist

/-- The lookup of a socket finds nothing, or the name of a socket with a shorter id. -/
theorem Represents.getUsernameIdBySocket (h : Represents r s.store) (id : SocketId) :
    s.store.getUsernameIdBySocket id.text = .ok none ∨ ∃ id' : SocketId, id.text = id'.text ++ ":" ∧
      s.store.getUsernameIdBySocket id.text = .ok (r.socketUsername id') := by
  by_cases hkey : ∃ k : Key, k.text = "socket:" ++ id.text ++ "username"
  · obtain ⟨k, hk⟩ := hkey
    obtain ⟨y, rfl, hy⟩ := socketUsername_of_text hk
    have hget : s.store.getUsernameIdBySocket id.text =
        .ok (strings (s.store (Key.socketUsername y).text)) := by
      rw [RedisStore.getUsernameIdBySocket, ← hk]
      exact get_of_kind (k := Key.socketUsername y) h.kinded rfl
    by_cases hid : ∃ id' : SocketId, id'.text = y
    · obtain ⟨id', rfl⟩ := hid
      refine .inr ⟨id', hy, ?_⟩
      rw [hget, h.socketUsername]
    · rw [not_exists] at hid
      left
      rw [hget, h.sockets (.socketUsername y) y rfl hid]
  · rw [not_exists] at hkey
    left
    rw [RedisStore.getUsernameIdBySocket, Keyspace.get, h.clean _ hkey]

/-- A socket in the set of a user that the lookup finds under that name makes another socket
    the user's, with a shorter id: in the end one that is not found. -/
theorem LookupsInvert.userSockets_eq_empty (hrep : Represents r s.store) (hnames : NamesKept r s.calls)
    (h : LookupsInvert s) (u : String) : r.userSockets u = ∅ := by
  obtain ⟨sockets, hsockets, hmem⟩ := h.sockets u
  obtain rfl := Except.ok.inj (hrep.getSocketsByUsername u |>.symm.trans hsockets)
  rw [Finset.eq_empty_iff_forall_notMem]
  intro id
  induction hlength : id.text.length using Nat.strongRecOn generalizing id with
  | ind n ih =>
    intro hid
    have hlookup := (hmem id).mp (Finset.mem_image_of_mem _ hid)
    rcases hrep.getUsernameIdBySocket id with hnone | ⟨id', htext, hother⟩
    · cases hlookup.symm.trans hnone
    · have hshorter : id'.text.length < n := by
        rw [← hlength, htext, String.length_append]
        exact Nat.lt_succ_self _
      have hname : r.socketUsername id' = some u := Except.ok.inj (hother.symm.trans hlookup)
      exact ih _ hshorter id' rfl (hnames.sockets id' u hname)

theorem NamesKept.socketUsername_eq_none (hnames : NamesKept r calls)
    (hempty : ∀ u, r.userSockets u = ∅) (id : SocketId) : r.socketUsername id = none := by
  cases hname : r.socketUsername id with
  | none => rfl
  | some u =>
    have hmem := hnames.sockets id u hname
    rw [hempty] at hmem
    cases hmem

theorem NamesKept.registeredAs_eq_none (hnames : NamesKept r calls)
    (hempty : ∀ u, r.userSockets u = ∅) (id : SocketId) : registeredAs id calls = none := by
  cases hname : registeredAs id calls with
  | none => rfl
  | some u =>
    have hkey := hnames.names id u hname
    rw [hnames.socketUsername_eq_none hempty] at hkey
    cases hkey

theorem Represents.sockets_empty_iff (hrep : Represents r s.store) :
    (∀ u, s.store.getSocketsByUsername u = .ok ∅) ↔ ∀ u, r.userSockets u = ∅ := by
  apply forall_congr'
  intro u
  rw [hrep.getSocketsByUsername, Except.ok.injEq, Finset.image_eq_empty]

/-- The lookups invert the registrations exactly when no user has a socket. -/
theorem lookupsInvert_iff (hs : StoredInv s) :
    LookupsInvert s ↔ ∀ u, s.store.getSocketsByUsername u = .ok ∅ := by
  obtain ⟨r, hrep, hnames⟩ := hs
  constructor
  · intro h
    exact hrep.sockets_empty_iff.mpr (h.userSockets_eq_empty hrep hnames)
  · intro hempty
    have hsets := hrep.sockets_empty_iff.mp hempty
    have hlookup : ∀ id : SocketId, s.store.getUsernameIdBySocket id.text = .ok none := by
      intro id
      rcases hrep.getUsernameIdBySocket id with h | ⟨id', -, h⟩
      · exact h
      · rw [h, hnames.socketUsername_eq_none hsets]
    refine ⟨fun id => ?_, fun u => ⟨∅, hempty u, fun id => ?_⟩⟩
    · rw [hlookup, hnames.registeredAs_eq_none hsets]
    · rw [hlookup]
      refine iff_of_false (fun hmem => ?_) fun heq => ?_
      · cases hmem
      · cases heq

/-! Runs. -/

/-- A registration puts the socket in a set. -/
theorem not_lookupsInvert_of_register {username ip : String} {auctionId : ℤ} (ht : StoredInv t)
    (hcalls : t.calls = .registerSocket username id ip auctionId :: calls) : ¬ LookupsInvert t := by
  intro h
  obtain ⟨r, hrep, hnames⟩ := ht
  have hnone := hnames.registeredAs_eq_none (h.userSockets_eq_empty hrep hnames) id
  rw [hcalls, registeredAs, if_pos rfl] at hnone
  cases hnone

/-- Where nothing is registered a call of `unregisterSocket` finds nothing to remove. -/
theorem LookupsInvert.unregister (hs : StoredInv s) (h : LookupsInvert s)
    (hstep : storedStep s (.unregisterSocket id) = some t) : LookupsInvert t := by
  rw [lookupsInvert_iff (hs.of_step hstep)]
  obtain ⟨r, hrep, hnames⟩ := hs
  have hempty := h.userSockets_eq_empty hrep hnames
  obtain ⟨store, hcall, hrep'⟩ := hrep.unregister 0 id
  rw [unregisterSocket_gone 0 (hnames.socketUsername_eq_none hempty id)] at hrep'
  simp only [storedStep, hcall, Option.some.injEq] at hstep
  subst hstep
  exact (Represents.sockets_empty_iff hrep').mpr hempty

/-- At the key that `registerSocket` writes there is the name of the last registration. -/
theorem stored_usernames (run : List RegistryCall) :
    Always storedStep (fun s => ∀ (id : SocketId) (u : String), registeredAs id s.calls = some u →
      get s.store (socketUsernameKey id.text) = .ok (some u)) .start run := by
  apply always_of_inv (I := StoredInv) (P := fun _ _ _ => True) _ _ run storedInv_start
    (along_true run)
  · intro s call t hs _ ht
    exact hs.of_step ht
  · intro s ⟨r, hrep, hnames⟩ id u hu
    rw [← hnames.names id u hu, ← hrep.socketUsername]
    exact get_of_kind (k := Key.socketUsername id.text) hrep.kinded rfl

/-- The lookups invert the registrations as long as no user has a socket: in the runs that register
    none. -/
theorem lookups_invert_iff (run : List RegistryCall) :
    Always storedStep
        (fun s => LookupsInvert s ↔ ∀ u, s.store.getSocketsByUsername u = .ok ∅) .start run ∧
      (Always storedStep LookupsInvert .start run ↔
        ∀ call ∈ run, ∃ id, call = .unregisterSocket id) := by
  constructor
  · exact always_of_inv (fun s call t hs _ ht => hs.of_step ht) (fun s => lookupsInvert_iff) run
      storedInv_start (along_true run)
  · have hstart : LookupsInvert .start := by
      rw [lookupsInvert_iff storedInv_start]
      exact fun _ => rfl
    rw [always_iff_of_inv (I := fun s => StoredInv s ∧ LookupsInvert s)
      (B := fun _ call => ¬ ∃ id, call = .unregisterSocket id) (fun s hs => hs.2) _ _ run
      ⟨storedInv_start, hstart⟩ (along_true run)]
    · simp only [not_not]
      exact along_iff_forall (fun s call hs => storedInv_step hs call) run storedInv_start
    · intro s call t ⟨hs, hinvert⟩ _ ht hcall
      obtain ⟨id, rfl⟩ := not_not.mp hcall
      exact ⟨hs.of_step ht, hinvert.unregister hs ht⟩
    · intro s call t ⟨hs, _⟩ _ ht hcall
      have hinv := hs.of_step ht
      cases call with
      | unregisterSocket id => exact absurd ⟨id, rfl⟩ hcall
      | registerSocket username id ip auctionId =>
        cases ht
        exact not_lookupsInvert_of_register hinv rfl

/-- Ann's socket registers, and her name is at a key that no lookup asks for. -/
theorem registered_socket_not_found : ∃ s,
    exec storedStep .start [.registerSocket "ann" annSocket "10.0.0.1" 1] = some s ∧
      get s.store "socket:socket-a:username" = .ok (some "ann") ∧
      s.store.getSocketsByUsername "ann" = .ok {"socket-a"} ∧
      s.store.getUsernameIdBySocket "socket-a" = .ok none ∧ ¬ LookupsInvert s := by
  refine ⟨_, rfl, by decide, by decide, by decide, fun h => ?_⟩
  have hlookup := h.username annSocket
  cases hlookup.symm.trans (show _ = Except.ok none by decide)

end CarAuction
