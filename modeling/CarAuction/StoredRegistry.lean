import CarAuction.KeySchema
import CarAuction.Sessions

/- The registry of sessions as it is stored: each set and each key of the `Registry`
   is an entry of the `RedisStore` under the text of its key, and there are no other
   entries. No two keys share a text, so a call does to the entries what it does to
   the registry (`Represents.register`, `Represents.unregister`), and its reads find
   entries of the type they ask for. A stored auction id is the text of the number. -/
namespace CarAuction

open Keyspace Registry

/-- The keys of sockets. -/
def Key.socket : Key → Option String
  | socketIp x => some x
  | socketUsername x => some x
  | socketAuctionId x => some x
  | _ => none

structure Represents (r : Registry) (s : RedisStore) : Prop where
  kinded : Kinded Key.kind (s ∘ Key.text)
  /-- There are no keys outside the schema. -/
  clean : ∀ text, (∀ k : Key, k.text ≠ text) → s text = none
  /-- The keys of sockets are those of socket ids. -/
  sockets : ∀ k : Key, ∀ x ∈ k.socket, (∀ id : SocketId, id.text ≠ x) → strings (s k.text) = none
  ipSockets : ∀ ip, members (s (Key.ipSockets ip).text) = (r.ipSockets ip).image SocketId.text
  userSockets : ∀ u, members (s (Key.userSockets u).text) = (r.userSockets u).image SocketId.text
  userAuction : ∀ u a,
    members (s (Key.userAuction u a).text) = (r.userAuction u a).image SocketId.text
  auctionUsername : ∀ a, members (s (Key.auctionUsername a).text) = r.auctionUsername a
  socketIp : ∀ id : SocketId, strings (s (Key.socketIp id.text).text) = r.socketIp id
  socketUsername : ∀ id : SocketId, strings (s (Key.socketUsername id.text).text) = r.socketUsername id
  socketAuctionId : ∀ id : SocketId,
    strings (s (Key.socketAuctionId id.text).text) = (r.socketAuctionId id).map toString

variable {r : Registry} {s : RedisStore} {cs : List (Key × Op String String)}

theorem SocketId.text_inj {id id' : SocketId} (h : id.text = id'.text) : id = id' := by
  cases id
  cases id'
  cases h
  rfl

theorem represents_empty : Represents .empty (fun _ => none) where
  kinded := fun k e he => by cases he
  clean := fun _ _ => rfl
  sockets := fun _ _ _ _ => rfl
  ipSockets := fun _ => rfl
  userSockets := fun _ => rfl
  userAuction := fun _ _ => rfl
  auctionUsername := fun _ => rfl
  socketIp := fun _ => rfl
  socketUsername := fun _ => rfl
  socketAuctionId := fun _ => rfl

/-! Commands on keys of the schema. -/

theorem kinded_named (hs : Kinded Key.kind (s ∘ Key.text)) (hcs : Fitting Key.kind cs) :
    Kinded Key.kind (multi s (Key.named cs) ∘ Key.text) := by
  rw [multi_named]
  exact kinded_multi hs hcs

theorem strings_named {k : Key} {o : Op String String} (hnodup : (cs.map Prod.fst).Nodup)
    (h : (k, o) ∈ cs) :
    strings (multi s (Key.named cs) k.text) = o.onString (strings (s k.text)) := by
  have hrun : strings (multi s (Key.named cs) k.text) =
      run Op.onString (strings ∘ s ∘ Key.text) cs k := by
    rw [← strings_multi, ← multi_named]
    rfl
  rw [hrun, run_of_mem hnodup h]
  rfl

theorem members_named {k : Key} {o : Op String String} (hs : Kinded Key.kind (s ∘ Key.text))
    (hcs : Fitting Key.kind cs) (hnodup : (cs.map Prod.fst).Nodup) (h : (k, o) ∈ cs) :
    members (multi s (Key.named cs) k.text) = o.onMembers (members (s k.text)) := by
  have hrun : members (multi s (Key.named cs) k.text) =
      run Op.onMembers (members ∘ s ∘ Key.text) cs k := by
    rw [← members_multi hs hcs, ← multi_named]
    rfl
  rw [hrun, run_of_mem hnodup h]
  rfl

theorem clean_named (hs : ∀ text, (∀ k : Key, k.text ≠ text) → s text = none) (text : String)
    (h : ∀ k : Key, k.text ≠ text) : multi s (Key.named cs) text = none := by
  have hnot : text ∉ (Key.named cs).map Prod.fst := by
    intro hmem
    simp only [Key.named, List.map_map, List.mem_map] at hmem
    obtain ⟨c, -, htext⟩ := hmem
    exact h c.1 htext
  exact (run_of_notMem hnot).trans (hs text h)

/-- The commands of a session call: one for a key, each for the type of its key, and none for a
    foreign one. -/
structure Block (username socketId ip : String) (auction : Option ℤ)
    (cs : List (Key × Op String String)) : Prop where
  nodup : (cs.map Prod.fst).Nodup
  fitting : Fitting Key.kind cs
  foreign : ∀ k : Key, k.foreign username socketId ip auction → k ∉ cs.map Prod.fst

theorem register_block (username socketId ip : String) (auction : Option ℤ) :
    Block username socketId ip auction (Key.register username socketId ip auction) where
  nodup := by simp [Key.register]
  fitting := by simp [Fitting, Key.register, Op.fits, Key.kind]
  foreign := fun _ hk => hk.notMem_register

theorem unregister_block (username socketId ip : String) (auction : Option ℤ) :
    Block username socketId ip auction (Key.unregister socketId username ip auction) where
  nodup := by simp [Key.unregister]
  fitting := by simp [Fitting, Key.unregister, Op.fits, Key.kind]
  foreign := fun _ hk => hk.notMem_unregister

/-- The keys of other sockets are foreign. -/
theorem Key.foreign_of_socket {k : Key} {x username socketId ip : String} {a : Option ℤ}
    (hx : x ∈ k.socket) (hne : x ≠ socketId) : k.foreign username socketId ip a := by
  cases k with
  | socketIp y => cases hx; exact hne
  | socketUsername y => cases hx; exact hne
  | socketAuctionId y => cases hx; exact hne
  | _ => cases hx

/-! What a block leaves at the keys of one template: it names that of one argument. -/

section Block

variable {username ip : String} {id : SocketId} {auction : Option ℤ} {o : Op String String}

theorem Block.socket {K : String → Key} {val : SocketId → Option String}
    (hcs : Block username id.text ip auction cs)
    (hval : ∀ id' : SocketId, strings (s (K id'.text).text) = val id') (hmem : (K id.text, o) ∈ cs)
    (hforeign : ∀ x, x ≠ id.text → (K x).foreign username id.text ip auction) (id' : SocketId) :
    strings (multi s (Key.named cs) (K id'.text).text) =
      Function.update val id (o.onString (val id)) id' := by
  by_cases hid : id' = id
  · subst hid
    rw [strings_named hcs.nodup hmem, hval, Function.update_self]
  · have hne : id'.text ≠ id.text := fun htext => hid (SocketId.text_inj htext)
    rw [multi_named_of_notMem (hcs.foreign _ (hforeign _ hne)), hval, Function.update_of_ne hid]

theorem Block.set {β : Type*} [DecidableEq β] {K : β → Key} {b : β}
    (hcs : Block username id.text ip auction cs) (hs : Kinded Key.kind (s ∘ Key.text))
    (hmem : (K b, o) ∈ cs) (hforeign : ∀ b', b' ≠ b → (K b').foreign username id.text ip auction)
    (b' : β) : members (multi s (Key.named cs) (K b').text) =
      if b' = b then o.onMembers (members (s (K b').text)) else members (s (K b').text) := by
  by_cases hb : b' = b
  · subst hb
    rw [members_named hs hcs.fitting hcs.nodup hmem, if_pos rfl]
  · rw [multi_named_of_notMem (hcs.foreign _ (hforeign b' hb)), if_neg hb]

theorem Block.strangers (hcs : Block username id.text ip auction cs) (h : Represents r s) (k : Key)
    (x : String) (hx : x ∈ k.socket) (hstranger : ∀ id : SocketId, id.text ≠ x) :
    strings (multi s (Key.named cs) k.text) = none := by
  have hforeign : k.foreign username id.text ip auction :=
    Key.foreign_of_socket hx fun h => hstranger id h.symm
  rw [multi_named_of_notMem (hcs.foreign k hforeign)]
  exact h.sockets k x hx hstranger

end Block

/-! The calls. -/

variable {username ip : String} {id : SocketId} {auctionId : ℤ}

/-- The block of `registerSocket` does to the entries what it does to the registry. -/
theorem Represents.register (h : Represents r s) :
    Represents (r.registerMulti username id ip auctionId)
      (s.registerSocket username id.text ip auctionId) := by
  have hcommands : s.registerSocket username id.text ip auctionId =
      multi s (Key.named (Key.register username id.text ip (some auctionId))) := by
    rw [← registerCommands_eq]
    rfl
  rw [hcommands]
  have hcs := register_block username id.text ip (some auctionId)
  refine ⟨kinded_named h.kinded hcs.fitting, clean_named h.clean, hcs.strangers h,
    fun i => ?_, fun u => ?_, fun u a => ?_, fun a => ?_, ?_, ?_, fun id' => ?_⟩
  · rw [hcs.set (K := .ipSockets) (b := ip) (o := .sadd id.text) h.kinded (by simp [Key.register])
      (fun _ hi => hi), h.ipSockets, registerMulti_ipSockets]
    split
    · exact (Finset.image_insert _ _ _).symm
    · rfl
  · rw [hcs.set (K := .userSockets) (b := username) (o := .sadd id.text) h.kinded
      (by simp [Key.register]) (fun _ hu => hu), h.userSockets, registerMulti_userSockets]
    split
    · exact (Finset.image_insert _ _ _).symm
    · rfl
  · rw [hcs.set (K := fun p : String × Option ℤ => .userAuction p.1 p.2)
      (b := (username, some auctionId)) (o := .sadd id.text) h.kinded (by simp [Key.register])
      (fun p hp => ?_) (u, a), h.userAuction, registerMulti_userAuction]
    · simp only [Prod.mk.injEq]
      split
      · exact (Finset.image_insert _ _ _).symm
      · rfl
    · exact not_and_or.mp fun hsame => hp (Prod.ext hsame.1 hsame.2)
  · rw [hcs.set (K := .auctionUsername) (b := some auctionId) (o := .sadd username) h.kinded
      (by simp [Key.register]) (fun _ ha => ha), h.auctionUsername]
    show _ = Function.update r.auctionUsername (some auctionId) _ a
    rw [Function.update_apply]
    split
    · next ha => rw [ha]; rfl
    · rfl
  · exact hcs.socket (K := .socketIp) (o := .set ip) h.socketIp (by simp [Key.register])
      (fun _ hx => hx)
  · exact hcs.socket (K := .socketUsername) (o := .set username) h.socketUsername
      (by simp [Key.register]) (fun _ hx => hx)
  · rw [hcs.socket (K := .socketAuctionId) (o := .set (auctionText (some auctionId)))
      h.socketAuctionId (by simp [Key.register]) (fun _ hx => hx)]
    exact (congrFun (Function.comp_update (Option.map toString) r.socketAuctionId id
      (some auctionId)) id').symm

variable {auction : Option ℤ}

/-- The block of `unregisterSocket`, with what its reads have returned. -/
theorem Represents.unregisterMulti (h : Represents r s) (id : SocketId) (username : String)
    (ip : Option String) (auction : Option ℤ) :
    Represents (r.unregisterMulti id username ip auction)
      (multi s (unregisterCommands id.text username (ip.getD "null") (auctionText auction))) := by
  rw [unregisterCommands_eq]
  have hcs := unregister_block username id.text (ip.getD "null") auction
  have herase : ∀ sockets : Finset SocketId,
      (sockets.erase id).image SocketId.text = (sockets.image SocketId.text).erase id.text :=
    fun sockets => Finset.image_erase (fun _ _ => SocketId.text_inj) sockets id
  refine ⟨kinded_named h.kinded hcs.fitting, clean_named h.clean, hcs.strangers h,
    fun i => ?_, fun u => ?_, fun u a => ?_, fun a => ?_, ?_, ?_, fun id' => ?_⟩
  · rw [hcs.set (K := .ipSockets) (b := ip.getD "null") (o := .srem id.text) h.kinded
      (by simp [Key.unregister]) (fun _ hi => hi), h.ipSockets, unregisterMulti_ipSockets]
    split
    · exact (herase _).symm
    · rfl
  · rw [hcs.set (K := .userSockets) (b := username) (o := .srem id.text) h.kinded
      (by simp [Key.unregister]) (fun _ hu => hu), h.userSockets, unregisterMulti_userSockets]
    split
    · exact (herase _).symm
    · rfl
  · rw [hcs.set (K := fun p : String × Option ℤ => .userAuction p.1 p.2) (b := (username, auction))
      (o := .srem id.text) h.kinded (by simp [Key.unregister]) (fun p hp => ?_) (u, a),
      h.userAuction, unregisterMulti_userAuction]
    · simp only [Prod.mk.injEq]
      split
      · exact (herase _).symm
      · rfl
    · exact not_and_or.mp fun hsame => hp (Prod.ext hsame.1 hsame.2)
  · rw [multi_named_of_notMem (by simp [Key.unregister]), h.auctionUsername]
    rfl
  · exact hcs.socket (K := .socketIp) (o := .del) h.socketIp (by simp [Key.unregister])
      (fun _ hx => hx)
  · exact hcs.socket (K := .socketUsername) (o := .del) h.socketUsername
      (by simp [Key.unregister]) (fun _ hx => hx)
  · rw [hcs.socket (K := .socketAuctionId) (o := .del) h.socketAuctionId
      (by simp [Key.unregister]) (fun _ hx => hx)]
    exact (congrFun (Function.comp_update (Option.map toString) r.socketAuctionId id none)
      id').symm

theorem Represents.forgetUsername (h : Represents r s) (username : String) (auction : Option ℤ) :
    Represents (r.forgetUsername username auction)
      (multi s (Key.named (Key.forget username auction))) := by
  have hfitting : Fitting Key.kind (Key.forget username auction) := by
    simp [Fitting, Key.forget, Op.fits, Key.kind]
  have hother : ∀ k : Key, k ≠ .auctionUsername auction →
      multi s (Key.named (Key.forget username auction)) k.text = s k.text :=
    fun k hk => multi_named_of_notMem (by simpa [Key.forget] using hk)
  refine ⟨kinded_named h.kinded hfitting, clean_named h.clean, ?_, ?_, ?_, ?_, ?_, ?_, ?_, ?_⟩
  · intro k x hx hstranger
    rw [hother k (by rintro rfl; cases hx)]
    exact h.sockets k x hx hstranger
  · intro i
    rw [hother (.ipSockets i) (by simp)]
    exact h.ipSockets i
  · intro u
    rw [hother (.userSockets u) (by simp)]
    exact h.userSockets u
  · intro u a
    rw [hother (.userAuction u a) (by simp)]
    exact h.userAuction u a
  · intro a
    by_cases ha : a = auction
    · subst ha
      rw [members_named h.kinded hfitting (by simp [Key.forget]) (o := .srem username)
        (by simp [Key.forget]), h.auctionUsername]
      simp [Registry.forgetUsername, Op.onMembers]
    · rw [hother (.auctionUsername a) (by simp [ha]), h.auctionUsername]
      simp [Registry.forgetUsername, ha]
  · intro id'
    rw [hother (.socketIp id'.text) (by simp)]
    exact h.socketIp id'
  · intro id'
    rw [hother (.socketUsername id'.text) (by simp)]
    exact h.socketUsername id'
  · intro id'
    rw [hother (.socketAuctionId id'.text) (by simp)]
    exact h.socketAuctionId id'

theorem Represents.scard_userAuction (h : Represents r s) (username : String) (auction : Option ℤ) :
    scard s (userAuctionKey username (auctionText auction)) =
      .ok (r.userAuction username auction).card := by
  have hread : smembers s (userAuctionKey username (auctionText auction)) =
      .ok ((r.userAuction username auction).image SocketId.text) := by
    rw [← h.userAuction]
    exact smembers_of_kind (k := Key.userAuction username auction) h.kinded rfl
  have hinj : Function.Injective SocketId.text := fun _ _ => SocketId.text_inj
  rw [scard, hread, ← Finset.card_image_of_injective _ hinj]
  rfl

/-- The call returns, and does to the store what it does to the registry. -/
theorem Represents.unregister (h : Represents r s) (now : Time) (id : SocketId) :
    ∃ t, s.unregisterSocket id.text = .ok t ∧ Represents (r.unregisterSocket now id).1 t := by
  have husername : get s (socketUsernameKey id.text) = .ok (r.socketUsername id) := by
    rw [← h.socketUsername]
    exact get_of_kind (k := Key.socketUsername id.text) h.kinded rfl
  have hip : get s (socketIpKey id.text) = .ok (r.socketIp id) := by
    rw [← h.socketIp]
    exact get_of_kind (k := Key.socketIp id.text) h.kinded rfl
  have haid : get s (socketAuctionIdKey id.text) = .ok ((r.socketAuctionId id).map toString) := by
    rw [← h.socketAuctionId]
    exact get_of_kind (k := Key.socketAuctionId id.text) h.kinded rfl
  cases hname : r.socketUsername id with
  | none =>
    refine ⟨s, ?_, ?_⟩
    · rw [RedisStore.unregisterSocket, husername, hname]
      rfl
    · rw [unregisterSocket_gone now hname]
      exact h
  | some username =>
    by_cases hempty : username = ""
    · subst hempty
      refine ⟨s, ?_, ?_⟩
      · rw [RedisStore.unregisterSocket, husername, hname]
        rfl
      · simp only [unregisterSocket, hname, if_true]
        exact h
    · have hblock := h.unregisterMulti id username (r.socketIp id) (r.socketAuctionId id)
      have hcard := hblock.scard_userAuction username (r.socketAuctionId id)
      rw [hname] at husername
      have hcall := RedisStore.unregisterSocket_of_reads husername hempty hip haid (by
        rw [getD_auctionText]
        exact hcard)
      rw [getD_auctionText] at hcall
      refine ⟨_, hcall, ?_⟩
      simp only [unregisterSocket, hname, if_neg hempty]
      split
      · exact hblock.forgetUsername username (r.socketAuctionId id)
      · exact hblock

end CarAuction
