import CarAuction.Gateway
import CarAuction.Lib.Fields
import CarAuction.Lib.Keyspace

/- The keys of Redis as texts, and what `registerSocket` and `unregisterSocket` write
   to them. A `Key` is a template with its arguments, `Key.text` the key it builds. A
   username may be any string, with colons or with the words of the templates in it:
   what is before the first colon of a key and after its last one still says which
   template it is from, and leaves the argument (`Key.text_injective`).

   Correspondence (TypeScript ↔ Lean):
     the template literals                        ↔ the functions `...Key`
     `${auctionId}` of a number, or of `null`     ↔ `auctionText`
     `this.redisPublisher`                        ↔ a `RedisStore`
     `multi()`, its commands, `exec()`            ↔ `multi`, `registerCommands`, `unregisterCommands`
     `get`, `smembers`, `scard`                   ↔ those of `Keyspace`
   The sorted sets of the throttle and the cached states are keys of the schema that
   none of these commands writes. No key expires here. -/
namespace CarAuction

open Keyspace Fields

/-! The templates. -/

def userSocketsKey (username : String) : String := "user:" ++ username ++ ":sockets"

def userAuctionKey (username auctionId : String) : String := "user:" ++ username ++ ":" ++ auctionId

def userBidTimestampsKey (username : String) : String := "user:" ++ username ++ ":bid_timestamps"

def socketIpKey (socketId : String) : String := "socket:" ++ socketId ++ ":ip"

def socketUsernameKey (socketId : String) : String := "socket:" ++ socketId ++ ":username"

def socketAuctionIdKey (socketId : String) : String := "socket:" ++ socketId ++ ":auctionId"

def ipSocketsKey (ip : String) : String := "ip:" ++ ip ++ ":sockets"

def auctionUsernameKey (auctionId : String) : String := "auction:" ++ auctionId ++ ":username"

def auctionStateKey (auctionId : String) : String := "auction:" ++ auctionId ++ ":state"

/-- An auction id in a template: a missing one is `null`. -/
def auctionText : Option ℤ → String
  | some auctionId => toString auctionId
  | none => "null"

theorem toString_inj {m n : ℤ} (h : toString m = toString n) : m = n := by
  have hsign : ∀ j k : ℕ, Nat.toDigits 10 j ≠ '-' :: Nat.toDigits 10 k := by
    intro j k h
    have hmem : '-' ∈ Nat.toDigits 10 j := by simp [h]
    cases Nat.isDigit_of_mem_toDigits (b := 10) (by decide) (by decide) hmem
  have hlist := congrArg String.toList h
  cases m with
  | ofNat j =>
    cases n with
    | ofNat k =>
      have hdigits : Nat.toDigits 10 j = Nat.toDigits 10 k := by
        simpa [Int.repr, Nat.toList_repr] using hlist
      rw [toDigits_inj (by decide) (by decide) hdigits]
    | negSucc k =>
      exact absurd (by simpa [Int.repr, Nat.toList_repr] using hlist) (hsign j (k + 1))
  | negSucc j =>
    cases n with
    | ofNat k =>
      exact absurd (by simpa [Int.repr, Nat.toList_repr] using hlist.symm) (hsign k (j + 1))
    | negSucc k =>
      have hdigits : Nat.toDigits 10 (j + 1) = Nat.toDigits 10 (k + 1) := by
        simpa [Int.repr, Nat.toList_repr] using hlist
      have hsucc := toDigits_inj (by decide) (by decide) hdigits
      rw [Nat.succ.inj hsucc]

theorem ne_auctionText {text : String} {c : Char} (hmem : c ∈ text.toList)
    (hdigit : c.isDigit = false) (hsign : c ≠ '-') (hnull : text ≠ "null") (auctionId : Option ℤ) :
    text ≠ auctionText auctionId := by
  cases auctionId with
  | none => exact hnull
  | some a => exact ne_toString hmem hdigit hsign a

theorem auctionText_inj {a b : Option ℤ} (h : auctionText a = auctionText b) : a = b := by
  cases a with
  | none =>
    cases b with
    | none => rfl
    | some n => exact absurd h (ne_toString (show 'n' ∈ "null".toList by decide) rfl (by decide) n)
  | some m =>
    cases b with
    | none =>
      exact absurd h.symm (ne_toString (show 'n' ∈ "null".toList by decide) rfl (by decide) m)
    | some n => rw [toString_inj h]

theorem colon_notMem_auctionText (auctionId : Option ℤ) : ':' ∉ (auctionText auctionId).toList := by
  cases auctionId with
  | none => simp [auctionText]
  | some a => exact fun hmem => ne_toString hmem rfl (by decide) a rfl

/-- A stored id as it stands in a template. -/
theorem getD_auctionText (auctionId : Option ℤ) :
    (auctionId.map toString).getD "null" = auctionText auctionId := by
  cases auctionId with
  | none => rfl
  | some a => rfl

/-- A template with its arguments. -/
inductive Key where
  | userSockets (username : String)
  | userAuction (username : String) (auctionId : Option ℤ)
  | userBidTimestamps (username : String)
  | socketIp (socketId : String)
  | socketUsername (socketId : String)
  | socketAuctionId (socketId : String)
  | ipSockets (ip : String)
  | auctionUsername (auctionId : Option ℤ)
  | auctionState (auctionId : Option ℤ)
  deriving DecidableEq

namespace Key

def text : Key → String
  | userSockets username => userSocketsKey username
  | userAuction username auctionId => userAuctionKey username (auctionText auctionId)
  | userBidTimestamps username => userBidTimestampsKey username
  | socketIp socketId => socketIpKey socketId
  | socketUsername socketId => socketUsernameKey socketId
  | socketAuctionId socketId => socketAuctionIdKey socketId
  | ipSockets ip => ipSocketsKey ip
  | auctionUsername auctionId => auctionUsernameKey (auctionText auctionId)
  | auctionState auctionId => auctionStateKey (auctionText auctionId)

/-- The type of the entries the code keeps there, when it is a string or a set. -/
def kind : Key → Option Kind
  | userSockets _ => some .set
  | userAuction _ _ => some .set
  | userBidTimestamps _ => none
  | socketIp _ => some .string
  | socketUsername _ => some .string
  | socketAuctionId _ => some .string
  | ipSockets _ => some .set
  | auctionUsername _ => some .set
  | auctionState _ => some .string

/-- What is before the first colon. -/
def head : Key → String
  | userSockets _ => "user"
  | userAuction _ _ => "user"
  | userBidTimestamps _ => "user"
  | socketIp _ => "socket"
  | socketUsername _ => "socket"
  | socketAuctionId _ => "socket"
  | ipSockets _ => "ip"
  | auctionUsername _ => "auction"
  | auctionState _ => "auction"

/-- What is between the first colon and the last. -/
def argument : Key → String
  | userSockets username => username
  | userAuction username _ => username
  | userBidTimestamps username => username
  | socketIp socketId => socketId
  | socketUsername socketId => socketId
  | socketAuctionId socketId => socketId
  | ipSockets ip => ip
  | auctionUsername auctionId => auctionText auctionId
  | auctionState auctionId => auctionText auctionId

/-- What is after the last colon. -/
def last : Key → String
  | userSockets _ => "sockets"
  | userAuction _ auctionId => auctionText auctionId
  | userBidTimestamps _ => "bid_timestamps"
  | socketIp _ => "ip"
  | socketUsername _ => "username"
  | socketAuctionId _ => "auctionId"
  | ipSockets _ => "sockets"
  | auctionUsername _ => "username"
  | auctionState _ => "state"

variable {k k' : Key}

theorem text_parts (k : Key) :
    k.text.toList = k.head.toList ++ ':' :: (k.argument.toList ++ ':' :: k.last.toList) := by
  cases k with
  | userSockets username => simp [text, userSocketsKey, head, argument, last]
  | userAuction username auctionId => simp [text, userAuctionKey, head, argument, last]
  | userBidTimestamps username => simp [text, userBidTimestampsKey, head, argument, last]
  | socketIp socketId => simp [text, socketIpKey, head, argument, last]
  | socketUsername socketId => simp [text, socketUsernameKey, head, argument, last]
  | socketAuctionId socketId => simp [text, socketAuctionIdKey, head, argument, last]
  | ipSockets ip => simp [text, ipSocketsKey, head, argument, last]
  | auctionUsername auctionId => simp [text, auctionUsernameKey, head, argument, last]
  | auctionState auctionId => simp [text, auctionStateKey, head, argument, last]

theorem colon_notMem_head (k : Key) : ':' ∉ k.head.toList := by
  cases k <;> simp [head]

theorem colon_notMem_last (k : Key) : ':' ∉ k.last.toList := by
  cases k with
  | userAuction username auctionId => exact colon_notMem_auctionText auctionId
  | _ => simp [last]

/-- The three parts of a key can be read off its text. -/
theorem parts_of_text (h : k.text = k'.text) :
    k.head = k'.head ∧ k.argument = k'.argument ∧ k.last = k'.last := by
  have hlist := congrArg String.toList h
  rw [text_parts, text_parts] at hlist
  obtain ⟨hhead, hrest⟩ := head_inj k.colon_notMem_head k'.colon_notMem_head hlist
  obtain ⟨hargument, hlast⟩ := last_inj k.colon_notMem_last k'.colon_notMem_last hrest
  exact ⟨String.toList_inj.mp hhead, String.toList_inj.mp hargument, String.toList_inj.mp hlast⟩

theorem sockets_ne_auctionText (auctionId : Option ℤ) : "sockets" ≠ auctionText auctionId :=
  ne_auctionText (show 's' ∈ "sockets".toList by decide) rfl (by decide) (by decide) auctionId

theorem timestamps_ne_auctionText (auctionId : Option ℤ) :
    "bid_timestamps" ≠ auctionText auctionId :=
  ne_auctionText (show 'b' ∈ "bid_timestamps".toList by decide) rfl (by decide) (by decide) auctionId

/-- The templates with one head differ in their last part, and the argument is the rest. -/
theorem text_injective : Function.Injective text := by
  intro k k' h
  obtain ⟨hhead, hargument, hlast⟩ := parts_of_text h
  cases k with
  | userSockets u =>
    cases k' with
    | userSockets u' => exact congrArg userSockets hargument
    | userAuction u' a => exact absurd hlast (sockets_ne_auctionText a)
    | _ => simp [head, last] at hhead hlast
  | userAuction u a =>
    cases k' with
    | userSockets u' => exact absurd hlast.symm (sockets_ne_auctionText a)
    | userAuction u' a' => exact congrArg₂ userAuction hargument (auctionText_inj hlast)
    | userBidTimestamps u' => exact absurd hlast.symm (timestamps_ne_auctionText a)
    | _ => simp [head] at hhead
  | userBidTimestamps u =>
    cases k' with
    | userAuction u' a => exact absurd hlast (timestamps_ne_auctionText a)
    | userBidTimestamps u' => exact congrArg userBidTimestamps hargument
    | _ => simp [head, last] at hhead hlast
  | socketIp x =>
    cases k' with
    | socketIp x' => exact congrArg socketIp hargument
    | _ => simp [head, last] at hhead hlast
  | socketUsername x =>
    cases k' with
    | socketUsername x' => exact congrArg socketUsername hargument
    | _ => simp [head, last] at hhead hlast
  | socketAuctionId x =>
    cases k' with
    | socketAuctionId x' => exact congrArg socketAuctionId hargument
    | _ => simp [head, last] at hhead hlast
  | ipSockets ip =>
    cases k' with
    | ipSockets ip' => exact congrArg ipSockets hargument
    | _ => simp [head] at hhead
  | auctionUsername a =>
    cases k' with
    | auctionUsername a' => exact congrArg auctionUsername (auctionText_inj hargument)
    | _ => simp [head, last] at hhead hlast
  | auctionState a =>
    cases k' with
    | auctionState a' => exact congrArg auctionState (auctionText_inj hargument)
    | _ => simp [head, last] at hhead hlast

end Key

/-! What `registerSocket` and `unregisterSocket` write. -/

abbrev RedisStore := Store String String String

/-- The MULTI block of `registerSocket`. -/
def registerCommands (username socketId ip auctionId : String) :
    List (String × Op String String) :=
  [(ipSocketsKey ip, .sadd socketId),
    (socketIpKey socketId, .set ip),
    (userSocketsKey username, .sadd socketId),
    (socketUsernameKey socketId, .set username),
    (socketAuctionIdKey socketId, .set auctionId),
    (auctionUsernameKey auctionId, .sadd username),
    (userAuctionKey username auctionId, .sadd socketId)]

/-- The MULTI block of `unregisterSocket`, with what its reads have returned. -/
def unregisterCommands (socketId username ip auctionId : String) :
    List (String × Op String String) :=
  [(ipSocketsKey ip, .srem socketId),
    (socketIpKey socketId, .del),
    (userSocketsKey username, .srem socketId),
    (socketUsernameKey socketId, .del),
    (socketAuctionIdKey socketId, .del),
    (userAuctionKey username auctionId, .srem socketId)]

namespace RedisStore

def registerSocket (s : RedisStore) (username socketId ip : String) (auctionId : ℤ) : RedisStore :=
  multi s (registerCommands username socketId ip (toString auctionId))

def unregisterSocket (s : RedisStore) (socketId : String) : Except WrongType RedisStore := do
  match ← get s (socketUsernameKey socketId) with
  | none => return s
  | some username =>
    -- an empty name is falsy
    if username = "" then return s
    else
      let ip := (← get s (socketIpKey socketId)).getD "null"
      let auctionId := (← get s (socketAuctionIdKey socketId)).getD "null"
      let s := multi s (unregisterCommands socketId username ip auctionId)
      let remainingSockets ← scard s (userAuctionKey username auctionId)
      if remainingSockets = 0 then
        return multi s [(auctionUsernameKey auctionId, .srem username)]
      else return s

end RedisStore

/-- Commands on keys as commands on their texts. -/
def Key.named (cs : List (Key × Op String String)) : List (String × Op String String) :=
  cs.map (Prod.map Key.text id)

/-- The same blocks by the keys of the schema. -/
def Key.register (username socketId ip : String) (auctionId : Option ℤ) :
    List (Key × Op String String) :=
  [(.ipSockets ip, .sadd socketId),
    (.socketIp socketId, .set ip),
    (.userSockets username, .sadd socketId),
    (.socketUsername socketId, .set username),
    (.socketAuctionId socketId, .set (auctionText auctionId)),
    (.auctionUsername auctionId, .sadd username),
    (.userAuction username auctionId, .sadd socketId)]

def Key.unregister (socketId username ip : String) (auctionId : Option ℤ) :
    List (Key × Op String String) :=
  [(.ipSockets ip, .srem socketId),
    (.socketIp socketId, .del),
    (.userSockets username, .srem socketId),
    (.socketUsername socketId, .del),
    (.socketAuctionId socketId, .del),
    (.userAuction username auctionId, .srem socketId)]

def Key.forget (username : String) (auctionId : Option ℤ) : List (Key × Op String String) :=
  [(.auctionUsername auctionId, .srem username)]

theorem registerCommands_eq (username socketId ip : String) (auctionId : Option ℤ) :
    registerCommands username socketId ip (auctionText auctionId) =
      Key.named (Key.register username socketId ip auctionId) := rfl

theorem unregisterCommands_eq (socketId username ip : String) (auctionId : Option ℤ) :
    unregisterCommands socketId username ip (auctionText auctionId) =
      Key.named (Key.unregister socketId username ip auctionId) := rfl

/-- The key has another user, socket, address or auction, or no session command is for it. -/
def Key.foreign (username socketId ip : String) (auctionId : Option ℤ) : Key → Prop
  | userSockets u => u ≠ username
  | userAuction u a => u ≠ username ∨ a ≠ auctionId
  | userBidTimestamps _ => True
  | socketIp x => x ≠ socketId
  | socketUsername x => x ≠ socketId
  | socketAuctionId x => x ≠ socketId
  | ipSockets i => i ≠ ip
  | auctionUsername a => a ≠ auctionId
  | auctionState _ => True

variable {s t : RedisStore} {username socketId ip : String} {auctionId : Option ℤ} {k : Key}
  {cs : List (Key × Op String String)}

/-- Commands on keys see no more of their texts than which of them are equal. -/
theorem multi_named (s : RedisStore) (cs : List (Key × Op String String)) :
    multi s (Key.named cs) ∘ Key.text = multi (s ∘ Key.text) cs :=
  run_comp Key.text_injective s cs

theorem multi_named_of_notMem (h : k ∉ cs.map Prod.fst) :
    multi s (Key.named cs) k.text = s k.text :=
  calc multi s (Key.named cs) k.text = multi (s ∘ Key.text) cs k := congrFun (multi_named s cs) k
    _ = s k.text := run_of_notMem h

theorem Key.foreign.notMem_register (h : k.foreign username socketId ip auctionId) :
    k ∉ (Key.register username socketId ip auctionId).map Prod.fst := by
  intro hmem
  simp only [Key.register, List.map_cons, List.map_nil, List.mem_cons, List.not_mem_nil, or_false]
    at hmem
  rcases hmem with rfl | rfl | rfl | rfl | rfl | rfl | rfl
  · exact h rfl
  · exact h rfl
  · exact h rfl
  · exact h rfl
  · exact h rfl
  · exact h rfl
  · exact h.elim (fun h => h rfl) (fun h => h rfl)

theorem Key.foreign.notMem_unregister (h : k.foreign username socketId ip auctionId) :
    k ∉ (Key.unregister socketId username ip auctionId).map Prod.fst := by
  intro hmem
  apply h.notMem_register
  simp only [Key.unregister, Key.register, List.map_cons, List.map_nil, List.mem_cons,
    List.not_mem_nil, or_false] at hmem ⊢
  rcases hmem with h | h | h | h | h | h
  · exact .inl h
  · exact .inr (.inl h)
  · exact .inr (.inr (.inl h))
  · exact .inr (.inr (.inr (.inl h)))
  · exact .inr (.inr (.inr (.inr (.inl h))))
  · exact .inr (.inr (.inr (.inr (.inr (.inr h)))))

/-- A call that removes a socket has read whose it was. -/
theorem RedisStore.unregisterSocket_ok (h : s.unregisterSocket socketId = .ok t)
    (husername : get s (socketUsernameKey socketId) = .ok (some username)) :
    t = s ∨ ∃ ip auctionId : Option String, get s (socketIpKey socketId) = .ok ip ∧
      get s (socketAuctionIdKey socketId) = .ok auctionId ∧
      let s' := multi s (unregisterCommands socketId username (ip.getD "null")
        (auctionId.getD "null"))
      t = s' ∨ t = multi s' [(auctionUsernameKey (auctionId.getD "null"), .srem username)] := by
  rw [unregisterSocket, husername] at h
  by_cases hempty : username = ""
  · simp only [bind, Except.bind, if_pos hempty] at h
    cases h
    exact .inl rfl
  · simp only [bind, Except.bind, if_neg hempty] at h
    cases hip : get s (socketIpKey socketId) with
    | error e => rw [hip] at h; cases h
    | ok ip =>
      rw [hip] at h
      cases haid : get s (socketAuctionIdKey socketId) with
      | error e => rw [haid] at h; cases h
      | ok auctionId =>
        rw [haid] at h
        refine .inr ⟨ip, auctionId, rfl, rfl, ?_⟩
        simp only at h
        split at h
        · cases h
        · split at h
          · cases h
            exact .inr rfl
          · cases h
            exact .inl rfl

/-- The call for a socket it finds a user of, when no read fails. -/
theorem RedisStore.unregisterSocket_of_reads {read : Option String} {i : Option String} {n : ℕ}
    (husername : get s (socketUsernameKey socketId) = .ok (some username)) (hne : username ≠ "")
    (hip : get s (socketIpKey socketId) = .ok i)
    (haid : get s (socketAuctionIdKey socketId) = .ok read)
    (hcard : scard (multi s (unregisterCommands socketId username (i.getD "null")
      (read.getD "null"))) (userAuctionKey username (read.getD "null")) = .ok n) :
    s.unregisterSocket socketId = .ok (if n = 0 then
        multi (multi s (unregisterCommands socketId username (i.getD "null") (read.getD "null")))
          [(auctionUsernameKey (read.getD "null"), .srem username)]
      else multi s (unregisterCommands socketId username (i.getD "null") (read.getD "null"))) := by
  rw [unregisterSocket, husername]
  simp only [bind, Except.bind, if_neg hne, hip, haid, hcard]
  split
  · rfl
  · rfl

/-- Keys that the templates build are equal only if template and arguments are; and a session
    command leaves the keys of every other user, socket, address and auction as they were, whatever
    the name of its user is. -/
theorem key_schema_collision_free :
    Function.Injective Key.text ∧
      (∀ (s : RedisStore) (username socketId ip : String) (auctionId : ℤ) (k : Key),
        k.foreign username socketId ip (some auctionId) →
          s.registerSocket username socketId ip auctionId k.text = s k.text) ∧
      ∀ (s t : RedisStore) (username socketId : String) (ip : Option String) (auctionId : Option ℤ)
        (k : Key), get s (socketUsernameKey socketId) = .ok (some username) →
        get s (socketIpKey socketId) = .ok ip →
        get s (socketAuctionIdKey socketId) = .ok (auctionId.map toString) →
        s.unregisterSocket socketId = .ok t →
        k.foreign username socketId (ip.getD "null") auctionId → t k.text = s k.text := by
  refine ⟨Key.text_injective, ?_, ?_⟩
  · intro s username socketId ip auctionId k hk
    exact multi_named_of_notMem hk.notMem_register
  · intro s t username socketId ip auctionId k husername hip haid hok hk
    rcases RedisStore.unregisterSocket_ok hok husername with rfl | ⟨ip', read, hip', hread, ht⟩
    · rfl
    · cases Except.ok.inj (haid.symm.trans hread)
      cases Except.ok.inj (hip.symm.trans hip')
      rw [getD_auctionText] at ht
      have hremoved : multi s (unregisterCommands socketId username (ip.getD "null")
          (auctionText auctionId)) k.text = s k.text :=
        multi_named_of_notMem hk.notMem_unregister
      rcases ht with rfl | rfl
      · exact hremoved
      · rw [← hremoved]
        have hnot : k ∉ (Key.forget username auctionId).map Prod.fst := by
          intro hmem
          cases List.mem_singleton.mp hmem
          exact hk rfl
        exact multi_named_of_notMem hnot

end CarAuction
