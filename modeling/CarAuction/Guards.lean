import CarAuction.Lib.Machine
import CarAuction.Lib.Pool
import CarAuction.Gateway

/- The guards in front of the handlers of `AuctionGateway`, statement by statement.
   For every message `WsConnectionRateLimitGuard` verifies the handshake token and
   counts the sockets of the user and of the address, then `WsConnectionAuthGuard`
   lets a client with a `user` through and verifies the token of any other, then
   `WsRolesGuard` compares the role for `endAuction`. The first two write
   `client.user`, which outlives the message.

   The messages of all sockets run concurrently over the clients and a clock that
   goes forward; what a count returns is an input, so the results hold for every
   registry. A message carries what its own guard pass has observed.

   Correspondence (TypeScript ↔ Lean):
     `jwtService.verifyAsync(token)`, its rejection as `null` ↔ `verifyAsync`
     `client.handshake.auth?.token`, `client.user`            ↔ `ClientSocket`
     `canActivate` of the two class-level guards              ↔ `guardStep`
     `WsRolesGuard.canActivate`, `@Roles("admin")`            ↔ `rolesGuard`, `requiredRole`
     `/^::ffff:(\d+\.\d+\.\d+\.\d+)$/`                      ↔ `take`, `drop`, `isDottedQuad` -/
namespace CarAuction

open Pool Machine

structure JwtPayload where
  sub : ℤ
  username : String
  role : Option String
  deriving DecidableEq

/-- A handshake token; `valid` is that its signature is. -/
structure Token where
  payload : JwtPayload
  valid : Bool
  expiresAt : Option Time
  deriving DecidableEq

def verifyAsync (now : Time) : Option Token → Option JwtPayload
  | none => none
  | some token =>
    if token.valid && token.expiresAt.all (fun t => now < t) then some token.payload else none

/-- Four groups of digits with dots between them. -/
def isDottedQuad (ip : List Char) : Bool :=
  let groups := ip.splitOn '.'
  groups.length = 4 && groups.all fun g => !g.isEmpty && g.all Char.isDigit

/-- The bucket of an address: the loopback by its name, an IPv4-mapped address as the IPv4 address,
    with `_` for each colon and dot. -/
def normalizeIp (ip : String) : String :=
  if ip = "" then "unknown"
  else
    let ip := if ip = "::1" then "localhost".toList else ip.toList
    let tail := ip.drop 7
    let ip := if ip.take 7 = "::ffff:".toList && isDottedQuad tail then tail else ip
    String.ofList (ip.map fun c => if c = '.' || c = ':' then '_' else c)

/-- A connected client; an empty token counts as none. -/
structure ClientSocket where
  address : String
  token : Option Token
  user : Option JwtPayload
  deriving DecidableEq

/-- `MAX_SOCKETS_PER_USER` and `MAX_SOCKETS_PER_IP`. -/
structure Limits where
  maxSocketsPerUser : ℕ
  maxSocketsPerIp : ℕ

inductive Handler where
  | joinAuction
  | placeBid
  | endAuction
  deriving DecidableEq

def Handler.requiredRole : Handler → Option String
  | endAuction => some "admin"
  | _ => none

inductive Guard where
  | connectionRateLimit
  | connectionAuth
  | roles
  deriving DecidableEq

/-- The guards of the class, in the order in which they run: the decorators apply from below. -/
def classGuards : List Guard := [.connectionRateLimit, .connectionAuth]

def Handler.methodGuards : Handler → List Guard
  | endAuction => [.roles]
  | _ => []

/-- Why a guard returns `false`. -/
inductive GuardError where
  | maxUserSockets (username : String)
  | maxIpSockets (ip : String)
  | noAuthToken
  | invalidToken
  deriving DecidableEq

namespace GuardError

/-- The event the error is emitted under. -/
def event : GuardError → String
  | maxUserSockets _ => "connectionRejected"
  | maxIpSockets _ => "connectionRejected"
  | noAuthToken => "rejectedConnection"
  | invalidToken => "rejectedConnection"

def message : GuardError → String
  | maxUserSockets username => s!"User {username} exceeded max socket connections."
  | maxIpSockets ip => s!"IP {ip} exceeded max socket connections."
  | noAuthToken => "Unauthorized: No token provided via handshake auth."
  | invalidToken => "Unauthorized: Invalid or expired token."

end GuardError

/-- The exceptions of the roles guard. -/
inductive ForbiddenError where
  | roleNotFound
  | insufficientPermissions
  deriving DecidableEq

def ForbiddenError.message : ForbiddenError → String
  | roleNotFound => "Forbidden: User role not found."
  | insufficientPermissions => "Forbidden: Insufficient permissions."

def rolesGuard (handler : Handler) (user : Option JwtPayload) : Except ForbiddenError Unit :=
  match handler.requiredRole with
  | none => .ok ()
  | some requiredRole =>
    match user.bind JwtPayload.role with
    | none => .error .roleNotFound
    | some userRole =>
      if userRole = "" then .error .roleNotFound
      else if requiredRole ≠ userRole then .error .insufficientPermissions
      else .ok ()

/-- Where a message is in its guards. -/
inductive GuardPc where
  | arrived
  | verified (user : JwtPayload)
  | userCounted
  | rateLimited
  | unverified
  | authenticated
  | allowed
  | handled
  | rejecting (error : GuardError)
  | refused (error : GuardError)
  | forbidden (error : ForbiddenError)
  | threw
  deriving DecidableEq

/-- What the guard pass of a message has observed: when it began, when it verified the token, the
    size of the user's set, and the guards that have returned `true`. -/
structure GuardPass where
  checkedAt : Option Time
  verifiedAt : Option Time
  userSockets : Option ℕ
  passed : List Guard
  deriving DecidableEq

def GuardPass.pass (p : GuardPass) (guards : List Guard) : GuardPass :=
  { p with passed := p.passed ++ guards }

structure Message where
  socket : SocketId
  handler : Handler
  pass : GuardPass
  pc : GuardPc
  deriving DecidableEq

def Message.arrive (socket : SocketId) (handler : Handler) : Message :=
  ⟨socket, handler, ⟨none, none, none, []⟩, .arrived⟩

inductive GuardEvent where
  | verified (socket : SocketId) (time : Time)
  | rejected (socket : SocketId) (error : GuardError)
  | disconnected (socket : SocketId)
  deriving DecidableEq

structure GuardWorld where
  now : Time
  socket : SocketId → ClientSocket

def GuardWorld.setUser (w : GuardWorld) (id : SocketId) (user : JwtPayload) : GuardWorld :=
  { w with socket := Function.update w.socket id { w.socket id with user := some user } }

/-- The next statement of the guards for a message, where `count` is what an `scard` returns. -/
def guardStep (limits : Limits) (count : ℕ) (w : GuardWorld) (m : Message) :
    Option (GuardWorld × Message × List GuardEvent) :=
  let client := w.socket m.socket
  match m.pc with
  | .arrived =>
    match verifyAsync w.now client.token with
    | some user =>
      some (w.setUser m.socket user,
        { m with pass := ⟨some w.now, some w.now, none, []⟩, pc := .verified user },
        [.verified m.socket w.now])
    -- an unverified socket is let through to the count of its address
    | none => some (w, { m with pass := ⟨some w.now, none, none, []⟩, pc := .userCounted }, [])
  | .verified user =>
    let pass := { m.pass with userSockets := some count }
    if limits.maxSocketsPerUser < count then
      some (w, { m with pass := pass, pc := .rejecting (.maxUserSockets user.username) },
        [.rejected m.socket (.maxUserSockets user.username)])
    else some (w, { m with pass := pass, pc := .userCounted }, [])
  | .userCounted =>
    if limits.maxSocketsPerIp < count then
      some (w, { m with pc := .rejecting (.maxIpSockets client.address) },
        [.rejected m.socket (.maxIpSockets client.address)])
    else
      some (w, { m with pass := m.pass.pass [.connectionRateLimit], pc := .rateLimited }, [])
  | .rateLimited =>
    -- whoever attached the user, and whenever
    if client.user.isSome then
      some (w, { m with pass := m.pass.pass [.connectionAuth], pc := .authenticated }, [])
    else if client.token.isNone then
      some (w, { m with pc := .rejecting .noAuthToken }, [.rejected m.socket .noAuthToken])
    else some (w, { m with pc := .unverified }, [])
  | .unverified =>
    match verifyAsync w.now client.token with
    | some user =>
      some (w.setUser m.socket user,
        { m with
          pass := { m.pass with verifiedAt := some w.now }.pass [.connectionAuth]
          pc := .authenticated },
        [.verified m.socket w.now])
    | none => some (w, { m with pc := .rejecting .invalidToken },
        [.rejected m.socket .invalidToken, .disconnected m.socket])
  | .authenticated =>
    match rolesGuard m.handler client.user with
    | .ok _ =>
      some (w, { m with pass := m.pass.pass m.handler.methodGuards, pc := .allowed }, [])
    | .error e => some (w, { m with pc := .forbidden e }, [])
  | .allowed => some (w, { m with pc := .handled }, [])
  -- the audit event has been sent
  | .rejecting error => some (w, { m with pc := .refused error }, [.disconnected m.socket])
  | .handled => none
  | .refused _ => none
  | .forbidden _ => none
  | .threw => none

/-- An exception at an `await` of the guards. -/
def Message.throw (m : Message) : Option Message :=
  match m.pc with
  | .handled => none
  | .refused _ => none
  | .forbidden _ => none
  | .threw => none
  | _ => some { m with pc := .threw }

section SetUser

variable {w : GuardWorld} {id : SocketId} {user : JwtPayload}

@[simp] theorem setUser_token {id' : SocketId} :
    ((w.setUser id user).socket id').token = (w.socket id').token := by
  by_cases h : id' = id <;> simp [GuardWorld.setUser, h]

@[simp] theorem setUser_user_self : ((w.setUser id user).socket id).user = some user := by
  simp [GuardWorld.setUser]

@[simp] theorem setUser_user_of_ne {id' : SocketId} (h : id' ≠ id) :
    ((w.setUser id user).socket id').user = (w.socket id').user := by
  simp [GuardWorld.setUser, h]

end SetUser

/-- The messages of all sockets; the environment lets `k` milliseconds pass. -/
def guards (limits : Limits) : Program GuardWorld Message GuardEvent ℕ ℕ where
  begins := fun m => m = .arrive m.socket m.handler
  step := guardStep limits
  env := fun k w => { w with now := w.now + k }
  kill := Message.throw

abbrev GuardState := Pool.State GuardWorld Message GuardEvent
abbrev GuardAction := Pool.Action Message ℕ ℕ

/-- The message whose handler body the action runs. -/
def bodyRun (s : GuardState) (act : GuardAction) : Option Message :=
  (moving s act).filter (fun m => m.pc = .allowed)

/-! What one statement does. -/

inductive GuardStep (limits : Limits) (count : ℕ) (w : GuardWorld) (m : Message) :
    GuardWorld → Message → List GuardEvent → Prop where
  | verifies {user} : m.pc = .arrived → verifyAsync w.now (w.socket m.socket).token = some user →
      GuardStep limits count w m (w.setUser m.socket user)
        { m with pass := ⟨some w.now, some w.now, none, []⟩, pc := .verified user }
        [.verified m.socket w.now]
  | staysUnverified : m.pc = .arrived → verifyAsync w.now (w.socket m.socket).token = none →
      GuardStep limits count w m w { m with pass := ⟨some w.now, none, none, []⟩, pc := .userCounted } []
  | countsUser {user} : m.pc = .verified user → count ≤ limits.maxSocketsPerUser →
      GuardStep limits count w m w
        { m with pass := { m.pass with userSockets := some count }, pc := .userCounted } []
  | rejectsUser {user} : m.pc = .verified user → limits.maxSocketsPerUser < count →
      GuardStep limits count w m w
        { m with
          pass := { m.pass with userSockets := some count }
          pc := .rejecting (.maxUserSockets user.username) }
        [.rejected m.socket (.maxUserSockets user.username)]
  | countsIp : m.pc = .userCounted → count ≤ limits.maxSocketsPerIp →
      GuardStep limits count w m w
        { m with pass := m.pass.pass [.connectionRateLimit], pc := .rateLimited } []
  | rejectsIp : m.pc = .userCounted → limits.maxSocketsPerIp < count →
      GuardStep limits count w m w
        { m with pc := .rejecting (.maxIpSockets (w.socket m.socket).address) }
        [.rejected m.socket (.maxIpSockets (w.socket m.socket).address)]
  | trustsUser : m.pc = .rateLimited → (w.socket m.socket).user.isSome →
      GuardStep limits count w m w
        { m with pass := m.pass.pass [.connectionAuth], pc := .authenticated } []
  | rejectsNoToken : m.pc = .rateLimited → (w.socket m.socket).token = none →
      GuardStep limits count w m w { m with pc := .rejecting .noAuthToken }
        [.rejected m.socket .noAuthToken]
  | asksAgain : m.pc = .rateLimited → GuardStep limits count w m w { m with pc := .unverified } []
  | verifiesAgain {user} : m.pc = .unverified →
      verifyAsync w.now (w.socket m.socket).token = some user →
      GuardStep limits count w m (w.setUser m.socket user)
        { m with
          pass := { m.pass with verifiedAt := some w.now }.pass [.connectionAuth]
          pc := .authenticated }
        [.verified m.socket w.now]
  | rejectsToken : m.pc = .unverified → verifyAsync w.now (w.socket m.socket).token = none →
      GuardStep limits count w m w { m with pc := .rejecting .invalidToken }
        [.rejected m.socket .invalidToken, .disconnected m.socket]
  | allows : m.pc = .authenticated → rolesGuard m.handler (w.socket m.socket).user = .ok () →
      GuardStep limits count w m w
        { m with pass := m.pass.pass m.handler.methodGuards, pc := .allowed } []
  | forbids {e} : m.pc = .authenticated → GuardStep limits count w m w { m with pc := .forbidden e } []
  | handles : m.pc = .allowed → GuardStep limits count w m w { m with pc := .handled } []
  | refuses {error} : m.pc = .rejecting error →
      GuardStep limits count w m w { m with pc := .refused error } [.disconnected m.socket]

theorem guardStep_inv {limits : Limits} {count : ℕ} {w w' : GuardWorld} {m m' : Message}
    {es : List GuardEvent} (h : guardStep limits count w m = some (w', m', es)) :
    GuardStep limits count w m w' m' es := by
  cases hpc : m.pc with
  | arrived =>
    simp only [guardStep, hpc] at h
    split at h
    · next user hv => cases h; exact .verifies hpc hv
    · next hv => cases h; exact .staysUnverified hpc hv
  | verified user =>
    simp only [guardStep, hpc] at h
    split at h
    · next hc => cases h; exact .rejectsUser hpc hc
    · next hc => cases h; exact .countsUser hpc (not_lt.mp hc)
  | userCounted =>
    simp only [guardStep, hpc] at h
    split at h
    · next hc => cases h; exact .rejectsIp hpc hc
    · next hc => cases h; exact .countsIp hpc (not_lt.mp hc)
  | rateLimited =>
    simp only [guardStep, hpc] at h
    split at h
    · next hu => cases h; exact .trustsUser hpc hu
    · split at h
      · next ht => cases h; exact .rejectsNoToken hpc (Option.isNone_iff_eq_none.mp ht)
      · cases h; exact .asksAgain hpc
  | unverified =>
    simp only [guardStep, hpc] at h
    split at h
    · next user hv => cases h; exact .verifiesAgain hpc hv
    · next hv => cases h; exact .rejectsToken hpc hv
  | authenticated =>
    simp only [guardStep, hpc] at h
    split at h
    · next hr => cases h; exact .allows hpc hr
    · next e hr => cases h; exact .forbids hpc
  | allowed => simp only [guardStep, hpc] at h; cases h; exact .handles hpc
  | rejecting error => simp only [guardStep, hpc] at h; cases h; exact .refuses hpc
  | handled => simp [guardStep, hpc] at h
  | refused error => simp [guardStep, hpc] at h
  | forbidden error => simp [guardStep, hpc] at h
  | threw => simp [guardStep, hpc] at h

/-! Tokens and time. -/

variable {token : Option Token} {now t : Time} {user : JwtPayload}

/-- A verified token is there, and yields its own payload. -/
theorem verifyAsync_payload (h : verifyAsync now token = some user) :
    ∃ tok, token = some tok ∧ user = tok.payload := by
  cases token with
  | none => cases h
  | some tok =>
    simp only [verifyAsync, Option.ite_none_right_eq_some, Option.some.injEq] at h
    exact ⟨tok, rfl, h.2.symm⟩

/-- A token that verifies has verified at every earlier time. -/
theorem verifyAsync_mono (h : verifyAsync now token = some user) (ht : t ≤ now) :
    verifyAsync t token = some user := by
  cases token with
  | none => cases h
  | some tok =>
    simp only [verifyAsync, Option.ite_none_right_eq_some, Bool.and_eq_true] at h ⊢
    obtain ⟨⟨hvalid, hexpires⟩, hpayload⟩ := h
    refine ⟨⟨hvalid, ?_⟩, hpayload⟩
    cases hexp : tok.expiresAt with
    | none => rfl
    | some e =>
      rw [hexp, Option.all_some, decide_eq_true_eq] at hexpires
      rw [Option.all_some, decide_eq_true_eq]
      exact lt_of_le_of_lt ht hexpires

/-- Between a success and a failure the time has gone forward. -/
theorem lt_of_expired (h : verifyAsync now token = some user) (hnot : verifyAsync t token = none) :
    now < t := by
  by_contra hle
  rw [verifyAsync_mono h (not_lt.mp hle)] at hnot
  cases hnot

end CarAuction
