import CarAuction.Lib.SerialTable
import CarAuction.Guards

/- `AuthService` and `AuthController`: registrations and logins, statement by
   statement, over the `User` table. A call that has found or made a row returns a
   token with the id, the name and the role of the row.

   Any number of calls run concurrently, and one may fail at the `await` it is in.
   What the calls hand out is the log of a run.

   Correspondence (TypeScript ↔ Lean):
     the `User` model of `schema.prisma`, `@unique`, `@default("user")` ↔ `Account`, `userColumns`, `defaultRole`
     `bcrypt.hash(password, 10)`, `bcrypt.compare`                      ↔ `Bcrypt`, with the salt an input
     `jwtService.sign(payload)` with `expiresIn`, in whole seconds      ↔ `sign`
     `generateToken`                                                    ↔ `generateToken`
     `register` of the service and the controller                       ↔ `AuthService.registerStep`
     `login` of the service and the controller                          ↔ `AuthService.loginStep`
     the code `P2002`                                                   ↔ `InsertError.uniqueViolation`
   `register` and `login` return a user or throw, so the controller's own test of the
   user never fails. -/
namespace CarAuction

open SerialTable Pool Machine

/-- A row of the `User` table, less its id. -/
structure Account where
  email : String
  username : String
  fullName : String
  password : String
  role : String
  deriving DecidableEq

/-- The columns that are `@unique`. -/
def userColumns : List (Account → String) := [Account.email, Account.username]

abbrev UserTable := Table userColumns

def defaultRole : String := "user"

structure RegisterDto where
  email : String
  username : String
  fullName : String
  password : String
  deriving DecidableEq

structure LoginDto where
  email : String
  password : String
  deriving DecidableEq

/-- The body of a request. -/
inductive AuthRequest where
  | register (dto : RegisterDto)
  | login (dto : LoginDto)
  deriving DecidableEq

structure UserInfo where
  email : String
  username : String
  fullName : String
  deriving DecidableEq

def Account.info (user : Account) : UserInfo := ⟨user.email, user.username, user.fullName⟩

structure Bcrypt where
  hash : (salt password : String) → String
  compare : (password hash : String) → Bool

/-- The hash functions, and `JWT_EXPIRY` in seconds. -/
structure AuthConfig where
  bcrypt : Bcrypt
  expiresIn : ℤ

def sign (expiresIn : ℤ) (now : Time) (payload : JwtPayload) : Token where
  payload := payload
  valid := true
  expiresAt := some ((now / 1000 + expiresIn) * 1000)

def payloadOf (user : ℤ × Account) : JwtPayload := ⟨user.1, user.2.username, some user.2.role⟩

def generateToken (expiresIn : ℤ) (now : Time) (user : ℤ × Account) : Token :=
  sign expiresIn now (payloadOf user)

inductive AuthError where
  | invalidCredentials
  | emailInUse
  | internal
  deriving DecidableEq

def AuthError.message : AuthError → String
  | invalidCredentials => "Invalid credentials."
  | emailInUse => "Email already in use."
  | internal => "Internal server error"

inductive RegisterUserPc where
  | begin
  | hashed (hashedPassword : String)
  | created (user : ℤ × Account)
  | returned (user : UserInfo) (token : Token)
  | threw (error : AuthError)
  deriving DecidableEq

inductive LoginPc where
  | begin
  | found (user : ℤ × Account)
  | returned (user : UserInfo) (token : Token)
  | threw (error : AuthError)
  deriving DecidableEq

inductive AuthCall where
  | register (dto : RegisterDto) (pc : RegisterUserPc)
  | login (dto : LoginDto) (pc : LoginPc)
  deriving DecidableEq

/-- What a request was answered with. -/
structure Issued where
  request : AuthRequest
  user : UserInfo
  token : Token
  deriving DecidableEq

/-- What a statement reads besides the table: the clock, and the salt it draws. -/
structure AuthInput where
  now : Time
  salt : String

namespace AuthService

def registerStep (config : AuthConfig) (i : AuthInput) (dto : RegisterDto) (users : UserTable) :
    RegisterUserPc → Option (UserTable × RegisterUserPc × List Issued)
  | .begin => some (users, .hashed (config.bcrypt.hash i.salt dto.password), [])
  | .hashed hashedPassword =>
    let row : Account := ⟨dto.email, dto.username, dto.fullName, hashedPassword, defaultRole⟩
    match users.insert maxInteger row with
    | (users, .ok user) => some (users, .created user, [])
    -- whichever of the two columns it is
    | (users, .error .uniqueViolation) => some (users, .threw .emailInUse, [])
    | (users, .error .sequenceExhausted) => some (users, .threw .internal, [])
  | .created user =>
    let token := generateToken config.expiresIn i.now user
    some (users, .returned user.2.info token, [⟨.register dto, user.2.info, token⟩])
  | .returned _ _ => none
  | .threw _ => none

def loginStep (config : AuthConfig) (i : AuthInput) (dto : LoginDto) (users : UserTable) :
    LoginPc → Option (LoginPc × List Issued)
  | .begin =>
    match users.findUnique Account.email dto.email with
    | none => some (.threw .invalidCredentials, [])
    | some user => some (.found user, [])
  | .found user =>
    if config.bcrypt.compare dto.password user.2.password then
      let token := generateToken config.expiresIn i.now user
      some (.returned user.2.info token, [⟨.login dto, user.2.info, token⟩])
    else some (.threw .invalidCredentials, [])
  | .returned _ _ => none
  | .threw _ => none

end AuthService

namespace AuthCall

def begins : AuthCall → Bool
  | register _ .begin => true
  | login _ .begin => true
  | _ => false

/-- The call after an exception at the `await` it is in. -/
def throw : AuthCall → Option AuthCall
  | register _ (.returned _ _) => none
  | register _ (.threw _) => none
  | register dto _ => some (register dto (.threw .internal))
  | login _ (.returned _ _) => none
  | login _ (.threw _) => none
  | login dto _ => some (login dto (.threw .internal))

end AuthCall

/-- The next statement of a call. -/
def authStep (config : AuthConfig) (i : AuthInput) (users : UserTable) :
    AuthCall → Option (UserTable × AuthCall × List Issued)
  | .register dto pc =>
    (AuthService.registerStep config i dto users pc).map fun r => (r.1, .register dto r.2.1, r.2.2)
  | .login dto pc =>
    (AuthService.loginStep config i dto users pc).map fun r => (users, .login dto r.1, r.2)

/-- The calls; nothing else writes the table. -/
def accounts (config : AuthConfig) : Pool.Program UserTable AuthCall Issued AuthInput Unit where
  begins := AuthCall.begins
  step := authStep config
  env := fun _ users => users
  kill := AuthCall.throw

abbrev AuthState := Pool.State UserTable AuthCall Issued
abbrev AuthAction := Pool.Action AuthCall AuthInput Unit

/-! What one statement does. -/

inductive AuthStep (config : AuthConfig) (i : AuthInput) :
    UserTable → AuthCall → UserTable → AuthCall → List Issued → Prop where
  | hashes {users dto} : AuthStep config i users (.register dto .begin)
      users (.register dto (.hashed (config.bcrypt.hash i.salt dto.password))) []
  | creates {users users' dto hashedPassword user} :
      users.insert maxInteger ⟨dto.email, dto.username, dto.fullName, hashedPassword, defaultRole⟩ =
        (users', .ok user) →
      AuthStep config i users (.register dto (.hashed hashedPassword))
        users' (.register dto (.created user)) []
  | clashes {users users' dto hashedPassword} :
      users.insert maxInteger ⟨dto.email, dto.username, dto.fullName, hashedPassword, defaultRole⟩ =
        (users', .error .uniqueViolation) →
      AuthStep config i users (.register dto (.hashed hashedPassword))
        users' (.register dto (.threw .emailInUse)) []
  | exhausts {users users' dto hashedPassword} :
      users.insert maxInteger ⟨dto.email, dto.username, dto.fullName, hashedPassword, defaultRole⟩ =
        (users', .error .sequenceExhausted) →
      AuthStep config i users (.register dto (.hashed hashedPassword))
        users' (.register dto (.threw .internal)) []
  | registers {users dto user} : AuthStep config i users (.register dto (.created user))
      users (.register dto (.returned user.2.info (generateToken config.expiresIn i.now user)))
      [⟨.register dto, user.2.info, generateToken config.expiresIn i.now user⟩]
  | finds {users dto user} : users.findUnique Account.email dto.email = some user →
      AuthStep config i users (.login dto .begin) users (.login dto (.found user)) []
  | misses {users dto} : users.findUnique Account.email dto.email = none →
      AuthStep config i users (.login dto .begin) users (.login dto (.threw .invalidCredentials)) []
  | admits {users dto user} : config.bcrypt.compare dto.password user.2.password = true →
      AuthStep config i users (.login dto (.found user))
        users (.login dto (.returned user.2.info (generateToken config.expiresIn i.now user)))
        [⟨.login dto, user.2.info, generateToken config.expiresIn i.now user⟩]
  | refuses {users dto user} : config.bcrypt.compare dto.password user.2.password = false →
      AuthStep config i users (.login dto (.found user))
        users (.login dto (.threw .invalidCredentials)) []

theorem registerStep_inv {config : AuthConfig} {i : AuthInput} {dto : RegisterDto}
    {users users' : UserTable} {pc pc' : RegisterUserPc} {es : List Issued}
    (h : AuthService.registerStep config i dto users pc = some (users', pc', es)) :
    AuthStep config i users (.register dto pc) users' (.register dto pc') es := by
  cases pc with
  | begin => cases h; exact .hashes
  | hashed hashedPassword =>
    simp only [AuthService.registerStep] at h
    split at h
    · next hinsert => cases h; exact .creates hinsert
    · next hinsert => cases h; exact .clashes hinsert
    · next hinsert => cases h; exact .exhausts hinsert
  | created user => cases h; exact .registers
  | returned user token => cases h
  | threw error => cases h

theorem loginStep_inv {config : AuthConfig} {i : AuthInput} {dto : LoginDto} {users : UserTable}
    {pc pc' : LoginPc} {es : List Issued}
    (h : AuthService.loginStep config i dto users pc = some (pc', es)) :
    AuthStep config i users (.login dto pc) users (.login dto pc') es := by
  cases pc with
  | begin =>
    simp only [AuthService.loginStep] at h
    split at h
    · next hfind => cases h; exact .misses hfind
    · next user hfind => cases h; exact .finds hfind
  | found user =>
    simp only [AuthService.loginStep] at h
    split at h
    · next hcompare => cases h; exact .admits hcompare
    · next hcompare => cases h; exact .refuses (Bool.eq_false_iff.mpr hcompare)
  | returned user token => cases h
  | threw error => cases h

theorem authStep_inv {config : AuthConfig} {i : AuthInput} {users users' : UserTable}
    {c c' : AuthCall} {es : List Issued} (h : authStep config i users c = some (users', c', es)) :
    AuthStep config i users c users' c' es := by
  cases c with
  | register dto pc =>
    obtain ⟨⟨users₁, pc₁, es₁⟩, hs, heq⟩ := Option.map_eq_some_iff.mp h
    cases heq
    exact registerStep_inv hs
  | login dto pc =>
    obtain ⟨⟨pc₁, es₁⟩, hs, heq⟩ := Option.map_eq_some_iff.mp h
    cases heq
    exact loginStep_inv hs

end CarAuction
