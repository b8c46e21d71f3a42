import CarAuction.Accounts

/- What registrations and logins guarantee, however they interleave and whichever of
   them fail.

   The table only grows, by rows of the role `user`. A token names the id, the name
   and the role of a row for good, and goes to a caller with the password of that row.
   Of two registrations with a common email or a common name at most one succeeds, and
   who has registered can log in. -/
namespace CarAuction

open SerialTable Pool Machine

/-- The request comes with what the row was made of, or with its password. -/
def Account.Admits (bcrypt : Bcrypt) (user : Account) : AuthRequest → Prop
  | .register dto => user.email = dto.email ∧ user.username = dto.username ∧
      user.fullName = dto.fullName ∧ ∃ salt, user.password = bcrypt.hash salt dto.password
  | .login dto => user.email = dto.email ∧ bcrypt.compare dto.password user.password = true

/-- The token names a row of the table, whose credentials the request had. -/
def IssuedOk (bcrypt : Bcrypt) (users : UserTable) (i : Issued) : Prop :=
  ∃ row ∈ users.rows, i.token.payload = payloadOf row ∧ i.token.valid = true ∧
    i.user = row.2.info ∧ row.2.Admits bcrypt i.request

/-- Every row is one of the old ones or has the default role. -/
def OrdinarySince (old users : UserTable) : Prop :=
  ∀ row ∈ users.rows, row ∈ old.rows ∨ row.2.role = defaultRole

namespace AuthCall

/-- The row a registration has made. -/
def registeredId : AuthCall → Option ℤ
  | register _ (.created user) => some user.1
  | register _ (.returned _ token) => some token.payload.sub
  | _ => none

/-- Two calls have not made the same row. -/
def Apart (c c' : AuthCall) : Prop := ∀ id, c.registeredId = some id → c'.registeredId ≠ some id

/-- What a call has found out. -/
def Ok (bcrypt : Bcrypt) (users : UserTable) : AuthCall → Prop
  | register dto (.hashed hashedPassword) => ∃ salt, hashedPassword = bcrypt.hash salt dto.password
  | register dto (.created user) => user ∈ users.rows ∧ user.2.Admits bcrypt (.register dto)
  | register dto (.returned user token) => IssuedOk bcrypt users ⟨.register dto, user, token⟩
  | register dto (.threw .emailInUse) =>
      ∃ row ∈ users.rows, row.2.email = dto.email ∨ row.2.username = dto.username
  | login dto (.found user) => user ∈ users.rows ∧ user.2.email = dto.email
  | login dto (.returned user token) => IssuedOk bcrypt users ⟨.login dto, user, token⟩
  | _ => True

end AuthCall

open AuthCall Table

variable {config : AuthConfig} {i : AuthInput} {users users' : UserTable} {c c' q : AuthCall}
  {es : List Issued} {s t : AuthState} {a : AuthAction}

theorem email_unique : Account.email ∈ userColumns := List.mem_cons_self

theorem username_unique : Account.username ∈ userColumns := List.mem_cons_of_mem _ List.mem_cons_self

theorem IssuedOk.later {bcrypt : Bcrypt} {i : Issued} (h : IssuedOk bcrypt users i)
    (hext : Extends users users') : IssuedOk bcrypt users' i := by
  obtain ⟨row, hrow, hrest⟩ := h
  exact ⟨row, hext.mem hrow, hrest⟩

theorem AuthCall.Ok.later {bcrypt : Bcrypt} (h : c.Ok bcrypt users) (hext : Extends users users') :
    c.Ok bcrypt users' := by
  cases c with
  | register dto pc =>
    cases pc with
    | created user => exact ⟨hext.mem h.1, h.2⟩
    | returned user token => exact IssuedOk.later h hext
    | threw error =>
      cases error with
      | emailInUse =>
        obtain ⟨row, hrow, hsame⟩ := h
        exact ⟨row, hext.mem hrow, hsame⟩
      | invalidCredentials => exact h
      | internal => exact h
    | begin => exact h
    | hashed hashedPassword => exact h
  | login dto pc =>
    cases pc with
    | found user => exact ⟨hext.mem h.1, h.2⟩
    | returned user token => exact IssuedOk.later h hext
    | begin => exact h
    | threw error => exact h

/-- The row of a registration is one of the table. -/
theorem AuthCall.Ok.registered {bcrypt : Bcrypt} (h : c.Ok bcrypt users) {id : ℤ}
    (hid : c.registeredId = some id) : ∃ row ∈ users.rows, row.1 = id := by
  cases c with
  | register dto pc =>
    cases pc with
    | created user => cases hid; exact ⟨user, h.1, rfl⟩
    | returned user token =>
      obtain ⟨row, hrow, hpayload, -⟩ := h
      cases hid
      exact ⟨row, hrow, by rw [hpayload]; rfl⟩
    | _ => cases hid
  | login dto pc => cases hid

theorem Apart.symm (c c' : AuthCall) (h : c.Apart c') : c'.Apart c :=
  fun id hc' hc => h id hc hc'

/-! What a statement keeps. -/

theorem AuthStep.extends (h : AuthStep config i users c users' c' es) : Extends users users' := by
  have hinsert : ∀ {row : Account} {r : UserTable × Except InsertError (ℤ × Account)},
      users.insert maxInteger row = r → Extends users r.1 := by
    intro row r hr
    rw [← hr]
    exact insert_extends maxInteger row users
  cases h with
  | creates h => exact hinsert h
  | clashes h => exact hinsert h
  | exhausts h => exact hinsert h
  | _ => exact Extends.refl users

theorem AuthStep.ordinary {old : UserTable} (h : AuthStep config i users c users' c' es)
    (hold : OrdinarySince old users) : OrdinarySince old users' := by
  cases h with
  | creates hinsert =>
    obtain ⟨rfl, hrows, -⟩ := insert_eq_ok hinsert
    intro row hrow
    rw [hrows] at hrow
    rcases List.mem_append.mp hrow with hrow | hrow
    · exact hold row hrow
    · rw [List.mem_singleton.mp hrow]
      exact .inr rfl
  | clashes hinsert =>
    intro row hrow
    rw [(insert_eq_error hinsert).1] at hrow
    exact hold row hrow
  | exhausts hinsert =>
    intro row hrow
    rw [(insert_eq_error hinsert).1] at hrow
    exact hold row hrow
  | _ => exact hold

/-- A refused registration shares its email or its name with a row. -/
theorem taken_of_not_free {row : Account} (h : users.free row = false) :
    ∃ r ∈ users.rows, r.2.email = row.email ∨ r.2.username = row.username := by
  by_contra hnone
  push Not at hnone
  have hfree : users.free row = true := by
    apply free_iff.mpr
    intro column hcolumn r hr
    rcases List.mem_pair.mp hcolumn with rfl | rfl
    · exact (hnone r hr).1
    · exact (hnone r hr).2
  rw [h] at hfree
  cases hfree

theorem AuthStep.ok (h : AuthStep config i users c users' c' es) (hc : c.Ok config.bcrypt users) :
    c'.Ok config.bcrypt users' := by
  cases h with
  | hashes => exact ⟨i.salt, rfl⟩
  | creates hinsert =>
    obtain ⟨rfl, hrows, -⟩ := insert_eq_ok hinsert
    refine ⟨?_, rfl, rfl, rfl, hc⟩
    rw [hrows]
    exact List.mem_append_right _ List.mem_cons_self
  | clashes hinsert =>
    obtain ⟨hrows, -, hfree⟩ := insert_eq_error hinsert
    obtain ⟨row, hrow, hsame⟩ := taken_of_not_free (hfree rfl)
    exact ⟨row, by rw [hrows]; exact hrow, hsame⟩
  | exhausts _ => trivial
  | @registers dto user => exact ⟨user, hc.1, rfl, rfl, rfl, hc.2⟩
  | finds hfind => exact (findUnique_eq_some email_unique).mp hfind
  | misses _ => trivial
  | @admits dto user hcompare => exact ⟨user, hc.1, rfl, rfl, rfl, hc.2, hcompare⟩
  | refuses _ => trivial

theorem AuthStep.issuedOk (h : AuthStep config i users c users' c' es)
    (hc : c.Ok config.bcrypt users) : ∀ i ∈ es, IssuedOk config.bcrypt users' i := by
  have hok := h.ok hc
  intro issued hissued
  cases h with
  | registers => rw [List.mem_singleton.mp hissued]; exact hok
  | admits _ => rw [List.mem_singleton.mp hissued]; exact hok
  | _ => cases hissued

/-- The row a registration makes is no other call's. -/
theorem AuthStep.apart (h : AuthStep config i users c users' c' es) (hq : q.Ok config.bcrypt users)
    (hcq : c.Apart q) : c'.Apart q := by
  intro id hid hqid
  cases h with
  | creates hinsert =>
    obtain ⟨rfl, -⟩ := insert_eq_ok hinsert
    cases hid
    obtain ⟨row, hrow, hrowid⟩ := hq.registered hqid
    have hbelow := users.below row hrow
    omega
  | registers => exact hcq id hid hqid
  | _ => cases hid

theorem throw_ok {bcrypt : Bcrypt} (h : c.throw = some c') : c'.Ok bcrypt users := by
  unfold AuthCall.throw at h
  split at h
  all_goals cases h
  all_goals trivial

theorem throw_apart (h : c.throw = some c') : c'.Apart q := by
  unfold AuthCall.throw at h
  split at h
  all_goals cases h
  all_goals exact fun id hid => by cases hid

/-- The invariant of the calls. -/
structure AuthInv (config : AuthConfig) (old : UserTable) (s : AuthState) : Prop where
  ordinary : OrdinarySince old s.world
  issued : ∀ i ∈ s.log, IssuedOk config.bcrypt s.world i
  calls : ∀ c ∈ s.procs, c.Ok config.bcrypt s.world
  apart : s.procs.Pairwise Apart

theorem authInv_start (config : AuthConfig) (old : UserTable) : AuthInv config old ⟨old, [], []⟩ :=
  ⟨fun _ hrow => .inl hrow, fun _ hi => (List.not_mem_nil hi).elim,
    fun _ hc => (List.not_mem_nil hc).elim, .nil⟩

theorem begins_ok (bcrypt : Bcrypt) (h : c.begins = true) :
    c.Ok bcrypt users ∧ c.registeredId = none := by
  unfold AuthCall.begins at h
  split at h
  · exact ⟨trivial, rfl⟩
  · exact ⟨trivial, rfl⟩
  · cases h

theorem authInv_step {old : UserTable} (hs : AuthInv config old s)
    (ht : Pool.step (accounts config) s a = some t) :
    AuthInv config old t ∧ Extends s.world t.world := by
  cases Pool.step_inv ht with
  | start hb =>
    obtain ⟨hok, hid⟩ := begins_ok config.bcrypt hb
    refine ⟨⟨hs.ordinary, hs.issued, ?_, ?_⟩, Extends.refl _⟩
    · intro c hc
      rcases List.mem_append.mp hc with hc | hc
      · exact hs.calls c hc
      · rw [List.mem_singleton.mp hc]
        exact hok
    · apply List.pairwise_append.mpr
      refine ⟨hs.apart, List.pairwise_singleton _ _, fun c _ c' hc' id _ hid' => ?_⟩
      rw [List.mem_singleton.mp hc', hid] at hid'
      cases hid'
  | @run w w' l r log c c' es i hstep =>
    have hstep := authStep_inv hstep
    have hext := hstep.extends
    have hc := hs.calls c (mem_split.mpr (.inl rfl))
    refine ⟨⟨hstep.ordinary hs.ordinary, ?_, ?_, ?_⟩, hext⟩
    · intro issued hissued
      rcases List.mem_append.mp hissued with hold | hnew
      · exact (hs.issued issued hold).later hext
      · exact hstep.issuedOk hc issued hnew
    · intro q hq
      rcases mem_split.mp hq with rfl | hq
      · exact hstep.ok hc
      · exact (hs.calls q (mem_split.mpr (.inr hq))).later hext
    · apply pairwise_replace Apart.symm hs.apart
      intro q hq
      exact hstep.apart (hs.calls q (mem_split.mpr (.inr hq)))
  | env k => exact ⟨hs, Extends.refl _⟩
  | kill hk =>
    refine ⟨⟨hs.ordinary, hs.issued, ?_, ?_⟩, Extends.refl _⟩
    · exact forall_replace hs.calls fun _ => throw_ok hk
    · exact pairwise_replace Apart.symm hs.apart fun q _ _ => throw_apart hk

/-! Tokens. -/

/-- In every run of registrations and logins rows are neither changed nor removed, those made have
    the default role, and every token given out names a row of the table, by its id, name and role,
    and was given to a caller with its email and its password. -/
theorem tokens_name_accounts (config : AuthConfig) (users : UserTable) (schedule : List AuthAction) :
    Along (Pool.step (accounts config)) (fun s _ t => Extends s.world t.world) ⟨users, [], []⟩ schedule ∧
      Always (Pool.step (accounts config)) (fun s => OrdinarySince users s.world ∧
        ∀ i ∈ s.log, IssuedOk config.bcrypt s.world i) ⟨users, [], []⟩ schedule := by
  apply run_of_inv (I := AuthInv config users) (P := fun _ _ _ => True) _ _ schedule _
    (along_true schedule)
  · intro s a t hs _ ht
    exact authInv_step hs ht
  · intro s hs
    exact ⟨hs.ordinary, hs.issued⟩
  · exact authInv_start config users

/-! Registrations. -/

/-- Those that have returned have made different rows, with different emails and names. One that is
    refused for its email shares the email with a row, or only the name. -/
structure RegistrationLaw (s : AuthState) : Prop where
  apart : ∀ (i j : ℕ) dto dto' user user' token token', i ≠ j →
    s.procs[i]? = some (AuthCall.register dto (.returned user token)) →
    s.procs[j]? = some (AuthCall.register dto' (.returned user' token')) →
    token.payload.sub ≠ token'.payload.sub ∧ dto.email ≠ dto'.email ∧ dto.username ≠ dto'.username
  taken : ∀ dto, AuthCall.register dto (.threw .emailInUse) ∈ s.procs →
    ∃ row ∈ s.world.rows, row.2.email = dto.email ∨ row.2.username = dto.username

theorem AuthInv.registrationLaw {old : UserTable} (hs : AuthInv config old s) : RegistrationLaw s := by
  refine ⟨?_, fun dto hmem => hs.calls _ hmem⟩
  intro i j dto dto' user user' token token' hij hi hj
  have hids := pairwise_getElem? Apart.symm hs.apart hij hi hj token.payload.sub rfl
  have hids : token.payload.sub ≠ token'.payload.sub := fun heq => hids (congrArg some heq.symm)
  obtain ⟨row, hrow, hpayload, -, -, hemail, husername, -⟩ := hs.calls _ (List.mem_of_getElem? hi)
  obtain ⟨row', hrow', hpayload', -, -, hemail', husername', -⟩ :=
    hs.calls _ (List.mem_of_getElem? hj)
  -- rows that agree in a unique column are one row, with one id
  have hsame : row ≠ row' := by
    rintro rfl
    exact hids (by rw [hpayload, hpayload'])
  refine ⟨hids, fun heq => hsame ?_, fun heq => hsame ?_⟩
  · apply eq_of_unique email_unique hrow hrow'
    rw [hemail, hemail', heq]
  · apply eq_of_unique username_unique hrow hrow'
    rw [husername, husername', heq]

/-- Of two registrations with one email or one name at most one succeeds, in every interleaving. -/
theorem registrations_apart (config : AuthConfig) (users : UserTable) (schedule : List AuthAction) :
    Always (Pool.step (accounts config)) RegistrationLaw ⟨users, [], []⟩ schedule :=
  always_of_inv (I := AuthInv config users) (P := fun _ _ _ => True)
    (fun _ _ _ hs _ ht => (authInv_step hs ht).1) (fun _ hs => hs.registrationLaw) schedule
    (authInv_start config users) (along_true schedule)

/-! Logins. -/

/-- A login on its way to a token with this payload, if it does not fail at an `await`. -/
def LoginPc.LeadsTo (row : ℤ × Account) : LoginPc → Prop
  | .begin => True
  | .found user => user = row
  | .returned _ token => token.payload = payloadOf row
  | .threw error => error = .internal

theorem AuthStep.leadsTo {dto : LoginDto} {row : ℤ × Account} {pc pc' : LoginPc}
    (h : AuthStep config i users (.login dto pc) users' (.login dto pc') es)
    (hrow : row ∈ users.rows) (hemail : row.2.email = dto.email)
    (hcompare : config.bcrypt.compare dto.password row.2.password = true) (hpc : pc.LeadsTo row) :
    pc'.LeadsTo row := by
  have hfound : users.findUnique Account.email dto.email = some row :=
    (findUnique_eq_some email_unique).mpr ⟨hrow, hemail⟩
  cases h with
  | finds hfind => exact Option.some.inj (hfind.symm.trans hfound)
  | misses hfind => cases hfind.symm.trans hfound
  | admits _ => exact congrArg payloadOf hpc
  | refuses hnot =>
    rw [show _ = row from hpc, hcompare] at hnot
    cases hnot

theorem AuthStep.login_eq {dto : LoginDto} {pc' : LoginPc} (h : AuthStep config i users c users' c' es)
    (hc' : c' = .login dto pc') : ∃ pc, c = .login dto pc := by
  cases h with
  | finds _ => cases hc'; exact ⟨_, rfl⟩
  | misses _ => cases hc'; exact ⟨_, rfl⟩
  | admits _ => cases hc'; exact ⟨_, rfl⟩
  | refuses _ => cases hc'; exact ⟨_, rfl⟩
  | _ => cases hc'

/-- Whoever has registered can log in: from then on a login with the same email and password that
    does not fail at an `await` returns a token for the same row. -/
theorem login_after_register (config : AuthConfig) (users : UserTable) (before after : List AuthAction)
    (hbcrypt : ∀ salt password, config.bcrypt.compare password (config.bcrypt.hash salt password) = true)
    {dto : RegisterDto} {user : UserInfo} {token : Token} (s : AuthState)
    (hbefore : exec (Pool.step (accounts config)) ⟨users, [], []⟩ before = some s)
    (hregistered : ⟨.register dto, user, token⟩ ∈ s.log) :
    ∃ row ∈ s.world.rows, token.payload = payloadOf row ∧
      Always (Pool.step (accounts config)) (fun t => ∀ i pc, s.procs.length ≤ i →
        t.procs[i]? = some (.login ⟨dto.email, dto.password⟩ pc) → pc.LeadsTo row) s after := by
  have hinv : AuthInv config users s :=
    exec_of_inv (fun _ _ _ hs ht => (authInv_step hs ht).1) before (authInv_start config users) hbefore
  obtain ⟨row, hrow, hpayload, -, -, hemail, -, -, salt, hpassword⟩ := hinv.issued _ hregistered
  have hcompare : config.bcrypt.compare dto.password row.2.password = true := by
    rw [hpassword]
    exact hbcrypt salt dto.password
  refine ⟨row, hrow, hpayload, ?_⟩
  apply always_of_inv (P := fun _ _ _ => True)
    (I := fun t => (AuthInv config users t ∧ row ∈ t.world.rows ∧ s.procs.length ≤ t.procs.length) ∧
      ∀ i pc, s.procs.length ≤ i → t.procs[i]? = some (.login ⟨dto.email, dto.password⟩ pc) →
        pc.LeadsTo row) _ (fun t ht => ht.2) after _ (along_true after)
  · rintro t a u ⟨⟨hauth, hmem, hlength⟩, hleads⟩ - hu
    obtain ⟨hauth', hext⟩ := authInv_step hauth hu
    have hstep := Pool.step_inv hu
    refine ⟨⟨hauth', hext.mem hmem, hlength.trans hstep.length_le⟩, fun i pc hi hpc => ?_⟩
    rcases hstep.getElem?_cases hpc with hold | ⟨-, hb⟩ | ⟨c, input, es, hc, hrun⟩ | ⟨c, hc, hkill⟩
    · exact hleads i pc hi hold
    · cases pc with
      | begin => trivial
      | _ => cases hb
    · have hrun : AuthStep config input t.world c u.world _ es := authStep_inv hrun
      obtain ⟨pc', rfl⟩ := hrun.login_eq rfl
      exact hrun.leadsTo hmem hemail hcompare (hleads i pc' hi hc)
    · cases pc with
      | threw error =>
        simp only [accounts, AuthCall.throw] at hkill
        split at hkill
        all_goals cases hkill
        rfl
      | _ =>
        simp only [accounts, AuthCall.throw] at hkill
        split at hkill
        all_goals cases hkill
  · refine ⟨⟨hinv, hrow, le_rfl⟩, fun i pc hi hpc => ?_⟩
    rw [List.getElem?_eq_none hi] at hpc
    cases hpc

/-- A stand-in: the hash keeps the salt, and the password behind it. -/
def saltedBcrypt : Bcrypt where
  hash := fun salt password => salt ++ "$" ++ password
  compare := fun password hash => ("$" ++ password).toList.isSuffixOf hash.toList

theorem saltedBcrypt_compare (salt password : String) :
    saltedBcrypt.compare password (saltedBcrypt.hash salt password) = true := by
  simp [saltedBcrypt, List.append_assoc]

def noUsers : UserTable :=
  ⟨[], 1, .nil, fun _ hr => (List.not_mem_nil hr).elim, fun _ _ => .nil⟩

def annDto : RegisterDto := ⟨"ann@example.com", "ann", "Ann Ames", "secret-word"⟩

/-- Ann registers, and another registration takes the same name. -/
def nameTakenFirst : List AuthAction :=
  [.start (.register annDto .begin), .start (.register { annDto with email := "bob@example.com" } .begin),
    .run 0 ⟨0, "s1"⟩, .run 1 ⟨0, "s2"⟩, .run 0 ⟨1, ""⟩, .run 1 ⟨1, ""⟩, .run 0 ⟨2, ""⟩]

def annLogin : List AuthAction :=
  [.start (.login ⟨"ann@example.com", "secret-word"⟩ .begin), .run 2 ⟨5, ""⟩, .run 2 ⟨6, ""⟩]

theorem login_after_register_ann : ∃ s,
    exec (Pool.step (accounts ⟨saltedBcrypt, 60⟩)) ⟨noUsers, [], []⟩ nameTakenFirst = some s ∧
    (∃ row ∈ s.world.rows, row.1 = 1 ∧
      Always (Pool.step (accounts ⟨saltedBcrypt, 60⟩)) (fun t => ∀ i pc, s.procs.length ≤ i →
        t.procs[i]? = some (.login ⟨annDto.email, annDto.password⟩ pc) → pc.LeadsTo row) s annLogin) ∧
    (exec (Pool.step (accounts ⟨saltedBcrypt, 60⟩)) s annLogin).isSome := by
  refine ⟨_, rfl, ?_, by decide +kernel⟩
  obtain ⟨row, hrow, hpayload, halways⟩ :=
    login_after_register ⟨saltedBcrypt, 60⟩ noUsers nameTakenFirst annLogin saltedBcrypt_compare _ rfl
      (List.mem_singleton.mpr rfl)
  exact ⟨row, hrow, (congrArg JwtPayload.sub hpayload).symm, halways⟩

end CarAuction
