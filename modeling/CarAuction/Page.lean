import CarAuction.JoinAuction

/- The page in the browser, `index.html`: the three sections it shows one after the
   other (login, list of auctions, auction room), the socket of the room, and the one
   variable that says which auction a bid is for.

   `currentAuctionId` is written when the server answers a `joinAuction`, and cleared by
   the Leave button alone. The Logout button leaves it, and so does a join from a list
   that a second login response has shown beside the room. The next room then begins
   with the auction of the last one. Otherwise it begins with no auction, and a bid that
   is submitted before the answer carries none.

   Correspondence (TypeScript ↔ Lean):
     the `let` variables, `classList` of the sections     ↔ `Page`
     `initializeSocket`, `socket.emit`                    ↔ `Page.initializeSocket`, `Page.emit`
     the listeners of the buttons and forms               ↔ `pageStep`, one action each
     `socket.on("auctionState", ...)`                     ↔ `Page.onAuctionState`
     the loading of the page with a stored token          ↔ `Page.load`
   A listener runs when its button can be seen. What a closed connection is given to
   send is not sent. The messages shown, the bids shown (`Browser.lean`) and the
   reconnection of a socket are left out. -/
namespace CarAuction

open Machine

/-- A connection to the namespace of the auctions: the token of its handshake, the auction its
    `joinAuction` named, and whether the state of the auction has come. -/
structure PageSocket where
  token : Option String
  asked : ℤ
  connected : Bool
  answered : Bool
  deriving DecidableEq

/-- What a client sends. A variable that is `undefined` or `null` is no number to the server. -/
inductive ClientMessage where
  | joinAuction (auctionId : ℤ)
  | placeBid (auctionId : Option ℤ) (amount : Number)
  | endAuction (auctionId : ℤ)
  deriving DecidableEq

/-- A flag of a section, a form or a button says that it is not hidden. -/
structure Page where
  authToken : Option String
  socket : Option PageSocket
  currentAuctionId : Option ℤ
  authSection : Bool
  auctionListSection : Bool
  auctionSection : Bool
  userInfoDisplay : Bool
  bidForm : Bool
  endAuctionBtn : Bool
  /-- The login and registration requests that are not answered yet. -/
  requests : ℕ
  sent : List (PageSocket × ClientMessage)
  deriving DecidableEq

inductive PageAction where
  | submitAuth
  | authResponse (token : Option String)
  | clickJoin (auctionId : ℤ)
  | submitBid (amount : Option Number)
  | clickLeave
  | clickEnd
  | clickLogout
  | auctionState (room : AuctionRoom)
  | serverDisconnect

namespace Page

/-- The page as it loads, with the token in `localStorage`. An empty one is falsy. -/
def load (storedToken : Option String) : Page :=
  let authToken := storedToken.filter fun token => token ≠ ""
  { authToken := authToken
    socket := none
    currentAuctionId := none
    authSection := authToken.isNone
    auctionListSection := authToken.isSome
    auctionSection := false
    userInfoDisplay := authToken.isSome
    bidForm := true
    endAuctionBtn := false
    requests := 0
    sent := [] }

/-- `socket.disconnect()`, if there is a socket. -/
def disconnect (s : Page) : Page :=
  { s with socket := s.socket.map fun k => { k with connected := false } }

/-- `socket.emit`. -/
def emit (s : Page) (m : ClientMessage) : Page :=
  match s.socket with
  | none => s
  | some k => if k.connected then { s with sent := s.sent ++ [(k, m)] } else s

/-- The old socket is disconnected, the new one is to ask for the auction. -/
def initializeSocket (s : Page) (auctionId : ℤ) : Page :=
  { s.disconnect with socket := some ⟨s.authToken, auctionId, true, false⟩ }

def onAuctionState (s : Page) (state : AuctionStateEvent) : Page :=
  let s := { s with currentAuctionId := some state.auctionId }
  match state.amount with
  | .val _ => { s with bidForm := !state.isClosed, endAuctionBtn := true }
  -- `amount.toFixed` throws
  | _ => s

end Page

/-- `if (currentAuctionId)`. -/
def truthyId : Option ℤ → Option ℤ
  | some auctionId => if auctionId = 0 then none else some auctionId
  | none => none

def pageStep (s : Page) : PageAction → Option Page
  | .submitAuth => if s.authSection then some { s with requests := s.requests + 1 } else none
  | .authResponse token =>
    if s.requests = 0 then none
    else
      let s := { s with requests := s.requests - 1 }
      match token with
      | none => some s
      | some token =>
        some { s with
          authToken := some token
          authSection := false
          auctionListSection := true
          userInfoDisplay := true }
  | .clickJoin auctionId =>
    if s.auctionListSection then
      let s := { s with auctionListSection := false, auctionSection := true }
      some ((s.initializeSocket auctionId).emit (.joinAuction auctionId))
    else none
  | .submitBid amount =>
    if s.auctionSection && s.bidForm then
      match amount with
      -- `isNaN(amount)`
      | none => some s
      | some amount => if amount ≤ 0 then some s else some (s.emit (.placeBid s.currentAuctionId amount))
    else none
  | .clickLeave =>
    if s.auctionSection then
      some { s.disconnect with
        auctionSection := false
        auctionListSection := true
        currentAuctionId := none
        endAuctionBtn := false }
    else none
  | .clickEnd =>
    if s.auctionSection && s.endAuctionBtn then
      match truthyId s.currentAuctionId with
      | some auctionId => some (s.emit (.endAuction auctionId))
      | none => some s
    else none
  | .clickLogout =>
    if s.userInfoDisplay then
      -- `currentAuctionId` and the End button stay as they are
      some { s.disconnect with
        authToken := none
        auctionListSection := false
        auctionSection := false
        userInfoDisplay := false
        authSection := true }
    else none
  | .auctionState room =>
    match s.socket with
    | some k =>
      if k.connected then
        some ({ s with socket := some { k with answered := true } }.onAuctionState
          (auctionStateEvent k.asked room))
      else none
    | none => none
  | .serverDisconnect => some s.disconnect

/-- The message is for the auction that its socket has asked for. -/
def NamesItsRoom : PageSocket × ClientMessage → Prop
  | (k, .joinAuction auctionId) => auctionId = k.asked
  | (k, .placeBid auctionId _) => auctionId = some k.asked
  | (k, .endAuction auctionId) => auctionId = k.asked

/-- A bid with no auction at all, from a room that has not been answered. -/
def BlankBid : PageSocket × ClientMessage → Prop
  | (k, .placeBid none _) => k.answered = false
  | _ => False

/-- The action is one that sends a bid or an end. -/
def PageAction.commits (s : Page) : PageAction → Prop
  | .submitBid amount => ∃ x ∈ amount, 0 < x
  | .clickEnd => truthyId s.currentAuctionId ≠ none
  | _ => False

/-- The room has not been answered yet, and the variable does not hold its auction: it is empty, or
    still holds the auction of another room. -/
def Page.Unnamed (s : Page) : Prop :=
  ∃ k ∈ s.socket, k.connected = true ∧ k.answered = false ∧ s.currentAuctionId ≠ some k.asked

/-- The user logs out outside a room, and waits for the answer of a login. -/
def Careful (s : Page) : PageAction → Page → Prop
  | .clickLogout, _ => s.auctionSection = false
  | .submitAuth, _ => s.requests = 0
  | _, _ => True

instance {s t : Page} {act : PageAction} : Decidable (Careful s act t) := by
  unfold Careful
  split <;> infer_instance

variable {s t : Page} {act : PageAction} {a : ℤ} {amount : Number} {k : PageSocket} {m : ClientMessage}
  {room : AuctionRoom} {token : String} {run : List PageAction}

/-! One action. -/

inductive PageStep (s : Page) : PageAction → Page → Prop where
  | submits : s.authSection = true → PageStep s .submitAuth { s with requests := s.requests + 1 }
  | isRefused : s.requests ≠ 0 → PageStep s (.authResponse none) { s with requests := s.requests - 1 }
  | logsIn {token : String} : s.requests ≠ 0 →
      PageStep s (.authResponse (some token))
        { s with
          requests := s.requests - 1
          authToken := some token
          authSection := false
          auctionListSection := true
          userInfoDisplay := true }
  | joins {a : ℤ} : s.auctionListSection = true →
      PageStep s (.clickJoin a)
        { s with
          auctionListSection := false
          auctionSection := true
          socket := some ⟨s.authToken, a, true, false⟩
          sent := s.sent ++ [(⟨s.authToken, a, true, false⟩, .joinAuction a)] }
  | passes {act : PageAction} : ¬ act.commits s → PageStep s act s
  | bids {amount : Number} : s.auctionSection = true → 0 < amount →
      PageStep s (.submitBid (some amount)) (s.emit (.placeBid s.currentAuctionId amount))
  | ends {a : ℤ} : s.auctionSection = true → truthyId s.currentAuctionId = some a →
      PageStep s .clickEnd (s.emit (.endAuction a))
  | leaves : s.auctionSection = true →
      PageStep s .clickLeave
        { s.disconnect with
          auctionSection := false
          auctionListSection := true
          currentAuctionId := none
          endAuctionBtn := false }
  | logsOut :
      PageStep s .clickLogout
        { s.disconnect with
          authToken := none
          auctionListSection := false
          auctionSection := false
          userInfoDisplay := false
          authSection := true }
  | isAnswered {k : PageSocket} {room : AuctionRoom} (bidForm endAuctionBtn : Bool) :
      s.socket = some k → k.connected = true →
      PageStep s (.auctionState room)
        { s with
          socket := some { k with answered := true }
          currentAuctionId := some k.asked
          bidForm := bidForm
          endAuctionBtn := endAuctionBtn }
  | isDropped : PageStep s .serverDisconnect s.disconnect

theorem pageStep_inv (h : pageStep s act = some t) : PageStep s act t := by
  cases act with
  | submitAuth =>
    obtain ⟨hauth, heq⟩ := Option.ite_none_right_eq_some.mp h
    cases heq
    exact .submits hauth
  | authResponse token =>
    obtain ⟨hrequests, heq⟩ := Option.ite_none_left_eq_some.mp h
    cases token with
    | none => cases heq; exact .isRefused hrequests
    | some token => cases heq; exact .logsIn hrequests
  | clickJoin a =>
    obtain ⟨hlist, heq⟩ := Option.ite_none_right_eq_some.mp h
    cases heq
    exact .joins hlist
  | submitBid amount =>
    obtain ⟨hform, heq⟩ := Option.ite_none_right_eq_some.mp h
    cases amount with
    | none =>
      cases heq
      refine .passes ?_
      rintro ⟨x, hx, -⟩
      cases hx
    | some amount =>
      simp only at heq
      split at heq
      · next hnot =>
        cases heq
        refine .passes ?_
        rintro ⟨x, hx, hpos⟩
        cases hx
        exact absurd hpos (not_lt.mpr hnot)
      · next hpos =>
        cases heq
        exact .bids (Bool.and_eq_true_iff.mp hform).1 (not_le.mp hpos)
  | clickLeave =>
    obtain ⟨hroom, heq⟩ := Option.ite_none_right_eq_some.mp h
    cases heq
    exact .leaves hroom
  | clickEnd =>
    obtain ⟨hbutton, heq⟩ := Option.ite_none_right_eq_some.mp h
    split at heq
    · next a hid =>
      cases heq
      exact .ends (Bool.and_eq_true_iff.mp hbutton).1 hid
    · next hid =>
      cases heq
      exact .passes fun hcommits => hcommits hid
  | clickLogout =>
    obtain ⟨-, heq⟩ := Option.ite_none_right_eq_some.mp h
    cases heq
    exact .logsOut
  | auctionState room =>
    simp only [pageStep] at h
    split at h
    · next k hk =>
      obtain ⟨hconnected, heq⟩ := Option.ite_none_right_eq_some.mp h
      cases heq
      unfold Page.onAuctionState
      simp only
      split
      · exact .isAnswered _ true hk hconnected
      · exact .isAnswered s.bidForm s.endAuctionBtn hk hconnected
    · cases h
  | serverDisconnect =>
    cases h
    exact .isDropped

/-- Sending reaches the log of a connected socket, and nothing else. -/
theorem Page.emit_cases (s : Page) (m : ClientMessage) :
    (∃ k, s.socket = some k ∧ k.connected = true ∧ s.emit m = { s with sent := s.sent ++ [(k, m)] }) ∨
      ((∀ k ∈ s.socket, k.connected = false) ∧ s.emit m = s) := by
  unfold Page.emit
  cases hsocket : s.socket with
  | none => exact .inr ⟨fun k hk => (by cases hk), rfl⟩
  | some k =>
    by_cases hconnected : k.connected = true
    · exact .inl ⟨k, rfl, hconnected, by simp [hconnected]⟩
    · refine .inr ⟨?_, by simp [hconnected]⟩
      intro k' hk'
      cases hk'
      exact Bool.eq_false_iff.mpr hconnected

/-! What a step sends. -/

theorem truthyId_eq_some (h : truthyId s.currentAuctionId = some a) : s.currentAuctionId = some a := by
  unfold truthyId at h
  split at h
  · next b hb =>
    split at h
    · cases h
    · rw [hb, h]
  · cases h

/-- A bid or an end for what the variable holds. -/
inductive ForCurrent (s : Page) : ClientMessage → Prop where
  | bid (amount : Number) : ForCurrent s (.placeBid s.currentAuctionId amount)
  | ends {a : ℤ} : s.currentAuctionId = some a → ForCurrent s (.endAuction a)

/-- A message that the step sends from the room. -/
structure FromRoom (s : Page) (act : PageAction) (m : PageSocket × ClientMessage) : Prop where
  commits : act.commits s
  room : s.auctionSection = true
  socket : s.socket = some m.1
  connected : m.1.connected = true
  current : ForCurrent s m.2

theorem ForCurrent.names_iff (h : ForCurrent s m) :
    NamesItsRoom (k, m) ↔ s.currentAuctionId = some k.asked := by
  cases h with
  | bid amount => exact Iff.rfl
  | ends ha =>
    rw [ha]
    exact Option.some_inj.symm

theorem ForCurrent.of_emit (hm : ForCurrent s m) (hcommits : act.commits s)
    (hroom : s.auctionSection = true) {m' : PageSocket × ClientMessage} (hm' : m' ∈ (s.emit m).sent) :
    m' ∈ s.sent ∨ FromRoom s act m' := by
  obtain ⟨k, hk, hconnected, heq⟩ | ⟨-, heq⟩ := s.emit_cases m
  · rw [heq] at hm'
    rcases List.mem_append.mp hm' with hold | hnew
    · exact .inl hold
    · cases List.mem_singleton.mp hnew
      exact .inr ⟨hcommits, hroom, hk, hconnected, hm⟩
  · rw [heq] at hm'
    exact .inl hm'

/-- A step sends the join of a new room, or a message from the room. -/
theorem pageStep_sent (ht : PageStep s act t) :
    ∀ m ∈ t.sent, m ∈ s.sent ∨ (∃ k : PageSocket, m = (k, .joinAuction k.asked)) ∨ FromRoom s act m := by
  intro m hm
  cases ht with
  | joins _ =>
    rcases List.mem_append.mp hm with hold | hnew
    · exact .inl hold
    · cases List.mem_singleton.mp hnew
      exact .inr (.inl ⟨_, rfl⟩)
  | bids hroom hpos =>
    have hcommits : PageAction.commits s (.submitBid (some _)) := ⟨_, rfl, hpos⟩
    exact ((ForCurrent.bid _).of_emit hcommits hroom hm).imp_right .inr
  | ends hroom hid =>
    have hcommits : PageAction.clickEnd.commits s := by
      intro hnone
      rw [hid] at hnone
      cases hnone
    exact ((ForCurrent.ends (truthyId_eq_some hid)).of_emit hcommits hroom hm).imp_right .inr
  | _ => exact .inl hm

/-- What a bid or an end sends, when the socket is connected. -/
theorem commits_sent (hcommits : act.commits s) (hk : s.socket = some k) (hconnected : k.connected = true)
    (ht : PageStep s act t) : ∃ m, ForCurrent s m ∧ (k, m) ∈ t.sent := by
  have hemit : ∀ m, (k, m) ∈ (s.emit m).sent := by
    intro m
    obtain ⟨k', hk', -, heq⟩ | ⟨hnone, -⟩ := s.emit_cases m
    · cases hk.symm.trans hk'
      rw [heq]
      simp
    · rw [hnone k hk] at hconnected
      cases hconnected
  cases ht with
  | bids _ _ => exact ⟨_, .bid _, hemit _⟩
  | ends _ hid => exact ⟨_, .ends (truthyId_eq_some hid), hemit _⟩
  | passes hnot => exact absurd hcommits hnot
  | _ => exact hcommits.elim

/-! Messages and rooms. -/

/-- In a room that has been answered the variable holds its auction. -/
def AnsweredInv (s : Page) : Prop :=
  s.auctionSection = true → ∀ k ∈ s.socket, k.answered = true → s.currentAuctionId = some k.asked

theorem answeredInv_emit (h : AnsweredInv s) (m : ClientMessage) : AnsweredInv (s.emit m) := by
  obtain ⟨k, -, -, heq⟩ | ⟨-, heq⟩ := s.emit_cases m
  · rw [heq]
    exact h
  · rw [heq]
    exact h

theorem answeredInv_step (h : AnsweredInv s) (ht : PageStep s act t) : AnsweredInv t := by
  cases ht with
  | submits _ => exact h
  | isRefused _ => exact h
  | logsIn _ => exact h
  | joins _ =>
    rintro - k hk hanswered
    cases hk
    cases hanswered
  | passes _ => exact h
  | bids _ _ => exact answeredInv_emit h _
  | ends _ _ => exact answeredInv_emit h _
  | leaves _ => exact fun hroom => by cases hroom
  | logsOut => exact fun hroom => by cases hroom
  | isAnswered _ _ _ _ =>
    rintro - k' hk' -
    cases hk'
    rfl
  | isDropped =>
    intro hroom k hk hanswered
    obtain ⟨k', hk', rfl⟩ := Option.map_eq_some_iff.mp hk
    exact h hroom k' hk' hanswered

theorem FromRoom.names_iff {m : PageSocket × ClientMessage} (h : FromRoom s act m) :
    NamesItsRoom m ↔ s.currentAuctionId = some m.1.asked :=
  h.current.names_iff

theorem FromRoom.names_or_unanswered {m : PageSocket × ClientMessage} (h : FromRoom s act m)
    (hanswered : AnsweredInv s) : NamesItsRoom m ∨ m.1.answered = false := by
  cases hk : m.1.answered with
  | true => exact .inl (h.names_iff.mpr (hanswered h.room m.1 h.socket hk))
  | false => exact .inr rfl

/-- All messages name their rooms, and so does the variable in a room that was answered. -/
structure RoomInv (s : Page) : Prop where
  sent : ∀ m ∈ s.sent, NamesItsRoom m
  answered : AnsweredInv s

theorem roomInv_step (h : RoomInv s) (hnamed : ¬ (act.commits s ∧ s.Unnamed))
    (ht : PageStep s act t) : RoomInv t := by
  refine ⟨fun m hm => ?_, answeredInv_step h.answered ht⟩
  rcases pageStep_sent ht m hm with hold | ⟨k, rfl⟩ | hroom
  · exact h.sent m hold
  · exact (rfl : k.asked = k.asked)
  · obtain hnames | hanswered := hroom.names_or_unanswered h.answered
    · exact hnames
    · by_contra hnot
      refine hnamed ⟨hroom.commits, m.1, hroom.socket, hroom.connected, hanswered, fun hsame => ?_⟩
      exact hnot (hroom.names_iff.mpr hsame)

/-- A bid or an end sent while the variable does not hold the auction of the room does not name it. -/
theorem unnamed_misnames (hcommits : act.commits s) (hunnamed : s.Unnamed) (ht : PageStep s act t) :
    ∃ m ∈ t.sent, ¬ NamesItsRoom m := by
  obtain ⟨k, hk, hconnected, -, hne⟩ := hunnamed
  obtain ⟨m, hm, hsent⟩ := commits_sent hcommits hk hconnected ht
  exact ⟨(k, m), hsent, fun hnames => hne (hm.names_iff.mp hnames)⟩

theorem answeredInv_load (storedToken : Option String) : AnsweredInv (.load storedToken) := by
  intro hroom
  cases hroom

/-- In every run all that the page sends names the auction of the room it is sent from, exactly when no
    bid and no end is sent between a join and its answer, while the variable does not hold its auction. -/
theorem messages_name_their_room_iff (storedToken : Option String) (run : List PageAction) :
    Always pageStep (fun s => ∀ m ∈ s.sent, NamesItsRoom m) (.load storedToken) run ↔
      Along pageStep (fun s act _ => ¬ (act.commits s ∧ s.Unnamed)) (.load storedToken) run := by
  have hstart : RoomInv (.load storedToken) :=
    ⟨fun m hm => absurd hm List.not_mem_nil, answeredInv_load storedToken⟩
  refine always_iff_of_inv (I := RoomInv) (D := fun _ _ _ => True) (fun s hs => hs.sent) ?_ ?_ run
    hstart (along_true run)
  · intro s act t hs _ ht hnamed
    exact roomInv_step hs hnamed (pageStep_inv ht)
  · intro s act t _ _ ht ⟨hcommits, hunnamed⟩ hall
    obtain ⟨m, hm, hnot⟩ := unnamed_misnames hcommits hunnamed (pageStep_inv ht)
    exact hnot (hall m hm)

/-! Which section is shown. -/

/-- One section at a time; the variable is empty outside a room, and in a room until its answer. -/
structure SectionInv (s : Page) : Prop where
  auth : s.authSection = true → s.auctionListSection = false ∧ s.auctionSection = false
  list : s.auctionListSection = true → s.auctionSection = false
  outside : s.auctionSection = false → s.currentAuctionId = none
  waiting : s.requests ≤ 1 ∧ (s.requests = 1 → s.authSection = true)
  room : ∀ k ∈ s.socket, k.connected = true → s.auctionSection = true ∧
    (k.answered = false → s.currentAuctionId = none)

theorem disconnected (s : Page) : ∀ k ∈ s.disconnect.socket, k.connected = false := by
  intro k hk
  obtain ⟨k', -, rfl⟩ := Option.map_eq_some_iff.mp hk
  rfl

/-- Before the answer the variable is empty, so a bid carries no auction and no end is sent. -/
theorem SectionInv.blank (h : SectionInv s) {m : PageSocket × ClientMessage} (hm : FromRoom s act m)
    (hanswered : m.1.answered = false) : BlankBid m := by
  have hempty : s.currentAuctionId = none := (h.room m.1 hm.socket hm.connected).2 hanswered
  obtain ⟨k, m⟩ := m
  cases hm.current with
  | bid amount =>
    rw [hempty]
    exact hanswered
  | ends ha =>
    rw [hempty] at ha
    cases ha

theorem SectionInv.emit (h : SectionInv s) (m : ClientMessage) : SectionInv (s.emit m) := by
  obtain ⟨k, -, -, heq⟩ | ⟨-, heq⟩ := s.emit_cases m
  · rw [heq]
    exact ⟨h.auth, h.list, h.outside, h.waiting, h.room⟩
  · rw [heq]
    exact h

theorem sectionInv_step (h : SectionInv s) (hcareful : Careful s act t) (ht : PageStep s act t) :
    SectionInv t := by
  cases ht with
  | submits hauth =>
    have hnone : s.requests = 0 := hcareful
    refine ⟨h.auth, h.list, h.outside, ⟨?_, fun _ => hauth⟩, h.room⟩
    show s.requests + 1 ≤ 1
    omega
  | isRefused hrequests =>
    obtain ⟨hone, -⟩ := h.waiting
    refine ⟨h.auth, h.list, h.outside, ⟨?_, fun hwaiting => ?_⟩, h.room⟩
    · show s.requests - 1 ≤ 1
      omega
    · have hzero : s.requests - 1 = 1 := hwaiting
      omega
  | logsIn hrequests =>
    -- the request was sent from the login, so no room is open
    obtain ⟨hone, hauth⟩ := h.waiting
    have hshown : s.authSection = true := hauth (by omega)
    refine ⟨fun hshown => (by cases hshown), fun _ => (h.auth hshown).2, h.outside,
      ⟨?_, fun hwaiting => ?_⟩, h.room⟩
    · show s.requests - 1 ≤ 1
      omega
    · have hzero : s.requests - 1 = 1 := hwaiting
      omega
  | joins hlist =>
    have hauth : s.authSection = false := by
      by_contra hshown
      rw [(h.auth (Bool.eq_true_of_not_eq_false hshown)).1] at hlist
      cases hlist
    have hempty : s.currentAuctionId = none := h.outside (h.list hlist)
    refine ⟨fun hshown => ?_, fun hshown => (by cases hshown), fun hshown => (by cases hshown),
      h.waiting, fun k hk _ => ?_⟩
    · exact absurd (hauth.symm.trans hshown) (by simp)
    · exact ⟨rfl, fun _ => hempty⟩
  | passes _ => exact h
  | bids _ _ => exact h.emit _
  | ends _ _ => exact h.emit _
  | leaves hroom =>
    have hauth : s.authSection ≠ true := by
      intro hshown
      rw [(h.auth hshown).2] at hroom
      cases hroom
    refine ⟨fun hshown => absurd hshown hauth, fun _ => rfl, fun _ => rfl, h.waiting,
      fun k hk hconnected => ?_⟩
    exact absurd ((disconnected s k hk).symm.trans hconnected) (by simp)
  | logsOut =>
    have hclosed : s.auctionSection = false := hcareful
    refine ⟨fun _ => ⟨rfl, rfl⟩, fun _ => rfl, fun _ => h.outside hclosed,
      ⟨h.waiting.1, fun _ => rfl⟩, fun k hk hconnected => ?_⟩
    exact absurd ((disconnected s k hk).symm.trans hconnected) (by simp)
  | @isAnswered k room bidForm endAuctionBtn hk hconnected =>
    obtain ⟨hroom, -⟩ := h.room k hk hconnected
    refine ⟨h.auth, h.list, fun hshown => ?_, h.waiting, fun k' hk' _ => ?_⟩
    · exact absurd (hroom.symm.trans hshown) (by simp)
    · cases hk'
      exact ⟨hroom, fun hnot => by cases hnot⟩
  | isDropped =>
    refine ⟨h.auth, h.list, h.outside, h.waiting, fun k hk hconnected => ?_⟩
    exact absurd ((disconnected s k hk).symm.trans hconnected) (by simp)

theorem sectionInv_load (storedToken : Option String) : SectionInv (.load storedToken) := by
  refine ⟨fun hshown => ⟨?_, rfl⟩, fun _ => rfl, fun _ => rfl, ⟨Nat.zero_le 1, fun hone => by cases hone⟩,
    fun k hk => by cases hk⟩
  have hnone : (storedToken.filter fun token => token ≠ "").isNone = true := hshown
  show (storedToken.filter fun token => token ≠ "").isSome = false
  rw [Option.isNone_iff_eq_none.mp hnone]
  rfl

/-- The invariant of careful runs. -/
structure CarefulInv (s : Page) : Prop where
  sent : ∀ m ∈ s.sent, NamesItsRoom m ∨ BlankBid m
  answered : AnsweredInv s
  sections : SectionInv s

theorem carefulInv_step (h : CarefulInv s) (hcareful : Careful s act t) (ht : PageStep s act t) :
    CarefulInv t := by
  refine ⟨fun m hm => ?_, answeredInv_step h.answered ht, sectionInv_step h.sections hcareful ht⟩
  rcases pageStep_sent ht m hm with hold | ⟨k, rfl⟩ | hroom
  · exact h.sent m hold
  · exact .inl (rfl : k.asked = k.asked)
  · exact (hroom.names_or_unanswered h.answered).imp_right (h.sections.blank hroom)

/-- Bob logs out in the room of the first auction, logs in again and joins the second one. -/
def bobComesBack : List PageAction :=
  [.submitAuth, .authResponse (some "bob"), .clickJoin 1, .auctionState openRoom, .submitBid (some 100),
    .clickLogout, .submitAuth, .authResponse (some "bob"), .clickJoin 2]

/-- The same, by the Leave button. -/
def bobLeaves : List PageAction :=
  [.submitAuth, .authResponse (some "bob"), .clickJoin 1, .auctionState openRoom, .submitBid (some 100),
    .clickLeave, .clickLogout, .submitAuth, .authResponse (some "bob"), .clickJoin 2,
    .submitBid (some 200), .auctionState openRoom, .submitBid (some 200), .clickEnd]

/-- The End button of the second room ends the first auction. -/
example : (exec pageStep (.load none) (bobComesBack ++ [.clickEnd])).map (fun s => s.sent.getLast?) =
    some (some (⟨some "bob", 2, true, false⟩, .endAuction 1)) := by decide +kernel

end CarAuction
