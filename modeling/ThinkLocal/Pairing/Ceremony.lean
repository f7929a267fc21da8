import ThinkLocal.Foundation.Machine
import ThinkLocal.Pairing.PairingHandler

/-!
# Safety of the pairing ceremony

A peer is to enter the store only through a confirm in time, under the agent id that the
init announced and not in the place of a paired agent, and a PIN is to survive at most
three guesses.  Whether this was so is read off the requests, the answers and the store
alone.

The confirm looks neither at the clock nor at the announced id, and an exchange that
throws forgives the guesses before it.  Runs without such requests are safe.
-/

namespace ThinkLocal.Pairing

open Foundation Machine Js

variable {Verifier : Type}

/-! ## What can be observed -/

/-- An entry of the store that appeared or changed. -/
structure Addition where
  agentId : Plain
  /-- The request that did it is a confirm. -/
  confirmed : Bool
  arrived : Int
  /-- When the session was started or initiated last. -/
  lastStep : Option Int
  /-- The agent id of the last init. -/
  announced : Option Plain
  /-- The agent was paired before. -/
  replaced : Bool

structure Addition.Safe (x : Addition) : Prop where
  confirmed : x.confirmed = true
  timely : ∃ t, x.lastStep = some t ∧ x.arrived - t ≤ SESSION_TIMEOUT_MS
  announced : x.announced = some x.agentId
  fresh : x.replaced = false

structure Ceremony (Verifier : Type) where
  handler : HandlerState Verifier
  lastStep : Option Int
  announced : Option Plain
  /-- The answered inits with a wrong PIN since the last start. -/
  guesses : Nat
  additions : List Addition

structure Ceremony.Safe (t : Ceremony Verifier) : Prop where
  additions : ∀ x ∈ t.additions, x.Safe
  guesses : t.guesses ≤ 3

/-- The agents whose entry is another one. -/
def changed (before after : PairingStore) : List Plain :=
  after.peers.keys.filter fun agentId => after.getPeer agentId ≠ before.getPeer agentId

def Request.isConfirm : Request → Bool
  | confirm .. => true
  | _ => false

/-- The agent id in the body of an init. -/
def Request.agentId : Request → Option Plain
  | init _ _ _ body => body.map InitBody.agent_id
  | _ => none

/-- What the request does to the store, as it is observed. -/
def Ceremony.additionsOf (t : Ceremony Verifier) (request : Request) (store : PairingStore) :
    List Addition :=
  (changed t.handler.store store).map fun agentId =>
    { agentId, confirmed := request.isConfirm, arrived := request.now, lastStep := t.lastStep
      announced := t.announced, replaced := t.handler.store.isPaired agentId }

/-- The request is answered and the handlers go to a state. -/
def Ceremony.observe (t : Ceremony Verifier) (request : Request)
    (handled : HandlerState Verifier × Response) : Ceremony Verifier where
  handler := handled.1
  lastStep :=
    match handled.2 with
    | .started _ _ _ | .handshake _ _ => some request.now
    | _ => t.lastStep
  announced :=
    match handled.2 with
    | .started _ _ _ => none
    | .handshake _ _ => request.agentId
    | _ => t.announced
  guesses :=
    match handled.2 with
    | .started _ _ _ => 0
    | .error .wrongPin | .error .sessionInvalidated => t.guesses + 1
    | _ => t.guesses
  additions := t.additions ++ t.additionsOf request handled.1.store

/-- The routes over a store that was loaded. -/
def pairing (L : Library Verifier) (deps : Deps) (store : PairingStore) :
    Machine (Ceremony Verifier) Request where
  init :=
    { handler := { activeSession := none, failedAttempts := 0, ipFailures := .empty, store }
      lastStep := none, announced := none, guesses := 0, additions := [] }
  step t request := some (t.observe request (handle L deps t.handler request))

variable {t : Ceremony Verifier}

theorem additionsOf_self (request : Request) :
    t.additionsOf request t.handler.store = [] := by
  simp [Ceremony.additionsOf, changed]

/-- Of the state before, only the store is looked at. -/
theorem observe_congr {s : HandlerState Verifier} (hstore : s.store = t.handler.store)
    (request : Request) (handled : HandlerState Verifier × Response) :
    ({ t with handler := s } : Ceremony Verifier).observe request handled =
      t.observe request handled := by
  simp only [Ceremony.observe, Ceremony.additionsOf, hstore]

/-- The answer is no turn of the ceremony. -/
def Response.Silent : Response → Prop
  | .started _ _ _ | .handshake _ _ | .error .wrongPin | .error .sessionInvalidated => False
  | _ => True

theorem observe_of_silent {handled : HandlerState Verifier × Response}
    (hsilent : handled.2.Silent) (request : Request) :
    t.observe request handled =
      { t with
        handler := handled.1
        additions := t.additions ++ t.additionsOf request handled.1.store } := by
  obtain ⟨s, response⟩ := handled
  cases response with
  | started | handshake => exact hsilent.elim
  | error error => cases error <;> first | exact hsilent.elim | rfl
  | alreadyPaired | paired | status | uncaught => rfl

theorem observe_of_silent_of_store {handled : HandlerState Verifier × Response}
    (hsilent : handled.2.Silent) (hstore : handled.1.store = t.handler.store)
    (request : Request) : t.observe request handled = { t with handler := handled.1 } := by
  rw [observe_of_silent hsilent, hstore, additionsOf_self, List.append_nil]

theorem additions_observe {handled : HandlerState Verifier × Response}
    (hstore : handled.1.store = t.handler.store) (request : Request) :
    (t.observe request handled).additions = t.additions := by
  show t.additions ++ t.additionsOf request handled.1.store = t.additions
  rw [hstore, additionsOf_self, List.append_nil]

/-- The only entry that a peer can change is its own. -/
theorem mem_additionsOf_addPeer {request : Request} {peer : PairedPeer} {x : Addition}
    (h : x ∈ t.additionsOf request (t.handler.store.addPeer peer)) :
    x = { agentId := peer.agentId, confirmed := request.isConfirm, arrived := request.now
          lastStep := t.lastStep, announced := t.announced
          replaced := t.handler.store.isPaired peer.agentId } := by
  obtain ⟨agentId, hmem, rfl⟩ := List.mem_map.mp h
  have hchanged := of_decide_eq_true (List.mem_filter.mp hmem).2
  rw [PairingStore.getPeer_addPeer] at hchanged
  have hagent : agentId = peer.agentId := by
    by_contra hother
    exact hchanged (if_neg hother)
  rw [hagent]

/-! ## The invariant -/

/-- The state of the handlers is the one that the observations tell. -/
structure Linked (t : Ceremony Verifier) : Prop where
  safe : t.Safe
  attempts : t.handler.failedAttempts < 3
  counted : ∀ session, t.handler.activeSession = some session → session.state = .waiting →
    t.guesses ≤ t.handler.failedAttempts
  linked : ∀ session, t.handler.activeSession = some session → session.state = .handshake →
    t.lastStep = some session.createdAt ∧ t.announced = session.peerAgentId ∧
      ∀ agentId, session.peerAgentId = some agentId → t.handler.store.isPaired agentId = false

/-- A silent request that leaves the store alone. -/
theorem Linked.silent {handled : HandlerState Verifier × Response} {request : Request}
    (h : Linked { t with handler := handled.1 }) (hsilent : handled.2.Silent)
    (hstore : handled.1.store = t.handler.store) : Linked (t.observe request handled) := by
  rw [observe_of_silent_of_store hsilent hstore]
  exact h

/-- Keeping the session or ending it keeps the invariant. -/
theorem Linked.quiet (h : Linked t) {s : HandlerState Verifier}
    (hstore : s.store = t.handler.store) (hattempts : s.failedAttempts = t.handler.failedAttempts)
    (hsession : ∀ session, s.activeSession = some session →
      t.handler.activeSession = some session ∨ session.state = .failed) :
    Linked { t with handler := s } where
  safe := ⟨h.safe.additions, h.safe.guesses⟩
  attempts := by rw [hattempts]; exact h.attempts
  counted := by
    intro session hs hstate
    rcases hsession session hs with hold | hfailed
    · rw [hattempts]
      exact h.counted session hold hstate
    · simp [hfailed] at hstate
  linked := by
    intro session hs hstate
    rcases hsession session hs with hold | hfailed
    · simp only [hstore]
      exact h.linked session hold hstate
    · simp [hfailed] at hstate

/-! ## Routes -/

theorem cleanExpiredSession_store (s : HandlerState Verifier) (now : Int) :
    (cleanExpiredSession s now).store = s.store := by
  unfold cleanExpiredSession
  split
  · split <;> rfl
  · rfl

theorem Linked.cleanExpiredSession (h : Linked t) (now : Int) :
    Linked { t with handler := cleanExpiredSession t.handler now } := by
  unfold Pairing.cleanExpiredSession
  split
  · split
    · exact h.quiet rfl rfl (by simp)
    · exact h
  · exact h

variable {L : Library Verifier} {deps : Deps}

theorem Linked.start (h : Linked t) (now : Int) (draw seed : Nat) :
    Linked (t.observe (.start now draw seed) (start L deps t.handler now draw seed)) := by
  have hclean := h.cleanExpiredSession now
  have hstore := cleanExpiredSession_store t.handler now
  unfold Pairing.start
  dsimp only
  split
  · exact hclean.silent trivial hstore
  · constructor
    · exact ⟨by rw [additions_observe hstore _]; exact h.safe.additions, Nat.zero_le 3⟩
    · exact hclean.attempts
    · intro session _ _
      exact Nat.zero_le _
    · intro session hs hstate
      obtain rfl := Option.some.inj hs
      simp at hstate

theorem Linked.status (h : Linked t) (now : Int) :
    Linked (t.observe (.status now) (status t.handler now)) :=
  (h.cleanExpiredSession now).silent trivial (cleanExpiredSession_store t.handler now)

/-! ### The init -/

variable {session : PairingSession Verifier}

/-- A waiting session survives two wrong PINs. -/
theorem Linked.rejectPin (h : Linked t) (hsession : t.handler.activeSession = some session)
    (hstate : session.state = .waiting) (request : Request) (clientIp : String) (now : Int) :
    Linked (t.observe request (rejectPin t.handler clientIp now)) := by
  have hcounted := h.counted session hsession hstate
  have hattempts := h.attempts
  unfold Pairing.rejectPin
  dsimp only
  split
  case isTrue hlimit =>
    -- The third wrong PIN ends the session and sets the counter back.
    have hguesses : t.guesses + 1 ≤ 3 := by omega
    constructor
    · exact ⟨by rw [additions_observe rfl _]; exact h.safe.additions, hguesses⟩
    · exact Nat.zero_lt_succ 2
    · intro session' hs
      cases hs
    · intro session' hs
      cases hs
  case isFalse hlimit =>
    have hguesses : t.guesses + 1 ≤ t.handler.failedAttempts + 1 := by omega
    constructor
    · refine ⟨by rw [additions_observe rfl _]; exact h.safe.additions, ?_⟩
      show t.guesses + 1 ≤ 3
      omega
    · show t.handler.failedAttempts + 1 < 3
      omega
    · intro session' _ _
      exact hguesses
    · intro session' hs hstate'
      obtain rfl := Option.some.inj (hsession.symm.trans hs)
      rw [hstate] at hstate'
      cases hstate'

/-- The handshake of a new agent, unless it throws after wrong PINs. -/
theorem Linked.handshake (h : Linked t) (hsession : t.handler.activeSession = some session)
    (hstate : session.state = .waiting) (remoteAddress : Option String) (now : Int) (iv : Bytes)
    (body : InitBody) (hnew : t.handler.store.isPaired body.agent_id = false)
    (hbroken : (exchange L session.spakeInstance body.spake_message).2 = none →
      t.handler.failedAttempts = 0) :
    Linked (t.observe (.init now remoteAddress iv (some body))
      (handshake L deps t.handler session now iv body)) := by
  have hcounted := h.counted session hsession hstate
  unfold Pairing.handshake
  split
  case h_1 verifier hexchange =>
    rw [hexchange] at hbroken
    -- An exchange that throws has already set the counter back, so nothing may be counted yet.
    have hzero := hbroken rfl
    refine Linked.silent ?_ trivial rfl
    constructor
    · exact ⟨h.safe.additions, h.safe.guesses⟩
    · exact Nat.zero_lt_succ 2
    · intro session' _ _
      show t.guesses ≤ 0
      omega
    · intro session' hs hstate'
      obtain rfl := Option.some.inj hs
      simp [hstate] at hstate'
  case h_2 verifier outMessage sharedKey hexchange =>
    constructor
    · exact ⟨by rw [additions_observe rfl _]; exact h.safe.additions, h.safe.guesses⟩
    · exact Nat.zero_lt_succ 2
    · intro session' hs hstate'
      obtain rfl := Option.some.inj hs
      simp at hstate'
    · intro session' hs _
      obtain rfl := Option.some.inj hs
      refine ⟨rfl, rfl, ?_⟩
      intro agentId hagent
      obtain rfl := Option.some.inj hagent
      exact hnew

/-- The init has the right PIN and a new agent, and its exchange throws. -/
def BreaksOff (L : Library Verifier) (s : HandlerState Verifier) (body : InitBody) : Prop :=
  body.complete = true ∧ ∃ session ∈ s.activeSession, session.state = .waiting ∧
    body.pin = .string session.pin ∧ s.store.isPaired body.agent_id = false ∧
    (exchange L session.spakeInstance body.spake_message).2 = none

theorem Linked.checkBody (h : Linked t) (remoteAddress : Option String) (clientIp : String)
    (now : Int) (iv : Bytes) (body : Option InitBody)
    (hkept : ∀ b ∈ body, BreaksOff L t.handler b → t.handler.failedAttempts = 0) :
    Linked (t.observe (.init now remoteAddress iv body)
      (checkBody L deps t.handler clientIp now iv body)) := by
  cases body with
  | none => exact h.silent trivial rfl
  | some body =>
      unfold Pairing.checkBody
      dsimp only
      split
      case isTrue => exact h.silent trivial rfl
      case isFalse hcomplete =>
        split
        case h_1 => exact h.silent trivial rfl
        case h_2 session hsession =>
          split
          case isTrue => exact h.silent trivial rfl
          case isFalse hstate =>
            have hwaiting : session.state = .waiting := not_not.mp hstate
            unfold checkPin
            split
            case isTrue => exact h.rejectPin hsession hwaiting _ _ _
            case isFalse hpin =>
              split
              case isTrue => exact h.silent trivial rfl
              case isFalse hnew =>
                have hnew := Bool.eq_false_iff.mpr hnew
                refine h.handshake hsession hwaiting remoteAddress now iv body hnew ?_
                intro hbroken
                refine hkept body rfl ⟨by simpa using hcomplete, session, hsession, hwaiting, ?_⟩
                exact ⟨not_not.mp hpin, hnew, hbroken⟩

theorem cleanExpiredSession_failedAttempts (s : HandlerState Verifier) (now : Int) :
    (cleanExpiredSession s now).failedAttempts = s.failedAttempts := by
  unfold cleanExpiredSession
  split
  · split <;> rfl
  · rfl

/-- Before the body is looked at, only the session may be dropped and a lock deleted. -/
theorem Linked.init (h : Linked t) (now : Int) (remoteAddress : Option String) (iv : Bytes)
    (body : Option InitBody)
    (hkept : ∀ b ∈ body, BreaksOff L (Pairing.cleanExpiredSession t.handler now) b →
      t.handler.failedAttempts = 0) :
    Linked (t.observe (.init now remoteAddress iv body)
      (init L deps t.handler now remoteAddress iv body)) := by
  have hclean := h.cleanExpiredSession now
  have hstore := cleanExpiredSession_store t.handler now
  have hattempts := cleanExpiredSession_failedAttempts t.handler now
  unfold Pairing.init
  dsimp only
  -- From here on only the cleaned state matters.
  generalize Pairing.cleanExpiredSession t.handler now = s at *
  have hlinked : ∀ ipFailures, Linked { t with handler := { s with ipFailures } } :=
    fun ipFailures => hclean.quiet rfl rfl fun _ hsession => .inl hsession
  split
  case isTrue => exact (hlinked _).silent trivial hstore
  case isFalse =>
    rw [← observe_congr hstore]
    refine (hlinked _).checkBody remoteAddress _ now iv body fun b hb hbreaks => ?_
    show s.failedAttempts = 0
    rw [hattempts]
    exact hkept b hb hbreaks

/-! ### The confirm -/

/-- The session and the peer that a confirm opens in it. -/
def opened (L : Library Verifier) (s : HandlerState Verifier) (now : Int) (body : Option Sealed) :
    Option (PairingSession Verifier × PairedPeer) :=
  s.activeSession.bind fun session =>
    if session.state = .handshake then
      session.sharedKey.bind fun key =>
        (confirmedPeer L key now body).toOption.map fun peer => (session, peer)
    else none

theorem opened_eq_some {s : HandlerState Verifier} {now : Int} {body : Option Sealed} {key : Bytes}
    {peer : PairedPeer} (hsession : s.activeSession = some session)
    (hstate : session.state = .handshake) (hkey : session.sharedKey = some key)
    (hpeer : confirmedPeer L key now body = .ok peer) :
    opened L s now body = some (session, peer) := by
  simp [opened, hsession, hstate, hkey, hpeer, Except.toOption]

theorem confirmedPeer_error {key : Bytes} {now : Int} {body : Option Sealed}
    {error : PairingError} (h : confirmedPeer L key now body = .error error) :
    error = .confirmationFailed ∨ error = .fingerprintMismatch := by
  unfold confirmedPeer at h
  split at h
  · cases h
    exact .inl rfl
  · split at h
    · cases h
      exact .inl rfl
    · split at h
      · cases h
        exact .inr rfl
      · cases h

/-- A peer under the announced id, added in time, is new. -/
theorem Linked.storePeer (h : Linked t) (hsession : t.handler.activeSession = some session)
    (hstate : session.state = .handshake) {now : Int} {peer : PairedPeer}
    (htimely : now - session.createdAt ≤ SESSION_TIMEOUT_MS)
    (hsame : session.peerAgentId = some peer.agentId) (body : Option Sealed)
    (saved rebuilt : Bool) :
    Linked (t.observe (.confirm now body saved rebuilt)
      (storePeer t.handler peer saved rebuilt)) := by
  obtain ⟨hlast, hannounced, hnew⟩ := h.linked session hsession hstate
  have hover : ∃ state response, state ≠ .waiting ∧ state ≠ .handshake ∧
      Response.Silent response ∧ Pairing.storePeer t.handler peer saved rebuilt =
        (({ t.handler with store := t.handler.store.addPeer peer } :
          HandlerState Verifier).setState state, response) := by
    unfold Pairing.storePeer
    dsimp only
    split
    · exact ⟨.completed, .paired peer.agentId, by decide, by decide, trivial, rfl⟩
    · exact ⟨.failed, .error .confirmationFailed, by decide, by decide, trivial, rfl⟩
  obtain ⟨state, response, hwaiting, hhandshake, hsilent, heq⟩ := hover
  rw [heq, observe_of_silent hsilent]
  constructor
  · refine ⟨?_, h.safe.guesses⟩
    intro x hx
    rcases List.mem_append.mp hx with hold | hadded
    · exact h.safe.additions x hold
    -- The peer that is added is the announced one, so the handshake found its id unpaired.
    · obtain rfl := mem_additionsOf_addPeer hadded
      exact ⟨rfl, ⟨_, hlast, htimely⟩, hannounced.trans hsame, hnew _ hsame⟩
  · exact h.attempts
  · intro session' hs hstate'
    obtain ⟨_, _, rfl⟩ := Option.map_eq_some_iff.mp hs
    exact absurd hstate' hwaiting
  · intro session' hs hstate'
    obtain ⟨_, _, rfl⟩ := Option.map_eq_some_iff.mp hs
    exact absurd hstate' hhandshake

theorem Linked.confirm (h : Linked t) (now : Int) (body : Option Sealed) (saved rebuilt : Bool)
    (hopened : ∀ p ∈ opened L t.handler now body,
      now - p.1.createdAt ≤ SESSION_TIMEOUT_MS ∧ p.1.peerAgentId = some p.2.agentId) :
    Linked (t.observe (.confirm now body saved rebuilt)
      (confirm L t.handler now body saved rebuilt)) := by
  unfold Pairing.confirm
  split
  case h_1 session key hsession =>
    split
    case h_1 peer hpeer =>
      obtain ⟨htimely, hsame⟩ := hopened _ (opened_eq_some hsession rfl rfl hpeer)
      exact h.storePeer hsession rfl htimely hsame body saved rebuilt
    case h_2 => exact h.silent trivial rfl
    case h_3 error hne hpeer =>
      refine Linked.silent (h.quiet rfl rfl fun session' hs => .inr ?_) ?_ rfl
      · obtain ⟨_, _, rfl⟩ := Option.map_eq_some_iff.mp hs
        rfl
      · rcases confirmedPeer_error hpeer with rfl | rfl <;> trivial
  case h_2 => exact h.silent trivial rfl

/-! ## Runs -/

/-- No request uses what the routes do not check: a confirm that opens is in time and names the
announced agent, and no exchange throws after a wrong PIN. -/
def Proper (L : Library Verifier) (t : Ceremony Verifier) : Request → Prop
  | .start _ _ _ | .status _ => True
  | .init now _ _ body => ∀ b ∈ body, BreaksOff L (cleanExpiredSession t.handler now) b →
      t.handler.failedAttempts = 0
  | .confirm now body _ _ => ∀ p ∈ opened L t.handler now body,
      now - p.1.createdAt ≤ SESSION_TIMEOUT_MS ∧ p.1.peerAgentId = some p.2.agentId

instance (L : Library Verifier) (s : HandlerState Verifier) (body : InitBody) :
    Decidable (BreaksOff L s body) :=
  inferInstanceAs (Decidable (_ ∧ ∃ session ∈ s.activeSession, _ ∧ _ ∧ _ ∧ _))

instance (L : Library Verifier) (t : Ceremony Verifier) :
    (request : Request) → Decidable (Proper L t request)
  | .start _ _ _ | .status _ => .isTrue trivial
  | .init _ _ _ body => inferInstanceAs (Decidable (∀ b ∈ body, _ → _))
  | .confirm now body _ _ =>
      inferInstanceAs (Decidable (∀ p ∈ opened L t.handler now body, _ ∧ _))

variable {store : PairingStore}

theorem linked_init : Linked (pairing L deps store).init where
  safe := ⟨by simp [pairing], Nat.zero_le 3⟩
  attempts := Nat.zero_lt_succ 2
  counted := by simp [pairing]
  linked := by simp [pairing]

theorem linked_step (h : Linked t) {request : Request} (hproper : Proper L t request) :
    Linked (t.observe request (handle L deps t.handler request)) := by
  cases request with
  | start now draw seed => exact h.start now draw seed
  | init now remoteAddress iv body => exact h.init now remoteAddress iv body hproper
  | confirm now body saved rebuilt => exact h.confirm now body saved rebuilt hproper
  | status now => exact h.status now

/-- In the runs without such requests, peers are added only by a confirm in time, under the
announced id and new, and no PIN survives more than three guesses. -/
theorem pairing_safe (h : (pairing L deps store).ReachableUnder (Proper L) t) : t.Safe := by
  have hlinked : Linked t := by
    refine h.invariant linked_init ?_
    intro t request t' ht hproper hstep
    obtain rfl := Option.some.inj hstep
    exact linked_step ht hproper
  exact hlinked.safe

/-! A library whose tags are the key, as the routes see it. -/

def sampleLibrary : Library String where
  verifier pin _ _ _ := pin
  generate pin := (pin, some "message")
  finish pin message := (pin, if message = [] then none else some message)
  bufferFrom value := value.text?.map fun text => text.toList.map fun c => c.toNat.toUInt8
  sha256 bytes := bytes.take 1
  sha256Hex text := text
  aesGcmSeal _ _ text := { ciphertext := .string text, iv := .string "iv", tag := .string "k" }
  aesGcmOpen key _ tag ciphertext := if tag = key then ciphertext.text? else none
  stringify _ := "payload"
  parse text := some
    { agentId := .string text, publicKeyPem := .string "pem", caCertPem := .string "ca"
      hostname := .string "host", fingerprint := .string "pem" }

def samplePairing : Machine (Ceremony String) Request :=
  pairing sampleLibrary
    { agentId := "spiffe://thinklocal/host/a/agent/claude-code", hostname := "a"
      publicKeyPem := "pem", caCertPem := "ca", fingerprint := "pem" } .empty

def initFor (now : Int) (agentId pin : String) : Request :=
  .init now (some "10.10.10.7") []
    (some { agent_id := .string agentId, pin := .string pin, spake_message := .string "key" })

def confirmFor (now : Int) (agentId : String) : Request :=
  .confirm now (some { ciphertext := .string agentId, iv := .string "iv", tag := .string "k" })
    true true

/-- A peer is paired after a wrong PIN. -/
theorem pairing_safe_sample :
    ∃ t : Ceremony String, t.additions.length = 1 ∧ t.guesses = 1 ∧ t.Safe := by
  let requests := [.start 0 0 0, initFor 1 "b" "000000", initFor 2 "b" (generatePin 0),
    confirmFor 3 "b"]
  have hrun : ((samplePairing.runFrom samplePairing.init requests).any fun t =>
      decide (t.additions.length = 1 ∧ t.guesses = 1)) = true := by decide
  obtain ⟨t, ht, hadded⟩ := (Option.any_eq_true _ _).mp hrun
  have hmeets : samplePairing.Meets (Proper sampleLibrary) samplePairing.init requests := by decide
  obtain ⟨hlength, hguesses⟩ := of_decide_eq_true hadded
  exact ⟨t, hlength, hguesses, pairing_safe (.runFrom .init hmeets ht)⟩

/-- An agent that announced itself as `c` takes the place of `b`, long after the session is
over. -/
theorem pairing_unsafe : ¬ ∀ t, samplePairing.Reachable t → t.Safe := by
  intro h
  let requests := [.start 0 0 0, initFor 1 "b" (generatePin 0), confirmFor 2 "b",
    .start 3 0 0, initFor 4 "c" (generatePin 0), confirmFor (4 + SESSION_TIMEOUT_MS + 1) "b"]
  have hrun : ((samplePairing.runFrom samplePairing.init requests).any fun t =>
      t.additions.any fun x => x.replaced) = true := by decide
  obtain ⟨t, ht, hreplaced⟩ := (Option.any_eq_true _ _).mp hrun
  obtain ⟨x, hx, hreplaced⟩ := List.any_eq_true.mp hreplaced
  have hfresh := ((h t (reachable_of_runFrom ht)).additions x hx).fresh
  rw [hreplaced] at hfresh
  cases hfresh

end ThinkLocal.Pairing
