import ThinkLocal.Foundation.Machine
import ThinkLocal.Foundation.Logs
import ThinkLocal.Mesh.PeerLearning

/-!
# Runs of the learners

`learnInboundPeer` and `relearnPeer`, one answer of an injected function at a time.  A function that
is called may answer, throw or reject, or never come back; what is called and what is answered
is written to a log.

Both learners end in one procedure: the fetch with its retries, the check of the card, and the calls
of `record` and `audit`.  Its invariant is proved once, over what a learner has to have asked before
it fetches (`Ready`).
-/

namespace ThinkLocal.Mesh.Learner

open Foundation Js

/-! ## Calls and answers -/

inductive Outcome
  | recorded
  | skippedResolvable
  | rejectedIdentity
  | rateLimited
  | endpointBlocked
  | fetchFailed
deriving DecidableEq

/-- The argument of `record`. -/
structure Observed where
  peerId : String
  publicKey : String
  spiffeUri : String
  certFingerprint : String
  endpoint : String
deriving DecidableEq

inductive Event
  | resolvable (answer : Bool)
  | rateLimit (answer : Bool)
  | fallback (address : Option String)
  | gate (host : String) (answer : Bool)
  /-- A fetch is started, pinned to a URI or not. -/
  | fetch (endpoint : String) (pin : Option String)
  | rejected
  | fetched (card : Option FetchedCard)
  | delay (ms : ℚ)
  | record (entry : Observed)
  | audit (endpoint : String)
deriving DecidableEq

/-- What an injected function does. -/
inductive Answer
  | throws
  | bool (value : Bool)
  | address (value : Option String)
  | card (value : Option FetchedCard)
  | done
deriving DecidableEq

/-- The calls that may throw out of the learner. -/
inductive Site
  | gates
  | delay
  | record
  | audit
deriving DecidableEq

/-- Which call is waited for, or how the learner ended. -/
inductive Pc
  | resolvable
  | rateLimit
  | fallback
  | gate (host : String)
  | fetching (endpoint : String) (pin : Option String) (attempt : Nat)
  | delaying (endpoint : String) (pin : Option String) (attempt : Nat)
  | recording (endpoint : String)
  | auditing
  | returned (outcome : Outcome)
  | threw (site : Site)
deriving DecidableEq

structure Run where
  pc : Pc
  log : List Event
deriving DecidableEq

/-! ## The fetch and what follows it -/

/-- What both learners are given. -/
structure Common where
  peerId : String
  expectedSpiffeUri : String
  certFingerprint : String
  maxFetchAttempts : Option ℚ
  fetchBackoffMs : Option (List ℚ)
  /-- Is there an audit hook? -/
  audits : Bool

namespace Common

variable (d : Common)

def maxAttempts : ℚ := max 1 (d.maxFetchAttempts.getD 3)

/-- `backoff[Math.min(attempt - 1, backoff.length - 1)] ?? 0`. -/
def backoff (attempt : Nat) : ℚ :=
  let delays := d.fetchBackoffMs.getD [500, 1500, 4000]
  if delays = [] then 0 else (delays[min (attempt - 1) (delays.length - 1)]?).getD 0

def startFetch (endpoint : String) (pin : Option String) (attempt : Nat) (log : List Event) : Run :=
  ⟨.fetching endpoint pin attempt, log ++ [.fetch endpoint pin]⟩

/-- The card is checked, and its key is recorded. -/
def judge (endpoint : String) (card : Option FetchedCard) (log : List Event) : Run :=
  match acceptedKey d.expectedSpiffeUri card with
  | none => ⟨.returned .rejectedIdentity, log ++ [.fetched card]⟩
  | some publicKey =>
      ⟨.recording endpoint, log ++ [.fetched card] ++ [.record
        { peerId := d.peerId, publicKey := publicKey, spiffeUri := d.expectedSpiffeUri
          certFingerprint := d.certFingerprint, endpoint := endpoint }]⟩

/-- From the first fetch on. -/
def step (s : Run) (answer : Answer) : Option Run :=
  match s.pc, answer with
  | .fetching endpoint pin attempt, .throws =>
      if d.maxAttempts ≤ attempt then some ⟨.returned .fetchFailed, s.log ++ [.rejected]⟩
      else some ⟨.delaying endpoint pin attempt, s.log ++ [.rejected] ++ [.delay (d.backoff attempt)]⟩
  | .fetching endpoint _ _, .card card => some (d.judge endpoint card s.log)
  | .delaying endpoint pin attempt, .done => some (startFetch endpoint pin (attempt + 1) s.log)
  | .delaying _ _ _, .throws => some { s with pc := .threw .delay }
  | .recording endpoint, .done =>
      if d.audits then some ⟨.auditing, s.log ++ [.audit endpoint]⟩
      else some { s with pc := .returned .recorded }
  | .recording _, .throws => some { s with pc := .threw .record }
  | .auditing, .done => some { s with pc := .returned .recorded }
  | .auditing, .throws => some { s with pc := .threw .audit }
  | _, _ => none

end Common

/-! ## The learners -/

structure InboundDeps extends Common where
  senderUri : String
  remoteAddress : String
  port : Nat
  /-- Which of the optional functions are given. -/
  resolvesFallback : Bool
  gatesFallback : Bool
  fetchesPinned : Bool

namespace InboundDeps

variable (d : InboundDeps)

/-- The fetch from the source address, or the question for another one. -/
def chooseAddress (log : List Event) : Run :=
  if d.remoteAddress ≠ "" then
    Common.startFetch (httpsEndpoint d.remoteAddress d.port) none 1 log
  else if d.resolvesFallback then ⟨.fallback, log⟩
  else ⟨.returned .fetchFailed, log⟩

def fetchFallback (host : String) (log : List Event) : Run :=
  Common.startFetch (httpsEndpoint host d.port) (some d.expectedSpiffeUri) 1 log

/-- `learnInboundPeer` up to the first fetch, and then the common part. -/
def step (s : Run) (answer : Answer) : Option Run :=
  match s.pc, answer with
  | .resolvable, .bool resolvable =>
      let log := s.log ++ [.resolvable resolvable]
      some (if resolvable then ⟨.returned .skippedResolvable, log⟩ else ⟨.rateLimit, log⟩)
  | .rateLimit, .bool allowed =>
      let log := s.log ++ [.rateLimit allowed]
      some (if allowed then d.chooseAddress log else ⟨.returned .rateLimited, log⟩)
  | .fallback, .address address =>
      let log := s.log ++ [.fallback address]
      match address.filter (· ≠ "") with
      | none => some ⟨.returned .fetchFailed, log⟩
      | some host =>
          if ! d.fetchesPinned then some ⟨.returned .fetchFailed, log⟩
          else if d.gatesFallback then some ⟨.gate host, log⟩
          else some (d.fetchFallback host log)
  | .gate host, .bool allowed =>
      let log := s.log ++ [.gate host allowed]
      some (if allowed then d.fetchFallback host log else ⟨.returned .fetchFailed, log⟩)
  | .resolvable, .throws | .rateLimit, .throws | .fallback, .throws | .gate _, .throws =>
      some { s with pc := .threw .gates }
  | _, _ => d.toCommon.step s answer

def machine : Machine Run Answer where
  init :=
    if d.senderUri ≠ d.expectedSpiffeUri then ⟨.returned .rejectedIdentity, []⟩
    else ⟨.resolvable, []⟩
  step := d.step

end InboundDeps

structure RelearnDeps extends Common where
  endpoint : String
  host : String

namespace RelearnDeps

variable (d : RelearnDeps)

/-- `relearnPeer` up to the first fetch, and then the common part. -/
def step (s : Run) (answer : Answer) : Option Run :=
  match s.pc, answer with
  | .resolvable, .bool resolvable =>
      let log := s.log ++ [.resolvable resolvable]
      some (if resolvable then ⟨.returned .skippedResolvable, log⟩ else ⟨.gate d.host, log⟩)
  | .gate host, .bool allowed =>
      let log := s.log ++ [.gate host allowed]
      some (if allowed then ⟨.rateLimit, log⟩ else ⟨.returned .endpointBlocked, log⟩)
  | .rateLimit, .bool allowed =>
      let log := s.log ++ [.rateLimit allowed]
      some (if allowed then Common.startFetch d.endpoint (some d.expectedSpiffeUri) 1 log
        else ⟨.returned .rateLimited, log⟩)
  | .resolvable, .throws | .rateLimit, .throws | .gate _, .throws =>
      some { s with pc := .threw .gates }
  | _, _ => d.toCommon.step s answer

def machine : Machine Run Answer where
  init := ⟨.resolvable, []⟩
  step := d.step

end RelearnDeps

end ThinkLocal.Mesh.Learner
