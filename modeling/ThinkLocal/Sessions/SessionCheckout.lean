import ThinkLocal.Foundation.Arena
import ThinkLocal.Foundation.InsertionMap
import ThinkLocal.Foundation.Clocks
import ThinkLocal.Foundation.Machine
import ThinkLocal.Js.Date

/-!
# Checking out a branch

`session-checkout.ts`: the calls of any number of processes on one database, each statement a step
of its own.  A call reads the clock before a statement, so that time can pass in between.  Instants
stand for the ISO texts of the table, which SQLite compares as texts.

The state remembers the answers, and of the answers `ok: true` those that have been neither
released by their agent nor force-released.
-/

namespace ThinkLocal.Checkout

open Foundation Js

structure CheckoutLock where
  agent_id : String
  locked_at : Int
  expires_at : Int
  purpose : Option String
deriving DecidableEq

structure CheckoutArgs where
  branch : String
  agentId : String
  purpose : Option String
  /-- The duration of the process, in whole milliseconds. -/
  maxLockDurationMs : Int
deriving DecidableEq

structure CheckoutResult where
  ok : Bool
  branch : String
  holder : String
  locked_at : Int
  expires_at : Int
deriving DecidableEq

inductive Answer
  | checkout (args : CheckoutArgs) (result : CheckoutResult)
  /-- The primary key is taken and `checkout` throws. -/
  | constraint (args : CheckoutArgs)
  /-- `toISOString` throws. -/
  | invalidDate
  | released (changed : Bool)
  | locked (lock : Option CheckoutLock)
  | locks (rows : List (String × CheckoutLock))
deriving DecidableEq

/-- The next statement of a call. -/
inductive Phase
  | evicts (args : CheckoutArgs)
  | selects (args : CheckoutArgs)
  | refreshes (args : CheckoutArgs) (existing : CheckoutLock)
  | inserts (args : CheckoutArgs)
  /-- `isLocked` of a branch, or `listLocks`. -/
  | readEvicts (branch : Option String)
  | readSelects (branch : Option String)

structure State where
  now : Int
  /-- The table `branch_locks`, by its primary key. -/
  locks : InsertionMap String CheckoutLock
  /-- The calls, with the time of their last statement. -/
  calls : Arena (Phase × Int)
  answers : List Answer
  grants : List (Grant String String Int)

/-- The comparison of two columns. -/
def textLess (a b : Int) : Bool := textBefore ((toISOString a).getD []) ((toISOString b).getD [])

namespace State

variable (s : State)

/-- A reading of the clock since the last statement of a call. -/
def ReadSince (since reading : Int) : Prop := since ≤ reading ∧ reading ≤ s.now

instance (since reading : Int) : Decidable (s.ReadSince since reading) :=
  inferInstanceAs (Decidable (_ ∧ _))

def start (phase : Phase) : State := { s with calls := s.calls.alloc (phase, s.now) }

def goOn (call : Nat) (phase : Phase) : State :=
  { s with calls := s.calls.modify call fun _ => (phase, s.now) }

def answer (call : Nat) (answer : Answer) : State :=
  { s with calls := s.calls.free call, answers := answer :: s.answers }

/-- `DELETE FROM branch_locks WHERE expires_at < ?`. -/
def evictExpired (now : Int) : State :=
  { s with locks := s.locks.filter fun _ lock => ! textLess lock.expires_at now }

/-- The lock is answered to be the agent's. -/
def grant (call : Nat) (args : CheckoutArgs) (locked_at expires_at : Int) : State :=
  { s.answer call (.checkout args ⟨true, args.branch, args.agentId, locked_at, expires_at⟩) with
    grants := ⟨args.branch, args.agentId, expires_at⟩ :: s.grants }

def select (call : Nat) (args : CheckoutArgs) : State :=
  match s.locks.get args.branch with
  | none => s.goOn call (.inserts args)
  | some existing =>
      if existing.agent_id = args.agentId then s.goOn call (.refreshes args existing)
      else
        s.answer call (.checkout args
          ⟨false, args.branch, existing.agent_id, existing.locked_at, existing.expires_at⟩)

/-- The `UPDATE` has the branch for its condition, but not the agent. -/
def refresh (call : Nat) (args : CheckoutArgs) (existing : CheckoutLock) (reading : Int) : State :=
  let expiresAt := reading + args.maxLockDurationMs
  match toISOString expiresAt with
  | none => s.answer call .invalidDate
  | some _ =>
      let locks :=
        match s.locks.get args.branch with
        | none => s.locks
        | some lock =>
            s.locks.set args.branch
              { lock with expires_at := expiresAt, purpose := args.purpose <|> lock.purpose }
      { s with locks }.grant call args existing.locked_at expiresAt

def insert (call : Nat) (args : CheckoutArgs) (now reading : Int) : State :=
  let expiresAt := reading + args.maxLockDurationMs
  match toISOString now, toISOString expiresAt with
  | some _, some _ =>
      if s.locks.has args.branch then s.answer call (.constraint args)
      else
        let lock : CheckoutLock := ⟨args.agentId, now, expiresAt, args.purpose⟩
        { s with locks := s.locks.set args.branch lock }.grant call args now expiresAt
  | _, _ => s.answer call .invalidDate

/-- `ORDER BY locked_at DESC`. -/
def sortedLocks : List (String × CheckoutLock) :=
  s.locks.entries.insertionSort fun a b => textLess a.2.locked_at b.2.locked_at = false

/-- `DELETE` of the row of a branch that a test picks out; its grants are given back. -/
def remove (branch : String) (picked : String → Bool) : State :=
  let row := (s.locks.get branch).filter fun lock => picked lock.agent_id
  { s with
    locks := if row.isSome then s.locks.delete branch else s.locks
    answers := .released row.isSome :: s.answers
    grants := s.grants.filter fun grant => ! (grant.key = branch && picked grant.owner) }

end State

inductive Action
  | wait (time : Int)
  | checkout (args : CheckoutArgs)
  | isLocked (branch : String)
  | listLocks
  | evict (call : Nat) (reading : Int)
  | select (call : Nat)
  | refresh (call : Nat) (reading : Int)
  | insert (call : Nat) (now reading : Int)
  | release (branch agentId : String)
  | forceRelease (branch : String)

def step (s : State) : Action → Option State
  | .wait time => if s.now ≤ time then some { s with now := time } else none
  | .checkout args => some (s.start (.evicts args))
  | .isLocked branch => some (s.start (.readEvicts (some branch)))
  | .listLocks => some (s.start (.readEvicts none))
  | .evict call reading =>
      match s.calls.get call with
      | some (.evicts args, since) =>
          if s.ReadSince since reading then
            some ((s.evictExpired reading).goOn call (.selects args))
          else none
      | some (.readEvicts branch, since) =>
          if s.ReadSince since reading then
            some ((s.evictExpired reading).goOn call (.readSelects branch))
          else none
      | _ => none
  | .select call =>
      match s.calls.get call with
      | some (.selects args, _) => some (s.select call args)
      | some (.readSelects (some branch), _) =>
          some (s.answer call (.locked (s.locks.get branch)))
      | some (.readSelects none, _) => some (s.answer call (.locks s.sortedLocks))
      | _ => none
  | .refresh call reading =>
      match s.calls.get call with
      | some (.refreshes args existing, since) =>
          if s.ReadSince since reading then some (s.refresh call args existing reading) else none
      | _ => none
  | .insert call now reading =>
      match s.calls.get call with
      | some (.inserts args, since) =>
          if s.ReadSince since now ∧ s.ReadSince now reading then
            some (s.insert call args now reading)
          else none
      | _ => none
  | .release branch agentId => some (s.remove branch fun agent => agent = agentId)
  | .forceRelease branch => some (s.remove branch fun _ => true)

/-- An empty table. -/
def sessionCheckout (now : Int) : Machine State Action where
  init := ⟨now, .empty, .empty, [], []⟩
  step := step

end ThinkLocal.Checkout
