import ThinkLocal.Foundation.InsertionMap
import ThinkLocal.Js.Decimal
import ThinkLocal.Messages.Messages

/-!
# The credential vault

`CredentialVault` and the handler of `SECRET_REQUEST`.  A revocation deletes the row of a credential
and leaves a mark in another table, which only `executeBrokered` looks at.
-/

namespace ThinkLocal.Vault

open Js Foundation
open Messages (isoText)

/-- The ciphers of the vault, under its keys and with the bytes that are drawn for a text. -/
structure Ciphers where
  /-- The encrypted value and the nonce. -/
  encrypt : (random value : String) → String × String
  decrypt : (encrypted nonce : String) → Option String
  /-- `nacl.box` for the key of a peer; it throws on a text that is no key. -/
  box : (random value peerPublicKey : String) → Option String

structure Credential where
  id : String
  name : String
  category : String
  tags : List String
  /-- The instant whose text is in the column. -/
  expiresAt : Option Int
  createdAt : String
  lastAccessedAt : Option String
  accessCount : Nat
deriving DecidableEq

/-- A row of the table `credentials`. -/
structure CredentialRow extends Credential where
  encryptedValue : String
  nonce : String
deriving DecidableEq

structure CredentialWithValue extends Credential where
  value : String
deriving DecidableEq

structure Revocation where
  revokedAt : String
  reason : String
deriving DecidableEq

inductive ApprovalStatus
  | pending
  | approved
  | denied
  | expired
deriving DecidableEq

structure ApprovalRequest where
  id : String
  requester : String
  credentialName : String
  reason : String
  status : ApprovalStatus
  requestedAt : String
  decidedAt : Option String
deriving DecidableEq

/-- The tables of the vault; names are unique in the first two. -/
structure CredentialVault where
  credentials : InsertionMap String CredentialRow
  revoked : InsertionMap String Revocation
  approvals : List ApprovalRequest

structure StoreOptions where
  category : Option String
  tags : Option (List String)
  ttlHours : Option Number

/-- What `executeBrokered` resolves to. -/
structure BrokeredResult where
  success : Bool
  result : Option String
  error : Option String
deriving DecidableEq

/-- `datetime('now')`, `none` outside of the years that have four digits. -/
def sqlNow (now : Int) : Option (List Char) :=
  match (toISOString now).getD [] with
  | y₁ :: y₂ :: y₃ :: y₄ :: '-' :: rest =>
      some (y₁ :: y₂ :: y₃ :: y₄ :: '-' :: rest.take 5 ++ ' ' :: (rest.drop 6).take 8)
  | _ => none

/-- `Date.now() + ttlHours * 3600_000`, in doubles. -/
def timeAfter (now : Int) (hours : Rat) : Number :=
  match roundDouble (hours * 3600000) with
  | .finite span => roundDouble (now + span)
  | other => other

/-- The end of a time to live; `none` where its text cannot be made. -/
def expiry (now : Int) : Option Number → Option (Option Int)
  | none | some .nan => some none
  | some (.finite hours) =>
      if hours = 0 then some none
      else
        match timeAfter now hours with
        | .finite time =>
            let clipped := if 0 ≤ time then time.floor else time.ceil
            if (toISOString clipped).isSome then some (some clipped) else none
        | _ => none
  | some _ => none

namespace CredentialVault

def empty : CredentialVault := ⟨.empty, .empty, []⟩

variable (ciphers : Ciphers)

/-! ## Credentials -/

/-- `getMetadata`. -/
def getMetadata (vault : CredentialVault) (name : String) : Option Credential :=
  (vault.credentials.get name).map CredentialRow.toCredential

/-- `store`, with the id and the bytes that are drawn; `none` where it throws.  A row with the same
id or the same name is replaced. -/
def store (vault : CredentialVault) (name value : String) (options : StoreOptions) (now : Int)
    (id random : String) : CredentialVault × Option Credential :=
  match expiry now options.ttlHours with
  | none => (vault, none)
  | some expiresAt =>
      let (encryptedValue, nonce) := ciphers.encrypt random value
      let row : CredentialRow :=
        { id, name, expiresAt, encryptedValue, nonce
          category := options.category.getD "general"
          tags := options.tags.getD []
          createdAt := isoText now
          lastAccessedAt := none
          accessCount := 0 }
      let others := vault.credentials.filter fun other row => row.id ≠ id ∧ other ≠ name
      let after := { vault with credentials := others.set name row }
      (after, after.getMetadata name)

/-- `cleanExpired`; the column is compared as a text. -/
def cleanExpired (vault : CredentialVault) (now : Int) : CredentialVault :=
  { vault with
    credentials := vault.credentials.filter fun _ row =>
      match row.expiresAt, sqlNow now with
      | some expiresAt, some now => ! textBefore ((toISOString expiresAt).getD []) now
      | _, _ => true }

/-- `retrieve`: `none` where the value cannot be decrypted, `some none` for `null`. -/
def retrieve (vault : CredentialVault) (name : String) (now : Int) :
    CredentialVault × Option (Option CredentialWithValue) :=
  let vault := vault.cleanExpired now
  match vault.credentials.get name with
  | none => (vault, some none)
  | some row =>
      if row.expiresAt.any fun expiresAt => expiresAt < now then (vault, some none)
      else
        let accessed :=
          { row with lastAccessedAt := some (isoText now), accessCount := row.accessCount + 1 }
        ({ vault with credentials := vault.credentials.set name accessed },
          (ciphers.decrypt row.encryptedValue row.nonce).map fun value =>
            some { toCredential := accessed.toCredential, value })

def remove (vault : CredentialVault) (name : String) : CredentialVault × Bool :=
  ({ vault with credentials := vault.credentials.delete name }, vault.credentials.has name)

/-- `list`; an empty category is none. -/
def list (vault : CredentialVault) (category : Option String) (now : Int) :
    CredentialVault × List Credential :=
  let vault := vault.cleanExpired now
  let rows := vault.credentials.values.filter fun row =>
    match category with
    | none => true
    | some category => category = "" ∨ row.category = category
  let newestFirst := rows.mergeSort fun row other =>
    ! textBefore row.createdAt.toList other.createdAt.toList
  (vault, newestFirst.map CredentialRow.toCredential)

/-! ## Revocation -/

def isRevoked (vault : CredentialVault) (name : String) : Bool := vault.revoked.has name

/-- `revoke`; the first mark of a name stays. -/
def revoke (vault : CredentialVault) (name reason : String) (now : Int) : CredentialVault × Bool :=
  if vault.credentials.has name then
    ({ vault with
        revoked :=
          if vault.revoked.has name then vault.revoked
          else vault.revoked.set name ⟨isoText now, reason⟩
        credentials := vault.credentials.delete name }, true)
  else (vault, false)

/-- The value for the action of `executeBrokered`, or why there is none. -/
def brokeredValue (vault : CredentialVault) (name : String) (now : Int) :
    CredentialVault × Option (Except String String) :=
  let (vault, credential) := vault.retrieve ciphers name now
  (vault, credential.map fun
    | none => .error ("Credential '" ++ name ++ "' nicht gefunden")
    | some credential =>
        if vault.isRevoked name then .error ("Credential '" ++ name ++ "' wurde revoziert")
        else .ok credential.value)

/-- `executeBrokered`; the action gives a result or the text of its error. -/
def executeBrokered (vault : CredentialVault) (name : String) (action : String → Except String String)
    (now : Int) : CredentialVault × Option BrokeredResult :=
  let (vault, value) := vault.brokeredValue ciphers name now
  (vault, value.map fun value =>
    match value.bind action with
    | .ok result => ⟨true, some result, none⟩
    | .error error => ⟨false, none, some error⟩)

/-! ## Requests of peers -/

def createApprovalRequest (vault : CredentialVault) (requester credentialName reason : String)
    (now : Int) (id : String) : CredentialVault :=
  { vault with
    approvals := vault.approvals ++
      [{ id, requester, credentialName, reason
         status := .pending
         requestedAt := isoText now
         decidedAt := none }] }

def approveRequest (vault : CredentialVault) (id : String) (now : Int) : CredentialVault :=
  { vault with
    approvals := vault.approvals.map fun request =>
      if request.id = id ∧ request.status = .pending then
        { request with status := .approved, decidedAt := some (isoText now) }
      else request }

structure SecretRequest where
  sender : String
  credentialName : String
  reason : String
  requesterPublicKey : String

structure SecretResponse where
  credentialName : String
  status : ApprovalStatus
  sealedValue : Option String
  reason : Option String
deriving DecidableEq

/-- The handler of `SECRET_REQUEST`, with the id and the bytes that are drawn; `none` where it
throws. -/
def secretRequest (vault : CredentialVault) (request : SecretRequest) (senderIsPaired : Bool)
    (now : Int) (id random : String) : CredentialVault × Option SecretResponse :=
  let name := request.credentialName
  let vault := vault.createApprovalRequest request.sender name request.reason now id
  match vault.retrieve ciphers name now with
  | (vault, none) => (vault, none)
  | (vault, some none) => (vault, some ⟨name, .denied, none, some "Credential not found"⟩)
  | (vault, some (some credential)) =>
      if senderIsPaired then
        (vault.approveRequest id now,
          (ciphers.box random credential.value request.requesterPublicKey).map fun sealedValue =>
            ⟨name, .approved, some sealedValue, none⟩)
      else (vault, some ⟨name, .pending, none, some "Awaiting human approval"⟩)

end CredentialVault

end ThinkLocal.Vault
