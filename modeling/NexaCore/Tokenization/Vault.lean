import Mathlib

/-!
# The token vault

The reversible tokenization vault of `nexacore-tokenization/src/vault.rs`. A string is the list of
its characters; the digest is a parameter from the hashed text to 32 bytes, and the backend's
sealing a pair of functions on the snapshot with the law of their round trip. A `HashMap` is an
association list in which the newest entry of a key comes first.
-/

namespace NexaCore.Tokenization

abbrev Text := List Char

/-- `EntityType` (`types.rs:60-79`). -/
inductive EntityType
  | personName
  | email
  | phone
  | ssn
  | creditCard
  | address
  | custom (id : Text)
  deriving DecidableEq

/-- `entity_type_slug` (`vault.rs:456-469`). -/
def EntityType.slug : EntityType → Text
  | .personName => ['N', 'A', 'M', 'E']
  | .email => ['E', 'M', 'A', 'I', 'L']
  | .phone => ['P', 'H', 'O', 'N', 'E']
  | .ssn => ['S', 'S', 'N']
  | .creditCard => ['C', 'C']
  | .address => ['A', 'D', 'D', 'R']
  | .custom _ => ['C', 'U', 'S', 'T', 'O', 'M']

/-- `entity_domain` (`vault.rs:479-484`). -/
def EntityType.domain : EntityType → Text
  | .custom id => ['C', 'U', 'S', 'T', 'O', 'M', ':'] ++ id
  | other => other.slug

/-- The text `<domain>:<pii>`: the cache key, and the input of the digest. -/
def cacheKey (pii : Text) (entityType : EntityType) : Text :=
  entityType.domain ++ ':' :: pii

abbrev Digest := Vector UInt8 32

def hexChars : Text :=
  ['0', '1', '2', '3', '4', '5', '6', '7', '8', '9', 'a', 'b', 'c', 'd', 'e', 'f']

def hexByte (b : UInt8) : Text :=
  [hexChars.getD (b >>> 4).toNat '0', hexChars.getD (b &&& 0x0F).toNat '0']

/-- The part of the digest a token shows: its first four bytes. -/
def Digest.shown (digest : Digest) : List UInt8 := digest.toList.take 4

/-- `derive_token` (`vault.rs:408-449`). -/
def deriveToken (blake3 : Text → Digest) (pii : Text) (entityType : EntityType) : Text :=
  let hex8 := (blake3 (cacheKey pii entityType)).shown.flatMap hexByte
  ['T', 'K', 'N', '-'] ++ entityType.slug ++ '-' :: hex8

/-- `TokenVault` (`vault.rs:108-116`) without its backend. -/
structure TokenVault where
  piiToToken : List (Text × Text) := []
  tokenToPii : List (Text × Text) := []
  deriving DecidableEq

inductive VaultError
  | tokenNotFound
  | wire
  | tee
  deriving DecidableEq

namespace TokenVault

/-- `TokenVault::tokenize` (`vault.rs:176-196`). -/
def tokenize (blake3 : Text → Digest) (vault : TokenVault) (pii : Text)
    (entityType : EntityType) : Text × TokenVault :=
  match vault.piiToToken.lookup (cacheKey pii entityType) with
  | some existing => (existing, vault)
  | none =>
    let token := deriveToken blake3 pii entityType
    (token,
      { piiToToken := (cacheKey pii entityType, token) :: vault.piiToToken
        tokenToPii := (token, pii) :: vault.tokenToPii })

/-- `TokenVault::detokenize` (`vault.rs:222-229`). -/
def detokenize (vault : TokenVault) (token : Text) : Except VaultError Text :=
  match vault.tokenToPii.lookup token with
  | some pii => .ok pii
  | none => .error .tokenNotFound

end TokenVault

/-- `VaultEntry` (`vault.rs:66-75`). -/
structure VaultEntry where
  token : Text
  pii : Text
  cacheKey : Text
  deriving DecidableEq

/-- The canonical encoding and the backend's sealing: what was sealed is what comes back. -/
structure Sealing (Blob : Type) where
  sealEntries : List VaultEntry → Except VaultError Blob
  unsealEntries : Blob → Except VaultError (List VaultEntry)
  faithful : ∀ entries blob, sealEntries entries = .ok blob → unsealEntries blob = .ok entries

namespace TokenVault

variable {Blob : Type}

/-- The snapshot `seal_vault` encodes (`vault.rs:267-284`). -/
def entries (vault : TokenVault) : List VaultEntry :=
  (vault.piiToToken.map fun (key, token) =>
    { token, pii := (vault.tokenToPii.lookup token).getD [], cacheKey := key }).mergeSort
      fun a b => decide (a.token ≤ b.token)

/-- `TokenVault::seal_vault` (`vault.rs:262-304`). -/
def sealVault (backend : Sealing Blob) (vault : TokenVault) : Except VaultError Blob :=
  backend.sealEntries vault.entries

/-- One round of the loop of `unseal_vault`. -/
def restoreEntry (vault : TokenVault) (entry : VaultEntry) : TokenVault :=
  { piiToToken := (entry.cacheKey, entry.token) :: vault.piiToToken
    tokenToPii := (entry.token, entry.pii) :: vault.tokenToPii }

/-- `TokenVault::unseal_vault` (`vault.rs:334-356`). -/
def unsealVault (backend : Sealing Blob) (blob : Blob) : Except VaultError TokenVault :=
  (backend.unsealEntries blob).map (List.foldl restoreEntry {})

end TokenVault

/-- What a holder of the vault does: tokenize a value, or seal the vault and go on with what
unsealing the blob gives. -/
inductive Call
  | tokenize (pii : Text) (entityType : EntityType)
  | reopen
  deriving DecidableEq

/-- The text a call has hashed. -/
def Call.hashed? : Call → Option Text
  | .tokenize pii entityType => some (cacheKey pii entityType)
  | .reopen => none

/-- The detector id of a custom category has no colon. -/
def Call.ColonFree : Call → Prop
  | .tokenize _ (.custom id) => ':' ∉ id
  | _ => True

/-- The digest tells the texts of the calls apart in the bytes a token shows. -/
def ShownInjective (blake3 : Text → Digest) (calls : List Call) : Prop :=
  ∀ one ∈ calls.filterMap Call.hashed?, ∀ other ∈ calls.filterMap Call.hashed?,
    (blake3 one).shown = (blake3 other).shown → one = other

/-- A token that was handed out, and what it was handed out for. -/
structure Answer where
  pii : Text
  entityType : EntityType
  token : Text
  deriving DecidableEq

/-- The vault with the record of every token it handed out. -/
structure Session where
  vault : TokenVault := {}
  answers : List Answer := []
  deriving DecidableEq

namespace Session

variable {Blob : Type}

/-- One call. Where sealing or unsealing fails the holder keeps the vault it has. -/
def step (blake3 : Text → Digest) (backend : Sealing Blob) (session : Session) :
    Call → Session
  | .tokenize pii entityType =>
    let (token, vault) := session.vault.tokenize blake3 pii entityType
    { vault, answers := ⟨pii, entityType, token⟩ :: session.answers }
  | .reopen =>
    match session.vault.sealVault backend >>= TokenVault.unsealVault backend with
    | .ok vault => { session with vault }
    | .error _ => session

def run (blake3 : Text → Digest) (backend : Sealing Blob) (calls : List Call) : Session :=
  calls.foldl (step blake3 backend) {}

/-- Every token handed out gives back its value, and two answers have the same token exactly
when they are for the same value and category. -/
def Reversible (session : Session) : Prop :=
  (∀ answer ∈ session.answers, session.vault.detokenize answer.token = .ok answer.pii) ∧
  ∀ one ∈ session.answers, ∀ other ∈ session.answers,
    one.token = other.token ↔ one.pii = other.pii ∧ one.entityType = other.entityType

instance (session : Session) : Decidable session.Reversible :=
  inferInstanceAs (Decidable (_ ∧ _))

end Session

end NexaCore.Tokenization
