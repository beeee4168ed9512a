import NexaCore.Capability.Scope
import NexaCore.Misc.Checked

/-!
# Capability tokens

Embedding of the tokens (`nexacore-capability/src/token.rs`), of attenuation
(`attenuation.rs`), of the revocation lists (`revocation.rs`, `crl.rs`) and of enforcement
(`ttl.rs`, `enforcement.rs`). Canonical encoding, signatures and hashes are arbitrary
functions, `Crypto`.
-/

namespace NexaCore.Capability

open Misc

/-- `CapabilityErrorKind` (`nexacore-types/src/error.rs:89-106`). -/
inductive CapabilityErrorKind where
  | expired
  | notYetValid
  | invalidSignature
  | scopeViolation
  | attenuationViolation
  | attestationMismatch
  | revoked
  | malformedToken
  deriving DecidableEq, Repr

/-- `NexaCoreError::Capability`: the kind and the place of an error. -/
structure CapabilityError where
  kind : CapabilityErrorKind
  context : String
  deriving DecidableEq, Repr

abbrev Result (α : Type) := Except CapabilityError α

/-- `NexaCoreVerifyingKey`. -/
abbrev VerifyingKey := Vector UInt8 32

/-- `NexaCoreSignature`. -/
abbrev Signature := Vector UInt8 64

/-- `TokenPayload` (`token.rs:44-68`). -/
structure TokenPayload where
  id : CapabilityId
  subject : NodeId
  issuer : VerifyingKey
  parent : Option CapabilityId
  scope : Scope
  deriving DecidableEq, Repr

/-- `CapabilityToken` (`token.rs:100-105`). -/
structure CapabilityToken where
  payload : TokenPayload
  signature : Signature
  deriving DecidableEq, Repr

/-- `CRL_FORMAT_VERSION` (`crl.rs:51`). -/
def crlFormatVersion : UInt32 := 1

/-- `CrlBody` (`crl.rs:61-82`). -/
structure CrlBody where
  version : UInt32
  issuer : VerifyingKey
  issuedAt : UInt64
  nextUpdate : UInt64
  revoked : List CapabilityId
  deriving DecidableEq, Repr

/-- `SignedCrl` (`crl.rs:116-121`). -/
structure SignedCrl where
  body : CrlBody
  signature : Signature
  deriving DecidableEq, Repr

/-- The canonical encodings (`wire::encode_canonical`, which can fail), the verification of
signatures and `domain_separated_hash`. -/
structure Crypto where
  encodePayload : TokenPayload → Option (List UInt8)
  encodeCrlBody : CrlBody → Option (List UInt8)
  verify : VerifyingKey → List UInt8 → Signature → Bool
  hash : String → List UInt8 → Vector UInt8 32

variable (crypto : Crypto)

/-! ## Attenuation -/

/-- The window after the bound of a caveat was applied (`attenuation.rs:53-74`). -/
def TimeWindow.tighten (w : TimeWindow) : Caveat → TimeWindow
  | .expiresAt t => if t < w.notAfter then { w with notAfter := t } else w
  | .notBefore t => if t > w.notBefore then { w with notBefore := t } else w
  | .boundToNode _ | .boundToSession _ | .custom _ _ => w

/-- The scope with a caveat recorded, unless it was already (`attenuation.rs:88-92`). -/
def Scope.record (scope : Scope) (caveat : Caveat) : Scope :=
  if !scope.caveats.contains caveat then { scope with caveats := scope.caveats ++ [caveat] }
  else scope

/-- `apply_caveat` (`attenuation.rs:51-103`). -/
def applyCaveat (scope : Scope) (caveat : Caveat) : Result Scope :=
  let child := { scope with window := scope.window.tighten caveat }
  if child.window.notBefore > child.window.notAfter then
    .error ⟨.attenuationViolation, "attenuation::apply_caveat::window_inverted"⟩
  else
    let child := child.record caveat
    if !child.isSubsetOf scope then
      .error ⟨.attenuationViolation, "attenuation::apply_caveat::invariant_broken"⟩
    else .ok child

/-- `apply_caveats` (`attenuation.rs:111-117`). -/
def applyCaveats (scope : Scope) (caveats : List Caveat) : Result Scope :=
  caveats.foldlM applyCaveat scope

/-- `verify_chain_link` (`attenuation.rs:199-213`). -/
def verifyChainLink (parent child : CapabilityToken) : Result Unit :=
  if child.payload.parent ≠ some parent.payload.id then
    .error ⟨.attenuationViolation, "attenuation::verify_chain_link::parent_id_mismatch"⟩
  else if !child.payload.scope.isSubsetOf parent.payload.scope then
    .error ⟨.attenuationViolation, "attenuation::verify_chain_link::scope_not_subset"⟩
  else .ok ()

/-! ## Signatures -/

/-- `CapabilityToken::verify_signature` (`token.rs:167-181`) with `canonical_bytes`. -/
def CapabilityToken.verifySignature (token : CapabilityToken) : Result Unit :=
  match crypto.encodePayload token.payload with
  | none => .error ⟨.malformedToken, "token::canonical_bytes::encode"⟩
  | some bytes =>
      if crypto.verify token.payload.issuer bytes token.signature then .ok ()
      else .error ⟨.invalidSignature, "token::verify_signature"⟩

/-- `SignedCrl::verify` (`crl.rs:165-182`). -/
def SignedCrl.verify (crl : SignedCrl) : Result Unit :=
  if crl.body.version ≠ crlFormatVersion then
    .error ⟨.malformedToken, "crl::verify::unsupported_version"⟩
  else
    match crypto.encodeCrlBody crl.body with
    | none => .error ⟨.malformedToken, "crl::canonical_bytes::encode"⟩
    | some bytes =>
        if crypto.verify crl.body.issuer bytes crl.signature then .ok ()
        else .error ⟨.invalidSignature, "crl::verify::signature"⟩

/-- `is_revoked` (`crl.rs:102-104`, `222-224`). -/
def SignedCrl.isRevoked (crl : SignedCrl) (id : CapabilityId) : Bool :=
  crl.body.revoked.any (· == id)

/-! ## The revocation list -/

/-- `MicroBloom` (`revocation.rs:47-54`). -/
structure MicroBloom where
  bits : List UInt8
  numBits : Nat
  numHashes : Nat
  deriving DecidableEq, Repr

namespace MicroBloom

/-- The first eight bytes of a hash, the lowest first. -/
def firstWord (digest : Vector UInt8 32) : Nat :=
  (digest.toList.take 8).foldr (fun byte rest => byte.toNat + 256 * rest) 0

/-- `base_hashes` (`revocation.rs:84-90`). -/
def baseHashes (item : List UInt8) : Nat × Nat :=
  (firstWord (crypto.hash "nexacore-capability::bloom::h0" item),
    firstWord (crypto.hash "nexacore-capability::bloom::h1" item))

/-- `indices` (`revocation.rs:93-107`), those in use. -/
def indices (bloom : MicroBloom) (item : List UInt8) : List Nat :=
  let (h0, h1) := baseHashes crypto item
  (List.range bloom.numHashes).map fun i => (h0 + i * h1) % 2 ^ 64 % bloom.numBits

/-- `MicroBloom::new` (`revocation.rs:65-80`), whose two sizes are computed with overflow checks. -/
def new (expected : Nat) : Checked MicroBloom := do
  let bits ← mulU64 (max expected 8) 10
  let numBits ← addU64 bits ((8 - bits % 8) % 8)
  return ⟨List.replicate (numBits / 8) 0, numBits, 7⟩

/-- One turn of the loop of `insert`: sets the bit `idx`. -/
def setBit (bits : List UInt8) (idx : Nat) : Checked (List UInt8) :=
  bits[idx / 8]?.map fun byte => bits.set (idx / 8) (byte ||| 1 <<< UInt8.ofNat (idx % 8))

/-- `insert` (`revocation.rs:110-123`). -/
def insert (bloom : MicroBloom) (item : List UInt8) : Checked MicroBloom := do
  let bits ← (bloom.indices crypto item).foldlM setBit bloom.bits
  return { bloom with bits }

/-- `might_contain` (`revocation.rs:127-140`). -/
def mightContain (bloom : MicroBloom) (item : List UInt8) : Checked Bool :=
  (bloom.indices crypto item).foldlM (fun found idx =>
    if !found then some false
    else bloom.bits[idx / 8]?.map fun byte => byte.toBitVec.getLsbD (idx % 8)) true

end MicroBloom

/-- `RevocationList` (`revocation.rs:153-156`); the authoritative set is a list. -/
structure RevocationList where
  bloom : MicroBloom
  full : List CapabilityId

namespace RevocationList

/-- `with_expected_capacity` (`revocation.rs:177-182`). -/
def withExpectedCapacity (expected : Nat) : Checked RevocationList := do
  return ⟨← MicroBloom.new expected, []⟩

/-- `revoke` (`revocation.rs:187-190`). -/
def revoke (list : RevocationList) (id : CapabilityId) : Checked RevocationList := do
  return ⟨← list.bloom.insert crypto id.uuid.toList, list.full.insert id⟩

/-- `contains` (`revocation.rs:197-203`). -/
def contains (list : RevocationList) (id : CapabilityId) : Checked Bool :=
  (list.bloom.mightContain crypto id.uuid.toList).map fun found => found && list.full.contains id

/-- `is_empty` (`revocation.rs:213-215`). -/
def isEmpty (list : RevocationList) : Bool := list.full.isEmpty

end RevocationList

/-! ## Enforcement -/

/-- `ValidityWindow` (`ttl.rs:37-44`). -/
structure ValidityWindow where
  issuedAt : UInt64
  ttlSecs : UInt64
  deriving DecidableEq, Repr

namespace ValidityWindow

/-- `not_after` (`ttl.rs:60-62`). -/
def notAfter (w : ValidityWindow) : Option UInt64 :=
  if w.issuedAt.toNat + w.ttlSecs.toNat < 2 ^ 64 then some (w.issuedAt + w.ttlSecs) else none

/-- `check_at` (`ttl.rs:85-105`). -/
def checkAt (w : ValidityWindow) (now : UInt64) : Result Unit :=
  match w.notAfter with
  | none => .error ⟨.malformedToken, "ttl::check_at::overflow"⟩
  | some notAfter =>
      if now < w.issuedAt then .error ⟨.notYetValid, "ttl::check_at::not_before"⟩
      else if now ≥ notAfter then .error ⟨.expired, "ttl::check_at::expired"⟩
      else .ok ()

end ValidityWindow

/-- The TTL step of `check_capability` (`enforcement.rs:91-92`). -/
def CapabilityToken.checkTtl (token : CapabilityToken) (now : UInt64) : Checked (Result Unit) :=
  let window := token.payload.scope.window
  window.durationSecs.map fun secs => (⟨window.notBefore, secs⟩ : ValidityWindow).checkAt now

/-- `verify_full` (`token.rs:191-239`); `attestation` is what `current_node_id` gives. -/
def CapabilityToken.verifyFull (token : CapabilityToken) (now : UInt64)
    (attestation : Option NodeId) (revocation : RevocationList) : Checked (Result Unit) :=
  match token.verifySignature crypto with
  | .error e => some (.error e)
  | .ok () => do
      if ← revocation.contains crypto token.payload.id then
        return .error ⟨.revoked, "token::verify_full::revocation"⟩
      else if now < token.payload.scope.window.notBefore then
        return .error ⟨.notYetValid, "token::verify_full::not_before"⟩
      else if now ≥ token.payload.scope.window.notAfter then
        return .error ⟨.expired, "token::verify_full::not_after"⟩
      else
        match attestation with
        | none => return .error ⟨.attestationMismatch,
          "token::verify_full::attestation_unavailable"⟩
        | some localNode =>
            if localNode ≠ token.payload.subject then
              return .error ⟨.attestationMismatch, "token::verify_full::subject_mismatch"⟩
            else return .ok ()

/-- The steps of `check_capability` on the revocation list (`enforcement.rs:94-116`). -/
def checkCrl (cap : CapabilityToken) (crl : SignedCrl) (now : UInt64) : Result Unit :=
  match crl.verify crypto with
  | .error e => .error e
  | .ok () =>
      if now ≥ crl.body.nextUpdate then
        .error ⟨.expired, "enforcement::check_capability::crl_stale"⟩
      else if crl.isRevoked cap.payload.id then
        .error ⟨.revoked, "enforcement::check_capability::revoked"⟩
      else .ok ()

/-- `check_capability` (`enforcement.rs:72-117`); `clock` is the reading of the clock. -/
def checkCapability (cap : CapabilityToken) (crl : SignedCrl) (clock : Option UInt64) :
    Checked (Result Unit) :=
  match cap.verifySignature crypto with
  | .error e => some (.error e)
  | .ok () =>
      match clock with
      | none =>
          some (.error ⟨.expired, "enforcement::check_capability::clock_unavailable"⟩)
      | some now =>
          (cap.checkTtl now).map fun ttl =>
            match ttl with
            | .error e => .error e
            | .ok () => checkCrl crypto cap crl now

end NexaCore.Capability
