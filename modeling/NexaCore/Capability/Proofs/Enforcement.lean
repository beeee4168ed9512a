import NexaCore.Capability.Token

/-!
# Enforcement decides exactly

`check_capability` accepts a token exactly when its signature, its window, the revocation
list and the token's absence from it are in order. Before it looks at the window it takes
its length, and this subtraction underflows at a decoded window that ends before it begins.
-/

namespace NexaCore.Capability

open CapabilityToken ValidityWindow SignedCrl Option Vector

variable {crypto : Crypto}

def CapabilityToken.Signed (crypto : Crypto) (token : CapabilityToken) : Prop :=
  ∃ bytes, crypto.encodePayload token.payload = some bytes ∧
    crypto.verify token.payload.issuer bytes token.signature = true

def SignedCrl.Signed (crypto : Crypto) (crl : SignedCrl) : Prop :=
  ∃ bytes, crypto.encodeCrlBody crl.body = some bytes ∧
    crypto.verify crl.body.issuer bytes crl.signature = true

variable {token : CapabilityToken}

theorem CapabilityToken.verifySignature_eq_ok :
    token.verifySignature crypto = .ok () ↔ token.Signed crypto := by
  unfold verifySignature CapabilityToken.Signed
  cases crypto.encodePayload token.payload with
  | none | some => simp

variable {crl : SignedCrl}

theorem SignedCrl.verify_eq_ok :
    crl.verify crypto = .ok () ↔ crl.body.version = crlFormatVersion ∧ crl.Signed crypto := by
  unfold verify SignedCrl.Signed
  by_cases version : crl.body.version = crlFormatVersion
  · cases crypto.encodeCrlBody crl.body with
    | none | some => simp [version]
  · simp [version]

theorem SignedCrl.isRevoked_eq_true {id : CapabilityId} :
    crl.isRevoked id = true ↔ id ∈ crl.body.revoked := by
  simp [isRevoked]

/-! ## The time to live -/

variable {notAfter : UInt64}

theorem ValidityWindow.notAfter_of_le {notBefore : UInt64} (order : notBefore ≤ notAfter) :
    (⟨notBefore, notAfter - notBefore⟩ : ValidityWindow).notAfter = some notAfter := by
  have length : (notAfter - notBefore).toNat = notAfter.toNat - notBefore.toNat :=
    UInt64.toNat_sub_of_le _ _ order
  have sum : notBefore.toNat + (notAfter - notBefore).toNat = notAfter.toNat := by
    rw [length]
    exact Nat.add_sub_cancel' (UInt64.le_iff_toNat_le.mp order)
  have fits := notAfter.toNat_lt
  unfold ValidityWindow.notAfter
  rw [if_pos (by simp only [sum]; exact fits), some_inj]
  apply UInt64.toNat_inj.mp
  rw [UInt64.toNat_add, sum, Nat.mod_eq_of_lt fits]

variable {now : UInt64}

theorem ValidityWindow.checkAt_eq_ok {w : ValidityWindow} (ends : w.notAfter = some notAfter) :
    w.checkAt now = .ok () ↔ w.issuedAt ≤ now ∧ now < notAfter := by
  unfold checkAt
  rw [ends]
  dsimp only
  by_cases early : now < w.issuedAt
  · simp [early, UInt64.not_le.mpr early]
  · by_cases late : now ≥ notAfter
    · simp [early, late, UInt64.not_lt.mpr late]
    · simp [early, late, UInt64.not_lt.mp early, UInt64.not_le.mp late]

theorem CapabilityToken.checkTtl_isSome :
    (token.checkTtl now).isSome ↔
      token.payload.scope.window.notBefore ≤ token.payload.scope.window.notAfter := by
  unfold checkTtl TimeWindow.durationSecs
  dsimp only
  split <;> simp_all

theorem CapabilityToken.checkTtl_eq_ok :
    token.checkTtl now = some (.ok ()) ↔ token.payload.scope.window.notBefore ≤ now ∧
      now < token.payload.scope.window.notAfter := by
  unfold checkTtl TimeWindow.durationSecs
  dsimp only
  by_cases order : token.payload.scope.window.notBefore ≤ token.payload.scope.window.notAfter
  · rw [if_pos order, map_some, some_inj]
    exact checkAt_eq_ok (notAfter_of_le order)
  · rw [if_neg order]
    refine iff_of_false (by simp) fun inside => order ?_
    exact UInt64.le_of_lt (UInt64.lt_of_le_of_lt inside.1 inside.2)

/-- What `verify_full` accepts, the TTL step accepts at the same instant. -/
theorem CapabilityToken.checkTtl_of_verifyFull {attestation : Option NodeId}
    {revocation : RevocationList}
    (accepted : token.verifyFull crypto now attestation revocation = some (.ok ())) :
    token.checkTtl now = some (.ok ()) := by
  unfold verifyFull at accepted
  split at accepted
  · cases accepted
  · obtain ⟨found, -, accepted⟩ := bind_eq_some_iff.mp accepted
    split at accepted
    · cases accepted
    · split at accepted
      · cases accepted
      · rename_i begun
        split at accepted
        · cases accepted
        · rename_i lasts
          exact checkTtl_eq_ok.mpr ⟨UInt64.not_lt.mp begun, UInt64.not_le.mp lasts⟩

/-! ## The decision -/

/-- All that has to be in order at an instant. -/
structure Valid (crypto : Crypto) (cap : CapabilityToken) (crl : SignedCrl) (now : UInt64) :
    Prop where
  signed : cap.Signed crypto
  begun : cap.payload.scope.window.notBefore ≤ now
  lasts : now < cap.payload.scope.window.notAfter
  version : crl.body.version = crlFormatVersion
  crlSigned : crl.Signed crypto
  fresh : now < crl.body.nextUpdate
  notRevoked : cap.payload.id ∉ crl.body.revoked

variable {cap : CapabilityToken}

theorem checkCrl_eq_ok :
    checkCrl crypto cap crl now = .ok () ↔
      (crl.body.version = crlFormatVersion ∧ crl.Signed crypto) ∧
      now < crl.body.nextUpdate ∧ cap.payload.id ∉ crl.body.revoked := by
  rw [← verify_eq_ok, ← isRevoked_eq_true]
  unfold checkCrl
  cases crl.verify crypto with
  | error e => simp
  | ok =>
    dsimp only
    by_cases stale : now ≥ crl.body.nextUpdate
    · simp [stale, UInt64.not_lt.mpr stale]
    · by_cases revoked : crl.isRevoked cap.payload.id = true
      · simp [stale, revoked]
      · simp [stale, revoked, UInt64.not_le.mp stale]

theorem valid_iff :
    Valid crypto cap crl now ↔ cap.verifySignature crypto = .ok () ∧
      cap.checkTtl now = some (.ok ()) ∧ checkCrl crypto cap crl now = .ok () := by
  rw [verifySignature_eq_ok, checkTtl_eq_ok, checkCrl_eq_ok]
  constructor
  · rintro ⟨signed, begun, lasts, version, crlSigned, fresh, notRevoked⟩
    exact ⟨signed, ⟨begun, lasts⟩, ⟨version, crlSigned⟩, fresh, notRevoked⟩
  · rintro ⟨signed, ⟨begun, lasts⟩, ⟨version, crlSigned⟩, fresh, notRevoked⟩
    exact ⟨signed, begun, lasts, version, crlSigned, fresh, notRevoked⟩

variable {clock : Option UInt64}

theorem checkCapability_eq_ok :
    checkCapability crypto cap crl clock = some (.ok ()) ↔
      ∃ now, clock = some now ∧ Valid crypto cap crl now := by
  simp only [valid_iff]
  unfold checkCapability
  cases cap.verifySignature crypto with
  | error e => simp
  | ok =>
    cases clock with
    | none => simp
    | some now =>
      simp only [some_inj, exists_eq_left', true_and]
      cases ttl : cap.checkTtl now with
      | none => simp
      | some result =>
        cases result with
        | error | ok => simp

/-- The subtraction underflows at a window that is not in order, once the signature has been
verified and the clock read. -/
theorem checkCapability_isSome :
    (checkCapability crypto cap crl clock).isSome ↔
      ¬(cap.Signed crypto ∧ clock.isSome ∧
        cap.payload.scope.window.notAfter < cap.payload.scope.window.notBefore) := by
  rw [← verifySignature_eq_ok, ← UInt64.not_le]
  unfold checkCapability
  cases cap.verifySignature crypto with
  | error e => simp
  | ok =>
    cases clock with
    | none => simp
    | some now => simp [checkTtl_isSome]

/-- What `check_capability` should do at a token, a list and a reading of the clock: return,
accept exactly what is valid, and agree with `verify_full` on the time. -/
structure Decides (crypto : Crypto) (cap : CapabilityToken) (crl : SignedCrl)
    (clock : Option UInt64) : Prop where
  returns : (checkCapability crypto cap crl clock).isSome
  exact : checkCapability crypto cap crl clock = some (.ok ()) ↔
    ∃ now, clock = some now ∧ Valid crypto cap crl now
  agrees : ∀ now attestation revocation, revocation.isEmpty = true →
    cap.verifyFull crypto now attestation revocation = some (.ok ()) →
      cap.checkTtl now = some (.ok ())

/-- It does so exactly where no verified token with a window out of order meets a working
clock. -/
theorem checkCapability_decides_iff (crypto : Crypto) (cap : CapabilityToken) (crl : SignedCrl)
    (clock : Option UInt64) :
    Decides crypto cap crl clock ↔
      ¬(cap.Signed crypto ∧ clock.isSome ∧
        cap.payload.scope.window.notAfter < cap.payload.scope.window.notBefore) := by
  constructor
  · intro decides
    exact checkCapability_isSome.mp decides.returns
  · intro inOrder
    refine ⟨checkCapability_isSome.mpr inOrder, checkCapability_eq_ok, ?_⟩
    intro now attestation revocation _ accepted
    exact checkTtl_of_verifyFull accepted

/-! ## A window that ends before it begins -/

/-- Every encoding succeeds and every signature verifies. -/
def acceptAll : Crypto where
  encodePayload _ := some []
  encodeCrlBody _ := some []
  verify _ _ _ := true
  hash _ _ := replicate 32 0

def invertedToken : CapabilityToken where
  payload :=
    { id := ⟨replicate 16 1⟩, subject := ⟨replicate 32 2⟩
      issuer := replicate 32 3, parent := none
      scope := ⟨.read, .any, ⟨200, 100⟩, []⟩ }
  signature := replicate 64 4

def emptyCrl : SignedCrl where
  body := ⟨crlFormatVersion, replicate 32 3, 0, 1000, []⟩
  signature := replicate 64 4

theorem invertedToken_underflows :
    checkCapability acceptAll invertedToken emptyCrl (some 150) = none ∧
      ¬Decides acceptAll invertedToken emptyCrl (some 150) := by
  have underflow : checkCapability acceptAll invertedToken emptyCrl (some 150) = none := by
    decide +kernel
  refine ⟨underflow, fun decides => ?_⟩
  have returns := decides.returns
  rw [underflow] at returns
  cases returns

end NexaCore.Capability
