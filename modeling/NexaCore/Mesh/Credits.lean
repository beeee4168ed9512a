import Mathlib

/-!
# The compute-credit ledger

`nexacore-mesh/src/credits.rs`. Node ids, keys, signatures and digests are parameters, and so are
the checks on them. A `HashMap` is the function from a key to the value it holds.
-/

namespace NexaCore.Mesh

open Function

/-- `CreditTx` (`credits.rs:57-68`): `from` is the payer, `to` the payee. -/
structure CreditTx (Node : Type) where
  payer : Node
  payee : Node
  amount : Nat
  nonce : Nat
  timestamp : Nat
  deriving DecidableEq

/-- `SignedCreditTx` (`credits.rs:146-150`). -/
structure SignedCreditTx (Node Key Sig : Type) where
  tx : CreditTx Node
  signerKey : Key
  signature : Sig
  deriving DecidableEq

/-- `CreditError` (`credits.rs:128-141`). -/
inductive CreditError
  | invalidKey
  | idMismatch
  | badSignature
  deriving DecidableEq

structure Crypto (Node Key Sig Digest : Type) where
  validKey : Key → Bool
  fromKeyMaterial : Key → Node
  checkSignature : Key → CreditTx Node → Sig → Bool
  digest : CreditTx Node → Digest

/-- `LedgerError` (`credits.rs:190-205`). -/
inductive LedgerError
  | invalid (e : CreditError)
  | staleNonce (expectedMin got : Nat)
  deriving DecidableEq

/-- `ReconcileReport` (`credits.rs:220-229`); a double-spend is its payer and nonce. -/
structure ReconcileReport (Node : Type) where
  applied : Nat := 0
  duplicates : Nat := 0
  doubleSpends : List (Node × Nat) := []
  rejected : Nat := 0

/-- The transactions a report counts. -/
def ReconcileReport.total {Node : Type} (report : ReconcileReport Node) : Nat :=
  report.applied + report.duplicates + report.doubleSpends.length + report.rejected

/-- `CreditLedger` (`credits.rs:242-249`). -/
structure CreditLedger (Node Key Sig Digest : Type) where
  entries : List (SignedCreditTx Node Key Sig) := []
  lastNonce : Node → Option Nat := fun _ => none
  balances : Node → Option Int := fun _ => none
  nonceDigest : Node × Nat → Option Digest := fun _ => none

section Ledger

variable {Node Key Sig Digest : Type} [DecidableEq Node] (crypto : Crypto Node Key Sig Digest)

/-- `SignedCreditTx::verify` (`credits.rs:178-187`). -/
def SignedCreditTx.verify (signed : SignedCreditTx Node Key Sig) : Except CreditError Unit :=
  if crypto.validKey signed.signerKey = false then .error .invalidKey
  else if signed.tx.payer ≠ crypto.fromKeyMaterial signed.signerKey then .error .idMismatch
  else if crypto.checkSignature signed.signerKey signed.tx signed.signature then .ok ()
  else .error .badSignature

namespace CreditLedger

variable (ledger : CreditLedger Node Key Sig Digest)

/-- `CreditLedger::balance` (`credits.rs:358-361`). -/
def balance (node : Node) : Int := (ledger.balances node).getD 0

/-- `CreditLedger::apply_entry` (`credits.rs:284-291`). -/
def applyEntry (signed : SignedCreditTx Node Key Sig) : CreditLedger Node Key Sig Digest :=
  let tx := signed.tx
  let debited := update ledger.balances tx.payer (some (ledger.balance tx.payer - tx.amount))
  { ledger with
    balances := update debited tx.payee (some ((debited tx.payee).getD 0 + tx.amount))
    nonceDigest := update ledger.nonceDigest (tx.payer, tx.nonce) (some (crypto.digest tx))
    entries := ledger.entries ++ [signed] }

/-- `CreditLedger::append` (`credits.rs:265-280`). -/
def append (signed : SignedCreditTx Node Key Sig) :
    Except LedgerError Unit × CreditLedger Node Key Sig Digest :=
  match signed.verify crypto with
  | .error e => (.error (.invalid e), ledger)
  | .ok () =>
    let accept := { ledger with
      lastNonce := update ledger.lastNonce signed.tx.payer (some signed.tx.nonce) }
    match ledger.lastNonce signed.tx.payer with
    | some last =>
      if signed.tx.nonce ≤ last then
        (.error (.staleNonce (min (last + 1) (2 ^ 64 - 1)) signed.tx.nonce), ledger)
      else (.ok (), accept.applyEntry crypto signed)
    | none => (.ok (), accept.applyEntry crypto signed)

/-- What a node received minus what it issued, over some entries. -/
def net (node : Node) (entries : List (SignedCreditTx Node Key Sig)) : Int :=
  (entries.map fun e => (if e.tx.payee = node then (e.tx.amount : Int) else 0) -
    if e.tx.payer = node then (e.tx.amount : Int) else 0).sum

def nonces (node : Node) (entries : List (SignedCreditTx Node Key Sig)) : Set Nat :=
  {n | ∃ e ∈ entries, e.tx.payer = node ∧ e.tx.nonce = n}

/-- The maps and the list of entries agree. -/
structure Sound : Prop where
  balance : ∀ node, ledger.balance node = net node ledger.entries
  verified : ∀ e ∈ ledger.entries, e.verify crypto = .ok ()
  distinct : (ledger.entries.map fun e => (e.tx.payer, e.tx.nonce)).Nodup
  last : ∀ node nonce, ledger.lastNonce node = some nonce ↔
    IsGreatest (nonces node ledger.entries) nonce
  digests : ∀ node nonce d, ledger.nonceDigest (node, nonce) = some d ↔
    ∃ e ∈ ledger.entries, e.tx.payer = node ∧ e.tx.nonce = nonce ∧ crypto.digest e.tx = d

variable [DecidableEq Digest]

/-- One round of the loop of `reconcile` (`credits.rs:311-334`). -/
def reconcileOne (progress : ReconcileReport Node × CreditLedger Node Key Sig Digest)
    (signed : SignedCreditTx Node Key Sig) :
    ReconcileReport Node × CreditLedger Node Key Sig Digest :=
  let (report, ledger) := progress
  match signed.verify crypto with
  | .error _ => ({ report with rejected := report.rejected + 1 }, ledger)
  | .ok () =>
    match ledger.nonceDigest (signed.tx.payer, signed.tx.nonce) with
    | some existing =>
      if existing = crypto.digest signed.tx then
        ({ report with duplicates := report.duplicates + 1 }, ledger)
      else
        ({ report with
          doubleSpends := report.doubleSpends ++ [(signed.tx.payer, signed.tx.nonce)] }, ledger)
    | none =>
      let newLast := (ledger.lastNonce signed.tx.payer).elim signed.tx.nonce (max · signed.tx.nonce)
      ({ report with applied := report.applied + 1 },
        { ledger with
          lastNonce := update ledger.lastNonce signed.tx.payer (some newLast) }.applyEntry
            crypto signed)

/-- `CreditLedger::reconcile` (`credits.rs:308-336`). -/
def reconcile (foreign : List (SignedCreditTx Node Key Sig)) :
    ReconcileReport Node × CreditLedger Node Key Sig Digest :=
  foreign.foldl (reconcileOne crypto) ({}, ledger)

inductive Call (Node Key Sig : Type)
  | append (signed : SignedCreditTx Node Key Sig)
  | reconcile (foreign : List (SignedCreditTx Node Key Sig))

def step : Call Node Key Sig → CreditLedger Node Key Sig Digest
  | .append signed => (ledger.append crypto signed).2
  | .reconcile foreign => (ledger.reconcile crypto foreign).2

def run (calls : List (Call Node Key Sig)) : CreditLedger Node Key Sig Digest :=
  calls.foldl (fun ledger call => ledger.step crypto call) {}

/-- A replica that starts empty and reconciles the batches one after the other. -/
def replica (batches : List (List (SignedCreditTx Node Key Sig))) :
    CreditLedger Node Key Sig Digest :=
  batches.foldl (fun ledger batch => (ledger.reconcile crypto batch).2) {}

/-- The same set of entries, the same balances and the same last nonces. -/
structure Agree (one other : CreditLedger Node Key Sig Digest) : Prop where
  entries : ∀ signed, signed ∈ one.entries ↔ signed ∈ other.entries
  balance : ∀ node, one.balance node = other.balance node
  lastNonce : ∀ node, one.lastNonce node = other.lastNonce node

/-- No payer signed two different valid transactions with one nonce. -/
def NoFork (crypto : Crypto Node Key Sig Digest) (issued : Finset (SignedCreditTx Node Key Sig)) :
    Prop :=
  ∀ one ∈ issued, ∀ other ∈ issued, one.verify crypto = .ok () → other.verify crypto = .ok () →
    one.tx.payer = other.tx.payer → one.tx.nonce = other.tx.nonce → one = other

end CreditLedger

end Ledger

end NexaCore.Mesh
