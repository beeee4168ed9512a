import NexaCore.Mesh.Credits

/-!
# Credits are conserved, and replicas agree where nobody forks

Both entry points check that payer and nonce are new, so one lemma (`Sound.record`) carries the
invariant through every call. What a replica holds is determined by the verified transactions it
has seen, if no two of them share payer and nonce.
-/

namespace NexaCore.Mesh.CreditLedger

open Function List Option

variable {Node Key Sig Digest : Type} [DecidableEq Node]
  {crypto : Crypto Node Key Sig Digest} {ledger : CreditLedger Node Key Sig Digest}
  {signed : SignedCreditTx Node Key Sig} {node : Node} {last : Nat}
  {entries seen : List (SignedCreditTx Node Key Sig)}

/-- The ledger with a recorded transaction and the payer's last nonce at `last`. -/
def record (crypto : Crypto Node Key Sig Digest) (ledger : CreditLedger Node Key Sig Digest)
    (signed : SignedCreditTx Node Key Sig) (last : Nat) : CreditLedger Node Key Sig Digest :=
  { ledger with lastNonce := update ledger.lastNonce signed.tx.payer (some last) }.applyEntry
    crypto signed

/-! ## One recorded transaction -/

theorem net_append :
    net node (entries ++ [signed]) = net node entries +
      ((if signed.tx.payee = node then (signed.tx.amount : Int) else 0) -
        if signed.tx.payer = node then (signed.tx.amount : Int) else 0) := by
  simp [net]

theorem balance_record :
    (ledger.record crypto signed last).balance node = ledger.balance node +
      ((if signed.tx.payee = node then (signed.tx.amount : Int) else 0) -
        if signed.tx.payer = node then (signed.tx.amount : Int) else 0) := by
  unfold record applyEntry balance
  by_cases payee : signed.tx.payee = node
  · by_cases payer : signed.tx.payer = node
    · simp [payee, payer]
    · simp [payee, payer, update_of_ne (Ne.symm payer)]
  · by_cases payer : signed.tx.payer = node
    · simp [payee, payer, update_of_ne (Ne.symm payee), sub_eq_add_neg]
    · simp [payee, payer, update_of_ne (Ne.symm payee), update_of_ne (Ne.symm payer)]

omit [DecidableEq Node] in
theorem isGreatest_append (own : signed.tx.payer = node) (above : signed.tx.nonce ≤ last)
    (reached : last = signed.tx.nonce ∨ IsGreatest (nonces node entries) last)
    (bound : ∀ e ∈ entries, e.tx.payer = node → e.tx.nonce ≤ last) :
    IsGreatest (nonces node (entries ++ [signed])) last := by
  refine ⟨?_, ?_⟩
  · rcases reached with rfl | ⟨⟨e, recorded, facts⟩, -⟩
    · exact ⟨signed, by simp, own, rfl⟩
    · exact ⟨e, mem_append_left _ recorded, facts⟩
  · rintro n ⟨e, recorded, payer, rfl⟩
    rcases mem_append.mp recorded with old | new
    · exact bound e old payer
    · rw [mem_singleton.mp new]
      exact above

theorem Sound.payer_ne (sound : ledger.Sound crypto)
    (unknown : ledger.lastNonce node = none) : ∀ e ∈ ledger.entries, e.tx.payer ≠ node := by
  intro e recorded payer
  have finite : (nonces node ledger.entries).Finite :=
    (ledger.entries.map (·.tx.nonce)).finite_toSet.subset <| by
      rintro n ⟨e, recorded, -, rfl⟩
      exact mem_map.mpr ⟨e, recorded, rfl⟩
  have used : (nonces node ledger.entries).Nonempty := ⟨_, e, recorded, payer, rfl⟩
  have greatest : IsGreatest (nonces node ledger.entries) (sSup (nonces node ledger.entries)) :=
    ⟨used.csSup_mem finite, fun _ member => le_csSup finite.bddAbove member⟩
  rw [(sound.last _ _).mpr greatest] at unknown
  cases unknown

theorem sum_net {nodes : Finset Node}
    (inside : ∀ e ∈ entries, e.tx.payer ∈ nodes ∧ e.tx.payee ∈ nodes) :
    ∑ node ∈ nodes, net node entries = 0 := by
  induction entries with
  | nil => simp [net]
  | cons e entries ih =>
    obtain ⟨⟨payer, payee⟩, rest⟩ := forall_mem_cons.mp inside
    have split : ∀ node, net node (e :: entries) =
        ((if e.tx.payee = node then (e.tx.amount : Int) else 0) -
          if e.tx.payer = node then (e.tx.amount : Int) else 0) + net node entries := fun _ => rfl
    simp [split, Finset.sum_add_distrib, Finset.sum_ite_eq, ih rest, payer, payee]

/-- Recording a verified transaction with a new payer and nonce keeps everything in step. -/
theorem Sound.record (sound : ledger.Sound crypto) (verified : signed.verify crypto = .ok ())
    (fresh : ∀ e ∈ ledger.entries, e.tx.payer = signed.tx.payer → e.tx.nonce ≠ signed.tx.nonce) :
    (ledger.record crypto signed
      ((ledger.lastNonce signed.tx.payer).elim signed.tx.nonce (max · signed.tx.nonce))).Sound
        crypto where
  balance node := by
    rw [balance_record, sound.balance node, ← net_append]
    rfl
  verified := forall_mem_append.mpr ⟨sound.verified, by simpa using verified⟩
  distinct := by
    refine map_append .. ▸ sound.distinct.append (nodup_singleton _) ?_
    rintro _ old new
    obtain ⟨e, recorded, rfl⟩ := mem_map.mp old
    obtain ⟨payer, nonce⟩ := Prod.mk.inj (mem_singleton.mp new)
    exact fresh e recorded payer nonce
  last node nonce := by
    change update ledger.lastNonce signed.tx.payer _ node = some nonce ↔
      IsGreatest (nonces node (ledger.entries ++ [signed])) nonce
    by_cases own : signed.tx.payer = node
    · subst own
      rw [update_self, some_inj]
      -- both sides name the one greatest nonce
      have greatest : IsGreatest (nonces signed.tx.payer (ledger.entries ++ [signed]))
          ((ledger.lastNonce signed.tx.payer).elim signed.tx.nonce (max · signed.tx.nonce)) := by
        cases known : ledger.lastNonce signed.tx.payer with
        | none =>
          exact isGreatest_append rfl le_rfl (.inl rfl) fun e recorded payer =>
            absurd payer (sound.payer_ne known e recorded)
        | some m =>
          have before := (sound.last _ m).mp known
          refine isGreatest_append rfl (le_max_right ..) ?_ fun e recorded payer =>
            (before.2 ⟨e, recorded, payer, rfl⟩).trans (le_max_left ..)
          rcases le_total m signed.tx.nonce with less | more
          · exact .inl (max_eq_right less)
          · rw [elim_some, max_eq_left more]
            exact .inr before
      exact ⟨fun same => same ▸ greatest, fun other => greatest.unique other⟩
    · rw [update_of_ne (Ne.symm own), sound.last]
      simp [nonces, own]
  digests node nonce d := by
    change update ledger.nonceDigest (signed.tx.payer, signed.tx.nonce) _ (node, nonce) =
      some d ↔ ∃ e ∈ ledger.entries ++ [signed], _
    by_cases own : (node, nonce) = (signed.tx.payer, signed.tx.nonce)
    · rw [own, update_self]
      obtain ⟨rfl, rfl⟩ := Prod.mk.inj own
      constructor
      · rintro ⟨⟩
        exact ⟨signed, by simp, rfl, rfl, rfl⟩
      · rintro ⟨e, recorded, payer, same, rfl⟩
        rcases mem_append.mp recorded with old | new
        · exact absurd same (fresh e old payer)
        · rw [mem_singleton.mp new]
    · rw [update_of_ne own, sound.digests]
      have other : ¬ (signed.tx.payer = node ∧ signed.tx.nonce = nonce) :=
        fun both => own (by rw [both.1, both.2])
      simp only [mem_append, mem_singleton]
      constructor
      · rintro ⟨e, recorded, facts⟩
        exact ⟨e, .inl recorded, facts⟩
      · rintro ⟨e, old | rfl, payer, same, facts⟩
        · exact ⟨e, old, payer, same, facts⟩
        · exact absurd ⟨payer, same⟩ other

/-! ## The calls -/

theorem sound_empty : ({} : CreditLedger Node Key Sig Digest).Sound crypto where
  balance _ := rfl
  verified _ recorded := by cases recorded
  distinct := nodup_nil
  last _ _ := by simp [IsGreatest, nonces]
  digests _ _ _ := by simp

theorem Sound.append (sound : ledger.Sound crypto) (signed : SignedCreditTx Node Key Sig) :
    (ledger.append crypto signed).2.Sound crypto := by
  unfold CreditLedger.append
  split
  · exact sound
  · rename_i verified
    dsimp only
    split
    · rename_i last known
      split
      · exact sound
      · rename_i newer
        have greatest := (sound.last _ last).mp known
        have recorded := sound.record verified fun e recorded payer same =>
          newer (same ▸ greatest.2 ⟨e, recorded, payer, rfl⟩)
        rw [known, elim_some, max_eq_right (Nat.le_of_not_le newer)] at recorded
        exact recorded
    · rename_i unknown
      have recorded := sound.record verified fun e recorded payer _ =>
        sound.payer_ne unknown e recorded payer
      rw [unknown] at recorded
      exact recorded

variable [DecidableEq Digest] (foreign : List (SignedCreditTx Node Key Sig))
  (batches : List (List (SignedCreditTx Node Key Sig)))

/-- What one foreign transaction does: nothing, or it is new and recorded. -/
theorem reconcileOne_cases (sound : ledger.Sound crypto) (report : ReconcileReport Node) :
    ((reconcileOne crypto (report, ledger) signed).2 = ledger ∧
      (signed.verify crypto = .ok () → ∃ e ∈ ledger.entries,
        e.tx.payer = signed.tx.payer ∧ e.tx.nonce = signed.tx.nonce)) ∨
    ((reconcileOne crypto (report, ledger) signed).2.Sound crypto ∧ signed.verify crypto = .ok () ∧
      (reconcileOne crypto (report, ledger) signed).2.entries = ledger.entries ++ [signed]) := by
  unfold reconcileOne
  dsimp only
  split
  · rename_i e invalid
    exact .inl ⟨rfl, fun valid => by rw [invalid] at valid; cases valid⟩
  · rename_i valid
    split
    · rename_i existing held
      obtain ⟨e, recorded, payer, nonce, -⟩ := (sound.digests ..).mp held
      refine .inl ⟨?_, fun _ => ⟨e, recorded, payer, nonce⟩⟩
      split <;> rfl
    · rename_i absent
      refine .inr ⟨sound.record valid fun e recorded payer same => ?_, valid, rfl⟩
      have held := (sound.digests signed.tx.payer signed.tx.nonce _).mpr
        ⟨e, recorded, payer, same, rfl⟩
      rw [absent] at held
      cases held

theorem Sound.reconcileOne (sound : ledger.Sound crypto) (report : ReconcileReport Node)
    (signed : SignedCreditTx Node Key Sig) :
    (reconcileOne crypto (report, ledger) signed).2.Sound crypto := by
  rcases reconcileOne_cases sound report with ⟨same, -⟩ | ⟨sound', -⟩
  · exact same.symm ▸ sound
  · exact sound'

theorem Sound.reconcile (sound : ledger.Sound crypto) :
    (ledger.reconcile crypto foreign).2.Sound crypto :=
  List.foldlRecOn foreign (CreditLedger.reconcileOne crypto)
    (motive := fun progress => progress.2.Sound crypto) sound
    fun progress sound signed _ => Sound.reconcileOne sound progress.1 signed

theorem total_reconcile : (ledger.reconcile crypto foreign).1.total = foreign.length := by
  have counted : ∀ progress : ReconcileReport Node × CreditLedger Node Key Sig Digest,
      (foreign.foldl (reconcileOne crypto) progress).1.total =
        progress.1.total + foreign.length := by
    induction foreign with
    | nil => intro progress; rfl
    | cons signed rest ih =>
      rintro ⟨report, ledger⟩
      have one : (reconcileOne crypto (report, ledger) signed).1.total = report.total + 1 := by
        unfold reconcileOne ReconcileReport.total
        dsimp only
        split
        · rfl
        · split
          · split
            · dsimp only; omega
            · simp only [length_append, length_singleton]; omega
          · dsimp only; omega
      rw [foldl_cons, ih, one, length_cons, Nat.add_assoc, Nat.add_comm 1]
  exact (counted ({}, ledger)).trans (Nat.zero_add _)

/-- After any calls: every balance is what its node received minus what it issued, the balances sum
to zero, the entries are verified and distinct in payer and nonce, each last nonce is the greatest,
and a batch reconciled next is counted completely. -/
theorem credits_conserved (crypto : Crypto Node Key Sig Digest) (calls : List (Call Node Key Sig)) :
    (run crypto calls).Sound crypto ∧
    (∀ nodes : Finset Node,
      (∀ e ∈ (run crypto calls).entries, e.tx.payer ∈ nodes ∧ e.tx.payee ∈ nodes) →
        ∑ node ∈ nodes, (run crypto calls).balance node = 0) ∧
    ∀ foreign, ((run crypto calls).reconcile crypto foreign).1.total = foreign.length := by
  have sound : (run crypto calls).Sound crypto :=
    foldlRecOn calls _ sound_empty fun ledger sound call _ => by
      cases call with
      | append signed => exact sound.append signed
      | reconcile foreign => exact sound.reconcile foreign
  refine ⟨sound, fun nodes inside => ?_, fun foreign => total_reconcile foreign⟩
  rw [Finset.sum_congr rfl fun node _ => sound.balance node]
  exact sum_net inside

/-! ## Replicas -/

/-- The ledger of a replica that has seen some transactions. -/
structure Holds (crypto : Crypto Node Key Sig Digest) (seen : List (SignedCreditTx Node Key Sig))
    (ledger : CreditLedger Node Key Sig Digest) : Prop where
  sound : ledger.Sound crypto
  from_seen : ∀ e ∈ ledger.entries, e ∈ seen
  covers : ∀ s ∈ seen, s.verify crypto = .ok () →
    ∃ e ∈ ledger.entries, e.tx.payer = s.tx.payer ∧ e.tx.nonce = s.tx.nonce

theorem Holds.reconcileOne (holds : ledger.Holds crypto seen) (report : ReconcileReport Node)
    (signed : SignedCreditTx Node Key Sig) :
    (reconcileOne crypto (report, ledger) signed).2.Holds crypto (seen ++ [signed]) ∧
      ledger.entries ⊆ (reconcileOne crypto (report, ledger) signed).2.entries := by
  rcases reconcileOne_cases holds.sound report with ⟨same, present⟩ | ⟨sound, valid, entries⟩
  · rw [same]
    refine ⟨⟨holds.sound, fun e recorded => mem_append_left _ (holds.from_seen e recorded), ?_⟩,
      fun _ => id⟩
    exact forall_mem_append.mpr ⟨holds.covers, by simpa using present⟩
  · refine ⟨⟨sound, ?_, ?_⟩, entries ▸ subset_append_left ..⟩
    · rw [entries]
      exact fun e recorded => (mem_append.mp recorded).elim
        (fun old => mem_append_left _ (holds.from_seen e old)) (mem_append_right _)
    · rw [entries]
      refine forall_mem_append.mpr ⟨fun s earlier checked => ?_, ?_⟩
      · obtain ⟨e, recorded, same⟩ := holds.covers s earlier checked
        exact ⟨e, mem_append_left _ recorded, same⟩
      · rintro s new -
        exact ⟨signed, by simp, by rw [mem_singleton.mp new], by rw [mem_singleton.mp new]⟩

theorem Holds.foldl {progress : ReconcileReport Node × CreditLedger Node Key Sig Digest}
    (holds : progress.2.Holds crypto seen) :
    (foreign.foldl (CreditLedger.reconcileOne crypto) progress).2.Holds crypto (seen ++ foreign) ∧
      progress.2.entries ⊆
        (foreign.foldl (CreditLedger.reconcileOne crypto) progress).2.entries := by
  induction foreign generalizing progress seen with
  | nil => exact ⟨by simpa using holds, fun _ => id⟩
  | cons signed rest ih =>
    obtain ⟨holds', kept⟩ := holds.reconcileOne progress.1 signed
    obtain ⟨final, later⟩ := ih holds'
    exact ⟨by simpa using final, List.Subset.trans kept later⟩

theorem Holds.foldl_reconcile (holds : ledger.Holds crypto seen) :
    (batches.foldl (fun ledger batch => (ledger.reconcile crypto batch).2) ledger).Holds crypto
      (seen ++ batches.flatten) ∧ ledger.entries ⊆
        (batches.foldl (fun ledger batch => (ledger.reconcile crypto batch).2) ledger).entries := by
  induction batches generalizing ledger seen with
  | nil => exact ⟨by simpa using holds, fun _ => id⟩
  | cons batch rest ih =>
    have next : (({}, ledger) : ReconcileReport Node × _).2.Holds crypto seen := holds
    obtain ⟨holds', kept⟩ := next.foldl batch
    obtain ⟨final, later⟩ := ih holds'
    rw [append_assoc] at final
    exact ⟨final, List.Subset.trans kept later⟩

theorem holds_replica (crypto : Crypto Node Key Sig Digest) :
    (replica crypto batches).Holds crypto batches.flatten :=
  (Holds.foldl_reconcile batches
    ⟨sound_empty, fun _ recorded => recorded, fun _ none => by cases none⟩).1

theorem mem_replica_first (valid : signed.verify crypto = .ok ()) :
    signed ∈ (replica crypto ([signed] :: batches)).entries := by
  have first := holds_replica [[signed]] crypto
  obtain ⟨e, recorded, -⟩ := first.covers signed (by simp) valid
  have only : e = signed := by simpa using first.from_seen e recorded
  exact (first.foldl_reconcile batches).2 (only ▸ recorded)

omit [DecidableEq Digest] in
/-- Where nobody forked, the entries are the valid transactions seen. -/
theorem Holds.mem_entries_iff (holds : ledger.Holds crypto seen)
    {issued : Finset (SignedCreditTx Node Key Sig)} (noFork : NoFork crypto issued)
    (all : ∀ s, s ∈ seen ↔ s ∈ issued) :
    signed ∈ ledger.entries ↔ signed ∈ issued ∧ signed.verify crypto = .ok () := by
  constructor
  · intro recorded
    exact ⟨(all _).mp (holds.from_seen _ recorded), holds.sound.verified _ recorded⟩
  · rintro ⟨member, valid⟩
    obtain ⟨e, recorded, payer, nonce⟩ := holds.covers _ ((all _).mpr member) valid
    rw [← noFork e ((all _).mp (holds.from_seen e recorded)) signed member
      (holds.sound.verified e recorded) valid payer nonce]
    exact recorded

omit [DecidableEq Digest] in
theorem Sound.agree {other : CreditLedger Node Key Sig Digest} (sound : ledger.Sound crypto)
    (sound' : other.Sound crypto)
    (same : ∀ signed, signed ∈ ledger.entries ↔ signed ∈ other.entries) : ledger.Agree other where
  entries := same
  balance node := by
    have perm := (perm_ext_iff_of_nodup sound.distinct.of_map sound'.distinct.of_map).mpr same
    rw [sound.balance, sound'.balance]
    exact (perm.map _).sum_eq
  lastNonce node := by
    have nonces : nonces node ledger.entries = nonces node other.entries := by
      simp only [nonces, same]
    exact ext fun nonce => (sound.last node nonce).trans
      (nonces ▸ (sound'.last node nonce).symm)

/-- Replicas that reconcile all of a set of transactions, in any order, batching and repetition,
agree exactly when no payer signed two different valid transactions with one nonce. -/
theorem replicas_agree_iff (crypto : Crypto Node Key Sig Digest)
    (issued : Finset (SignedCreditTx Node Key Sig)) :
    (∀ one other : List (List (SignedCreditTx Node Key Sig)),
      (∀ s, s ∈ one.flatten ↔ s ∈ issued) → (∀ s, s ∈ other.flatten ↔ s ∈ issued) →
        (replica crypto one).Agree (replica crypto other)) ↔ NoFork crypto issued := by
  constructor
  · intro agree one member other member' valid valid' payer nonce
    have all : ∀ first ∈ issued, ∀ s, s ∈ [[first], issued.toList].flatten ↔ s ∈ issued := by
      intro first inside s
      simp only [flatten_cons, flatten_nil, append_nil, singleton_append,
        mem_cons, Finset.mem_toList]
      exact ⟨fun either => either.elim (· ▸ inside) id, .inr⟩
    have agreed := agree _ _ (all one member) (all other member')
    have both := (agreed.entries one).mp (mem_replica_first _ valid)
    exact inj_on_of_nodup_map (holds_replica _ crypto).sound.distinct both
      (mem_replica_first _ valid') (by rw [payer, nonce])
  · intro noFork one other all all'
    refine (holds_replica one crypto).sound.agree (holds_replica other crypto).sound
      fun signed => ?_
    rw [(holds_replica one crypto).mem_entries_iff noFork all,
      (holds_replica other crypto).mem_entries_iff noFork all']

/-! ## A fork -/

/-- Checks that accept everything. -/
def trusting : Crypto Nat Nat Nat Nat := ⟨fun _ => true, id, fun _ _ _ => true, CreditTx.amount⟩

def paying (amount : Nat) : SignedCreditTx Nat Nat Nat := ⟨⟨0, 1, amount, 1, 0⟩, 0, 0⟩

/-- Each replica keeps the transaction that it saw first. -/
theorem forked_replicas_differ :
    ¬ (replica trusting [[paying 1, paying 2]]).Agree
      (replica trusting [[paying 2, paying 1]]) := by
  intro agree
  exact absurd ((agree.entries (paying 1)).mp (by decide)) (by decide)

/-! ## Gossip -/

/-- The ledger knows the nonce of the payer. -/
def Knows (ledger : CreditLedger Node Key Sig Digest) (key : Node × Nat) : Prop :=
  (ledger.nonceDigest key).isSome

variable {key : Node × Nat}

omit [DecidableEq Digest] in
theorem knows_applyEntry (known : ledger.Knows key ∨ key = (signed.tx.payer, signed.tx.nonce)) :
    (ledger.applyEntry crypto signed).Knows key := by
  simp only [Knows, applyEntry, update_apply]
  split
  · rfl
  · exact known.resolve_right ‹_›

theorem knows_reconcileOne (report : ReconcileReport Node) (known : ledger.Knows key ∨
      signed.verify crypto = .ok () ∧ key = (signed.tx.payer, signed.tx.nonce)) :
    (reconcileOne crypto (report, ledger) signed).2.Knows key := by
  unfold reconcileOne
  dsimp only
  split
  · rename_i invalid
    exact known.resolve_right fun valid => by cases invalid.symm.trans valid.1
  · split
    · rename_i existing found
      have held : ledger.Knows key :=
        known.elim id fun own => by rw [own.2, Knows, found]; rfl
      split <;> exact held
    · exact knows_applyEntry (known.imp_right And.right)

theorem knows_step (call : Call Node Key Sig) (known : ledger.Knows key) :
    (ledger.step crypto call).Knows key := by
  cases call with
  | append signed =>
    unfold step append
    dsimp only
    split
    · exact known
    · split
      · split
        · exact known
        · exact knows_applyEntry (.inl known)
      · exact knows_applyEntry (.inl known)
  | reconcile foreign =>
    exact foldlRecOn foreign (reconcileOne crypto) (b := ({}, ledger))
      (motive := fun p => p.2.Knows key) known fun p known _ _ =>
        knows_reconcileOne p.1 (.inl known)

/-- What was reconciled once is never applied again, whatever calls came in between. -/
theorem reconcile_again (crypto : Crypto Node Key Sig Digest)
    (earlier later : List (Call Node Key Sig)) {batch : List (SignedCreditTx Node Key Sig)}
    (again : foreign ⊆ batch) :
    let ledger := run crypto (earlier ++ .reconcile batch :: later)
    (ledger.reconcile crypto foreign).2 = ledger ∧
      (ledger.reconcile crypto foreign).1.applied = 0 := by
  intro ledger
  have known : ∀ signed ∈ batch, signed.verify crypto = .ok () →
      ledger.Knows (signed.tx.payer, signed.tx.nonce) := by
    intro signed mem valid
    obtain ⟨front, back, rfl⟩ := append_of_mem mem
    simp only [ledger, run, foldl_append, foldl_cons]
    refine foldlRecOn later _ (motive := fun l => Knows l _) ?_ fun _ known call _ =>
      knows_step call known
    simp only [step, reconcile, foldl_append, foldl_cons]
    exact foldlRecOn back (reconcileOne crypto) (motive := fun p => Knows p.2 _)
      (knows_reconcileOne _ (.inr ⟨valid, rfl⟩)) fun p known _ _ =>
        knows_reconcileOne p.1 (.inl known)
  refine foldlRecOn foreign (reconcileOne crypto) (b := ({}, ledger))
    (motive := fun p => p.2 = ledger ∧ p.1.applied = 0) ⟨rfl, rfl⟩ ?_
  rintro ⟨report, _⟩ ⟨rfl, none⟩ signed mem
  unfold reconcileOne
  dsimp only
  split
  · exact ⟨rfl, none⟩
  · rename_i valid
    obtain ⟨digest, found⟩ := isSome_iff_exists.mp (known signed (again mem) valid)
    rw [found]
    dsimp only
    split <;> exact ⟨rfl, none⟩

/-- A transaction of node 1. -/
def refunding : SignedCreditTx Nat Nat Nat := ⟨⟨1, 0, 3, 1, 0⟩, 1, 0⟩

/-- Two transactions are applied, and not again after a double spend was refused. -/
theorem reconcile_again_refunding :
    ((run trusting []).reconcile trusting [paying 1, refunding]).1.applied = 2 ∧
    ((run trusting [.reconcile [paying 1, refunding], .reconcile [paying 2]]).reconcile trusting
      [refunding, paying 1]).1.applied = 0 :=
  ⟨by decide, (reconcile_again [refunding, paying 1] trusting [] [.reconcile [paying 2]]
    (by simp)).2⟩

end NexaCore.Mesh.CreditLedger
