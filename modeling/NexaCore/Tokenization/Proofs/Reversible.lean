import NexaCore.Tokenization.Vault

/-!
# Tokens are reversible and category-separated

Where no detector id contains the colon that delimits it, the text hashed for a call determines
the call's value and category, so a token belongs to one answer only. The two maps then agree with
the record of answers after every call.
-/

namespace NexaCore.Tokenization

open List EntityType TokenVault

variable {entityType : EntityType} {pii : Text}

/-! ## What a token determines -/

def unhexByte (digits : Text) : Nat :=
  16 * hexChars.idxOf (digits.getD 0 '0') + hexChars.idxOf (digits.getD 1 '0')

theorem unhexByte_hexByte (b : UInt8) : unhexByte (hexByte b) = b.toNat := by
  have digits : ∀ n < 256, unhexByte (hexByte (UInt8.ofNat n)) = n := by decide +kernel
  simpa using digits b.toNat b.toNat_lt

theorem flatMap_hexByte_injective : ∀ {bytes bytes' : List UInt8},
    bytes.flatMap hexByte = bytes'.flatMap hexByte → bytes = bytes'
  | [], [], _ => rfl
  | [], _ :: _, same => by simp [hexByte] at same
  | _ :: _, [], same => by simp [hexByte] at same
  | a :: bytes, b :: bytes', same => by
    rw [flatMap_cons, flatMap_cons] at same
    obtain ⟨first, rest⟩ := append_inj same rfl
    have head : a.toNat = b.toNat := by rw [← unhexByte_hexByte a, first, unhexByte_hexByte]
    rw [UInt8.toNat_inj.mp head, flatMap_hexByte_injective rest]

theorem length_hex8 (digest : Digest) : (digest.shown.flatMap hexByte).length = 8 := by
  have bytes : digest.shown.length = 4 := by simp [Digest.shown]
  have width : ∀ b : UInt8, (hexByte b).length = 2 := fun _ => rfl
  simp [length_flatMap, width, bytes]

/-- A token shows the first four bytes of the digest it was derived from. -/
theorem shown_of_deriveToken {blake3 : Text → Digest} {pii' : Text}
    {entityType' : EntityType}
    (same : deriveToken blake3 pii entityType = deriveToken blake3 pii' entityType') :
    (blake3 (cacheKey pii entityType)).shown = (blake3 (cacheKey pii' entityType')).shown := by
  obtain ⟨-, tails⟩ := append_inj' same (by simp only [length_cons, length_hex8])
  exact flatMap_hexByte_injective (cons_eq_cons.mp tails).2

/-! ## What the hashed text determines -/

theorem append_colon_inj {word word' rest rest' : Text} (clean : ':' ∉ word) (clean' : ':' ∉ word')
    (same : word ++ ':' :: rest = word' ++ ':' :: rest') : word = word' ∧ rest = rest' := by
  have read : ∀ {word : Text} (rest : Text), ':' ∉ word →
      (word ++ ':' :: rest).takeWhile (· ≠ ':') = word := by
    intro word rest clean
    rw [takeWhile_append_of_pos]
    · simp
    · exact fun c mem => decide_eq_true fun colon => clean (colon ▸ mem)
  obtain rfl : word = word' := by rw [← read rest clean, same, read rest' clean']
  exact ⟨rfl, by simpa using same⟩

/-- What stands behind the slug and its colon. -/
def EntityType.behindSlug (pii : Text) : EntityType → Text
  | .custom id => id ++ ':' :: pii
  | _ => pii

theorem cacheKey_eq (pii : Text) (entityType : EntityType) :
    cacheKey pii entityType = entityType.slug ++ ':' :: entityType.behindSlug pii := by
  cases entityType with
  | custom id => simp [cacheKey, domain, slug, behindSlug]
  | _ => rfl

theorem colon_notMem_slug (entityType : EntityType) : ':' ∉ entityType.slug := by
  cases entityType <;> simp [slug]

/-- Colon-free detector ids: the text hashed for a call determines its value and category. -/
theorem cacheKey_injective {pii' : Text} {entityType' : EntityType}
    (free : (Call.tokenize pii entityType).ColonFree)
    (free' : (Call.tokenize pii' entityType').ColonFree)
    (same : cacheKey pii entityType = cacheKey pii' entityType') :
    pii = pii' ∧ entityType = entityType' := by
  rw [cacheKey_eq, cacheKey_eq] at same
  obtain ⟨slugs, behind⟩ :=
    append_colon_inj (colon_notMem_slug _) (colon_notMem_slug _) same
  cases entityType with
  | custom id =>
    cases entityType' with
    | custom id' =>
      obtain ⟨rfl, values⟩ := append_colon_inj (show ':' ∉ id from free) free' behind
      exact ⟨values, rfl⟩
    | _ => exact absurd slugs (by simp [slug])
  | _ =>
    cases entityType' <;>
      first
      | exact ⟨behind, rfl⟩
      | exact absurd slugs (by simp [slug])

/-! ## The maps agree with the answers -/

section Answers

variable {blake3 : Text → Digest} {Blob : Type} {backend : Sealing Blob}
  {asked : Text → EntityType → Prop}

theorem mem_of_lookup {key value : Text} {map : List (Text × Text)}
    (found : map.lookup key = some value) : (key, value) ∈ map := by
  obtain ⟨before, after, rfl, -⟩ := lookup_eq_some_iff.mp found
  simp

theorem lookup_of_unique {key value : Text} {map : List (Text × Text)}
    (member : (key, value) ∈ map) (unique : ∀ other, (key, other) ∈ map → other = value) :
    map.lookup key = some value := by
  cases found : map.lookup key with
  | none => simpa using lookup_eq_none_iff.mp found _ member
  | some other => rw [unique other (mem_of_lookup found)]

/-- Calls for different values or categories are told apart by what their tokens show. -/
def Separated (blake3 : Text → Digest) (asked : Text → EntityType → Prop) : Prop :=
  ∀ pii pii' entityType entityType', asked pii entityType → asked pii' entityType' →
    (blake3 (cacheKey pii entityType)).shown = (blake3 (cacheKey pii' entityType')).shown →
      pii = pii' ∧ entityType = entityType'

def Answer.key (answer : Answer) : Text := cacheKey answer.pii answer.entityType

/-- The vault holds exactly what the record of answers says. -/
structure Session.Kept (blake3 : Text → Digest) (asked : Text → EntityType → Prop)
    (session : Session) : Prop where
  asked : ∀ answer ∈ session.answers, asked answer.pii answer.entityType
  derived : ∀ answer ∈ session.answers,
    answer.token = deriveToken blake3 answer.pii answer.entityType
  forward : ∀ answer ∈ session.answers,
    session.vault.piiToToken.lookup answer.key = some answer.token
  backward : ∀ answer ∈ session.answers,
    session.vault.tokenToPii.lookup answer.token = some answer.pii
  known : ∀ entry ∈ session.vault.piiToToken,
    ∃ answer ∈ session.answers, entry = (answer.key, answer.token)

namespace Session

variable {session : Session}

section

variable (kept : session.Kept blake3 asked) (separated : Separated blake3 asked)

include kept separated

theorem Kept.eq_of_shown {one other : Answer} (first : one ∈ session.answers)
    (second : other ∈ session.answers) (same : (blake3 one.key).shown = (blake3 other.key).shown) :
    one = other := by
  obtain ⟨values, categories⟩ :=
      separated _ _ _ _ (kept.asked one first) (kept.asked other second) same
  have tokens : one.token = other.token := by
    rw [kept.derived one first, kept.derived other second, values, categories]
  cases one
  cases other
  simp_all

theorem Kept.eq_of_token {one other : Answer} (first : one ∈ session.answers)
    (second : other ∈ session.answers) (same : one.token = other.token) : one = other := by
  rw [kept.derived one first, kept.derived other second] at same
  exact kept.eq_of_shown separated first second (shown_of_deriveToken same)

theorem Kept.reversible : session.Reversible := by
  refine ⟨fun answer member => ?_, fun one first other second => ⟨fun same => ?_, ?_⟩⟩
  · rw [detokenize, kept.backward answer member]
  · rw [kept.eq_of_token separated first second same]
    exact ⟨rfl, rfl⟩
  · rintro ⟨values, categories⟩
    rw [kept.derived one first, kept.derived other second, values, categories]

theorem Kept.tokenize_again {existing : Text}
    (asks : asked pii entityType)
    (found : session.vault.piiToToken.lookup (cacheKey pii entityType) = some existing) :
    ⟨pii, entityType, existing⟩ ∈ session.answers := by
  obtain ⟨answer, member, entry⟩ := kept.known _ (mem_of_lookup found)
  obtain ⟨keys, rfl⟩ := Prod.mk.inj entry
  obtain ⟨rfl, rfl⟩ := separated _ _ _ _ asks (kept.asked answer member) (by rw [keys, Answer.key])
  exact member

theorem Kept.tokenize (backend : Sealing Blob)
    (asks : asked pii entityType) :
    (session.step blake3 backend (.tokenize pii entityType)).Kept blake3 asked := by
  cases found : session.vault.piiToToken.lookup (cacheKey pii entityType) with
  | some existing =>
    have member := kept.tokenize_again separated asks found
    simp only [step, TokenVault.tokenize, found]
    exact
      { asked := List.forall_mem_cons.mpr ⟨asks, kept.asked⟩
        derived := List.forall_mem_cons.mpr ⟨kept.derived _ member, kept.derived⟩
        forward := List.forall_mem_cons.mpr ⟨kept.forward _ member, kept.forward⟩
        backward := List.forall_mem_cons.mpr ⟨kept.backward _ member, kept.backward⟩
        known := fun entry inside =>
          let ⟨answer, recorded, shape⟩ := kept.known entry inside
          ⟨answer, .tail _ recorded, shape⟩ }
  | none =>
    -- An answer with the new key or the new token would have been found.
    have fresh : ∀ answer ∈ session.answers,
        (blake3 answer.key).shown ≠ (blake3 (cacheKey pii entityType)).shown := by
      intro answer member same
      obtain ⟨values, categories⟩ := separated _ _ _ _ (kept.asked answer member) asks same
      have present := kept.forward answer member
      rw [Answer.key, values, categories, found] at present
      cases present
    have otherKey : ∀ answer ∈ session.answers,
        (answer.key == cacheKey pii entityType) = false := fun answer member =>
      beq_false_of_ne fun same => fresh answer member (by rw [same])
    have otherToken : ∀ answer ∈ session.answers,
        (answer.token == deriveToken blake3 pii entityType) = false := fun answer member =>
      beq_false_of_ne fun same => fresh answer member
        (shown_of_deriveToken ((kept.derived answer member).symm.trans same))
    simp only [step, TokenVault.tokenize, found]
    refine
      { asked := List.forall_mem_cons.mpr ⟨asks, kept.asked⟩
        derived := List.forall_mem_cons.mpr ⟨rfl, kept.derived⟩
        forward := List.forall_mem_cons.mpr ⟨by simp [Answer.key], fun answer member => ?_⟩
        backward := List.forall_mem_cons.mpr ⟨by simp, fun answer member => ?_⟩
        known := List.forall_mem_cons.mpr
          ⟨⟨_, .head _, rfl⟩, fun entry inside =>
            let ⟨answer, recorded, shape⟩ := kept.known entry inside
            ⟨answer, .tail _ recorded, shape⟩⟩ }
    · rw [lookup_cons, otherKey answer member]
      exact kept.forward answer member
    · rw [lookup_cons, otherToken answer member]
      exact kept.backward answer member

end

/-! ## Sealing and unsealing -/

theorem foldl_restoreEntry (vault : TokenVault) (entries : List VaultEntry) :
    entries.foldl restoreEntry vault =
      { piiToToken :=
          (entries.map fun entry => (entry.cacheKey, entry.token)).reverse ++ vault.piiToToken
        tokenToPii :=
          (entries.map fun entry => (entry.token, entry.pii)).reverse ++ vault.tokenToPii } := by
  induction entries generalizing vault with
  | nil => rfl
  | cons entry entries ih => simp [ih, restoreEntry]

theorem Kept.mem_entries (kept : session.Kept blake3 asked) (entry : VaultEntry) :
    entry ∈ session.vault.entries ↔
      ∃ answer ∈ session.answers, entry = ⟨answer.token, answer.pii, answer.key⟩ := by
  simp only [entries, mem_mergeSort, mem_map]
  constructor
  · rintro ⟨pair, inside, rfl⟩
    obtain ⟨answer, member, rfl⟩ := kept.known pair inside
    exact ⟨answer, member, by simp [kept.backward answer member]⟩
  · rintro ⟨answer, member, rfl⟩
    exact ⟨_, mem_of_lookup (kept.forward answer member), by simp [kept.backward answer member]⟩

theorem Kept.restore (kept : session.Kept blake3 asked) (separated : Separated blake3 asked) :
    ({ session with vault := session.vault.entries.foldl restoreEntry {} } :
      Session).Kept blake3 asked := by
  rw [foldl_restoreEntry]
  refine
    { asked := kept.asked
      derived := kept.derived
      forward := fun answer member => lookup_of_unique ?_ ?_
      backward := fun answer member => lookup_of_unique ?_ ?_
      known := ?_ }
  · simpa using ⟨_, (kept.mem_entries _).mpr ⟨answer, member, rfl⟩, rfl, rfl⟩
  · simp only [append_nil, mem_reverse, mem_map, Prod.mk.injEq]
    rintro other ⟨entry, inside, keys, rfl⟩
    obtain ⟨second, recorded, rfl⟩ := (kept.mem_entries _).mp inside
    rw [kept.eq_of_shown separated recorded member (by rw [← keys])]
  · simpa using ⟨_, (kept.mem_entries _).mpr ⟨answer, member, rfl⟩, rfl, rfl⟩
  · simp only [append_nil, mem_reverse, mem_map, Prod.mk.injEq]
    rintro other ⟨entry, inside, tokens, rfl⟩
    obtain ⟨second, recorded, rfl⟩ := (kept.mem_entries _).mp inside
    rw [kept.eq_of_token separated recorded member tokens]
  · simp only [append_nil, mem_reverse, mem_map]
    rintro _ ⟨entry, inside, rfl⟩
    obtain ⟨answer, member, rfl⟩ := (kept.mem_entries _).mp inside
    exact ⟨answer, member, rfl⟩

theorem Kept.reopen (kept : session.Kept blake3 asked) (separated : Separated blake3 asked)
    (backend : Sealing Blob) : (session.step blake3 backend .reopen).Kept blake3 asked := by
  cases sealing : backend.sealEntries session.vault.entries with
  | error e => simpa [step, sealVault, sealing, bind, Except.bind] using kept
  | ok blob =>
    have unsealing := backend.faithful _ _ sealing
    simpa [step, sealVault, sealing, unsealVault, unsealing, bind,
      Except.bind, Except.map] using kept.restore separated

end Session

theorem separated_of_colonFree {calls : List Call} (free : ∀ call ∈ calls, call.ColonFree)
    (injective : ShownInjective blake3 calls) :
    Separated blake3 fun pii entityType => .tokenize pii entityType ∈ calls := by
  intro pii pii' entityType entityType' first second same
  exact cacheKey_injective (free _ first) (free _ second) (injective _
    (mem_filterMap.mpr ⟨_, first, rfl⟩) _ (mem_filterMap.mpr ⟨_, second, rfl⟩) same)

/-- After any calls with colon-free detector ids, every token handed out so far gives back its
value, and a token belongs to one value of one category. -/
theorem Session.run_reversible (blake3 : Text → Digest) (backend : Sealing Blob)
    (calls : List Call) (free : ∀ call ∈ calls, call.ColonFree)
    (injective : ShownInjective blake3 calls) :
    (Session.run blake3 backend calls).Reversible := by
  have separated := separated_of_colonFree free injective
  have kept : (Session.run blake3 backend calls).Kept blake3
      fun pii entityType => .tokenize pii entityType ∈ calls := by
    refine foldlRecOn calls (Session.step blake3 backend) ?_ ?_
    · exact ⟨nofun, nofun, nofun, nofun, nofun⟩
    · intro session kept call member
      cases call with
      | tokenize pii entityType => exact kept.tokenize separated backend member
      | reopen => exact kept.reopen separated backend
  exact kept.reversible separated

end Answers

/-! ## Fixed vaults -/

/-- A digest that shows the length of the text. -/
def lengthDigest (text : Text) : Digest := .replicate 32 (UInt8.ofNat text.length)

/-- A backend whose blobs are the snapshots themselves. -/
def plainSealing : Sealing (List VaultEntry) where
  sealEntries := .ok
  unsealEntries := .ok
  faithful := fun _ _ same => same.symm ▸ rfl

def twoCategories : List Call :=
  [.tokenize ['b', 'o', 'b'] .email, .reopen,
    .tokenize ['b', 'o', 'b'] (.custom ['z', 'e', 'n', 'i', 't', 'h'])]

theorem run_reversible_twoCategories :
    (Session.run lengthDigest plainSealing twoCategories).Reversible :=
  Session.run_reversible lengthDigest plainSealing twoCategories
    (by simp [twoCategories, Call.ColonFree]) (by unfold ShownInjective; decide)

/-- `a:b` with `c`, then `a` with `b:c`: both hash `CUSTOM:a:b:c`. -/
def colonInId : List Call :=
  [.tokenize ['c'] (.custom ['a', ':', 'b']), .tokenize ['b', ':', 'c'] (.custom ['a'])]

/-- The second value gets the token of the first, which gives back the first value. -/
theorem colonInId_not_reversible :
    ShownInjective lengthDigest colonInId ∧
      ¬ (Session.run lengthDigest plainSealing colonInId).Reversible :=
  ⟨by unfold ShownInjective; decide, by decide⟩

end NexaCore.Tokenization
