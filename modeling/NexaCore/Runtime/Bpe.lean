import Mathlib

/-!
# The byte-pair tokenizer

`nexacore-runtime/src/bpe.rs`. A `HashMap` filled from a list gives the last entry of a key; the
text that `from_utf8_lossy` makes of invalid bytes is a parameter.
-/

namespace NexaCore.Runtime

open List

abbrev Bytes := List UInt8

/-- `SpecialTokens` (`bpe.rs:56-78`). -/
structure SpecialTokens where
  bos : Nat
  eos : Nat
  pad : Nat
  unk : Nat

/-- The arguments of `BpeVocabulary::new` (`bpe.rs:176-200`). -/
structure BpeVocabulary where
  tokens : List (Nat × Bytes)
  merges : List (Bytes × Bytes)
  special : SpecialTokens

namespace BpeVocabulary

variable (vocab : BpeVocabulary)

/-- `BpeVocabulary::token_id` (`bpe.rs:280-282`). -/
def tokenId (token : Bytes) : Option Nat :=
  (vocab.tokens.filter (·.2 = token)).getLast?.map (·.1)

/-- `BpeVocabulary::token_bytes` (`bpe.rs:298-300`). -/
def tokenBytes (id : Nat) : Option Bytes :=
  (vocab.tokens.filter (·.1 = id)).getLast?.map (·.2)

/-- The priority that `build_merge_index` (`bpe.rs:307-313`) gives a pair. -/
def mergeIndex (pair : Bytes × Bytes) : Option Nat :=
  (vocab.merges.zipIdx.filter (·.1 = pair)).getLast?.map (·.2)

/-- The scan for the best pair (`bpe.rs:410-427`) from position `i` on, with the best priority and
position so far; no rule has the priority `usize::MAX` that the scan starts with. -/
def scan (i : Nat) (best : Option (Nat × Nat)) : List Bytes → Option (Nat × Nat)
  | left :: right :: rest =>
    let best' := match vocab.mergeIndex (left, right) with
      | some priority =>
        if best.elim true (priority < ·.1) then some (priority, i) else best
      | none => best
    scan (i + 1) best' (right :: rest)
  | _ => best

/-- Merges the tokens at `pos` and `pos + 1` (`bpe.rs:435-440`). -/
def mergeAt (tokens : List Bytes) (pos : Nat) : List Bytes :=
  (tokens.eraseIdx (pos + 1)).modify pos (· ++ tokens.getD (pos + 1) [])

variable {vocab} {i : Nat} {best : Option (Nat × Nat)} {tokens : List Bytes}

theorem mergeIndex_isSome {pair : Bytes × Bytes} :
    (vocab.mergeIndex pair).isSome ↔ pair ∈ vocab.merges := by
  simp only [mergeIndex, Option.isSome_map, getLast?_isSome, ne_eq, filter_eq_nil_iff,
    decide_eq_true_eq, not_forall, not_not, Prod.exists, exists_prop, mem_zipIdx_iff_getElem?]
  constructor
  · rintro ⟨_, _, n, at_n, rfl⟩
    exact mem_of_getElem? at_n
  · intro member
    obtain ⟨n, at_n⟩ := mem_iff_getElem?.mp member
    exact ⟨_, _, n, at_n, rfl⟩

theorem scan_some {found : Nat × Nat} (scanned : vocab.scan i best tokens = some found) :
    best = some found ∨ ∃ front left right back, tokens = front ++ left :: right :: back ∧
      found.2 = i + front.length ∧ (left, right) ∈ vocab.merges := by
  induction tokens generalizing i best with
  | nil => exact .inl scanned
  | cons left rest ih =>
    cases rest with
    | nil => exact .inl scanned
    | cons right rest =>
      rw [scan] at scanned
      rcases ih scanned with before | ⟨front, l, r, back, split, pos, rule⟩
      · cases index : vocab.mergeIndex (left, right) with
        | none => rw [index] at before; exact .inl before
        | some priority =>
          simp only [index] at before
          split at before
          · obtain rfl := Option.some.inj before
            exact .inr ⟨[], left, right, rest, rfl, rfl, mergeIndex_isSome.mp (by rw [index]; rfl)⟩
          · exact .inl before
      · exact .inr ⟨left :: front, l, r,
          back, by rw [split]; rfl, by rw [pos, length_cons]; omega,
          rule⟩

theorem scan_none (scanned : vocab.scan i best tokens = none) :
    best = none ∧ tokens.IsChain fun left right => (left, right) ∉ vocab.merges := by
  induction tokens generalizing i best with
  | nil => exact ⟨scanned, .nil⟩
  | cons left rest ih =>
    cases rest with
    | nil => exact ⟨scanned, .singleton left⟩
    | cons right rest =>
      rw [scan] at scanned
      obtain ⟨before, chain⟩ := ih scanned
      cases index : vocab.mergeIndex (left, right) with
      | none =>
        rw [index] at before
        refine ⟨before, .cons_cons (fun rule => ?_) chain⟩
        rw [← mergeIndex_isSome, index] at rule
        cases rule
      | some priority =>
        simp only [index] at before
        split at before
        · cases before
        · rename_i worse
          rw [before] at worse
          exact absurd rfl worse

theorem mergeAt_append (front : List Bytes) (left right : Bytes) (back : List Bytes) :
    mergeAt (front ++ left :: right :: back) front.length = front ++ (left ++ right) :: back := by
  induction front with
  | nil => rfl
  | cons token front ih => simpa [mergeAt] using ih

theorem length_mergeAt {found : Nat × Nat} (scanned : vocab.scan 0 none tokens = some found) :
    (mergeAt tokens found.2).length < tokens.length := by
  rcases scan_some scanned with before | ⟨front, left, right, back, rfl, pos, -⟩
  · cases before
  · rw [pos, Nat.zero_add, mergeAt_append]
    simp

variable (vocab)

/-- The merge loop (`bpe.rs:406-443`). Every round merges two tokens, so it ends. -/
def mergeLoop (tokens : List Bytes) : List Bytes :=
  match _scanned : vocab.scan 0 none tokens with
  | none => tokens
  | some found => mergeLoop (mergeAt tokens found.2)
termination_by tokens.length
decreasing_by exact length_mergeAt _scanned

def utf8 (text : String) : Bytes := text.toByteArray.data.toList

/-- `BpeTokenizer::encode` (`bpe.rs:390-446`). -/
def encode (text : String) : List Nat :=
  if text.isEmpty then []
  else
    (vocab.mergeLoop ((utf8 text).map ([·]))).map fun token =>
      (vocab.tokenId token).getD vocab.special.unk

/-- `BpeTokenizer::encode_with_special` (`bpe.rs:467-472`). -/
def encodeWithSpecial (text : String) : List Nat :=
  vocab.special.bos :: vocab.encode text ++ [vocab.special.eos]

/-- `String::from_utf8_lossy`, with what it makes of invalid bytes as a parameter. -/
def fromUtf8Lossy (lossy : Bytes → String) (bytes : Bytes) : String :=
  if valid : ByteArray.IsValidUTF8 ⟨bytes.toArray⟩ then .ofByteArray _ valid else lossy bytes

/-- The bytes of one id in `decode` (`bpe.rs:507-520`); U+FFFD is `EF BF BD`. -/
def decodeId (id : Nat) : Bytes :=
  if id = vocab.special.bos ∨ id = vocab.special.eos ∨ id = vocab.special.pad then []
  else (vocab.tokenBytes id).getD [0xEF, 0xBF, 0xBD]

/-- `BpeTokenizer::decode` (`bpe.rs:503-524`). -/
def decode (lossy : Bytes → String) (ids : List Nat) : String :=
  fromUtf8Lossy lossy (ids.flatMap vocab.decodeId)

/-- A single byte, or what a rule makes of its pair. -/
def Basic (token : Bytes) : Prop :=
  (∃ byte, token = [byte]) ∨ ∃ rule ∈ vocab.merges, token = rule.1 ++ rule.2

/-- Distinct ids and byte strings, all single bytes and merged pairs present, and none of these with
the id of a token that `decode` skips. -/
structure WellFormed : Prop where
  ids : (vocab.tokens.map (·.1)).Nodup
  strings : (vocab.tokens.map (·.2)).Nodup
  basic : ∀ token, vocab.Basic token → ∃ id, (id, token) ∈ vocab.tokens ∧
    id ≠ vocab.special.bos ∧ id ≠ vocab.special.eos ∧ id ≠ vocab.special.pad

end BpeVocabulary

end NexaCore.Runtime
