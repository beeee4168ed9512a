import NexaCore.Runtime.Bpe

/-!
# Encoding loses nothing

The merge loop keeps the concatenation of its tokens and never leaves the single bytes and merged
pairs, all of which the vocabulary gives back by their ids.
-/

namespace NexaCore.Runtime.BpeVocabulary

open List Function

variable {vocab : BpeVocabulary} {tokens : List Bytes}

/-- The loop ends where no rule applies, with the same bytes in basic tokens. -/
theorem mergeLoop_spec (basic : ∀ token ∈ tokens, vocab.Basic token) :
    (vocab.mergeLoop tokens).flatten = tokens.flatten ∧
      (∀ token ∈ vocab.mergeLoop tokens, vocab.Basic token) ∧
      (vocab.mergeLoop tokens).IsChain fun left right => (left, right) ∉ vocab.merges := by
  fun_induction mergeLoop vocab tokens with
  | case1 tokens scanned => exact ⟨rfl, basic, (scan_none scanned).2⟩
  | case2 tokens found scanned ih =>
    rcases scan_some scanned with before | ⟨front, left, right, back, rfl, pos, rule⟩
    · cases before
    · rw [pos, Nat.zero_add, mergeAt_append] at ih ⊢
      obtain ⟨flat, rest⟩ := ih <| by
        intro token inside
        simp only [mem_append, mem_cons] at inside basic
        rcases inside with early | rfl | late
        · exact basic token (.inl early)
        · exact .inr ⟨_, rule, rfl⟩
        · exact basic token (.inr (.inr (.inr late)))
      exact ⟨flat.trans (by simp), rest⟩

theorem getLast?_filter {α β : Type} [DecidableEq β] {entries : List α} (key : α → β) {entry : α}
    (distinct : (entries.map key).Nodup) (member : entry ∈ entries) :
    (entries.filter (key · = key entry)).getLast? = some entry := by
  have only : ∀ other ∈ entries.filter (key · = key entry), other = entry := by
    intro other found
    obtain ⟨inside, same⟩ := mem_filter.mp found
    exact inj_on_of_nodup_map distinct inside member (of_decide_eq_true same)
  cases last : (entries.filter (key · = key entry)).getLast? with
  | none =>
    have empty := getLast?_eq_none_iff.mp last
    exact absurd (empty ▸ mem_filter.mpr ⟨member, decide_eq_true rfl⟩ : entry ∈ [])
      not_mem_nil
  | some other => rw [only other (mem_of_getLast? last)]

theorem WellFormed.decodeId (good : vocab.WellFormed) {token : Bytes} (basic : vocab.Basic token) :
    vocab.tokenBytes ((vocab.tokenId token).getD vocab.special.unk) = some token ∧
      vocab.decodeId ((vocab.tokenId token).getD vocab.special.unk) = token := by
  obtain ⟨id, member, ordinary⟩ := good.basic token basic
  have named : vocab.tokenId token = some id := by
    rw [tokenId, getLast?_filter (·.2) good.strings member]
    rfl
  have bytes : vocab.tokenBytes id = some token := by
    rw [tokenBytes, getLast?_filter (·.1) good.ids member]
    rfl
  rw [named, Option.getD_some, BpeVocabulary.decodeId, if_neg (by tauto), bytes]
  exact ⟨rfl, rfl⟩

theorem encode_spec (good : vocab.WellFormed) (text : String) :
    ∃ tokens : List Bytes, (vocab.encode text).map vocab.tokenBytes = tokens.map some ∧
      (vocab.encode text).flatMap vocab.decodeId = utf8 text ∧ tokens.flatten = utf8 text ∧
      tokens.IsChain fun left right => (left, right) ∉ vocab.merges := by
  by_cases empty : text.isEmpty
  · obtain rfl : text = "" := String.isEmpty_iff.mp empty
    exact ⟨[], by simp [encode], by simp [encode, utf8], rfl, .nil⟩
  · have single : ∀ token ∈ (utf8 text).map ([·]), vocab.Basic token := by
      rintro _ inside
      obtain ⟨byte, -, rfl⟩ := mem_map.mp inside
      exact .inl ⟨byte, rfl⟩
    obtain ⟨flat, basic, chain⟩ := mergeLoop_spec single
    have whole : (vocab.mergeLoop ((utf8 text).map ([·]))).flatten = utf8 text := by
      rw [flat, ← flatMap_def, flatMap_singleton']
    refine ⟨vocab.mergeLoop ((utf8 text).map ([·])), ?_, ?_, whole, chain⟩
    · rw [encode, if_neg empty, map_map]
      exact map_congr_left fun token inside => (good.decodeId (basic token inside)).1
    · rw [encode, if_neg empty, flatMap_map, flatMap_congr fun token inside =>
        (good.decodeId (basic token inside)).2, flatMap_id', whole]

theorem fromUtf8Lossy_utf8 (lossy : Bytes → String) (text : String) :
    fromUtf8Lossy lossy (utf8 text) = text := by
  have bytes : (⟨(utf8 text).toArray⟩ : ByteArray) = text.toByteArray := by simp [utf8]
  unfold fromUtf8Lossy
  simp only [bytes, text.isValidUTF8, dite_true]

/-- Encoding ends with tokens that concatenate to the text, where no rule applies any more, and
decoding gives the text back, with or without the special tokens around it. -/
theorem encode_lossless (vocab : BpeVocabulary) (good : vocab.WellFormed) (lossy : Bytes → String)
    (text : String) :
    (∃ tokens : List Bytes, (vocab.encode text).map vocab.tokenBytes = tokens.map some ∧
      tokens.flatten = utf8 text ∧
      tokens.IsChain fun left right => (left, right) ∉ vocab.merges) ∧
    vocab.decode lossy (vocab.encode text) = text ∧
    vocab.decode lossy (vocab.encodeWithSpecial text) = text := by
  obtain ⟨tokens, ids, decoded, flat, chain⟩ := encode_spec good text
  refine ⟨⟨tokens, ids, flat, chain⟩, ?_, ?_⟩
  · rw [decode, decoded, fromUtf8Lossy_utf8]
  · have bare : (vocab.encodeWithSpecial text).flatMap vocab.decodeId =
        (vocab.encode text).flatMap vocab.decodeId := by
      simp [encodeWithSpecial, BpeVocabulary.decodeId]
    rw [decode, bare, decoded, fromUtf8Lossy_utf8]

/-- The single bytes, the special tokens and the pair `he`. -/
def smallVocab : BpeVocabulary where
  tokens := (List.range 256).map (fun b => (b, [UInt8.ofNat b])) ++ [(260, [104, 101])]
  merges := [([104], [101])]
  special := ⟨256, 257, 258, 259⟩

theorem smallVocab_lossless :
    smallVocab.decode (fun _ => "") (smallVocab.encode "hehe") = "hehe" := by
  refine (encode_lossless smallVocab ⟨?_, ?_, ?_⟩ (fun _ => "") "hehe").2.1
  · simp [smallVocab, comp_def, nodup_append, nodup_range]
    omega
  · have distinct : ((range 256).map fun b => [UInt8.ofNat b]).Nodup := by
      refine nodup_range.map_on fun a small b small' same => ?_
      have bytes := congrArg UInt8.toNat (singleton_inj.mp same)
      simp only [mem_range, UInt8.toNat_ofNat'] at small small' bytes
      omega
    simpa [smallVocab, comp_def, nodup_append] using distinct
  rintro token (⟨byte, rfl⟩ | ⟨rule, inside, rfl⟩)
  · have small := byte.toNat_lt
    refine ⟨byte.toNat, mem_append_left _ (mem_map.mpr
      ⟨byte.toNat, mem_range.mpr small, by simp⟩), ?_⟩
    simp only [smallVocab]
    omega
  · rw [mem_singleton.mp inside]
    exact ⟨260, by simp [smallVocab], by simp [smallVocab]⟩

end NexaCore.Runtime.BpeVocabulary
