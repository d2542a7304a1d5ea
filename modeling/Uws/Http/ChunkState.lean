import Uws.Library.PackedWord
import Uws.Http.ChunkedEncoding

namespace Uws.Http

open Uws.PackedWord

/-- The state word with its four flags (has size, chunked, extension, trailer) above the size `n`. -/
def word (flags : BitVec 4) (n : Nat) : BitVec 64 := (pack flags n : BitVec (4 + 60))

theorem stateHasSize_word : stateHasSize = word 8#4 0 := by decide
theorem stateIsChunked_word : stateIsChunked = word 4#4 0 := by decide
theorem stateIsExtension_word : stateIsExtension = word 2#4 0 := by decide
theorem stateIsTrailer_word : stateIsTrailer = word 1#4 0 := by decide
theorem stateIsError_word : stateIsError = word 15#4 (2 ^ 60 - 1) := by decide
theorem stateSizeMask_word : stateSizeMask = (0#4 ++ BitVec.allOnes 60 : BitVec (4 + 60)) := by decide
theorem notSizeMask_word : ~~~stateSizeMask = word 15#4 0 := by decide
theorem notExtension_word : ~~~stateIsExtension = (13#4 ++ BitVec.allOnes 60 : BitVec (4 + 60)) := by
  decide

theorem word_toNat (flags : BitVec 4) (n : Nat) (bound : n < 2 ^ 60) :
    (word flags n).toNat = flags.toNat * 2 ^ 60 + n :=
  toNat_pack flags n bound

theorem word_inj {flags more : BitVec 4} {n k : Nat} (hn : n < 2 ^ 60) (hk : k < 2 ^ 60)
    (same : word flags n = word more k) : flags = more ∧ n = k :=
  pack_inj flags more n k hn hk same

theorem word_or (flags more : BitVec 4) (n : Nat) :
    word flags n ||| word more 0 = word (flags ||| more) n :=
  pack_or flags more n

theorem word_and (flags keep : BitVec 4) (n : Nat) :
    word flags n &&& word keep 0 = word (flags &&& keep) 0 :=
  pack_and_only flags keep n

theorem word_add (flags : BitVec 4) (n k : Nat) (bound : n + k < 2 ^ 60) :
    word flags n + BitVec.ofNat 64 k = word flags (n + k) :=
  pack_add flags n k bound

theorem word_flag (flags keep : BitVec 4) (n : Nat) :
    (word flags n &&& word keep 0 != 0#64) = (flags &&& keep != 0#4) := by
  rw [word_and]
  rw [Bool.eq_iff_iff, bne_iff_ne, bne_iff_ne, not_iff_not]
  constructor
  · intro zero
    have same : word (flags &&& keep) 0 = word 0#4 0 := zero.trans (by decide)
    exact (word_inj (by decide) (by decide) same).1
  · intro zero
    rw [zero]
    decide

@[simp] theorem chunkSize_word (flags : BitVec 4) (n : Nat) : chunkSize (word flags n) = word 0#4 n := by
  rw [chunkSize, stateSizeMask_word]
  exact (pack_and_flags flags 0#4 n).trans (by rw [BitVec.and_zero]; rfl)

theorem chunkSize_toNat (flags : BitVec 4) (n : Nat) (bound : n < 2 ^ 60) :
    (chunkSize (word flags n)).toNat = n := by
  rw [chunkSize_word, word_toNat _ _ bound]
  simp

@[simp] theorem hasChunkSize_word (flags : BitVec 4) (n : Nat) :
    hasChunkSize (word flags n) = (flags &&& 8#4 != 0#4) := by
  rw [hasChunkSize, stateHasSize_word, word_flag]

@[simp] theorem isParsingChunkedEncoding_word (flags : BitVec 4) (n : Nat) :
    isParsingChunkedEncoding (word flags n) = (flags != 0#4) := by
  rw [isParsingChunkedEncoding, notSizeMask_word, word_flag, show (15#4 : BitVec 4) = BitVec.allOnes 4 by decide,
    BitVec.and_allOnes]

@[simp] theorem extension_word (flags : BitVec 4) (n : Nat) :
    (word flags n &&& stateIsExtension != 0#64) = (flags &&& 2#4 != 0#4) := by
  rw [stateIsExtension_word, word_flag]

@[simp] theorem trailer_word (flags : BitVec 4) (n : Nat) :
    (word flags n &&& stateIsTrailer != 0#64) = (flags &&& 1#4 != 0#4) := by
  rw [stateIsTrailer_word, word_flag]

theorem invalid_word (flags : BitVec 4) (n : Nat) (bound : n < 2 ^ 60) (partly : flags ≠ 15#4) :
    isParsingInvalidChunkedEncoding (word flags n) = false := by
  rw [isParsingInvalidChunkedEncoding, beq_eq_false_iff_ne, stateIsError_word]
  exact fun same => partly (word_inj bound (by decide) same).1

theorem word_or_extension (flags : BitVec 4) (n : Nat) :
    word flags n ||| stateIsExtension = word (flags ||| 2#4) n := by
  rw [stateIsExtension_word, word_or]

theorem overflow_word (flags : BitVec 4) (n : Nat) (bound : n < 2 ^ 60) :
    (chunkSize (word flags n) &&& stateSizeOverflow != 0#64) = decide (2 ^ 56 ≤ n) := by
  have mask : stateSizeOverflow.toNat = (2 ^ 4 - 1) * 2 ^ 56 := by decide
  have size : (word 0#4 n).toNat = n := by simp [word_toNat _ _ bound]
  rw [chunkSize_word, Bool.eq_iff_iff, bne_iff_ne, decide_eq_true_iff]
  have value : (word 0#4 n &&& stateSizeOverflow).toNat = n / 2 ^ 56 * 2 ^ 56 := by
    apply Nat.eq_of_testBit_eq
    intro i
    rw [BitVec.toNat_and, size, mask, Nat.testBit_and, Nat.testBit_mul_two_pow,
      Nat.testBit_mul_two_pow, Nat.testBit_two_pow_sub_one]
    by_cases low : i < 56
    · simp [Nat.not_le.mpr low]
    · rw [Nat.testBit_div_two_pow, Nat.sub_add_cancel (by omega)]
      by_cases top : i - 56 < 4
      · simp [top, Nat.not_lt.mp low]
      · have clear : n.testBit i = false :=
          Nat.testBit_lt_two_pow (Nat.lt_of_lt_of_le bound (Nat.pow_le_pow_right (by decide) (by omega)))
        simp [clear]
  constructor
  · intro nonzero
    by_contra small
    apply nonzero
    apply BitVec.eq_of_toNat_eq
    rw [value, Nat.div_eq_of_lt (by omega)]
    simp
  · intro large zero
    rw [zero] at value
    have positive : 0 < n / 2 ^ 56 := Nat.div_pos large (by decide)
    simp only [BitVec.toNat_ofNat, Nat.zero_mod] at value
    omega

theorem shift_word (flags : BitVec 4) (n number : Nat) (bound : n < 2 ^ 56) (digit : number < 16) :
    ((word flags n &&& stateSizeMask) * 16#64 + BitVec.ofNat 64 number) ||| stateIsChunked =
      word 4#4 (16 * n + number) := by
  have size : word flags n &&& stateSizeMask = word 0#4 n := chunkSize_word flags n
  have shifted : word 0#4 n * 16#64 + BitVec.ofNat 64 number = word 0#4 (16 * n + number) := by
    apply BitVec.eq_of_toNat_eq
    rw [BitVec.toNat_add, BitVec.toNat_mul, word_toNat _ _ (by omega), word_toNat _ _ (by omega),
      BitVec.toNat_ofNat, BitVec.toNat_ofNat]
    simp only [BitVec.toNat_ofNat]
    omega
  rw [size, shifted, stateIsChunked_word, word_or]
  rfl

theorem enable_word (flags : BitVec 4) (n : Nat) (line : flags = 4#4 ∨ flags = 6#4) (bound : n + 2 < 2 ^ 60) :
    ((word flags n + 2#64) &&& ~~~stateIsExtension) ||| (stateHasSize ||| stateIsChunked) =
      word 12#4 (n + 2) := by
  have cleared : word flags (n + 2) &&& ~~~stateIsExtension = word (flags &&& 13#4) (n + 2) := by
    rw [notExtension_word]
    exact pack_and_flags flags 13#4 (n + 2)
  rw [show (2#64) = BitVec.ofNat 64 2 by rfl, word_add flags n 2 bound, cleared, stateHasSize_word,
    stateIsChunked_word, word_or, word_or]
  rcases line with rfl | rfl <;> rfl

theorem dec_word (n k : Nat) (bound : n < 2 ^ 60) (less : k < n) :
    decChunkSize (word 12#4 n) k ||| stateIsChunked = word 12#4 (n - k) := by
  have flags : word 12#4 n &&& ~~~stateSizeMask = word 12#4 0 := by
    rw [notSizeMask_word, word_and]
    rfl
  have rest : chunkSize (word 12#4 n) - BitVec.ofNat 64 k = word 0#4 (n - k) := by
    rw [chunkSize_word, BitVec.sub_eq_iff_eq_add, word_add _ _ _ (by omega), Nat.sub_add_cancel (by omega)]
  rw [decChunkSize, flags, rest, BitVec.or_comm (word 12#4 0), word_or, stateIsChunked_word, word_or]
  rfl

end Uws.Http
