import Uws.WebSocket.WebSocketHandshake

namespace Uws.WebSocket

open Uws.Http (Bytes ascii)
open Uws.Sha1

theorem staticFor_holds {σ : Type} {holds : Nat → σ → Prop} {f : Nat → σ → σ} {N : Nat} {x : σ} (first : holds 0 x)
    (each : ∀ i < N, ∀ x, holds i x → holds (i + 1) (f i x)) : holds N (staticFor f N x) := by
  induction N with
  | zero => exact first
  | succ n ih => exact each n (Nat.lt_succ_self n) _ (ih fun i below => each i (Nat.lt_succ_of_lt below))

section Rounds

variable {block : Block} {r : Registers} {t i : Nat} {x : Arrays}

structure Held (block : Block) (r : Registers) (t : Nat) (x : Arrays) : Prop where
  registers : Rotated t x.a (rounds block t r)
  words : Window (schedule block) (t - 16) x.b

theorem sha1Loop_round {f : UInt32 → UInt32 → UInt32 → UInt32} {k word : UInt32}
    (registers : Rotated t x.a (rounds block t r)) (same : i % 5 = t % 5) (function : ∀ b c d, f b c d = logic t b c d)
    (constant_ : k = constant t) (word_ : word = schedule block t) :
    Rotated (t + 1) (sha1Loop f k i word x).a (rounds block (t + 1) r) := by
  have here := registers.same same
  have first : x.a[i % 5] + (f x.a[(3 + i) % 5] x.a[(2 + i) % 5] x.a[(1 + i) % 5] + word + k + rol x.a[(4 + i) % 5] 5) =
      (round block t (rounds block t r)).a := by
    show x.a.get (Fin.ofNat 5 i) + (f (x.a.get (Fin.ofNat 5 (3 + i))) (x.a.get (Fin.ofNat 5 (2 + i)))
      (x.a.get (Fin.ofNat 5 (1 + i))) + word + k + rol (x.a.get (Fin.ofNat 5 (4 + i))) 5) = _
    rw [here.e, here.d, here.c, here.b, here.a, function, constant_, word_]
    show _ + (_ + _ + _ + rotl 5 _) = rotl 5 _ + _ + _ + _ + _
    ac_rfl
  have turned := (here.turn (round block t (rounds block t r)).a).same (show (t + 1) % 5 = (i + 1) % 5 by omega)
  have fourth : x.a[(3 + i) % 5] = (rounds block t r).b := here.b
  unfold sha1Loop
  rw [first]
  dsimp only
  rw [Vector.getElem_set_ne _ _ (by omega), fourth]
  exact turned

theorem blk_schedule (words : Window (schedule block) t x.b) (same : i % 16 = t % 16) :
    blk x.b i = schedule block (t + 16) := by
  unfold blk
  rw [words.read (i := t + 13) (by omega) (by omega) (by omega) (by omega),
    words.read (i := t + 8) (by omega) (by omega) (by omega) (by omega),
    words.read (i := t + 2) (by omega) (by omega) (by omega) (by omega),
    words.read (i := t) (by omega) same (by omega) (by omega), schedule_next]
  rfl

theorem staticFor_held {f : Nat → Arrays → Arrays} {N : Nat} (held : Held block r t x)
    (each : ∀ i < N, ∀ now x, now = t + i → Held block r now x → Held block r (now + 1) (f i x)) :
    Held block r (t + N) (staticFor f N x) :=
  @staticFor_holds Arrays (fun i => Held block r (t + i)) f N x held fun i below x held => each i below (t + i) x rfl held

theorem sha1Loop1_held (below : i < 16) (now : t = 0 + i) (held : Held block r t x) :
    Held block r (t + 1) (sha1Loop1 i x) := by
  have word : x.b[i % 16] = schedule block t := held.words.read _ (by omega) (by omega) (by omega)
  refine ⟨sha1Loop_round held.registers (by omega) (fun b c d => ?_) ?_ word, ?_⟩
  · rw [choose_select, logic, if_pos (by omega)]
  · rw [constant, if_pos (by omega)]
  · have words := held.words
    rw [show t - 16 = t + 1 - 16 by omega] at words
    exact words

theorem stored_held {f : UInt32 → UInt32 → UInt32 → UInt32} {k : UInt32} {j n : Nat} (later : 16 ≤ t)
    (held : Held block r t x) (cell : j % 16 = t % 16) (index : n % 16 = t % 16) (same : i % 5 = t % 5)
    (function : ∀ b c d, f b c d = logic t b c d) (constant_ : k = constant t) :
    Held block r (t + 1)
      (sha1Loop f k i (x.b.set (j % 16) (blk x.b n))[j % 16] { x with b := x.b.set (j % 16) (blk x.b n) }) := by
  have word : blk x.b n = schedule block t := by
    rw [blk_schedule held.words (by omega), Nat.sub_add_cancel later]
  have read : (x.b.set (j % 16) (blk x.b n))[j % 16] = schedule block t := by
    rw [Vector.getElem_set_self, word]
  have words : Window (schedule block) (t - 16 + 1) (x.b.set (j % 16) (blk x.b n)) :=
    held.words.push (by omega) (by omega) (by rw [word, Nat.sub_add_cancel later])
  rw [← Nat.sub_add_comm later] at words
  refine ⟨?_, words⟩
  apply sha1Loop_round
  · exact held.registers
  · exact same
  · exact function
  · exact constant_
  · exact read

theorem sha1Loop2_held (below : i < 4) (now : t = 16 + i) (held : Held block r t x) :
    Held block r (t + 1) (sha1Loop2 i x) := by
  unfold sha1Loop2
  apply stored_held (by omega) held (by omega) (by omega) (by omega)
  · intro b c d
    rw [choose_select, logic, if_pos (by omega)]
  · rw [constant, if_pos (by omega)]

theorem sha1Loop3_held (below : i < 20) (now : t = 20 + i) (held : Held block r t x) :
    Held block r (t + 1) (sha1Loop3 i x) := by
  unfold sha1Loop3
  apply stored_held (by omega) held (by omega) (by omega) (by omega)
  · intro b c d
    rw [logic, if_neg (by omega), if_pos (by omega), parity]
  · rw [constant, if_neg (by omega), if_pos (by omega)]

theorem sha1Loop4_held (below : i < 20) (now : t = 40 + i) (held : Held block r t x) :
    Held block r (t + 1) (sha1Loop4 i x) := by
  unfold sha1Loop4
  apply stored_held (by omega) held (by omega) (by omega) (by omega)
  · intro b c d
    rw [majority_or, logic, if_neg (by omega), if_neg (by omega), if_pos (by omega)]
  · rw [constant, if_neg (by omega), if_neg (by omega), if_pos (by omega)]

theorem sha1Loop5_held (below : i < 20) (now : t = 60 + i) (held : Held block r t x) :
    Held block r (t + 1) (sha1Loop5 i x) := by
  unfold sha1Loop5
  apply stored_held (by omega) held (by omega) (by omega) (by omega)
  · intro b c d
    rw [logic, if_neg (by omega), if_neg (by omega), if_neg (by omega), parity]
  · rw [constant, if_neg (by omega), if_neg (by omega), if_neg (by omega)]

end Rounds

section Digest

def registersOf (hash : Vector UInt32 5) : Registers := ⟨hash.get 0, hash.get 1, hash.get 2, hash.get 3, hash.get 4⟩

theorem sha1Loop6_adds (a hash : Vector UInt32 5) :
    registersOf (staticFor (sha1Loop6 a) 5 hash) =
      ⟨hash.get 0 + a.get 4, hash.get 1 + a.get 3, hash.get 2 + a.get 2, hash.get 3 + a.get 1, hash.get 4 + a.get 0⟩ := by
  match hash with
  | ⟨⟨[h0, h1, h2, h3, h4]⟩, _⟩ => rfl

theorem sha1_compress (hash : Vector UInt32 5) (b : Block) : registersOf (sha1 hash b) = compress (registersOf hash) b := by
  have start : Held b (registersOf hash) 0 ⟨#v[hash[4], hash[3], hash[2], hash[1], hash[0]], b⟩ := by
    refine ⟨⟨rfl, rfl, rfl, rfl, rfl⟩, fun i cell _ before => ?_⟩
    have first : i < 16 := by omega
    rw [schedule_first b first]
    simp only [Nat.mod_eq_of_lt first]
  have last := staticFor_held (staticFor_held (staticFor_held (staticFor_held (staticFor_held start
    fun _ below _ _ => sha1Loop1_held below) fun _ below _ _ => sha1Loop2_held below) fun _ below _ _ => sha1Loop3_held below)
    fun _ below _ _ => sha1Loop4_held below) fun _ below _ _ => sha1Loop5_held below
  have registers := last.registers
  unfold sha1
  rw [sha1Loop6_adds]
  show _ = Registers.mk _ _ _ _ _
  rw [← registers.a, ← registers.b, ← registers.c, ← registers.d, ← registers.e]
  rfl

def guid : Bytes := ascii "258EAFA5-E914-47DA-95CA-C5AB0DC85B11"

theorem guidLength : guid.length = 36 := by decide +kernel

theorem inputWord_wordAt (input : Bytes) (i : Nat) : inputWord input i = wordAt input i := by
  show _ ||| _ ||| _ ||| _ = _ ||| _ ||| _ ||| _
  rw [UInt32.or_comm, UInt32.or_comm (_ ||| _), UInt32.or_comm (UInt8.toUInt32 _), ← UInt32.or_assoc, ← UInt32.or_assoc]

def guidTail : Bytes := guid ++ [0x80] ++ List.replicate 59 0 ++ sizeBytes 480

theorem guidTail_words :
    (∀ i : Fin 10, wordAt guidTail i = #v[0x32353845, 0x41464135, 0x2d453931, 0x342d3437, 0x44412d39, 0x3543412d,
      0x43354142, 0x30444338, 0x35423131, 0x80000000][i]) ∧
      ∀ i : Fin 16, wordAt guidTail (10 + i) = #v[0, 0, 0, 0, 0, 0, 0, 0, 0, 0, 0, 0, 0, 0, 0, 480][i] := by
  decide +kernel

theorem pad_key {key : Bytes} (chars : key.length = 24) : pad (key ++ guid) = key ++ guidTail := by
  have size : (key ++ guid).length = 60 := by
    rw [List.length_append, chars, guidLength]
  unfold pad guidTail
  rw [size, List.append_assoc key, List.append_assoc key, List.append_assoc key]

theorem pad_blocks {key : Bytes} (chars : key.length = 24) :
    blockAt (pad (key ++ guid)) 0 =
        #v[inputWord key 0, inputWord key 1, inputWord key 2, inputWord key 3, inputWord key 4, inputWord key 5, 0x32353845,
          0x41464135, 0x2d453931, 0x342d3437, 0x44412d39, 0x3543412d, 0x43354142, 0x30444338, 0x35423131, 0x80000000] ∧
      blockAt (pad (key ++ guid)) 1 = #v[0, 0, 0, 0, 0, 0, 0, 0, 0, 0, 0, 0, 0, 0, 0, 480] := by
  obtain ⟨first, second⟩ := guidTail_words
  have whole : key.length = 4 * 6 := chars
  rw [pad_key chars]
  simp only [inputWord_wordAt]
  refine ⟨Vector.ext fun i below => ?_, Vector.ext fun i below => ?_⟩
  · rw [blockAt, Vector.getElem_ofFn]
    by_cases inside : i < 6
    · show wordAt (key ++ guidTail) (16 * 0 + i) = _
      rw [Nat.mul_zero, Nat.zero_add, wordAt_left (by omega)]
      interval_cases i <;> rfl
    · obtain ⟨j, rfl⟩ : ∃ j, i = 6 + j := ⟨i - 6, by omega⟩
      show wordAt (key ++ guidTail) (16 * 0 + (6 + j)) = _
      have small : j < 10 := by omega
      rw [Nat.mul_zero, Nat.zero_add, wordAt_right whole, first ⟨j, small⟩]
      interval_cases j <;> rfl
  · rw [blockAt, Vector.getElem_ofFn]
    show wordAt (key ++ guidTail) (16 * 1 + i) = _
    rw [show 16 * 1 + i = 6 + (10 + i) by omega, wordAt_right whole]
    exact second ⟨i, below⟩

theorem messageDigest_two {message : Bytes} (sixty : message.length = 60) :
    messageDigest message =
      (compress (compress initial (blockAt (pad message) 0)) (blockAt (pad message) 1)).digest := by
  have size : (pad message).length = 128 := by
    simp [pad, sizeBytes, sixty]
  unfold messageDigest
  dsimp only
  rw [size]
  rfl

theorem outputBytes_bytesOf (tmp : UInt32) : outputBytes tmp = bytesOf tmp := by
  have low : ∀ x : UInt32, (x &&& 0xff).toUInt8 = x.toUInt8 := by
    intro x
    apply UInt8.toNat_inj.mp
    rw [UInt32.toNat_toUInt8, UInt32.toNat_toUInt8, UInt32.toNat_and]
    show (x.toNat &&& 2 ^ 8 - 1) % 2 ^ 8 = _
    rw [Nat.and_two_pow_sub_one_eq_mod, Nat.mod_mod]
  unfold outputBytes bytesOf
  rw [low, low, low, low]

theorem digest_bytes (hash : Vector UInt32 5) : hash.toList.flatMap outputBytes = (registersOf hash).digest := by
  match hash with
  | ⟨⟨[h0, h1, h2, h3, h4]⟩, _⟩ =>
    show outputBytes h0 ++ (outputBytes h1 ++ (outputBytes h2 ++ (outputBytes h3 ++ (outputBytes h4 ++ [])))) = _
    simp only [outputBytes_bytesOf, List.append_nil]
    show _ = bytesOf h0 ++ bytesOf h1 ++ bytesOf h2 ++ bytesOf h3 ++ bytesOf h4
    simp only [List.append_assoc]

end Digest

section Characters

theorem b64_alphabet : b64 = Base64.alphabet := by decide +kernel

theorem b64Digit_digit {index : UInt8} {value i : Nat} (own : index.toNat = value / 64 ^ i % 64) :
    b64Digit index = Base64.digit value i := by
  rw [b64Digit, Base64.digit, b64_alphabet, own]

theorem low_bits (x : UInt8) {mask : UInt8} {k : Nat} (ones : mask.toNat = 2 ^ k - 1) : (x &&& mask).toNat = x.toNat % 2 ^ k := by
  rw [UInt8.toNat_and, ones, Nat.and_two_pow_sub_one_eq_mod]

theorem joined_bits {x y : UInt8} {k : UInt8} {high low : Nat} (small : k.toNat < 8) (front : x.toNat = high)
    (fits : high * 2 ^ k.toNat < 256) (back : y.toNat = low) (below : low < 2 ^ k.toNat) :
    (x <<< k ||| y).toNat = high * 2 ^ k.toNat + low := by
  rw [UInt8.toNat_or, UInt8.toNat_shiftLeft, Nat.mod_eq_of_lt small, front, back, Nat.shiftLeft_eq]
  rw [Nat.mod_eq_of_lt (by simpa using fits), ← Nat.shiftLeft_eq, ← Nat.shiftLeft_add_eq_or_of_lt below]

theorem high_bits (x : UInt8) {mask k : UInt8} {n : Nat} (small : k.toNat < 8) (ones : mask.toNat >>> k.toNat = 2 ^ n - 1)
    (fits : 2 ^ k.toNat * 2 ^ n = 256) : ((x &&& mask) >>> k).toNat = x.toNat / 2 ^ k.toNat := by
  have byte := x.toNat_lt
  rw [UInt8.toNat_shiftRight, UInt8.toNat_and, Nat.mod_eq_of_lt small, Nat.shiftRight_and_distrib, ones,
    Nat.and_two_pow_sub_one_eq_mod, Nat.shiftRight_eq_div_pow]
  apply Nat.mod_eq_of_lt
  apply Nat.div_lt_of_lt_mul
  rw [fits]
  exact byte

/-! The indices are the digits of the number that the bytes make. -/

theorem index_first (a : UInt8) : ((a >>> 2) &&& 63).toNat = a.toNat / 4 := by
  have byte := a.toNat_lt
  rw [low_bits (a >>> 2) (show (63 : UInt8).toNat = 2 ^ 6 - 1 from rfl), UInt8.toNat_shiftRight]
  show a.toNat >>> 2 % 64 = _
  rw [Nat.shiftRight_eq_div_pow]
  exact Nat.mod_eq_of_lt (by omega)

theorem index_second (a b : UInt8) :
    (((a &&& 3) <<< 4) ||| ((b &&& 240) >>> 4)).toNat = a.toNat % 4 * 16 + b.toNat / 16 := by
  have byte := b.toNat_lt
  exact @joined_bits (a &&& 3) _ 4 _ _ (by decide) (low_bits a (k := 2) rfl) (show a.toNat % 4 * 16 < 256 by omega)
    (@high_bits b 240 4 4 (by decide) rfl rfl) (show b.toNat / 16 < 16 by omega)

theorem index_third (b c : UInt8) :
    (((b &&& 15) <<< 2) ||| ((c &&& 192) >>> 6)).toNat = b.toNat % 16 * 4 + c.toNat / 64 := by
  have byte := c.toNat_lt
  exact @joined_bits (b &&& 15) _ 2 _ _ (by decide) (low_bits b (k := 4) rfl) (show b.toNat % 16 * 4 < 256 by omega)
    (@high_bits c 192 6 2 (by decide) rfl rfl) (show c.toNat / 64 < 4 by omega)

theorem index_alone (b : UInt8) : ((b &&& 15) <<< 2).toNat = b.toNat % 16 * 4 := by
  have alone := index_third b 0
  rw [show ((0 : UInt8) &&& 192) >>> 6 = 0 from rfl, UInt8.or_zero] at alone
  exact alone

theorem keyGroup_encode (a b c : UInt8) (bytes : Bytes) :
    keyGroup a b c ++ Base64.encode bytes = Base64.encode (a :: b :: c :: bytes) := by
  have first := a.toNat_lt
  have second := b.toNat_lt
  have third := c.toNat_lt
  have last : (c &&& 63).toNat = c.toNat % 64 := low_bits c (k := 6) rfl
  unfold keyGroup
  rw [@b64Digit_digit _ ((a.toNat * 256 + b.toNat) * 256 + c.toNat) 3 (by rw [index_first]; omega),
    @b64Digit_digit _ ((a.toNat * 256 + b.toNat) * 256 + c.toNat) 2 (by rw [index_second]; omega),
    @b64Digit_digit _ ((a.toNat * 256 + b.toNat) * 256 + c.toNat) 1 (by rw [index_third]; omega),
    @b64Digit_digit _ ((a.toNat * 256 + b.toNat) * 256 + c.toNat) 0 (by rw [last]; omega)]
  rfl

theorem pair_encode (a b : UInt8) :
    [b64Digit ((a >>> 2) &&& 63), b64Digit (((a &&& 3) <<< 4) ||| ((b &&& 240) >>> 4)), b64Digit ((b &&& 15) <<< 2), 61] =
      Base64.encode [a, b] := by
  have first := a.toNat_lt
  have second := b.toNat_lt
  unfold Base64.encode
  rw [@b64Digit_digit _ ((a.toNat * 256 + b.toNat) * 4) 2 (by rw [index_first]; omega),
    @b64Digit_digit _ ((a.toNat * 256 + b.toNat) * 4) 1 (by rw [index_second]; omega),
    @b64Digit_digit _ ((a.toNat * 256 + b.toNat) * 4) 0 (by rw [index_alone]; omega)]

theorem base64_encode {src : Bytes} (twenty : src.length = 20) :
    base64 src = Base64.encode src ∧ (base64 src).length = 28 := by
  match src, twenty with
  | [s0, s1, s2, s3, s4, s5, s6, s7, s8, s9, s10, s11, s12, s13, s14, s15, s16, s17, s18, s19], _ =>
    refine ⟨?_, rfl⟩
    rw [← keyGroup_encode, ← keyGroup_encode, ← keyGroup_encode, ← keyGroup_encode, ← keyGroup_encode, ← keyGroup_encode,
      ← pair_encode]
    rfl

end Characters

/-- The accept value of every key is the encoded digest of the key and the fixed text, and it is the only answer that
    the client accepts. -/
theorem generate_standard {key : Bytes} (chars : key.length = 24) :
    generate key = Base64.encode (messageDigest (key ++ guid)) ∧ (generate key).length = 28 ∧
      ∀ accept, validateAccept generate key accept = true ↔ accept = Base64.encode (messageDigest (key ++ guid)) := by
  have sixty : (key ++ guid).length = 60 := by
    rw [List.length_append, chars, guidLength]
  obtain ⟨first, second⟩ := pad_blocks chars
  obtain ⟨encoded, size⟩ := @base64_encode (messageDigest (key ++ guid)) rfl
  have own : generate key = base64 (messageDigest (key ++ guid)) := by
    rw [messageDigest_two sixty, first, second]
    unfold generate
    dsimp only
    rw [digest_bytes, sha1_compress, sha1_compress]
    rfl
  rw [own]
  refine ⟨encoded, size, fun accept => ?_⟩
  unfold validateAccept
  rw [own, Bool.and_eq_true, beq_iff_eq, beq_iff_eq, ← encoded]
  constructor
  · rintro ⟨-, same⟩
    exact same.symm
  · rintro rfl
    exact ⟨size, rfl⟩

theorem generate_standard_sample :
    validateAccept generate (ascii "dGhlIHNhbXBsZSBub25jZQ==")
      (Base64.encode (messageDigest (ascii "dGhlIHNhbXBsZSBub25jZQ==" ++ guid))) = true :=
  ((@generate_standard (ascii "dGhlIHNhbXBsZSBub25jZQ==") (by decide +kernel)).2.2 _).mpr rfl

end Uws.WebSocket
