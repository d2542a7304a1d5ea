import Mathlib

/-! The secure hash algorithm SHA-1, and the registers of an implementation that rotates through an array. -/

namespace Uws.Sha1

def rotl (bits x : UInt32) : UInt32 := x <<< bits ||| x >>> (32 - bits)

def choose (x y z : UInt32) : UInt32 := x &&& y ^^^ ~~~x &&& z
def parity (x y z : UInt32) : UInt32 := x ^^^ y ^^^ z
def majority (x y z : UInt32) : UInt32 := x &&& y ^^^ x &&& z ^^^ y &&& z

def logic (t : Nat) : UInt32 → UInt32 → UInt32 → UInt32 :=
  if t < 20 then choose else if t < 40 then parity else if t < 60 then majority else parity

def constant (t : Nat) : UInt32 :=
  if t < 20 then 0x5a827999 else if t < 40 then 0x6ed9eba1 else if t < 60 then 0x8f1bbcdc else 0xca62c1d6

abbrev Block := Vector UInt32 16

def schedule (block : Block) (t : Nat) : UInt32 :=
  if first : t < 16 then block[t]
  else rotl 1 (schedule block (t - 3) ^^^ schedule block (t - 8) ^^^ schedule block (t - 14) ^^^ schedule block (t - 16))
termination_by t

@[ext]
structure Registers where
  a : UInt32
  b : UInt32
  c : UInt32
  d : UInt32
  e : UInt32

def round (block : Block) (t : Nat) (r : Registers) : Registers where
  a := rotl 5 r.a + logic t r.b r.c r.d + r.e + constant t + schedule block t
  b := r.a
  c := rotl 30 r.b
  d := r.c
  e := r.d

def rounds (block : Block) : Nat → Registers → Registers
  | 0, r => r
  | t + 1, r => round block t (rounds block t r)

def compress (r : Registers) (block : Block) : Registers :=
  let last := rounds block 80 r
  ⟨r.a + last.a, r.b + last.b, r.c + last.c, r.d + last.d, r.e + last.e⟩

def initial : Registers := ⟨0x67452301, 0xefcdab89, 0x98badcfe, 0x10325476, 0xc3d2e1f0⟩

def sizeBytes (size : Nat) : List UInt8 := (List.range 8).map fun i => UInt8.ofNat (size >>> (56 - 8 * i))

/-- A one bit, zeros, and the number of bits in 64 bits fill the last block. -/
def pad (message : List UInt8) : List UInt8 :=
  message ++ [0x80] ++ List.replicate ((119 - message.length % 64) % 64) 0 ++ sizeBytes (8 * message.length)

def wordAt (bytes : List UInt8) (i : Nat) : UInt32 :=
  (bytes.getD (4 * i) 0).toUInt32 <<< 24 ||| (bytes.getD (4 * i + 1) 0).toUInt32 <<< 16 |||
    (bytes.getD (4 * i + 2) 0).toUInt32 <<< 8 ||| (bytes.getD (4 * i + 3) 0).toUInt32

def blockAt (bytes : List UInt8) (n : Nat) : Block := Vector.ofFn fun i : Fin 16 => wordAt bytes (16 * n + i)

def bytesOf (word : UInt32) : List UInt8 :=
  [(word >>> 24).toUInt8, (word >>> 16).toUInt8, (word >>> 8).toUInt8, word.toUInt8]

def Registers.digest (r : Registers) : List UInt8 :=
  bytesOf r.a ++ bytesOf r.b ++ bytesOf r.c ++ bytesOf r.d ++ bytesOf r.e

def messageDigest (message : List UInt8) : List UInt8 :=
  let bytes := pad message
  ((List.range (bytes.length / 64)).foldl (fun r n => compress r (blockAt bytes n)) initial).digest

theorem schedule_first (block : Block) {t : Nat} (first : t < 16) : schedule block t = block[t] := by
  rw [schedule, dif_pos first]

theorem schedule_next (block : Block) (t : Nat) :
    schedule block (t + 16) =
      rotl 1 (schedule block (t + 13) ^^^ schedule block (t + 8) ^^^ schedule block (t + 2) ^^^ schedule block t) := by
  rw [schedule, dif_neg (by omega)]
  rfl

theorem wordAt_left {left right : List UInt8} {i : Nat} (inside : 4 * i + 3 < left.length) :
    wordAt (left ++ right) i = wordAt left i := by
  unfold wordAt
  rw [List.getD_append _ _ _ _ (by omega), List.getD_append _ _ _ _ (by omega), List.getD_append _ _ _ _ (by omega),
    List.getD_append _ _ _ _ (by omega)]

theorem wordAt_right {left right : List UInt8} {n : Nat} (whole : left.length = 4 * n) (i : Nat) :
    wordAt (left ++ right) (n + i) = wordAt right i := by
  have shift : ∀ k, (left ++ right).getD (4 * (n + i) + k) 0 = right.getD (4 * i + k) 0 := by
    intro k
    rw [List.getD_append_right _ _ _ _ (by omega), show 4 * (n + i) + k - left.length = 4 * i + k by omega]
  have none_ := shift 0
  rw [Nat.add_zero, Nat.add_zero] at none_
  unfold wordAt
  rw [none_, shift, shift, shift]

/-! Other ways to write the functions of the rounds. -/

theorem word_ext {x y : UInt32} (bits : ∀ i (small : i < 32), x.toBitVec[i] = y.toBitVec[i]) : x = y :=
  UInt32.toBitVec_inj.mp (BitVec.eq_of_getElem_eq bits)

theorem choose_select (x y z : UInt32) : x &&& (y ^^^ z) ^^^ z = choose x y z := by
  apply word_ext
  intro i small
  simp only [choose, UInt32.toBitVec_xor, UInt32.toBitVec_and, UInt32.toBitVec_not, BitVec.getElem_xor, BitVec.getElem_and,
    BitVec.getElem_not]
  generalize x.toBitVec[i] = p
  generalize y.toBitVec[i] = q
  generalize z.toBitVec[i] = r
  cases p <;> cases q <;> cases r <;> rfl

theorem majority_or (x y z : UInt32) : (x ||| y) &&& z ||| x &&& y = majority x y z := by
  apply word_ext
  intro i small
  simp only [majority, UInt32.toBitVec_xor, UInt32.toBitVec_and, UInt32.toBitVec_or, BitVec.getElem_xor, BitVec.getElem_and,
    BitVec.getElem_or]
  generalize x.toBitVec[i] = p
  generalize y.toBitVec[i] = q
  generalize z.toBitVec[i] = r
  cases p <;> cases q <;> cases r <;> rfl

/-! A ring of `n` cells that keeps the last values of a sequence. -/

section Ring

variable {α : Type*} {n : Nat} {values : Nat → α} {first : Nat} {ring : Vector α n}

/-- The cells hold the values from `first` on, each at the remainder of its number. -/
def Window (values : Nat → α) (first : Nat) (ring : Vector α n) : Prop :=
  ∀ i (cell : i % n < n), first ≤ i → i < first + n → ring[i % n] = values i

theorem Window.read (window : Window values first ring) {i j : Nat} (cell : j % n < n) (same : j % n = i % n)
    (after : first ≤ i) (before : i < first + n) : ring[j % n] = values i := by
  have own := window i (same ▸ cell) after before
  simp only [same]
  exact own

theorem Window.push (window : Window values first ring) {j : Nat} (cell : j % n < n) (same : j % n = first % n) {value : α}
    (next : value = values (first + n)) : Window values (first + 1) (ring.set (j % n) value) := by
  intro i inside after before
  rw [Vector.getElem_set]
  by_cases new : i = first + n
  · subst new
    rw [if_pos (by rw [same, Nat.add_mod_right]), next]
  · have old : j % n ≠ i % n := by
      intro clash
      rw [same] at clash
      have apart : (i - first) % n = 0 := (Nat.modEq_iff_dvd' (by omega)).mp clash |> Nat.mod_eq_zero_of_dvd
      rw [Nat.mod_eq_of_lt (by omega)] at apart
      omega
    rw [if_neg old]
    exact window i inside (by omega) (by omega)

end Ring

/-! The five registers in an array that turns by one cell a round. -/

/-- Before round `t` the last register is in cell `t % 5`, and the others follow it. -/
structure Rotated (t : Nat) (cells : Vector UInt32 5) (r : Registers) : Prop where
  e : cells.get (Fin.ofNat 5 t) = r.e
  d : cells.get (Fin.ofNat 5 (1 + t)) = r.d
  c : cells.get (Fin.ofNat 5 (2 + t)) = r.c
  b : cells.get (Fin.ofNat 5 (3 + t)) = r.b
  a : cells.get (Fin.ofNat 5 (4 + t)) = r.a

theorem Rotated.same {t i : Nat} {cells : Vector UInt32 5} {r : Registers} (rotated : Rotated t cells r)
    (same : i % 5 = t % 5) : Rotated i cells r := by
  have own : Fin.ofNat 5 i = Fin.ofNat 5 t := Fin.ext same
  have shift : ∀ k, Fin.ofNat 5 (k + i) = Fin.ofNat 5 (k + t) := fun k => Fin.ext (show (k + i) % 5 = (k + t) % 5 by omega)
  constructor
  · rw [own]
    exact rotated.e
  · rw [shift]
    exact rotated.d
  · rw [shift]
    exact rotated.c
  · rw [shift]
    exact rotated.b
  · rw [shift]
    exact rotated.a

theorem Rotated.turn {t : Nat} {cells : Vector UInt32 5} {r : Registers} (rotated : Rotated t cells r) (value : UInt32) :
    Rotated (t + 1) ((cells.set (Fin.ofNat 5 t) value).set (Fin.ofNat 5 (3 + t)) (rotl 30 r.b))
      ⟨value, r.a, rotl 30 r.b, r.c, r.d⟩ := by
  have kept : ∀ i, i % 5 ≠ t % 5 → i % 5 ≠ (3 + t) % 5 →
      ((cells.set (Fin.ofNat 5 t) value).set (Fin.ofNat 5 (3 + t)) (rotl 30 r.b)).get (Fin.ofNat 5 i) =
        cells.get (Fin.ofNat 5 i) := by
    intro i first fourth
    show ((cells.set (t % 5) value).set ((3 + t) % 5) (rotl 30 r.b))[i % 5] = cells[i % 5]
    rw [Vector.getElem_set_ne _ _ (Ne.symm fourth), Vector.getElem_set_ne _ _ (Ne.symm first)]
  constructor
  · rw [kept _ (by omega) (by omega), Nat.add_comm t 1]
    exact rotated.d
  · rw [kept _ (by omega) (by omega), show 1 + (t + 1) = 2 + t by omega]
    exact rotated.c
  · rw [show 2 + (t + 1) = 3 + t by omega]
    exact Vector.getElem_set_self _
  · rw [kept _ (by omega) (by omega), show 3 + (t + 1) = 4 + t by omega]
    exact rotated.a
  · have last : Fin.ofNat 5 (4 + (t + 1)) = Fin.ofNat 5 t := Fin.ext (show (4 + (t + 1)) % 5 = t % 5 by omega)
    rw [last]
    show ((cells.set (t % 5) value).set ((3 + t) % 5) (rotl 30 r.b))[t % 5] = value
    rw [Vector.getElem_set_ne _ _ (by omega), Vector.getElem_set_self]

end Uws.Sha1
