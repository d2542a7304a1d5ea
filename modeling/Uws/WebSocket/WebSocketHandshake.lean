import Uws.Library.Sha1
import Uws.Library.Base64
import Uws.WebSocket.WebSocketClientHandshake

namespace Uws.WebSocket

open Uws.Http (Bytes ascii)
open Uws.Sha1

def staticFor {σ : Type} (f : Nat → σ → σ) : Nat → σ → σ
  | 0, x => x
  | n + 1, x => f n (staticFor f n x)

structure Arrays where
  a : Vector UInt32 5
  b : Vector UInt32 16

def rol (value bits : UInt32) : UInt32 := value <<< bits ||| value >>> (32 - bits)

def blk (b : Vector UInt32 16) (i : Nat) : UInt32 :=
  rol (b[(i + 13) % 16] ^^^ b[(i + 8) % 16] ^^^ b[(i + 2) % 16] ^^^ b[i % 16]) 1

/-- The two updates of `a` in the first five loops, with their function, constant and word. -/
def sha1Loop (f : UInt32 → UInt32 → UInt32 → UInt32) (k : UInt32) (i : Nat) (word : UInt32) (x : Arrays) : Arrays :=
  let a := x.a.set (i % 5)
    (x.a[i % 5] + (f x.a[(3 + i) % 5] x.a[(2 + i) % 5] x.a[(1 + i) % 5] + word + k + rol x.a[(4 + i) % 5] 5))
  { x with a := a.set ((3 + i) % 5) (rol a[(3 + i) % 5] 30) }

def sha1Loop1 (i : Nat) (x : Arrays) : Arrays :=
  sha1Loop (fun b c d => b &&& (c ^^^ d) ^^^ d) 0x5a827999 i x.b[i % 16] x

def sha1Loop2 (i : Nat) (x : Arrays) : Arrays :=
  let x := { x with b := x.b.set (i % 16) (blk x.b i) }
  sha1Loop (fun b c d => b &&& (c ^^^ d) ^^^ d) 0x5a827999 (1 + i) x.b[i % 16] x

def sha1Loop3 (i : Nat) (x : Arrays) : Arrays :=
  let x := { x with b := x.b.set ((i + 4) % 16) (blk x.b ((i + 4) % 16)) }
  sha1Loop (fun b c d => b ^^^ c ^^^ d) 0x6ed9eba1 i x.b[(i + 4) % 16] x

def sha1Loop4 (i : Nat) (x : Arrays) : Arrays :=
  let x := { x with b := x.b.set ((i + 8) % 16) (blk x.b ((i + 8) % 16)) }
  sha1Loop (fun b c d => (b ||| c) &&& d ||| b &&& c) 0x8f1bbcdc i x.b[(i + 8) % 16] x

def sha1Loop5 (i : Nat) (x : Arrays) : Arrays :=
  let x := { x with b := x.b.set ((i + 12) % 16) (blk x.b ((i + 12) % 16)) }
  sha1Loop (fun b c d => b ^^^ c ^^^ d) 0xca62c1d6 i x.b[(i + 12) % 16] x

def sha1Loop6 (a : Vector UInt32 5) (i : Nat) (hash : Vector UInt32 5) : Vector UInt32 5 :=
  hash.set (i % 5) (hash[i % 5] + a[4 - i])

def sha1 (hash : Vector UInt32 5) (b : Vector UInt32 16) : Vector UInt32 5 :=
  let x : Arrays := ⟨#v[hash[4], hash[3], hash[2], hash[1], hash[0]], b⟩
  let x := staticFor sha1Loop1 16 x
  let x := staticFor sha1Loop2 4 x
  let x := staticFor sha1Loop3 20 x
  let x := staticFor sha1Loop4 20 x
  let x := staticFor sha1Loop5 20 x
  staticFor (sha1Loop6 x.a) 5 hash

/-- The characters of 20 bytes: six groups of three, and the two bytes that remain. -/
def base64 (src : Bytes) : Bytes :=
  let at_ := fun i => src.getD i 0
  ((List.range 6).flatMap fun j => keyGroup (at_ (3 * j)) (at_ (3 * j + 1)) (at_ (3 * j + 2))) ++
    [b64Digit ((at_ 18 >>> 2) &&& 63), b64Digit (((at_ 18 &&& 3) <<< 4) ||| ((at_ 19 &&& 240) >>> 4)),
      b64Digit ((at_ 19 &&& 15) <<< 2), 61]

def inputWord (input : Bytes) (i : Nat) : UInt32 :=
  let at_ := fun i => (input.getD i 0).toUInt32
  at_ (4 * i + 3) ||| at_ (4 * i + 2) <<< 8 ||| at_ (4 * i + 1) <<< 16 ||| at_ (4 * i) <<< 24

def outputBytes (tmp : UInt32) : Bytes :=
  [((tmp >>> 24) &&& 0xff).toUInt8, ((tmp >>> 16) &&& 0xff).toUInt8, ((tmp >>> 8) &&& 0xff).toUInt8, (tmp &&& 0xff).toUInt8]

/-- The value of Sec-WebSocket-Accept for a key of 24 characters. -/
def generate (input : Bytes) : Bytes :=
  let b_output := #v[0x67452301, 0xefcdab89, 0x98badcfe, 0x10325476, 0xc3d2e1f0]
  let b_input := #v[inputWord input 0, inputWord input 1, inputWord input 2, inputWord input 3, inputWord input 4,
    inputWord input 5, 0x32353845, 0x41464135, 0x2d453931, 0x342d3437, 0x44412d39, 0x3543412d, 0x43354142, 0x30444338,
    0x35423131, 0x80000000]
  let b_output := sha1 b_output b_input
  let last_b := #v[0, 0, 0, 0, 0, 0, 0, 0, 0, 0, 0, 0, 0, 0, 0, 480]
  let b_output := sha1 b_output last_b
  base64 (b_output.toList.flatMap outputBytes)

example : generate (ascii "dGhlIHNhbXBsZSBub25jZQ==") = ascii "s3pPLMBiTxaQ9kYGzzhZRbK+xOo=" := by decide +kernel

end Uws.WebSocket
