import Mathlib

/-! The base64 encoding: three bytes are four digits of six bits, and the end is filled. -/

namespace Uws.Base64

def alphabet : List UInt8 :=
  "ABCDEFGHIJKLMNOPQRSTUVWXYZabcdefghijklmnopqrstuvwxyz0123456789+/".toList.map fun c => UInt8.ofNat c.toNat

/-- The character of digit `i` of a number, counted from its end. -/
def digit (value i : Nat) : UInt8 := alphabet.getD (value / 64 ^ i % 64) 0

abbrev filler : UInt8 := 61

def encode : List UInt8 → List UInt8
  | a :: b :: c :: bytes =>
    let value := (a.toNat * 256 + b.toNat) * 256 + c.toNat
    digit value 3 :: digit value 2 :: digit value 1 :: digit value 0 :: encode bytes
  | [a, b] =>
    -- two zero bits follow
    let value := (a.toNat * 256 + b.toNat) * 4
    [digit value 2, digit value 1, digit value 0, filler]
  | [a] =>
    -- four zero bits follow
    let value := a.toNat * 16
    [digit value 1, digit value 0, filler, filler]
  | [] => []

end Uws.Base64
