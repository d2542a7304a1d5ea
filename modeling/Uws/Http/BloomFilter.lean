import Uws.Http.ChunkedEncoding

namespace Uws.Http

/-- The set bits of the filter's `std::bitset<256>`. -/
structure BloomFilter where
  filter : List UInt8 := []
  deriving DecidableEq, Repr

namespace BloomFilter

def reset : BloomFilter := ⟨[]⟩

def perfectHash (features : UInt32) : UInt32 := features * 1843993368

/-- The first, last, last but one and middle byte of a key, as one little-endian word. -/
def getFeatures (key : Bytes) : UInt32 :=
  (key.getD 0 0).toUInt32 ||| ((key.getD (key.length - 1) 0).toUInt32 <<< 8) |||
    ((key.getD (key.length - 2) 0).toUInt32 <<< 16) ||| ((key.getD (key.length / 2) 0).toUInt32 <<< 24)

def scramble (key : Bytes) : List UInt8 :=
  let val := perfectHash (getFeatures key)
  [val.toUInt8, (val >>> 8).toUInt8, (val >>> 16).toUInt8, (val >>> 24).toUInt8]

def mightHave (bf : BloomFilter) (key : Bytes) : Bool :=
  if key.length < 2 then true else (scramble key).all bf.filter.contains

def add (bf : BloomFilter) (key : Bytes) : BloomFilter :=
  if 2 ≤ key.length then ⟨scramble key ++ bf.filter⟩ else bf

theorem mightHave_add (bf : BloomFilter) (key : Bytes) : (bf.add key).mightHave key = true := by
  unfold mightHave add
  by_cases short : key.length < 2
  · simp [short]
  · simp only [short, if_false, show 2 ≤ key.length by omega, if_true, List.all_eq_true]
    intro position member
    simp [member]

theorem mightHave_add_of {bf : BloomFilter} {key : Bytes} (had : bf.mightHave key = true) (other : Bytes) :
    (bf.add other).mightHave key = true := by
  unfold mightHave at had ⊢
  by_cases short : key.length < 2
  · simp [short]
  · simp only [short, if_false, List.all_eq_true] at had ⊢
    intro position member
    unfold add
    have own := had position member
    split <;> simp_all

theorem mightHave_foldl_of {bf : BloomFilter} {key : Bytes} (had : bf.mightHave key = true) (keys : List Bytes) :
    (keys.foldl add bf).mightHave key = true := by
  induction keys generalizing bf with
  | nil => exact had
  | cons other keys ih => exact ih (mightHave_add_of had other)

theorem mightHave_foldl (bf : BloomFilter) (keys : List Bytes) {key : Bytes} (member : key ∈ keys) :
    (keys.foldl add bf).mightHave key = true := by
  induction keys generalizing bf with
  | nil => cases member
  | cons other keys ih =>
    rcases List.mem_cons.mp member with rfl | later
    · exact mightHave_foldl_of (mightHave_add bf key) keys
    · exact ih (bf.add other) later

end BloomFilter

end Uws.Http
