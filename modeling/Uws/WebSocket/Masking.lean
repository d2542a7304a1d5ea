import Uws.Http.Headers

namespace Uws.WebSocket

open Uws.Http (Bytes)

/-- The data XORed with the mask, of which the byte at `i` comes first. -/
def unmaskFrom (mask : Bytes) : Nat → Bytes → Bytes
  | _, [] => []
  | i, b :: data => (b ^^^ mask.getD (i % 4) 0) :: unmaskFrom mask (i + 1) data

def xorChunk (chunk mask : Bytes) : Bytes := List.zipWith (· ^^^ ·) chunk mask

def store (buffer : Bytes) (position : Nat) (data : Bytes) : Bytes :=
  buffer.take position ++ (data ++ buffer.drop (position + data.length))

def unmaskImprecise (size destination : Nat) (mask : Bytes) : Nat → Nat → Bytes → Bytes
  | 0, _, buffer => buffer
  | n + 1, src, buffer =>
    let loaded := xorChunk ((buffer.drop src).take size) mask
    unmaskImprecise size destination mask n (src + size) (store buffer (src - destination) loaded)

def unmaskImprecise8 (destination src : Nat) (mask : Bytes) (length : Nat) (buffer : Bytes) : Bytes :=
  unmaskImprecise 8 destination mask (length / 8 + 1) src buffer

def unmaskImprecise4 (destination src : Nat) (mask : Bytes) (length : Nat) (buffer : Bytes) : Bytes :=
  unmaskImprecise 4 destination mask (length / 4 + 1) src buffer

/-- Moves the payload behind a header in front of `src` onto the header. -/
def unmaskImpreciseCopyMask (headerSize src length : Nat) (buffer : Bytes) : Bytes :=
  let mask := (buffer.drop (src - 4)).take 4
  if headerSize ≠ 6 then unmaskImprecise8 headerSize src (mask ++ mask) length buffer
  else unmaskImprecise4 headerSize src mask length buffer

def rotateMask (offset : Nat) (mask : Bytes) : Bytes :=
  let originalMask := mask
  let mask := mask.set ((0 + offset) % 4) (originalMask.getD 0 0)
  let mask := mask.set ((1 + offset) % 4) (originalMask.getD 1 0)
  let mask := mask.set ((2 + offset) % 4) (originalMask.getD 2 0)
  mask.set ((3 + offset) % 4) (originalMask.getD 3 0)

/-- Four bytes a round; the source's `stop` is a number of rounds away. -/
def unmaskInplace : Nat → Bytes → Bytes → Bytes
  | 0, data, _ => data
  | n + 1, data, mask => xorChunk (data.take 4) mask ++ unmaskInplace n (data.drop 4) mask

def unrolledXor : Nat → Bytes → Bytes → Bytes
  | 0, data, _ => data
  | n + 1, data, mask =>
    let data := unrolledXor n data mask
    data.set n (data.getD n 0 ^^^ mask.getD (n % 4) 0)

def recvBufferLength : Nat := 524288

def unmaskAllLoop : Nat → Bytes → Bytes → Bytes
  | 0, data, _ => data
  | n + 1, data, mask =>
    let data := unrolledXor 16 data mask
    data.take 16 ++ unmaskAllLoop n (data.drop 16) mask

def unmaskAll (data mask : Bytes) : Bytes := unmaskAllLoop (recvBufferLength / 16) data mask

@[simp] theorem unmaskFrom_nil (mask : Bytes) (i : Nat) : unmaskFrom mask i [] = [] := rfl

@[simp] theorem unmaskFrom_length (mask data : Bytes) (i : Nat) : (unmaskFrom mask i data).length = data.length := by
  induction data generalizing i with
  | nil => rfl
  | cons b data ih => simp [unmaskFrom, ih]

theorem unmaskFrom_append (mask front back : Bytes) (i : Nat) :
    unmaskFrom mask i (front ++ back) = unmaskFrom mask i front ++ unmaskFrom mask (i + front.length) back := by
  induction front generalizing i with
  | nil => simp
  | cons b front ih =>
    have next : i + 1 + front.length = i + (front.length + 1) := by omega
    simp [unmaskFrom, ih, next]

theorem unmaskFrom_mod (mask data : Bytes) (i j : Nat) (same : i % 4 = j % 4) :
    unmaskFrom mask i data = unmaskFrom mask j data := by
  induction data generalizing i j with
  | nil => rfl
  | cons b data ih =>
    rw [unmaskFrom, unmaskFrom, same, ih (i + 1) (j + 1) (by omega)]

theorem unmaskFrom_unmaskFrom (mask data : Bytes) (i : Nat) : unmaskFrom mask i (unmaskFrom mask i data) = data := by
  induction data generalizing i with
  | nil => rfl
  | cons b data ih => rw [unmaskFrom, unmaskFrom, ih, UInt8.xor_assoc, UInt8.xor_self, UInt8.xor_zero]

theorem xorChunk_eq (mask chunk data : Bytes) (i : Nat) (covers : data.length ≤ chunk.length)
    (same : ∀ j < data.length, chunk.getD j 0 = mask.getD ((i + j) % 4) 0) : xorChunk data chunk = unmaskFrom mask i data := by
  induction data generalizing chunk i with
  | nil => rfl
  | cons b data ih =>
    cases chunk with
    | nil => simp at covers
    | cons c chunk =>
      have first : c = mask.getD (i % 4) 0 := same 0 (by simp)
      have later := ih chunk (i + 1) (by simpa using covers) (fun j less => by
        have next := same (j + 1) (by simpa using less)
        rw [show i + 1 + j = i + (j + 1) by omega, ← next]
        rfl)
      rw [unmaskFrom, ← first, ← later]
      rfl

theorem xorChunk_four {mask data : Bytes} (four : mask.length = 4) :
    xorChunk (data.take 4) mask = unmaskFrom mask 0 (data.take 4) := by
  apply xorChunk_eq
  · simp [four]
  · intro j less
    have small : j < 4 := by
      simp only [List.length_take] at less
      omega
    rw [Nat.zero_add, Nat.mod_eq_of_lt small]

theorem xorChunk_eight {mask data : Bytes} (four : mask.length = 4) :
    xorChunk (data.take 8) (mask ++ mask) = unmaskFrom mask 0 (data.take 8) := by
  apply xorChunk_eq
  · simp [four]
  · intro j less
    have small : j < 8 := by
      simp only [List.length_take] at less
      omega
    rw [Nat.zero_add]
    by_cases low : j < 4
    · rw [Nat.mod_eq_of_lt low, List.getD_append _ _ _ _ (by omega)]
    · rw [List.getD_append_right _ _ _ _ (by omega), four, show j % 4 = j - 4 by omega]

theorem store_drop (buffer data : Bytes) (position src : Nat) (within : position + data.length ≤ src)
    (inside : src ≤ buffer.length) : (store buffer position data).drop src = buffer.drop src := by
  have front : (buffer.take position).length = position := by
    rw [List.length_take]
    omega
  rw [store, List.drop_append, List.drop_append, List.drop_drop, front, List.drop_eq_nil_of_le (by omega),
    List.drop_eq_nil_of_le (by omega)]
  simp only [List.nil_append]
  congr 1
  omega

theorem unmaskImprecise_eq (size destination : Nat) (mask word : Bytes) (n src : Nat) (buffer : Bytes)
    (aligned : size % 4 = 0) (moved : destination ≤ src)
    (xored : ∀ data : Bytes, xorChunk (data.take size) word = unmaskFrom mask 0 (data.take size)) :
    unmaskImprecise size destination word n src buffer =
      buffer.take (src - destination) ++ (unmaskFrom mask 0 ((buffer.drop src).take (n * size)) ++
        buffer.drop (src - destination + ((buffer.drop src).take (n * size)).length)) := by
  induction n generalizing src buffer with
  | zero => simp [unmaskImprecise]
  | succ n ih =>
    have split : (buffer.drop src).take ((n + 1) * size) =
        (buffer.drop src).take size ++ (buffer.drop (src + size)).take (n * size) := by
      rw [Nat.add_mul, Nat.one_mul, Nat.add_comm, List.take_add, List.drop_drop]
    have next : src + size - destination = src - destination + size := by omega
    rw [unmaskImprecise, xored, ih _ _ (by omega), split, unmaskFrom_append, next]
    by_cases last : (buffer.drop src).length ≤ size
    · -- the last chunk: nothing is loaded behind it
      have none : buffer.drop (src + size) = [] := by
        apply List.drop_eq_nil_of_le
        simp only [List.length_drop] at last
        omega
      have nothing : (store buffer (src - destination) (unmaskFrom mask 0 ((buffer.drop src).take size))).drop (src + size) =
          [] := by
        apply List.drop_eq_nil_of_le
        simp only [List.length_drop] at last
        simp only [store, List.length_append, List.length_take, List.length_drop, unmaskFrom_length]
        omega
      rw [none, nothing, store]
      simp
    · have long : src + size < buffer.length := by
        simp only [List.length_drop] at last
        omega
      have full : (unmaskFrom mask 0 ((buffer.drop src).take size)).length = size := by
        rw [unmaskFrom_length, List.length_take, List.length_drop]
        omega
      have taken : ((buffer.drop src).take size).length = size := by
        rw [List.length_take, List.length_drop]
        omega
      have rest : ((buffer.drop (src + size)).take (n * size)).length ≤ buffer.length - (src + size) := by
        rw [List.length_take, List.length_drop]
        omega
      have front : (store buffer (src - destination) (unmaskFrom mask 0 ((buffer.drop src).take size))).take
          (src - destination + size) = buffer.take (src - destination) ++ unmaskFrom mask 0 ((buffer.drop src).take size) := by
        rw [store, ← List.append_assoc, List.take_left']
        rw [List.length_append, full, List.length_take]
        omega
      rw [front, store_drop _ _ _ _ (by omega) (by omega), store_drop _ _ _ _ (by omega) (by omega), List.append_assoc,
        List.append_assoc, List.length_append, taken, unmaskFrom_mod mask _ (0 + size) 0 (by omega), Nat.add_assoc]

theorem unmaskImprecise_frame (size : Nat) (mask word header payload rest : Bytes) (n : Nat) (aligned : size % 4 = 0)
    (xored : ∀ data : Bytes, xorChunk (data.take size) word = unmaskFrom mask 0 (data.take size))
    (covers : payload.length ≤ n * size) (fits : n * size ≤ header.length + payload.length) :
    let moved := unmaskImprecise size header.length word n header.length (header ++ (payload ++ rest))
    moved.take payload.length = unmaskFrom mask 0 payload ∧ moved.drop (header.length + payload.length) = rest := by
  have moved := unmaskImprecise_eq size header.length mask word n header.length (header ++ (payload ++ rest)) aligned
    (Nat.le_refl _) xored
  rw [List.drop_left, Nat.sub_self, List.take_zero, List.nil_append, Nat.zero_add] at moved
  have front : (payload ++ rest).take (n * size) = payload ++ rest.take (n * size - payload.length) := by
    rw [List.take_append, List.take_of_length_le covers]
  have most : ((payload ++ rest).take (n * size)).length ≤ n * size := by
    rw [List.length_take]
    omega
  rw [moved]
  constructor
  · rw [front, unmaskFrom_append, List.append_assoc, List.take_left']
    exact unmaskFrom_length mask payload 0
  · rw [List.drop_append, unmaskFrom_length, List.drop_drop, List.drop_eq_nil_of_le (by rw [unmaskFrom_length]; omega),
      List.nil_append, Nat.add_sub_cancel' (by omega), ← List.append_assoc, List.drop_left']
    exact List.length_append

theorem unmaskImpreciseCopyMask_frame (header payload rest : Bytes)
    (masked : header.length = 6 ∨ header.length = 8 ∨ header.length = 14) :
    let moved := unmaskImpreciseCopyMask header.length header.length payload.length (header ++ (payload ++ rest))
    moved.take payload.length = unmaskFrom (header.drop (header.length - 4)) 0 payload ∧
      moved.drop (header.length + payload.length) = rest := by
  have copied : ((header ++ (payload ++ rest)).drop (header.length - 4)).take 4 = header.drop (header.length - 4) := by
    rw [List.drop_append_of_le_length (by omega), List.take_left']
    rw [List.length_drop]
    omega
  have four : (header.drop (header.length - 4)).length = 4 := by
    rw [List.length_drop]
    omega
  simp only [unmaskImpreciseCopyMask, copied]
  by_cases small : header.length = 6
  · rw [if_neg (not_not.mpr small), unmaskImprecise4]
    exact unmaskImprecise_frame 4 _ _ header payload rest _ rfl (fun _ => xorChunk_four four) (by omega) (by omega)
  · rw [if_pos small, unmaskImprecise8]
    exact unmaskImprecise_frame 8 _ _ header payload rest _ rfl (fun _ => xorChunk_eight four) (by omega) (by omega)

theorem unmaskImprecise8_received (header data mask : Bytes) (length : Nat) (four : mask.length = 4)
    (covers : data.length ≤ length) :
    (unmaskImprecise8 0 header.length (mask ++ mask) length (header ++ data)).drop header.length = unmaskFrom mask 0 data := by
  rw [unmaskImprecise8, unmaskImprecise_eq 8 0 mask _ _ _ _ rfl (Nat.zero_le _) (fun _ => xorChunk_eight four),
    List.drop_left, Nat.sub_zero, List.take_left, List.drop_left, List.take_of_length_le (by omega),
    ← List.length_append, List.drop_length, List.append_nil]

theorem unmaskInplace_eq {mask : Bytes} (four : mask.length = 4) (n : Nat) (data : Bytes) :
    unmaskInplace n data mask = unmaskFrom mask 0 (data.take (4 * n)) ++ data.drop (4 * n) := by
  induction n generalizing data with
  | zero => simp [unmaskInplace]
  | succ n ih =>
    have whole : 4 * (n + 1) = 4 + 4 * n := by omega
    rw [unmaskInplace, ih, xorChunk_four four, whole, List.take_add, unmaskFrom_append, List.drop_drop, List.append_assoc]
    by_cases short : data.length ≤ 4
    · rw [List.drop_eq_nil_of_le short]
      simp
    · have full : (data.take 4).length = 4 := by
        rw [List.length_take]
        omega
      rw [full, unmaskFrom_mod mask _ (0 + 4) 0 rfl]

theorem unrolledXor_eq (mask : Bytes) (n : Nat) (data : Bytes) (inside : n ≤ data.length) :
    unrolledXor n data mask = unmaskFrom mask 0 (data.take n) ++ data.drop n := by
  induction n with
  | zero => simp [unrolledXor]
  | succ n ih =>
    have less : n < data.length := inside
    have front : (unmaskFrom mask 0 (data.take n)).length = n := by
      rw [unmaskFrom_length, List.length_take]
      omega
    have split : data.drop n = data[n] :: data.drop (n + 1) := List.drop_eq_getElem_cons less
    have taken : data.take (n + 1) = data.take n ++ [data[n]] := (List.take_append_getElem less).symm
    have size : (data.take n).length = n := List.length_take_of_le (by omega)
    simp only [unrolledXor]
    rw [ih (by omega), List.getD_append_right _ _ _ _ (by omega), List.set_append_right _ _ (by omega), front, Nat.sub_self, split, taken,
      unmaskFrom_append, size, List.append_assoc]
    simp only [Nat.zero_add, unmaskFrom, List.getD_cons_zero, List.set_cons_zero, List.singleton_append]

theorem unmaskAllLoop_eq (mask : Bytes) (n : Nat) (data : Bytes) (inside : 16 * n ≤ data.length) :
    unmaskAllLoop n data mask = unmaskFrom mask 0 (data.take (16 * n)) ++ data.drop (16 * n) := by
  induction n generalizing data with
  | zero => simp [unmaskAllLoop]
  | succ n ih =>
    have whole : 16 * (n + 1) = 16 + 16 * n := by omega
    have full : (data.take 16).length = 16 := List.length_take_of_le (by omega)
    have front : (unmaskFrom mask 0 (data.take 16)).length = 16 := by rw [unmaskFrom_length, full]
    simp only [unmaskAllLoop]
    rw [unrolledXor_eq mask 16 data (by omega), List.take_left' front, List.drop_left' front,
      ih _ (by rw [List.length_drop]; omega), whole, List.take_add, unmaskFrom_append, List.drop_drop, full,
      unmaskFrom_mod mask _ (0 + 16) 0 rfl, List.append_assoc]

theorem unmaskAll_eq (mask data : Bytes) (full : data.length = recvBufferLength) :
    unmaskAll data mask = unmaskFrom mask 0 data := by
  have whole : 16 * (recvBufferLength / 16) = recvBufferLength := by decide
  rw [unmaskAll, unmaskAllLoop_eq mask _ data (by omega), whole, ← full, List.take_length, List.drop_length,
    List.append_nil]

theorem mask_cases {mask : Bytes} (four : mask.length = 4) : ∃ a b c d, mask = [a, b, c, d] := by
  match mask, four with
  | [a, b, c, d], _ => exact ⟨a, b, c, d, rfl⟩

theorem rotateMask_length {mask : Bytes} (four : mask.length = 4) (offset : Nat) : (rotateMask offset mask).length = 4 := by
  simp [rotateMask, four]

theorem unmaskFrom_rotateMask {mask : Bytes} (four : mask.length = 4) (n i : Nat) (data : Bytes) :
    unmaskFrom (rotateMask (4 - n % 4) mask) i data = unmaskFrom mask (i + n) data := by
  induction data generalizing i with
  | nil => rfl
  | cons b data ih =>
    have byte : (rotateMask (4 - n % 4) mask).getD (i % 4) 0 = mask.getD ((i + n) % 4) 0 := by
      obtain ⟨a, b, c, d, rfl⟩ := mask_cases four
      rw [Nat.add_mod]
      have row : i % 4 = 0 ∨ i % 4 = 1 ∨ i % 4 = 2 ∨ i % 4 = 3 := by omega
      have turn : n % 4 = 0 ∨ n % 4 = 1 ∨ n % 4 = 2 ∨ n % 4 = 3 := by omega
      rcases row with row | row | row | row <;> rcases turn with turn | turn | turn | turn <;> rw [row, turn] <;> rfl
    have next : i + 1 + n = i + n + 1 := by omega
    rw [unmaskFrom, unmaskFrom, ih, byte, next]

/-- The mask as it stands at a position of the payload. -/
structure TurnedTo (key : Bytes) (position : Nat) (mask : Bytes) : Prop where
  four : mask.length = 4
  turned : ∀ i data, unmaskFrom mask i data = unmaskFrom key (position + i) data

namespace TurnedTo

variable {key mask : Bytes} {position : Nat}

theorem start (four : key.length = 4) (length : Nat) : TurnedTo key length (rotateMask (4 - length % 4) key) := by
  refine ⟨rotateMask_length four _, ?_⟩
  intro i data
  rw [unmaskFrom_rotateMask four, Nat.add_comm]

theorem unmask (at_ : TurnedTo key position mask) (data : Bytes) : unmaskFrom mask 0 data = unmaskFrom key position data :=
  at_.turned 0 data

theorem rotate (at_ : TurnedTo key position mask) (length : Nat) :
    TurnedTo key (position + length) (rotateMask (4 - length % 4) mask) := by
  refine ⟨rotateMask_length at_.four _, ?_⟩
  intro i data
  rw [unmaskFrom_rotateMask at_.four, at_.turned, Nat.add_comm i length, Nat.add_assoc]

theorem whole (at_ : TurnedTo key position mask) {length : Nat} (fours : length % 4 = 0) : TurnedTo key (position + length) mask := by
  refine ⟨at_.four, ?_⟩
  intro i data
  rw [at_.turned]
  exact unmaskFrom_mod key data _ _ (by omega)

end TurnedTo

@[simp] theorem unmaskFrom_none (i : Nat) (data : Bytes) : unmaskFrom [] i data = data := by
  induction data generalizing i with
  | nil => rfl
  | cons b data ih => simp [unmaskFrom, ih]

theorem unmaskFrom_zero (i : Nat) (data : Bytes) : unmaskFrom [0, 0, 0, 0] i data = data := by
  induction data generalizing i with
  | nil => rfl
  | cons b data ih =>
    have zero : ([0, 0, 0, 0] : Bytes).getD (i % 4) 0 = 0 := by
      have row : i % 4 = 0 ∨ i % 4 = 1 ∨ i % 4 = 2 ∨ i % 4 = 3 := by omega
      rcases row with row | row | row | row <;> rw [row] <;> rfl
    rw [unmaskFrom, ih, zero, UInt8.xor_zero]

theorem unmaskInplace_tail {mask : Bytes} (four : mask.length = 4) (left : Nat) (data : Bytes) (inside : left ≤ data.length) :
    let rounds := unmaskInplace (left / 4) data mask
    let unmasked := store rounds (left / 4 * 4) (xorChunk ((rounds.drop (left / 4 * 4)).take (left % 4)) mask)
    unmasked.take left = unmaskFrom mask 0 (data.take left) ∧ unmasked.drop left = data.drop left := by
  have front : (unmaskFrom mask 0 (data.take (4 * (left / 4)))).length = left / 4 * 4 := by
    rw [unmaskFrom_length, List.length_take]
    omega
  have rest : ((data.drop (4 * (left / 4))).take (left % 4)).length = left % 4 := by
    rw [List.length_take, List.length_drop]
    omega
  have whole : left = 4 * (left / 4) + left % 4 := by omega
  have tail : xorChunk ((data.drop (4 * (left / 4))).take (left % 4)) mask =
      unmaskFrom mask 0 ((data.drop (4 * (left / 4))).take (left % 4)) := by
    apply xorChunk_eq
    · rw [rest, four]
      omega
    · intro j less
      rw [rest] at less
      rw [Nat.zero_add, Nat.mod_eq_of_lt (by omega)]
  have joined : (unmaskFrom mask 0 (data.take (4 * (left / 4)))) ++
      unmaskFrom mask 0 ((data.drop (4 * (left / 4))).take (left % 4)) = unmaskFrom mask 0 (data.take left) := by
    have split : data.take left = data.take (4 * (left / 4)) ++ (data.drop (4 * (left / 4))).take (left % 4) := by
      conv => lhs; rw [whole]
      rw [List.take_add]
    have taken : (data.take (4 * (left / 4))).length = left / 4 * 4 := by rw [← unmaskFrom_length mask _ 0, front]
    rw [split, unmaskFrom_append, taken, unmaskFrom_mod mask _ (0 + left / 4 * 4) 0 (by omega)]
  have size : (unmaskFrom mask 0 (data.take left)).length = left := by
    rw [unmaskFrom_length, List.length_take]
    omega
  have nothing : (unmaskFrom mask 0 (data.take (4 * (left / 4)))).drop (left / 4 * 4 + left % 4) = [] := by
    apply List.drop_eq_nil_of_le
    omega
  have result : store (unmaskInplace (left / 4) data mask) (left / 4 * 4)
      (xorChunk (((unmaskInplace (left / 4) data mask).drop (left / 4 * 4)).take (left % 4)) mask) =
        unmaskFrom mask 0 (data.take left) ++ data.drop left := by
    rw [unmaskInplace_eq four, List.drop_left' front, tail, store, List.take_left' front, unmaskFrom_length, rest,
      List.drop_append, nothing, front, List.nil_append, List.drop_drop, ← List.append_assoc, joined]
    congr 2
    omega
  simp only [result]
  exact ⟨List.take_left' size, List.drop_left' size⟩

end Uws.WebSocket
