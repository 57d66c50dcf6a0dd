/-
  Kubek.Instance.DockerLogs

  `demuxLogBuffer` of docker-logs.ts. The log of a container without a TTY comes in frames:
  an 8 byte header (stream type, three zero bytes, big endian size) and the payload.

  A buffer of frames that is cut anywhere gives the payload that is there, by induction over
  the frames with what has been read already in front (`demuxFrom_wire`). A buffer that does
  not begin with a header is raw output, but the loop looks at eight bytes or at none.
-/

import Mathlib.Algebra.Ring.Nat
import Kubek.Lib.Utf8

namespace Kubek.Instance.DockerLogs

abbrev Bytes := List UInt8
abbrev Text := List UInt16

/-! ## Buffers -/

/-- `buf[i]`, as a number. -/
def byteAt (buf : Bytes) (i : Nat) : Nat := (buf.getD i 0).toNat

/-- `buf.readUInt32BE(offset)`. -/
def readUInt32BE (buf : Bytes) (offset : Nat) : Nat :=
  byteAt buf offset * 0x1000000 + byteAt buf (offset + 1) * 0x10000 +
    byteAt buf (offset + 2) * 0x100 + byteAt buf (offset + 3)

/-- `buf.subarray(start, end)`. -/
def subarray (buf : Bytes) (start stop : Nat) : Bytes := (buf.drop start).take (stop - start)

/-- `buf.toString("utf8")`. -/
def toText (buf : Bytes) : Text := Utf8.units (Utf8.decode buf)

/-! ## Demultiplexing -/

/-- The bytes at `offset` are no header. -/
def noHeader (buf : Bytes) (offset : Nat) : Bool :=
  byteAt buf offset > 2 || byteAt buf (offset + 1) != 0 || byteAt buf (offset + 2) != 0 ||
    byteAt buf (offset + 3) != 0

/-- The loop from `offset` on: the payloads, or `none` where it finds raw output. -/
def demuxFrom (buf : Bytes) (offset : Nat) (parts : List Bytes) : Option (List Bytes) :=
  if offset + 8 ≤ buf.length then
    let size := readUInt32BE buf (offset + 4)
    if noHeader buf offset then none
    else
      demuxFrom buf (offset + 8 + size)
        (parts ++ [subarray buf (offset + 8) (offset + 8 + size)])
  else some parts
termination_by buf.length - offset

def demuxLogBuffer (buf : Bytes) (tty : Bool := false) : Text :=
  if tty then toText buf
  else
    match demuxFrom buf 0 [] with
    | none => toText buf
    | some parts => toText parts.flatten

/-! ## Frames -/

/-- One chunk of a stream: 0 is stdin, 1 is stdout, 2 is stderr. -/
structure Frame where
  type : Fin 3
  payload : Bytes
  fits : payload.length < 2 ^ 32

/-- Four bytes, the highest first. -/
def uint32BE (n : Nat) : Bytes :=
  [(n / 0x1000000).toUInt8, (n / 0x10000).toUInt8, (n / 0x100).toUInt8, n.toUInt8]

namespace Frame

def header (f : Frame) : Bytes := UInt8.ofNat f.type :: 0 :: 0 :: 0 :: uint32BE f.payload.length

def wire (f : Frame) : Bytes := f.header ++ f.payload

/-- The bytes of a frame, each with whether it is of the payload. -/
def marked (f : Frame) : List (UInt8 × Bool) :=
  f.header.map (·, false) ++ f.payload.map (·, true)

end Frame

/-- What docker sends. -/
def wire (frames : List Frame) : Bytes := frames.flatMap Frame.wire

/-- The bytes of the payload among marked bytes. -/
def payloadOf (bytes : List (UInt8 × Bool)) : Bytes := (bytes.filter (·.2)).map (·.1)

/-- The bytes of the payload among the first `n` bytes of what docker sends. -/
def presentPayload (frames : List Frame) (n : Nat) : Bytes :=
  payloadOf ((frames.flatMap Frame.marked).take n)

/-- The buffer begins with a header: a stream type, three zero bytes and four of a size. -/
def BeginsWithHeader (buf : Bytes) : Prop :=
  ∃ (type : UInt8) (size rest : Bytes), type ≤ 2 ∧ size.length = 4 ∧
    buf = type :: 0 :: 0 :: 0 :: (size ++ rest)

/-! ## Reading behind a front -/

section Front

variable (front : Bytes)

theorem byteAt_append (rest : Bytes) (i : Nat) :
    byteAt (front ++ rest) (front.length + i) = byteAt rest i := by
  rw [byteAt, byteAt, List.getD_eq_getElem?_getD, List.getD_eq_getElem?_getD,
    List.getElem?_append_right (Nat.le_add_right _ _), Nat.add_sub_cancel_left]

theorem readUInt32BE_append (rest : Bytes) (i : Nat) :
    readUInt32BE (front ++ rest) (front.length + i) = readUInt32BE rest i := by
  simp only [readUInt32BE, Nat.add_assoc, byteAt_append]

theorem noHeader_append (rest : Bytes) :
    noHeader (front ++ rest) front.length = noHeader rest 0 := by
  have h_first : byteAt (front ++ rest) front.length = byteAt rest 0 := byteAt_append front rest 0
  simp only [noHeader, h_first, byteAt_append, Nat.zero_add]

end Front

theorem readUInt32BE_uint32BE {n : Nat} (h : n < 2 ^ 32) (rest : Bytes) :
    readUInt32BE (uint32BE n ++ rest) 0 = n := by
  have h_bytes : ∀ k : Nat, (Nat.toUInt8 k).toNat = k % 256 := fun k => UInt8.toNat_ofNat'
  show (n / 0x1000000).toUInt8.toNat * 0x1000000 + (n / 0x10000).toUInt8.toNat * 0x10000 +
    (n / 0x100).toUInt8.toNat * 0x100 + n.toUInt8.toNat = n
  simp only [h_bytes]
  omega

namespace Frame

variable (f : Frame)

theorem length_header : f.header.length = 8 := rfl

theorem noHeader_header (rest : Bytes) : noHeader (f.header ++ rest) 0 = false := by
  have h_type : byteAt (f.header ++ rest) 0 ≤ 2 := by
    show (UInt8.ofNat f.type).toNat ≤ 2
    rw [UInt8.toNat_ofNat']
    have := f.type.isLt
    omega
  have h_zero : ∀ i, 1 ≤ i → i < 4 → byteAt (f.header ++ rest) i = 0 := by
    intro i h_one h_four
    obtain rfl | rfl | rfl : i = 1 ∨ i = 2 ∨ i = 3 := by omega
    all_goals rfl
  rw [noHeader, decide_eq_false (Nat.not_lt.mpr h_type), h_zero (0 + 1) (by omega) (by omega),
    h_zero (0 + 2) (by omega) (by omega), h_zero (0 + 3) (by omega) (by omega)]
  rfl

theorem size_header (rest : Bytes) : readUInt32BE (f.header ++ rest) 4 = f.payload.length := by
  have h_front : f.header ++ rest =
      [UInt8.ofNat f.type, 0, 0, 0] ++ (uint32BE f.payload.length ++ rest) := rfl
  rw [h_front]
  exact (readUInt32BE_append _ _ 0).trans (readUInt32BE_uint32BE f.fits rest)

end Frame

/-! ## Where the loop ends and how it goes on -/

theorem demuxFrom_end {buf : Bytes} {offset : Nat} (h : buf.length < offset + 8)
    (parts : List Bytes) : demuxFrom buf offset parts = some parts := by
  rw [demuxFrom, if_neg (by omega)]

theorem demuxFrom_frame (front rest : Bytes) (f : Frame) (parts : List Bytes) :
    demuxFrom (front ++ (f.header ++ rest)) front.length parts =
      demuxFrom (front ++ (f.header ++ rest)) (front.length + 8 + f.payload.length)
        (parts ++ [rest.take f.payload.length]) := by
  have h_room : front.length + 8 ≤ (front ++ (f.header ++ rest)).length := by
    rw [List.length_append, List.length_append, f.length_header]
    omega
  have h_none : noHeader (front ++ (f.header ++ rest)) front.length = false :=
    (noHeader_append front _).trans (f.noHeader_header rest)
  have h_size : readUInt32BE (front ++ (f.header ++ rest)) (front.length + 4) =
      f.payload.length :=
    (readUInt32BE_append front _ 4).trans (f.size_header rest)
  have h_rest : (front ++ (f.header ++ rest)).drop (front.length + 8) = rest := by
    rw [← List.append_assoc]
    exact List.drop_left' (by rw [List.length_append, f.length_header])
  rw [demuxFrom, if_pos h_room]
  simp only [h_none, h_size, Bool.false_eq_true, if_false, subarray, h_rest,
    Nat.add_sub_cancel_left]

/-! ## Cuts -/

theorem payloadOf_append (xs ys : List (UInt8 × Bool)) :
    payloadOf (xs ++ ys) = payloadOf xs ++ payloadOf ys := by
  rw [payloadOf, List.filter_append, List.map_append, payloadOf, payloadOf]

@[simp] theorem payloadOf_header (bytes : Bytes) : payloadOf (bytes.map (·, false)) = [] := by
  induction bytes with
  | nil => rfl
  | cons b bytes ih => exact ih

@[simp] theorem payloadOf_payload (bytes : Bytes) : payloadOf (bytes.map (·, true)) = bytes := by
  induction bytes with
  | nil => rfl
  | cons b bytes ih =>
    show b :: payloadOf (bytes.map (·, true)) = b :: bytes
    rw [ih]

theorem presentPayload_cons (f : Frame) (frames : List Frame) (n : Nat) :
    presentPayload (f :: frames) n =
      f.payload.take (n - 8) ++ presentPayload frames (n - 8 - f.payload.length) := by
  have h_length : f.marked.length = 8 + f.payload.length := by
    rw [Frame.marked, List.length_append, List.length_map, List.length_map, f.length_header]
  have h_marked : payloadOf (f.marked.take n) = f.payload.take (n - 8) := by
    rw [Frame.marked, List.take_append, payloadOf_append, ← List.map_take, ← List.map_take,
      payloadOf_header, payloadOf_payload, List.length_map, f.length_header, List.nil_append]
  rw [presentPayload, List.flatMap_cons, List.take_append, payloadOf_append, h_marked, h_length,
    presentPayload, Nat.sub_sub]

theorem take_wire_cons (f : Frame) (frames : List Frame) (k : Nat) :
    (wire (f :: frames)).take (8 + k) = f.header ++ (f.payload ++ wire frames).take k := by
  have h_wire : wire (f :: frames) = f.header ++ (f.payload ++ wire frames) :=
    List.append_assoc f.header f.payload (wire frames)
  rw [h_wire, List.take_append, f.length_header, Nat.add_sub_cancel_left,
    List.take_of_length_le (by rw [f.length_header]; omega)]

/-- The loop over frames that are cut after `n` bytes, with `front` read already. -/
theorem demuxFrom_wire (frames : List Frame) (front : Bytes) (n : Nat) (parts : List Bytes) :
    ∃ found, demuxFrom (front ++ (wire frames).take n) front.length parts = some found ∧
      found.flatten = parts.flatten ++ presentPayload frames n := by
  induction frames generalizing front n parts with
  | nil =>
    refine ⟨parts, demuxFrom_end ?_ parts, ?_⟩
    · simp [wire]
    · simp [presentPayload, payloadOf]
  | cons f frames ih =>
    by_cases h_header : n < 8
    · -- not even the header is there
      refine ⟨parts, demuxFrom_end ?_ parts, ?_⟩
      · rw [List.length_append, List.length_take]
        omega
      · rw [presentPayload_cons, Nat.sub_eq_zero_of_le (Nat.le_of_lt h_header), List.take_zero,
          Nat.zero_sub, List.nil_append, presentPayload, List.take_zero]
        exact (List.append_nil _).symm
    · obtain ⟨k, rfl⟩ : ∃ k, n = 8 + k := ⟨n - 8, by omega⟩
      rw [presentPayload_cons, Nat.add_sub_cancel_left, take_wire_cons, demuxFrom_frame,
        List.take_take]
      by_cases h_cut : k ≤ f.payload.length
      · -- the cut is in this payload, and behind it the loop ends
        have h_taken : (f.payload ++ wire frames).take (min f.payload.length k) =
            f.payload.take k := by
          rw [Nat.min_eq_right h_cut, List.take_append_of_le_length h_cut]
        refine ⟨parts ++ [f.payload.take k], ?_, ?_⟩
        · rw [h_taken]
          refine demuxFrom_end ?_ _
          rw [List.length_append, List.length_append, f.length_header, List.length_take]
          omega
        · rw [Nat.sub_eq_zero_of_le h_cut, List.flatten_append, List.flatten_singleton,
            presentPayload, List.take_zero]
          exact congrArg (parts.flatten ++ ·) (List.append_nil _).symm
      · obtain ⟨m, rfl⟩ : ∃ m, k = f.payload.length + m := ⟨k - f.payload.length, by omega⟩
        have h_taken : (f.payload ++ wire frames).take (min f.payload.length
            (f.payload.length + m)) = f.payload := by
          rw [Nat.min_eq_left (Nat.le_add_right _ _), List.take_left]
        have h_front : front ++ (f.header ++ (f.payload ++ wire frames).take
            (f.payload.length + m)) = (front ++ f.wire) ++ (wire frames).take m := by
          rw [List.take_length_add_append, Frame.wire, List.append_assoc, List.append_assoc]
        have h_read : front.length + 8 + f.payload.length = (front ++ f.wire).length := by
          rw [Frame.wire, List.length_append, List.length_append, f.length_header]
          omega
        obtain ⟨found, h_found, h_flatten⟩ := ih (front ++ f.wire) m (parts ++ [f.payload])
        refine ⟨found, ?_, ?_⟩
        · rw [h_taken, h_front, h_read, h_found]
        · rw [h_flatten, List.flatten_append, List.flatten_singleton, Nat.add_sub_cancel_left,
            List.append_assoc, List.take_of_length_le (Nat.le_add_right _ _)]

/-- Frames that are cut anywhere. -/
theorem demuxLogBuffer_wire (frames : List Frame) (n : Nat) :
    demuxLogBuffer ((wire frames).take n) = toText (presentPayload frames n) := by
  obtain ⟨found, h_found, h_flatten⟩ := demuxFrom_wire frames [] n []
  rw [List.nil_append, List.length_nil] at h_found
  rw [demuxLogBuffer, if_neg Bool.false_ne_true, h_found]
  exact congrArg toText h_flatten

/-! ## Raw output -/

theorem noHeader_eq_true {buf : Bytes} (h_length : 8 ≤ buf.length) (h : ¬ BeginsWithHeader buf) :
    noHeader buf 0 = true := by
  match buf, h_length with
  | b :: b₁ :: b₂ :: b₃ :: s₀ :: s₁ :: s₂ :: s₃ :: rest, _ =>
    by_contra h_header
    have h_read : noHeader (b :: b₁ :: b₂ :: b₃ :: s₀ :: s₁ :: s₂ :: s₃ :: rest) 0 =
        (decide (b.toNat > 2) || b₁.toNat != 0 || b₂.toNat != 0 || b₃.toNat != 0) := rfl
    simp only [h_read, Bool.or_eq_true, decide_eq_true_eq, bne_iff_ne, ne_eq, not_or,
      Decidable.not_not] at h_header
    obtain ⟨⟨⟨h_type, h_one⟩, h_two⟩, h_three⟩ := h_header
    have h_zero : ∀ {c : UInt8}, c.toNat = 0 → c = 0 := fun h_c => UInt8.toNat_inj.mp h_c
    refine h ⟨b, [s₀, s₁, s₂, s₃], rest, ?_, rfl, ?_⟩
    · exact UInt8.le_iff_toNat_le.mpr (Nat.not_lt.mp h_type)
    · rw [h_zero h_one, h_zero h_two, h_zero h_three]
      rfl

theorem toText_ne_nil {buf : Bytes} (h : buf ≠ []) : toText buf ≠ [] :=
  Utf8.units_ne_nil (Utf8.decode_ne_nil h)

/-- A buffer that is no frame is raw output, but a short one is dropped. -/
theorem demuxLogBuffer_raw {buf : Bytes} (h : ¬ BeginsWithHeader buf) :
    demuxLogBuffer buf = toText buf ↔ buf = [] ∨ 8 ≤ buf.length := by
  by_cases h_length : 8 ≤ buf.length
  · have h_raw : demuxFrom buf 0 [] = none := by
      rw [demuxFrom, if_pos h_length, noHeader_eq_true h_length h]
      rfl
    rw [demuxLogBuffer, if_neg Bool.false_ne_true, h_raw]
    exact iff_of_true rfl (.inr h_length)
  · have h_short : demuxLogBuffer buf = [] := by
      rw [demuxLogBuffer, if_neg Bool.false_ne_true, demuxFrom_end (by omega)]
      rfl
    rw [h_short]
    refine ⟨fun h_nil => .inl ?_, ?_⟩
    · by_contra h_ne
      exact toText_ne_nil h_ne h_nil.symm
    · rintro (rfl | h_long)
      · rfl
      · exact absurd h_long h_length

/-- The payload of frames that are cut anywhere, and raw output otherwise: for every buffer
    but those of one to seven bytes. -/
theorem demuxLogBuffer_inverts (buf : Bytes) :
    ((∀ frames n, buf = (wire frames).take n →
        demuxLogBuffer buf = toText (presentPayload frames n)) ∧
      (¬ BeginsWithHeader buf → demuxLogBuffer buf = toText buf)) ↔
    buf = [] ∨ 8 ≤ buf.length := by
  constructor
  · rintro ⟨-, h_raw⟩
    by_cases h : BeginsWithHeader buf
    · obtain ⟨type, size, rest, -, h_size, rfl⟩ := h
      refine .inr ?_
      simp only [List.length_cons, List.length_append, h_size]
      omega
    · exact (demuxLogBuffer_raw h).mp (h_raw h)
  · intro h_buf
    refine ⟨?_, fun h => (demuxLogBuffer_raw h).mpr h_buf⟩
    rintro frames n rfl
    exact demuxLogBuffer_wire frames n

/-- The raw output `not`, three bytes, is lost. -/
theorem demuxLogBuffer_drops_short :
    ¬ BeginsWithHeader [0x6E, 0x6F, 0x74] ∧ demuxLogBuffer [0x6E, 0x6F, 0x74] = [] ∧
      toText [0x6E, 0x6F, 0x74] = [0x6E, 0x6F, 0x74] := by
  refine ⟨?_, ?_, by decide⟩
  · rintro ⟨type, size, rest, -, -, h⟩
    cases h
  · rw [demuxLogBuffer, if_neg Bool.false_ne_true, demuxFrom_end (by decide)]
    rfl

end Kubek.Instance.DockerLogs
