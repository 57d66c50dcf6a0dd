/-
  Kubek.Lib.Utf8

  Decoding UTF-8 byte by byte, with a replacement character for what is not UTF-8, as the
  encoding standard of the web has it: a sequence that breaks off is replaced once, and the
  byte that breaks it off is read anew.

  The decoder is a state machine over bytes, so a stream that is cut anywhere decodes to the
  same characters (`feed_append`). `TextDecoder` adds the byte order mark, which is dropped at
  the beginning of a stream. Texts are lists of UTF-16 code units.
-/

import Mathlib.Data.List.Basic
import Mathlib.Data.List.Induction

namespace Utf8

/-- A sequence that has begun: how many bytes it still needs, the bounds of the next one, and
    its bits so far. -/
structure Sequence where
  left : Nat
  lower : Nat
  upper : Nat
  bits : Nat
  deriving DecidableEq, Repr

/-- Between characters there is no sequence. -/
abbrev State := Option Sequence

def REPLACEMENT : Nat := 0xFFFD
def BOM : Nat := 0xFEFF

/-- The first byte of a sequence. -/
def first (b : UInt8) : State × List Nat :=
  let n := b.toNat
  if n ≤ 0x7F then (none, [n])
  else if 0xC2 ≤ n ∧ n ≤ 0xDF then (some ⟨1, 0x80, 0xBF, n - 0xC0⟩, [])
  else if 0xE0 ≤ n ∧ n ≤ 0xEF then
    (some ⟨2, if n = 0xE0 then 0xA0 else 0x80, if n = 0xED then 0x9F else 0xBF, n - 0xE0⟩, [])
  else if 0xF0 ≤ n ∧ n ≤ 0xF4 then
    (some ⟨3, if n = 0xF0 then 0x90 else 0x80, if n = 0xF4 then 0x8F else 0xBF, n - 0xF0⟩, [])
  else (none, [REPLACEMENT])

/-- One byte: the state after it and the characters that are complete. -/
def step (s : State) (b : UInt8) : State × List Nat :=
  match s with
  | none => first b
  | some q =>
      if q.lower ≤ b.toNat ∧ b.toNat ≤ q.upper then
        let bits := q.bits * 64 + (b.toNat - 0x80)
        if q.left = 1 then (none, [bits]) else (some ⟨q.left - 1, 0x80, 0xBF, bits⟩, [])
      else ((first b).1, REPLACEMENT :: (first b).2)

def feed : State → List UInt8 → State × List Nat
  | s, [] => (s, [])
  | s, b :: bytes =>
      let next := step s b
      let rest := feed next.1 bytes
      (rest.1, next.2 ++ rest.2)

/-- A sequence that the end breaks off. -/
def flush (s : State) : List Nat := if s.isSome then [REPLACEMENT] else []

/-- All bytes at once. -/
def decode (bytes : List UInt8) : List Nat :=
  (feed none bytes).2 ++ flush (feed none bytes).1

theorem feed_append (s : State) (xs ys : List UInt8) :
    feed s (xs ++ ys) =
      ((feed (feed s xs).1 ys).1, (feed s xs).2 ++ (feed (feed s xs).1 ys).2) := by
  induction xs generalizing s with
  | nil => simp [feed]
  | cons x xs ih =>
    rw [List.cons_append, feed, ih]
    simp [feed]

/-- A byte is never lost: it completes a character or leaves a sequence open. -/
theorem step_pending (s : State) (b : UInt8) : (step s b).2 ≠ [] ∨ (step s b).1.isSome = true := by
  have h_first : (first b).2 ≠ [] ∨ (first b).1.isSome = true := by
    rw [first]
    repeat' split
    all_goals simp
  cases s with
  | none => exact h_first
  | some q =>
    rw [step]
    split
    · split <;> simp
    · exact .inl (List.cons_ne_nil _ _)

theorem feed_pending {s : State} {bytes : List UInt8} (h : s.isSome = true ∨ bytes ≠ []) :
    (feed s bytes).2 ≠ [] ∨ (feed s bytes).1.isSome = true := by
  induction bytes generalizing s with
  | nil => exact .inr (h.resolve_right fun h_ne => h_ne rfl)
  | cons b bytes ih =>
    obtain h_out | h_open := step_pending s b
    · exact .inl (List.append_ne_nil_of_left_ne_nil h_out _)
    · exact (ih (.inl h_open)).imp_left (List.append_ne_nil_of_right_ne_nil _)

theorem decode_ne_nil {bytes : List UInt8} (h : bytes ≠ []) : decode bytes ≠ [] := by
  obtain h_out | h_open := feed_pending (s := none) (.inr h)
  · exact List.append_ne_nil_of_left_ne_nil h_out _
  · refine List.append_ne_nil_of_right_ne_nil _ ?_
    rw [flush, if_pos h_open]
    exact List.cons_ne_nil _ _

/-- Bytes below 128 are the characters. -/
theorem decode_ascii {bytes : List UInt8} (h : ∀ b ∈ bytes, b.toNat ≤ 0x7F) :
    decode bytes = bytes.map UInt8.toNat := by
  have h_feed : feed none bytes = (none, bytes.map UInt8.toNat) := by
    induction bytes with
    | nil => rfl
    | cons b bytes ih =>
      have h_step : step none b = (none, [b.toNat]) := by
        rw [step, first, if_pos (h b List.mem_cons_self)]
      rw [feed, h_step, ih fun c h_c => h c (List.mem_cons_of_mem _ h_c)]
      rfl
  rw [decode, h_feed]
  exact List.append_nil _

/-! ## Code units -/

/-- A character in UTF-16. -/
def utf16 (n : Nat) : List UInt16 :=
  if n < 0x10000 then [n.toUInt16]
  else [(0xD800 + (n - 0x10000) / 0x400).toUInt16, (0xDC00 + (n - 0x10000) % 0x400).toUInt16]

def units (chars : List Nat) : List UInt16 := chars.flatMap utf16

@[simp] theorem units_nil : units [] = [] := rfl

theorem units_ne_nil {chars : List Nat} (h : chars ≠ []) : units chars ≠ [] := by
  obtain ⟨c, rest, rfl⟩ := List.exists_cons_of_ne_nil h
  refine List.append_ne_nil_of_left_ne_nil ?_ _
  rw [utf16]
  split <;> exact List.cons_ne_nil _ _

theorem units_append (xs ys : List Nat) : units (xs ++ ys) = units xs ++ units ys :=
  List.flatMap_append

/-! ## Encoding -/

/-- A character that UTF-8 can hold: a code point that is no half of a pair. -/
def IsScalar (n : Nat) : Prop := n < 0x110000 ∧ ¬ (0xD800 ≤ n ∧ n ≤ 0xDFFF)

/-- A byte behind the first one of a character. -/
def tailByte (n : Nat) : UInt8 := (0x80 + n % 64).toUInt8

/-- A character in UTF-8. -/
def bytesOf (n : Nat) : List UInt8 :=
  if n < 0x80 then [n.toUInt8]
  else if n < 0x800 then [(0xC0 + n / 64).toUInt8, tailByte n]
  else if n < 0x10000 then [(0xE0 + n / 4096).toUInt8, tailByte (n / 64), tailByte n]
  else [(0xF0 + n / 262144).toUInt8, tailByte (n / 4096), tailByte (n / 64), tailByte n]

/-- The first half of a pair. -/
def isLead (u : UInt16) : Bool := 0xD800 ≤ u.toNat && u.toNat ≤ 0xDBFF

/-- The second half of a pair. -/
def isTrail (u : UInt16) : Bool := 0xDC00 ≤ u.toNat && u.toNat ≤ 0xDFFF

/-- The character of one code unit; half a pair is replaced. -/
def single (u : UInt16) : Nat := if isLead u || isTrail u then REPLACEMENT else u.toNat

/-- The characters of code units. -/
def charsOf : List UInt16 → List Nat
  | [] => []
  | [u] => [single u]
  | u :: v :: us =>
      if isLead u && isTrail v then
        (0x10000 + (u.toNat - 0xD800) * 0x400 + (v.toNat - 0xDC00)) :: charsOf us
      else single u :: charsOf (v :: us)

/-- The bytes of a text. -/
def encode (us : List UInt16) : List UInt8 := (charsOf us).flatMap bytesOf

/-- Every pair of the text is whole. -/
def WellFormed (us : List UInt16) : Prop := ∃ ns, (∀ n ∈ ns, IsScalar n) ∧ us = units ns

section Encode

variable {q : Sequence} {b : UInt8} {n left lower upper bits : Nat}

theorem toNat_toUInt8 (h : n < 256) : n.toUInt8.toNat = n := by
  simpa using Nat.mod_eq_of_lt h

theorem toNat_toUInt16 (h : n < 65536) : n.toUInt16.toNat = n := by
  simpa using Nat.mod_eq_of_lt h

@[simp] theorem toNat_tailByte (n : Nat) : (tailByte n).toNat = 0x80 + n % 64 :=
  toNat_toUInt8 (by omega)

theorem tailByte_bounds (n : Nat) : 0x80 ≤ (tailByte n).toNat ∧ (tailByte n).toNat ≤ 0xBF := by
  rw [toNat_tailByte]
  omega

/-- The last byte completes the character. -/
theorem feed_last (h : lower ≤ b.toNat ∧ b.toNat ≤ upper) :
    feed (some ⟨1, lower, upper, bits⟩) [b] = (none, [bits * 64 + (b.toNat - 0x80)]) := by
  rw [feed, step, if_pos h, if_pos rfl]
  rfl

theorem feed_more (h : lower ≤ b.toNat ∧ b.toNat ≤ upper) (bytes : List UInt8) :
    feed (some ⟨left + 2, lower, upper, bits⟩) (b :: bytes) =
      feed (some ⟨left + 1, 0x80, 0xBF, bits * 64 + (b.toNat - 0x80)⟩) bytes := by
  rw [feed, step, if_pos h, if_neg (by simp)]
  simp only [List.nil_append, Nat.add_one_sub_one]

theorem feed_first (h : first b = (some q, [])) (bytes : List UInt8) :
    feed none (b :: bytes) = feed (some q) bytes := by
  rw [feed, step, h]
  simp only [List.nil_append]

/-- The bytes of a character are read as that character. -/
theorem feed_bytesOf (h : IsScalar n) : feed none (bytesOf n) = (none, [n]) := by
  obtain ⟨h_max, h_half⟩ := h
  rw [bytesOf]
  split
  · rename_i h_n
    have h_a : n.toUInt8.toNat = n := toNat_toUInt8 (by omega)
    have h_first : first n.toUInt8 = (none, [n]) := by
      rw [first, h_a]
      exact if_pos (by omega)
    rw [feed, step, h_first]
    rfl
  · rename_i h_one
    split
    · rename_i h_two
      have h_a : (0xC0 + n / 64).toUInt8.toNat = 0xC0 + n / 64 := toNat_toUInt8 (by omega)
      have h_first : first (0xC0 + n / 64).toUInt8 = (some ⟨1, 0x80, 0xBF, n / 64⟩, []) := by
        rw [first, h_a, if_neg (by omega), if_pos (by omega), Nat.add_sub_cancel_left]
      rw [feed_first h_first, feed_last (tailByte_bounds _),
        toNat_tailByte]
      rw [show n / 64 * 64 + (0x80 + n % 64 - 0x80) = n by omega]
    · rename_i h_two
      split
      · rename_i h_three
        have h_a : (0xE0 + n / 4096).toUInt8.toNat = 0xE0 + n / 4096 := toNat_toUInt8 (by omega)
        have h_first : first (0xE0 + n / 4096).toUInt8 =
            (some ⟨2, if 0xE0 + n / 4096 = 0xE0 then 0xA0 else 0x80,
              if 0xE0 + n / 4096 = 0xED then 0x9F else 0xBF, n / 4096⟩, []) := by
          rw [first, h_a, if_neg (by omega), if_neg (by omega), if_pos (by omega),
            Nat.add_sub_cancel_left]
        have h_mid : (if 0xE0 + n / 4096 = 0xE0 then 0xA0 else 0x80) ≤ (tailByte (n / 64)).toNat ∧
            (tailByte (n / 64)).toNat ≤ if 0xE0 + n / 4096 = 0xED then 0x9F else 0xBF := by
          rw [toNat_tailByte]
          split <;> split <;> omega
        rw [feed_first h_first, feed_more h_mid,
          feed_last (tailByte_bounds _), toNat_tailByte, toNat_tailByte]
        rw [show (n / 4096 * 64 + (0x80 + n / 64 % 64 - 0x80)) * 64 + (0x80 + n % 64 - 0x80) = n by
          omega]
      · rename_i h_three
        have h_a : (0xF0 + n / 262144).toUInt8.toNat = 0xF0 + n / 262144 :=
          toNat_toUInt8 (by omega)
        have h_first : first (0xF0 + n / 262144).toUInt8 =
            (some ⟨3, if 0xF0 + n / 262144 = 0xF0 then 0x90 else 0x80,
              if 0xF0 + n / 262144 = 0xF4 then 0x8F else 0xBF, n / 262144⟩, []) := by
          rw [first, h_a, if_neg (by omega), if_neg (by omega), if_neg (by omega),
            if_pos (by omega), Nat.add_sub_cancel_left]
        have h_mid : (if 0xF0 + n / 262144 = 0xF0 then 0x90 else 0x80) ≤
              (tailByte (n / 4096)).toNat ∧
            (tailByte (n / 4096)).toNat ≤ if 0xF0 + n / 262144 = 0xF4 then 0x8F else 0xBF := by
          rw [toNat_tailByte]
          split <;> split <;> omega
        rw [feed_first h_first, feed_more h_mid,
          feed_more (tailByte_bounds _),
          feed_last (tailByte_bounds _), toNat_tailByte, toNat_tailByte,
          toNat_tailByte]
        rw [show ((n / 262144 * 64 + (0x80 + n / 4096 % 64 - 0x80)) * 64 +
          (0x80 + n / 64 % 64 - 0x80)) * 64 + (0x80 + n % 64 - 0x80) = n by omega]

/-- What is encoded is decoded as it was. -/
theorem decode_bytesOf {ns : List Nat} (h : ∀ n ∈ ns, IsScalar n) :
    decode (ns.flatMap bytesOf) = ns := by
  have h_feed : feed none (ns.flatMap bytesOf) = (none, ns) := by
    induction ns with
    | nil => rfl
    | cons n ns ih =>
      rw [List.flatMap_cons, feed_append, feed_bytesOf (h n List.mem_cons_self),
        ih fun m h_m => h m (List.mem_cons_of_mem n h_m)]
      rfl
  rw [decode, h_feed]
  exact List.append_nil ns

/-! ### Pairs -/

theorem charsOf_cons {u : UInt16} {us : List UInt16} (h : isLead u = false) (h' : isTrail u = false) :
    charsOf (u :: us) = u.toNat :: charsOf us := by
  have h_single : single u = u.toNat := by
    rw [single, h, h']
    rfl
  cases us with
  | nil => rw [charsOf, charsOf, h_single]
  | cons v us =>
    rw [charsOf, h, Bool.false_and, if_neg Bool.false_ne_true, h_single]

/-- The halves of a pair make the character again. -/
theorem charsOf_utf16 (h : IsScalar n) (us : List UInt16) :
    charsOf (utf16 n ++ us) = n :: charsOf us := by
  obtain ⟨h_max, h_half⟩ := h
  rw [utf16]
  split
  · rename_i h_n
    have h_u : n.toUInt16.toNat = n := toNat_toUInt16 (by omega)
    have h_lead : isLead n.toUInt16 = false := by
      rw [isLead, h_u]
      simp only [Bool.and_eq_false_iff, decide_eq_false_iff_not]
      omega
    have h_trail : isTrail n.toUInt16 = false := by
      rw [isTrail, h_u]
      simp only [Bool.and_eq_false_iff, decide_eq_false_iff_not]
      omega
    rw [List.singleton_append, charsOf_cons h_lead h_trail, h_u]
  · rename_i h_n
    have h_u : (0xD800 + (n - 0x10000) / 0x400).toUInt16.toNat = 0xD800 + (n - 0x10000) / 0x400 :=
      toNat_toUInt16 (by omega)
    have h_v : (0xDC00 + (n - 0x10000) % 0x400).toUInt16.toNat = 0xDC00 + (n - 0x10000) % 0x400 :=
      toNat_toUInt16 (by omega)
    have h_pair : (isLead (0xD800 + (n - 0x10000) / 0x400).toUInt16 &&
        isTrail (0xDC00 + (n - 0x10000) % 0x400).toUInt16) = true := by
      rw [isLead, isTrail, h_u, h_v]
      simp only [Bool.and_eq_true, decide_eq_true_eq]
      omega
    rw [List.cons_append, List.cons_append, List.nil_append, charsOf, if_pos h_pair, h_u, h_v]
    have h_n : 0x10000 + (0xD800 + (n - 0x10000) / 0x400 - 0xD800) * 0x400 +
        (0xDC00 + (n - 0x10000) % 0x400 - 0xDC00) = n := by omega
    rw [h_n]

theorem charsOf_units {ns : List Nat} (h : ∀ n ∈ ns, IsScalar n) : charsOf (units ns) = ns := by
  induction ns with
  | nil => rfl
  | cons n ns ih =>
    rw [units, List.flatMap_cons, charsOf_utf16 (h n List.mem_cons_self)]
    exact congrArg (n :: ·) (ih fun m h_m => h m (List.mem_cons_of_mem n h_m))

/-- A well formed text is read back as it was written. -/
theorem units_decode_encode {us : List UInt16} (h : WellFormed us) :
    units (decode (encode us)) = us := by
  obtain ⟨ns, h_ns, rfl⟩ := h
  rw [encode, charsOf_units h_ns, decode_bytesOf h_ns]

/-! ### Well formed texts -/

/-- Whatever completes the sequence is a character. -/
def Sound (s : Sequence) : Prop :=
  match s.left with
  | 1 => ∀ b, s.lower ≤ b → b ≤ s.upper → IsScalar (s.bits * 64 + (b - 0x80))
  | 2 => ∀ b c, s.lower ≤ b → b ≤ s.upper → c < 64 →
      IsScalar ((s.bits * 64 + (b - 0x80)) * 64 + c)
  | 3 => ∀ b c d, s.lower ≤ b → b ≤ s.upper → c < 64 → d < 64 →
      IsScalar (((s.bits * 64 + (b - 0x80)) * 64 + c) * 64 + d)
  | _ => False

/-- The characters so far and those to come are such. -/
def Decodes (fed : State × List Nat) : Prop :=
  (∀ q, fed.1 = some q → Sound q) ∧ ∀ n ∈ fed.2, IsScalar n

theorem isScalar_replacement : IsScalar REPLACEMENT := by
  refine ⟨by decide, ?_⟩
  decide

theorem decodes_first (b : UInt8) : Decodes (first b) := by
  have h_b : b.toNat < 256 := b.toNat_lt
  rw [first]
  split
  · refine ⟨fun q h_q => (by cases h_q), fun n h_n => ?_⟩
    rw [List.mem_singleton.mp h_n]
    exact ⟨by omega, by omega⟩
  · split
    · refine ⟨fun q h_q => ?_, fun n h_n => (by cases h_n)⟩
      cases h_q
      intro c h_lower h_upper
      dsimp only at h_lower h_upper ⊢
      exact ⟨by omega, by omega⟩
    · split
      · refine ⟨fun q h_q => ?_, fun n h_n => (by cases h_n)⟩
        cases h_q
        intro c d h_lower h_upper h_d
        dsimp only at h_lower h_upper ⊢
        constructor
        · split at h_upper <;> omega
        · split at h_lower <;> split at h_upper <;> omega
      · split
        · refine ⟨fun q h_q => ?_, fun n h_n => (by cases h_n)⟩
          cases h_q
          intro c d e h_lower h_upper h_d h_e
          dsimp only at h_lower h_upper ⊢
          constructor
          · split at h_upper <;> omega
          · split at h_lower <;> split at h_upper <;> omega
        · refine ⟨fun q h_q => (by cases h_q), fun n h_n => ?_⟩
          rw [List.mem_singleton.mp h_n]
          exact isScalar_replacement

theorem decodes_step {s : State} (h : ∀ q, s = some q → Sound q) (b : UInt8) :
    Decodes (step s b) := by
  cases s with
  | none => exact decodes_first b
  | some q =>
    have h_q := h q rfl
    rw [step]
    split
    · rename_i h_b
      obtain ⟨left, lower, upper, bits⟩ := q
      dsimp only at h_b ⊢
      match left, h_q with
      | 1, h_q =>
        refine ⟨fun q h_q => (by cases h_q), fun n h_n => ?_⟩
        rw [List.mem_singleton.mp h_n]
        exact h_q b.toNat h_b.1 h_b.2
      | 2, h_q =>
        refine ⟨fun q' h_q' => ?_, fun n h_n => (by cases h_n)⟩
        cases h_q'
        exact fun c h_lower h_upper => h_q b.toNat (c - 0x80) h_b.1 h_b.2 (by dsimp only at *; omega)
      | 3, h_q =>
        refine ⟨fun q' h_q' => ?_, fun n h_n => (by cases h_n)⟩
        cases h_q'
        exact fun c d h_lower h_upper h_d =>
          h_q b.toNat (c - 0x80) d h_b.1 h_b.2 (by dsimp only at *; omega) h_d
    · obtain ⟨h_state, h_out⟩ := decodes_first b
      refine ⟨h_state, fun n h_n => ?_⟩
      obtain rfl | h_n := List.mem_cons.mp h_n
      · exact isScalar_replacement
      · exact h_out n h_n

theorem decodes_feed {s : State} (h : ∀ q, s = some q → Sound q) (bytes : List UInt8) :
    Decodes (feed s bytes) := by
  induction bytes generalizing s with
  | nil => exact ⟨h, fun n h_n => (by cases h_n)⟩
  | cons b bytes ih =>
    obtain ⟨h_state, h_out⟩ := decodes_step h b
    obtain ⟨h_last, h_rest⟩ := ih h_state
    refine ⟨h_last, fun n h_n => ?_⟩
    obtain h_n | h_n := List.mem_append.mp h_n
    · exact h_out n h_n
    · exact h_rest n h_n

/-- Whatever the bytes, what they are read as is well formed. -/
theorem wellFormed_decode (bytes : List UInt8) : WellFormed (units (decode bytes)) := by
  refine ⟨decode bytes, fun n h_n => ?_, rfl⟩
  obtain h_n | h_n := List.mem_append.mp h_n
  · exact (decodes_feed (s := none) (fun q h_q => (by cases h_q)) bytes).2 n h_n
  · rw [flush] at h_n
    split at h_n
    · rw [List.mem_singleton.mp h_n]
      exact isScalar_replacement
    · cases h_n

/-- No half of a pair. -/
def IsWhole (u : UInt16) : Prop := ¬ (0xD800 ≤ u.toNat ∧ u.toNat ≤ 0xDFFF)

theorem wellFormed_nil : WellFormed [] := ⟨[], fun n h_n => (by cases h_n), rfl⟩

theorem WellFormed.append {us vs : List UInt16} (h : WellFormed us) (h' : WellFormed vs) :
    WellFormed (us ++ vs) := by
  obtain ⟨ns, h_ns, rfl⟩ := h
  obtain ⟨ms, h_ms, rfl⟩ := h'
  refine ⟨ns ++ ms, fun n h_n => ?_, (units_append ns ms).symm⟩
  obtain h_n | h_n := List.mem_append.mp h_n
  · exact h_ns n h_n
  · exact h_ms n h_n

theorem wellFormed_whole {u : UInt16} (h : IsWhole u) : WellFormed [u] := by
  have h_u : u.toNat < 65536 := u.toNat_lt
  refine ⟨[u.toNat], fun n h_n => ?_, ?_⟩
  · rw [List.mem_singleton.mp h_n]
    exact ⟨by omega, h⟩
  · rw [units, List.flatMap_singleton, utf16, if_pos h_u]
    simp

/-- The units of a character: one that is whole, or two that are not. -/
theorem utf16_cases (h : IsScalar n) :
    (∃ u, utf16 n = [u] ∧ IsWhole u) ∨ ∃ u v, utf16 n = [u, v] ∧ ¬ IsWhole u ∧ ¬ IsWhole v := by
  obtain ⟨h_max, h_half⟩ := h
  rw [utf16]
  split
  · rename_i h_n
    refine .inl ⟨_, rfl, ?_⟩
    rwa [IsWhole, toNat_toUInt16 h_n]
  · rename_i h_n
    refine .inr ⟨_, _, rfl, fun h_u => h_u ?_, fun h_v => h_v ?_⟩
    · rw [toNat_toUInt16 (by omega)]
      exact ⟨by omega, by omega⟩
    · rw [toNat_toUInt16 (by omega)]
      exact ⟨by omega, by omega⟩

/-- A text may be cut at a unit that is no half of a pair. -/
theorem WellFormed.cut {us vs : List UInt16} {u : UInt16} (h : WellFormed (us ++ u :: vs))
    (h_u : IsWhole u) : WellFormed us ∧ WellFormed vs := by
  obtain ⟨ns, h_ns, h_eq⟩ := h
  induction ns generalizing us with
  | nil => cases us <;> cases h_eq
  | cons n ns ih =>
    have h_rest : ∀ m ∈ ns, IsScalar m := fun m h_m => h_ns m (List.mem_cons_of_mem n h_m)
    have h_char : WellFormed (utf16 n) :=
      ⟨[n], fun m h_m => by rw [List.mem_singleton.mp h_m]; exact h_ns n List.mem_cons_self,
        (List.flatMap_singleton _ _).symm⟩
    rw [units, List.flatMap_cons] at h_eq
    obtain ⟨x, h_x, -⟩ | ⟨x, y, h_xy, h_x, h_y⟩ := utf16_cases (h_ns n List.mem_cons_self)
    · rw [h_x] at h_eq h_char
      cases us with
      | nil =>
        obtain ⟨-, rfl⟩ := List.cons.inj h_eq
        exact ⟨wellFormed_nil, ns, h_rest, rfl⟩
      | cons w us =>
        obtain ⟨h_w, h_tail⟩ := List.cons.inj h_eq
        obtain ⟨h_us, h_vs⟩ := ih h_rest h_tail
        rw [h_w]
        exact ⟨h_char.append h_us, h_vs⟩
    · rw [h_xy] at h_eq h_char
      match us, h_eq with
      | [], h_eq => exact absurd ((List.cons.inj h_eq).1 ▸ h_u) h_x
      | [w], h_eq => exact absurd ((List.cons.inj (List.cons.inj h_eq).2).1 ▸ h_u) h_y
      | w :: w' :: us, h_eq =>
        obtain ⟨h_w, h_tail⟩ := List.cons.inj h_eq
        obtain ⟨h_w', h_tail'⟩ := List.cons.inj h_tail
        obtain ⟨h_us, h_vs⟩ := ih h_rest h_tail'
        rw [h_w, h_w']
        exact ⟨h_char.append h_us, h_vs⟩

theorem WellFormed.tail {us : List UInt16} {u : UInt16} (h : WellFormed (u :: us))
    (h_u : IsWhole u) : WellFormed us :=
  (@WellFormed.cut [] us u h h_u).2

/-- Units that are no halves may go from both ends. -/
theorem WellFormed.dropWhile {us : List UInt16} {p : UInt16 → Bool} (h : WellFormed us)
    (h_p : ∀ u, p u = true → IsWhole u) : WellFormed (us.dropWhile p) := by
  induction us with
  | nil => exact h
  | cons u us ih =>
    rw [List.dropWhile_cons]
    split
    · rename_i h_u
      exact ih (h.tail (h_p u h_u))
    · exact h

theorem WellFormed.dropWhile_reverse {us : List UInt16} {p : UInt16 → Bool} (h : WellFormed us)
    (h_p : ∀ u, p u = true → IsWhole u) : WellFormed (us.reverse.dropWhile p).reverse := by
  induction us using List.reverseRecOn with
  | nil => exact h
  | append_singleton us u ih =>
    rw [List.reverse_append, List.reverse_singleton, List.singleton_append, List.dropWhile_cons]
    split
    · rename_i h_u
      exact ih (h.cut (h_p u h_u)).1
    · rw [List.reverse_cons, List.reverse_reverse]
      exact h

end Encode

/-! ## The decoder of the platform -/

/-- `TextDecoder`, in the middle of a stream. -/
structure TextDecoder where
  state : State := none
  bomSeen : Bool := false
  deriving DecidableEq, Repr

namespace TextDecoder

/-- Drops a byte order mark where nothing came before. -/
def withoutBom (seen : Bool) (chars : List Nat) : List Nat :=
  if seen then chars
  else
    match chars with
    | [] => []
    | c :: rest => if c = BOM then rest else c :: rest

/-- `decode(chunk, { stream: true })`. -/
def decodeStream (d : TextDecoder) (chunk : List UInt8) : TextDecoder × List UInt16 :=
  let fed := feed d.state chunk
  (⟨fed.1, d.bomSeen || !fed.2.isEmpty⟩, units (withoutBom d.bomSeen fed.2))

/-- `decode()`, the end of a stream. -/
def decodeEnd (d : TextDecoder) : List UInt16 := units (flush d.state)

theorem withoutBom_append (seen : Bool) (xs ys : List Nat) :
    withoutBom seen (xs ++ ys) = withoutBom seen xs ++ withoutBom (seen || !xs.isEmpty) ys := by
  cases seen with
  | true => rfl
  | false =>
    cases xs with
    | nil => rfl
    | cons x xs =>
      simp only [withoutBom, List.cons_append, List.isEmpty_cons, Bool.not_false, Bool.or_true,
        if_true, Bool.false_eq_true, if_false]
      split <;> rfl

/-- Two chunks of a stream are decoded as one. -/
theorem decodeStream_append (d : TextDecoder) (xs ys : List UInt8) :
    d.decodeStream (xs ++ ys) =
      (((d.decodeStream xs).1.decodeStream ys).1,
        (d.decodeStream xs).2 ++ ((d.decodeStream xs).1.decodeStream ys).2) := by
  have h_empty : ∀ us vs : List Nat, (us ++ vs).isEmpty = (us.isEmpty && vs.isEmpty) := by
    intro us vs
    cases us <;> rfl
  simp only [decodeStream, feed_append, withoutBom_append, units_append, h_empty, Bool.not_and,
    Bool.or_assoc]

theorem decodeStream_nil (d : TextDecoder) : d.decodeStream [] = (d, []) := by
  obtain ⟨state, seen⟩ := d
  cases seen <;> rfl

end TextDecoder

/-- `new TextDecoder().decode(bytes)`. -/
def decodeText (bytes : List UInt8) : List UInt16 :=
  let fed := (({} : TextDecoder).decodeStream bytes)
  fed.2 ++ fed.1.decodeEnd

end Utf8
