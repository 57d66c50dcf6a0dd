/-
  Kubek.Lib.Base64

  The `base64url` encoding of `Buffer`: six bits for a character, without padding. The decoder
  takes the characters of plain base64 as well, skips what is no digit, and ends at a `=`.
-/

import Mathlib.Data.List.TakeWhile

namespace Base64

/-- The character of six bits. -/
def charOf (n : Nat) : Char :=
  if n < 26 then Char.ofNat ('A'.toNat + n)
  else if n < 52 then Char.ofNat ('a'.toNat + (n - 26))
  else if n < 62 then Char.ofNat ('0'.toNat + (n - 52))
  else if n = 62 then '-'
  else '_'

/-- The six bits of a character. -/
def valueOf (c : Char) : Option Nat :=
  let n := c.toNat
  if 'A'.toNat ≤ n ∧ n ≤ 'Z'.toNat then some (n - 'A'.toNat)
  else if 'a'.toNat ≤ n ∧ n ≤ 'z'.toNat then some (n - 'a'.toNat + 26)
  else if '0'.toNat ≤ n ∧ n ≤ '9'.toNat then some (n - '0'.toNat + 52)
  else if c = '-' ∨ c = '+' then some 62
  else if c = '_' ∨ c = '/' then some 63
  else none

/-- Three bytes to four times six bits; zeros fill up the last ones. -/
def sextets : List UInt8 → List Nat
  | a :: b :: c :: bytes =>
      let n := (a.toNat * 256 + b.toNat) * 256 + c.toNat
      n / 262144 :: n / 4096 % 64 :: n / 64 % 64 :: n % 64 :: sextets bytes
  | [a, b] =>
      let n := (a.toNat * 256 + b.toNat) * 4
      [n / 4096, n / 64 % 64, n % 64]
  | [a] =>
      let n := a.toNat * 16
      [n / 64, n % 64]
  | [] => []

/-- And back; six bits alone are dropped. -/
def octets : List Nat → List UInt8
  | a :: b :: c :: d :: rest =>
      let n := ((a * 64 + b) * 64 + c) * 64 + d
      UInt8.ofNat (n / 65536) :: UInt8.ofNat (n / 256 % 256) :: UInt8.ofNat (n % 256) :: octets rest
  | [a, b, c] =>
      let n := (a * 64 + b) * 64 + c
      [UInt8.ofNat (n / 1024), UInt8.ofNat (n / 4 % 256)]
  | [a, b] => [UInt8.ofNat ((a * 64 + b) / 16)]
  | _ => []

/-- `buffer.toString("base64url")`. -/
def encode (bytes : List UInt8) : List Char := (sextets bytes).map charOf

/-- `Buffer.from(text, "base64url")`. -/
def decode (text : List Char) : List UInt8 :=
  octets ((text.takeWhile (· ≠ '=')).filterMap valueOf)

/-! ## There and back -/

theorem valueOf_charOf : ∀ n < 64, valueOf (charOf n) = some n := by decide

theorem charOf_ne : ∀ n < 64, charOf n ≠ '=' := by decide

attribute [local simp] sextets in
theorem sextets_lt {bytes : List UInt8} : ∀ n ∈ sextets bytes, n < 64 := by
  induction bytes using sextets.induct with
  | case1 a b c bytes ih =>
    have h_a := a.toNat_lt
    have h_b := b.toNat_lt
    have h_c := c.toNat_lt
    intro n h_n
    rw [sextets, List.mem_cons, List.mem_cons, List.mem_cons, List.mem_cons] at h_n
    obtain rfl | rfl | rfl | rfl | h_n := h_n
    · omega
    · omega
    · omega
    · omega
    · exact ih n h_n
  | case2 a b =>
    have h_a := a.toNat_lt
    have h_b := b.toNat_lt
    intro n h_n
    rw [sextets, List.mem_cons, List.mem_cons, List.mem_singleton] at h_n
    omega
  | case3 a =>
    have h_a := a.toNat_lt
    intro n h_n
    rw [sextets, List.mem_cons, List.mem_singleton] at h_n
    omega
  | case4 =>
    intro n h_n
    cases h_n

/-- A byte is read off a number by its value. -/
theorem ofNat_eq {n : Nat} {b : UInt8} (h : n = b.toNat) : UInt8.ofNat n = b := by
  rw [h, UInt8.ofNat_toNat]

theorem octets_sextets (bytes : List UInt8) : octets (sextets bytes) = bytes := by
  induction bytes using sextets.induct with
  | case1 a b c bytes ih =>
    have h_a := a.toNat_lt
    have h_b := b.toNat_lt
    have h_c := c.toNat_lt
    rw [sextets, octets, ih]
    congr 1
    · exact ofNat_eq (by omega)
    congr 1
    · exact ofNat_eq (by omega)
    congr 1
    exact ofNat_eq (by omega)
  | case2 a b =>
    have h_a := a.toNat_lt
    have h_b := b.toNat_lt
    rw [sextets, octets]
    congr 1
    · exact ofNat_eq (by omega)
    congr 1
    exact ofNat_eq (by omega)
  | case3 a =>
    have h_a := a.toNat_lt
    rw [sextets, octets]
    congr 1
    exact ofNat_eq (by omega)
  | case4 => rfl

theorem filterMap_charOf {digits : List Nat} (h : ∀ n ∈ digits, n < 64) :
    (digits.map charOf).filterMap valueOf = digits := by
  induction digits with
  | nil => rfl
  | cons n digits ih =>
    rw [List.map_cons, List.filterMap_cons, valueOf_charOf n (h n List.mem_cons_self)]
    exact congrArg _ (ih fun m h_m => h m (List.mem_cons_of_mem _ h_m))

theorem decode_encode (bytes : List UInt8) : decode (encode bytes) = bytes := by
  have h_take : ((sextets bytes).map charOf).takeWhile (· ≠ '=') = (sextets bytes).map charOf := by
    refine List.takeWhile_eq_self_iff.mpr fun c h_c => ?_
    obtain ⟨n, h_n, rfl⟩ := List.mem_map.mp h_c
    exact decide_eq_true (charOf_ne n (sextets_lt n h_n))
  rw [decode, encode, h_take, filterMap_charOf sextets_lt, octets_sextets]

/-- Four characters for three bytes, and at most one more for a rest. -/
theorem length_encode (bytes : List UInt8) : 3 * (encode bytes).length ≤ 4 * bytes.length + 2 := by
  rw [encode, List.length_map]
  induction bytes using sextets.induct with
  | case1 a b c bytes ih =>
    simp only [sextets, List.length_cons]
    omega
  | case2 a b => simp [sextets]
  | case3 a => simp [sextets]
  | case4 => simp [sextets]

end Base64
