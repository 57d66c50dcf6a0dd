/-
  Kubek.Core.Subnets

  `core/utils/subnets.ts`: which clients the panel and FTP let in by their address.

  `isIpInSubnet` writes both addresses as bits and compares as many of them as the subnet
  says. Addresses that are `Plain` become the bits of their number (`ipToBinary_plain`), so
  for them matching is CIDR matching. Not plain are

    * the texts that hold `::ffff:`, which the function leaves out on purpose;
    * a dotted tail in any other spelling, read as one group of hexadecimal digits;
    * a zone with colons, or one right behind `::`, taken for groups.

  Numbers beyond 2 ^ 53 are exact here; only the prefix and a zone with colons can hold one.
-/

import Mathlib.Algebra.Ring.Nat
import Kubek.Lib.IpText
import Kubek.Lib.TextSearch

namespace Kubek.Subnets

open IpText

/-! ## Built-ins -/

/-- `padStart(width, "0")`. -/
def padStart (width : Nat) (t : Text) : Text := List.replicate (width - t.length) '0' ++ t

/-- The digits in front, `none` for `NaN`. -/
def leadingNumber (isDigit : Char → Bool) (digit : Char → Nat) (radix : Nat) (t : Text) :
    Option Nat :=
  let ds := t.takeWhile isDigit
  if ds = [] then none else some (Numerals.value digit radix ds)

def signed (read : Text → Option Nat) : Text → Option Int
  | '-' :: cs => (read cs).map fun (n : Nat) => -(n : Int)
  | '+' :: cs => (read cs).map fun (n : Nat) => (n : Int)
  | cs => (read cs).map fun (n : Nat) => (n : Int)

def withoutHexMark : Text → Text
  | '0' :: 'x' :: cs => cs
  | '0' :: 'X' :: cs => cs
  | cs => cs

/-- `parseInt(text, 10)`. -/
def parseInt10 (t : Text) : Option Int :=
  signed (leadingNumber isDigit digit 10) (t.dropWhile JsText.isSpace)

/-- `parseInt(text, 16)`. -/
def parseInt16 (t : Text) : Option Int :=
  signed (fun cs => leadingNumber isHexDigit hexDigit 16 (withoutHexMark cs))
    (t.dropWhile JsText.isSpace)

/-- `toString(2)`. -/
def binary : Option Int → Text
  | none => "NaN".toList
  | some n => if n < 0 then '-' :: Nat.toDigits 2 n.natAbs else Nat.toDigits 2 n.natAbs

/-! ## The functions -/

def MAPPED : Text := "::ffff:".toList

def expandIPv6 (ip : Text) : Option Text :=
  -- "IPv4-mapped addresses are not handled here"
  if TextSearch.includes MAPPED ip then none
  else
    let parts := splitDouble ip
    if 2 < parts.length then none
    else
      let left := colonParts (parts.headD [])
      let right := colonParts (parts.getD 1 [])
      if 8 < left.length + right.length then none
      else
        let middle := List.replicate (8 - left.length - right.length) ['0']
        some ([':'].intercalate ((left ++ middle ++ right).map (padStart 4)))

def ipToBinary (ip : Text) : Option Text :=
  if isIPv4 ip then
    some ((JsText.splitChars '.' ip).flatMap fun part => padStart 8 (binary (parseInt10 part)))
  else if isIPv6 ip then
    match expandIPv6 ip with
    | none => none
    | some expanded =>
        if expanded = [] then none
        else
          some ((JsText.splitChars ':' expanded).flatMap fun part =>
            padStart 16 (binary (parseInt16 part)))
  else none

def isIpInSubnet (ip subnet : Text) : Bool :=
  let parts := JsText.splitChars '/' subnet
  let subnetIP := parts.headD []
  -- without a slash `parseInt(undefined, 10)` is `NaN`
  match parts[1]?.bind parseInt10 with
  | none => false
  | some prefixLength =>
      if subnetIP = [] then false
      else
        match ipToBinary ip, ipToBinary subnetIP with
        | some ipBinary, some subnetBinary =>
            if ipBinary = [] ∨ subnetBinary = [] then false
            else if ipBinary.length ≠ subnetBinary.length then false
            else ipBinary.take prefixLength.toNat == subnetBinary.take prefixLength.toNat
        | _, _ => false

structure SubnetsAccess where
  enabled : Bool
  subnets : Option (List Text)

inductive SubnetVerdict
  | allowed
  | unknownIp
  | noSubnets
  | notInSubnets
  deriving DecidableEq, Repr

def checkSubnetAccess (restriction : Option SubnetsAccess) (ip : Option Text) : SubnetVerdict :=
  match restriction with
  | none => .allowed
  | some restriction =>
      if !restriction.enabled then .allowed
      else
        match ip with
        | none => .unknownIp
        | some ip =>
            if !isIP ip then .unknownIp
            else
              match restriction.subnets with
              | none | some [] => .noSubnets
              | some subnets =>
                  if subnets.any (isIpInSubnet ip) then .allowed else .notInSubnets

/-! ## CIDR -/

/-- How many bits an address has. -/
def bitsOf (ip : Text) : Nat := if isIPv4 ip then 32 else 128

/-- The number an address is. -/
def numberOf (ip : Text) : Nat :=
  if isIPv4 ip then Numerals.value id 256 (octets ip) else Numerals.value id 65536 (words ip)

/-- An accepted address, a slash and a decimal number up to the width of the address. -/
def cidr (subnet : Text) : Option (Text × Nat) :=
  match JsText.splitChars '/' subnet with
  | [address, digits] =>
      if isIP address && !digits.isEmpty && digits.all isDigit &&
          decimal digits ≤ bitsOf address then
        some (address, decimal digits)
      else none
  | _ => none

/-- Same family, and the first `n` bits agree. -/
def agree (n : Nat) (a b : Text) : Bool :=
  bitsOf a == bitsOf b &&
    numberOf a / 2 ^ (bitsOf a - n) == numberOf b / 2 ^ (bitsOf b - n)

/-- What an address and a subnet have to do with each other. -/
def contains (subnet ip : Text) : Bool :=
  match cidr subnet with
  | some (address, n) => agree n ip address
  | none => false

/-- No `::ffff:`, no dotted tail, and a zone that no group can be read from. -/
def isPlain (ip : Text) : Bool :=
  isIPv4 ip ||
    (isIPv6 ip && !TextSearch.includes MAPPED ip && !(address ip).contains '.' &&
      !(zone ip).contains ':' && (zone ip == [] || (address ip).getLast? != some ':'))

/-- An IPv4-mapped address, spelled with `::ffff:`. -/
def isMapped (ip : Text) : Bool :=
  isIPv6 ip && TextSearch.includes MAPPED ip && (words ip).take 6 == [0, 0, 0, 0, 0, 0xffff]

/-! ## Reading and writing numbers -/

section Numbers

variable {ds rest g part : Text} {k n : Nat}

/-- Digits up to something that is none are what is read. -/
theorem leadingNumber_append {isDigit : Char → Bool} {digit : Char → Nat} {radix : Nat}
    (h_ne : ds ≠ []) (h_ds : ∀ c ∈ ds, isDigit c = true)
    (h_rest : ∀ c, rest.head? = some c → isDigit c = false) :
    leadingNumber isDigit digit radix (ds ++ rest) = some (Numerals.value digit radix ds) := by
  have h_take : (ds ++ rest).takeWhile isDigit = ds := by
    rw [List.takeWhile_append_of_pos h_ds]
    cases rest with
    | nil => rw [List.takeWhile_nil, List.append_nil]
    | cons c rest => rw [List.takeWhile_cons, h_rest c rfl]; exact List.append_nil ds
  rw [leadingNumber, h_take]
  exact if_neg h_ne

theorem signed_cons {read : Text → Option Nat} {c : Char} (h : c ≠ '-') (h' : c ≠ '+') (cs : Text) :
    signed read (c :: cs) = (read (c :: cs)).map fun (n : Nat) => (n : Int) := by
  rw [signed.eq_3]
  · exact fun cs' h_eq => h (List.cons.inj h_eq).1
  · exact fun cs' h_eq => h' (List.cons.inj h_eq).1

/-- Hexadecimal digits are no white space, no sign and no `x`. -/
theorem isHexDigit_plain {c : Char} (h : isHexDigit c = true) :
    JsText.isSpace c = false ∧ c ≠ '-' ∧ c ≠ '+' ∧ c ≠ 'x' ∧ c ≠ 'X' := by
  refine ⟨?_, ?_, ?_, ?_, ?_⟩
  · obtain h_c | ⟨h_c, -⟩ := lower_cases c
    · have h_all : (hexadecimals.all fun d => !JsText.isSpace d) = true := by decide
      have h_mem := isHexDigit_iff.mp h
      rw [h_c] at h_mem
      simpa using List.all_eq_true.mp h_all c h_mem
    · have h_all : (capitals.all fun d => !JsText.isSpace d) = true := by decide
      simpa using List.all_eq_true.mp h_all c h_c
  all_goals
    rintro rfl
    exact absurd h (by decide)

theorem isHexDigit_of_isDigit {c : Char} (h : isDigit c = true) : isHexDigit c = true := by
  have h_all : (decimals.all isHexDigit) = true := by decide
  exact List.all_eq_true.mp h_all c (isDigit_iff.mp h)

theorem parseInt10_digits (h_ne : ds ≠ []) (h_ds : ∀ c ∈ ds, isDigit c = true) :
    parseInt10 ds = some (decimal ds : Int) := by
  have h_read : leadingNumber isDigit digit 10 (ds ++ []) = _ :=
    leadingNumber_append h_ne h_ds fun c h_c => by cases h_c
  rw [List.append_nil] at h_read
  obtain ⟨c, cs, rfl⟩ := List.exists_cons_of_ne_nil h_ne
  obtain ⟨h_space, h_minus, h_plus, -, -⟩ :=
    isHexDigit_plain (isHexDigit_of_isDigit (h_ds c List.mem_cons_self))
  rw [parseInt10, List.dropWhile_cons, h_space, if_neg Bool.false_ne_true,
    signed_cons h_minus h_plus, h_read]
  rfl

theorem withoutHexMark_eq {t : Text} (h : 'x' ∉ t.tail.head?) (h' : 'X' ∉ t.tail.head?) :
    withoutHexMark t = t := by
  rw [withoutHexMark.eq_3]
  · rintro cs rfl
    exact h rfl
  · rintro cs rfl
    exact h' rfl

/-- A group with a zone behind it is read as the group. -/
theorem parseInt16_group (h : IsGroup g) (h_rest : rest = [] ∨ rest.head? = some '%') :
    parseInt16 (padStart 4 (g ++ rest)) = some (hexadecimal g : Int) := by
  have h_digits : ∀ c ∈ List.replicate (4 - (g ++ rest).length) '0' ++ g, isHexDigit c = true := by
    intro c h_c
    obtain h_c | h_c := List.mem_append.mp h_c
    · rw [(List.mem_replicate.mp h_c).2]
      decide
    · exact h.hex c h_c
  have h_value : Numerals.value hexDigit 16 (List.replicate (4 - (g ++ rest).length) '0' ++ g) =
      hexadecimal g := Numerals.value_replicate_zero (by decide) _ g
  have h_ne : List.replicate (4 - (g ++ rest).length) '0' ++ g ≠ [] := fun h_nil =>
    h.nonempty (List.append_eq_nil_iff.mp h_nil).2
  rw [padStart, ← List.append_assoc]
  generalize List.replicate (4 - (g ++ rest).length) '0' ++ g = ds at h_digits h_value h_ne ⊢
  have h_read : leadingNumber isHexDigit hexDigit 16 (ds ++ rest) = _ :=
    leadingNumber_append h_ne h_digits fun c h_c => by
      obtain rfl | h_rest := h_rest
      · cases h_c
      · rw [Option.some.inj (h_c.symm.trans h_rest)]
        decide
  obtain ⟨c, cs, rfl⟩ := List.exists_cons_of_ne_nil h_ne
  obtain ⟨h_space, h_minus, h_plus, -, -⟩ := isHexDigit_plain (h_digits c List.mem_cons_self)
  have h_next : ∀ d ∈ (cs ++ rest).head?, d = '%' ∨ isHexDigit d = true := by
    intro d h_d
    cases cs with
    | nil =>
      obtain rfl | h_rest := h_rest
      · cases h_d
      · exact .inl (Option.some.inj (h_d.symm.trans h_rest))
    | cons e cs =>
      rw [← Option.some.inj h_d]
      exact .inr (h_digits e (List.mem_cons_of_mem c List.mem_cons_self))
  have h_mark : withoutHexMark (c :: (cs ++ rest)) = c :: (cs ++ rest) := by
    apply withoutHexMark_eq
    · intro h_x
      obtain h_eq | h_hex := h_next 'x' h_x
      · exact absurd h_eq (by decide)
      · exact (isHexDigit_plain h_hex).2.2.2.1 rfl
    · intro h_x
      obtain h_eq | h_hex := h_next 'X' h_x
      · exact absurd h_eq (by decide)
      · exact (isHexDigit_plain h_hex).2.2.2.2 rfl
  rw [parseInt16, List.cons_append, List.dropWhile_cons, h_space, if_neg Bool.false_ne_true,
    signed_cons h_minus h_plus, h_mark, ← List.cons_append, h_read, h_value]
  rfl

end Numbers

/-! ## Bits -/

/-- `k` bits that are the number `n`. -/
structure IsBits (b : Text) (k n : Nat) : Prop where
  length : b.length = k
  bits : ∀ c ∈ b, isDigit c = true ∧ digit c < 2
  value : Numerals.value digit 2 b = n

section Bits

variable {a b : Text} {k m n p : Nat} {ns : List Nat}

theorem isBits_padStart (h_k : 0 < k) (h : n < 2 ^ k) :
    IsBits (padStart k (binary (some (n : Int)))) k n := by
  have h_text : binary (some (n : Int)) = Nat.toDigits 2 n := by
    rw [binary, if_neg (Int.not_lt.mpr (Int.natCast_nonneg n)), Int.natAbs_natCast]
  have h_len : (Nat.toDigits 2 n).length ≤ k := (Nat.length_toDigits_le_iff (by decide) h_k).mpr h
  have h_value : Numerals.value digit 2 (Nat.toDigits 2 n) = n := by
    refine Numerals.value_toDigits (by decide) (fun d h_d => ?_) n
    obtain rfl | rfl : d = 0 ∨ d = 1 := by omega
    · rfl
    · rfl
  rw [h_text]
  refine ⟨?_, fun c h_c => ?_, ?_⟩
  · rw [padStart, List.length_append, List.length_replicate, Nat.sub_add_cancel h_len]
  · obtain h_c | h_c := List.mem_append.mp h_c
    · rw [(List.mem_replicate.mp h_c).2]
      decide
    · obtain ⟨d, h_d, rfl⟩ := Numerals.digitChar_of_mem_toDigits (by decide) h_c
      obtain rfl | rfl : d = 0 ∨ d = 1 := by omega
      · decide
      · decide
  · rw [padStart, Numerals.value_replicate_zero (by decide), h_value]

/-- Numbers of `k` bits each, one behind the other. -/
theorem isBits_flatMap (h_k : 0 < k) (h : ∀ n ∈ ns, n < 2 ^ k) :
    IsBits (ns.flatMap fun (n : Nat) => padStart k (binary (some (n : Int)))) (ns.length * k)
      (Numerals.value id (2 ^ k) ns) := by
  have h_each : ∀ n ∈ ns, IsBits (padStart k (binary (some (n : Int)))) k n :=
    fun n h_n => isBits_padStart h_k (h n h_n)
  refine ⟨?_, fun c h_c => ?_, ?_⟩
  · clear h
    induction ns with
    | nil => rw [List.flatMap_nil, List.length_nil, List.length_nil, Nat.zero_mul]
    | cons n ns ih =>
      rw [List.flatMap_cons, List.length_append, (h_each n List.mem_cons_self).length,
        ih fun x h_x => h_each x (List.mem_cons_of_mem n h_x), List.length_cons, Nat.succ_mul,
        Nat.add_comm]
  · obtain ⟨n, h_n, h_c⟩ := List.mem_flatMap.mp h_c
    exact (h_each n h_n).bits c h_c
  · rw [List.flatMap_def, Numerals.value_flatten (k := k)]
    · apply Numerals.value_congr
      rw [List.map_map]
      exact List.map_congr_left fun n h_n => (h_each n h_n).value
    · intro b h_b
      obtain ⟨n, h_n, rfl⟩ := List.mem_map.mp h_b
      exact (h_each n h_n).length

/-- The first bits are the same texts when they are the same numbers. -/
theorem take_eq_iff (h_a : IsBits a k m) (h_b : IsBits b k n) :
    a.take p = b.take p ↔ m / 2 ^ (k - p) = n / 2 ^ (k - p) := by
  have h_lt : ∀ {b : Text} {n : Nat}, IsBits b k n → ∀ c ∈ b, digit c < 2 :=
    fun h c h_c => (h.bits c h_c).2
  have h_take : ∀ {b : Text} {n : Nat}, IsBits b k n →
      Numerals.value digit 2 (b.take p) = n / 2 ^ (k - p) := fun {b n} h => by
    rw [Numerals.value_take (by decide) (h_lt h), h.value, h.length]
  rw [← h_take h_a, ← h_take h_b]
  constructor
  · exact congrArg _
  · refine Numerals.eq_of_length (by decide) (fun c h_c => h_lt h_a c (List.mem_of_mem_take h_c))
      (fun c h_c => h_lt h_b c (List.mem_of_mem_take h_c)) (fun c h_c d _ h_cd => ?_) ?_
    · exact digit_inj (h_a.bits c (List.mem_of_mem_take h_c)).1 h_cd
    · rw [List.length_take, List.length_take, h_a.length, h_b.length]

end Bits

/-! ## Zones -/

/-- A text put behind the last part. -/
def appendLast (z : Text) : List Text → List Text
  | [] => []
  | [part] => [part ++ z]
  | part :: parts => part :: appendLast z parts

section Zones

variable {t z l r : Text} {sep : Char} {gs parts : List Text}

theorem appendLast_cons (part : Text) (h_ne : parts ≠ []) :
    appendLast z (part :: parts) = part :: appendLast z parts := by
  obtain ⟨next, parts, rfl⟩ := List.exists_cons_of_ne_nil h_ne
  rfl

theorem appendLast_ne_nil (h : parts ≠ []) : appendLast z parts ≠ [] := by
  obtain ⟨part, parts, rfl⟩ := List.exists_cons_of_ne_nil h
  cases parts with
  | nil => exact List.cons_ne_nil _ _
  | cons next parts => exact List.cons_ne_nil _ _

theorem appendLast_nil (parts : List Text) : appendLast [] parts = parts := by
  induction parts with
  | nil => rfl
  | cons part parts ih =>
    cases parts with
    | nil => rw [appendLast, List.append_nil]
    | cons next parts => rw [appendLast_cons part (List.cons_ne_nil _ _), ih]

theorem length_appendLast (parts : List Text) : (appendLast z parts).length = parts.length := by
  induction parts with
  | nil => rfl
  | cons part parts ih =>
    cases parts with
    | nil => rfl
    | cons next parts =>
      rw [appendLast_cons part (List.cons_ne_nil _ _), List.length_cons, ih]
      rfl

theorem mem_appendLast {part : Text} (h : part ∈ appendLast z parts) :
    part ∈ parts ∨ ∃ p ∈ parts, part = p ++ z := by
  induction parts with
  | nil => cases h
  | cons p parts ih =>
    cases parts with
    | nil => exact .inr ⟨p, List.mem_cons_self, List.mem_singleton.mp h⟩
    | cons next parts =>
      rw [appendLast_cons p (List.cons_ne_nil _ _)] at h
      obtain rfl | h := List.mem_cons.mp h
      · exact .inl List.mem_cons_self
      · obtain h | ⟨q, h_q, rfl⟩ := ih h
        · exact .inl (List.mem_cons_of_mem p h)
        · exact .inr ⟨q, List.mem_cons_of_mem p h_q, rfl⟩

theorem map_appendLast {α : Type} {f : Text → α} (h : ∀ p ∈ parts, f (p ++ z) = f p) :
    (appendLast z parts).map f = parts.map f := by
  induction parts with
  | nil => rfl
  | cons p parts ih =>
    cases parts with
    | nil => exact congrArg (fun x => [x]) (h p List.mem_cons_self)
    | cons next parts =>
      rw [appendLast_cons p (List.cons_ne_nil _ _), List.map_cons,
        ih fun q h_q => h q (List.mem_cons_of_mem p h_q)]
      rfl

theorem splitChars_zone (h : sep ∉ z) (t : Text) :
    JsText.splitChars sep (t ++ z) = appendLast z (JsText.splitChars sep t) := by
  induction t with
  | nil => rw [List.nil_append, JsText.splitChars_of_not_mem h]; rfl
  | cons c t ih =>
    have h_ne := JsText.splitChars_ne_nil sep t
    rw [List.cons_append, JsText.splitChars, JsText.splitChars, ih]
    split
    · rw [appendLast_cons _ h_ne]
    · obtain ⟨part, parts, h_parts⟩ := List.exists_cons_of_ne_nil h_ne
      rw [h_parts]
      cases parts with
      | nil => rfl
      | cons next parts => rfl

theorem splitDouble_zone (h : ':' ∉ z) (t : Text) :
    splitDouble (t ++ z) = appendLast z (splitDouble t) := by
  induction t using splitDouble.induct with
  | case1 => exact splitDouble_of_not_mem h
  | case2 cs ih =>
    rw [List.cons_append, List.cons_append, splitDouble.eq_2, splitDouble.eq_2, ih,
      appendLast_cons _ (splitDouble_ne_nil cs)]
  | case3 c cs h_c h_nil ih => exact absurd h_nil (splitDouble_ne_nil cs)
  | case4 c cs h_c part parts h_parts ih =>
    have h_free : ∀ cs', c = ':' → cs ++ z = ':' :: cs' → False := by
      intro cs' h_eq h_cs
      cases cs with
      | nil =>
        rw [List.nil_append] at h_cs
        exact h (h_cs ▸ List.mem_cons_self)
      | cons d cs =>
        rw [List.cons_append, List.cons.injEq] at h_cs
        exact h_c cs h_eq (by rw [h_cs.1])
    rw [h_parts] at ih
    rw [splitDouble_cons h_c h_parts, List.cons_append]
    cases parts with
    | nil => exact splitDouble_cons h_free ih
    | cons next parts => exact splitDouble_cons h_free ih

theorem colonParts_zone (h : ':' ∉ z) (h_t : z = [] ∨ t ≠ []) :
    colonParts (t ++ z) = appendLast z (colonParts t) := by
  obtain rfl | h_t := h_t
  · rw [List.append_nil, appendLast_nil]
  · have h_ne : t ++ z ≠ [] := fun h_nil => h_t (List.append_eq_nil_iff.mp h_nil).1
    rw [colonParts, colonParts, if_neg h_t, if_neg h_ne, splitChars_zone h]

theorem colon_not_mem_colonParts {part : Text} (h : part ∈ colonParts t) : ':' ∉ part := by
  rw [colonParts] at h
  split at h
  · cases h
  · exact JsText.not_mem_of_mem_splitChars h

end Zones

/-! ## Addresses as bits -/

/-- The parts an IPv6 text is expanded to. -/
def partsOf (ip : Text) : List Text :=
  let left := colonParts ((splitDouble ip).headD [])
  let right := colonParts ((splitDouble ip).getD 1 [])
  left ++ List.replicate (8 - left.length - right.length) ['0'] ++ right

def expands (ip : Text) : Bool :=
  !TextSearch.includes MAPPED ip && decide ((splitDouble ip).length ≤ 2) &&
    decide ((colonParts ((splitDouble ip).headD [])).length +
      (colonParts ((splitDouble ip).getD 1 [])).length ≤ 8)

section Addresses

variable {t l r b : Text} {left gs tail : List Text}

theorem length_partsOf (h : expands t = true) : (partsOf t).length = 8 := by
  rw [expands, Bool.and_eq_true, Bool.and_eq_true, decide_eq_true_eq, decide_eq_true_eq] at h
  rw [partsOf, List.length_append, List.length_append, List.length_replicate]
  omega

theorem colon_not_mem_partsOf {part : Text} (h : part ∈ partsOf t) : ':' ∉ part := by
  rw [partsOf] at h
  obtain h | h := List.mem_append.mp h
  · obtain h | h := List.mem_append.mp h
    · exact colon_not_mem_colonParts h
    · rw [(List.mem_replicate.mp h).2]
      decide
  · exact colon_not_mem_colonParts h

theorem expandIPv6_eq (t : Text) : expandIPv6 t =
    if expands t then some ([':'].intercalate ((partsOf t).map (padStart 4))) else none := by
  rw [expandIPv6, expands]
  by_cases h_mapped : TextSearch.includes MAPPED t = true
  · rw [if_pos h_mapped, h_mapped]
    rfl
  · by_cases h_two : 2 < (splitDouble t).length
    · simp [h_two, Nat.not_le.mpr h_two]
    · by_cases h_eight : 8 < (colonParts ((splitDouble t).headD [])).length +
          (colonParts ((splitDouble t).getD 1 [])).length
      · simp only [if_neg h_mapped, if_neg h_two, if_pos h_eight, Nat.not_le.mpr h_eight,
          decide_false, Bool.and_false, Bool.false_eq_true, if_false]
      · simp only [if_neg h_mapped, if_neg h_two, if_neg h_eight, Nat.not_lt.mp h_eight,
          Nat.not_lt.mp h_two, decide_true, Bool.and_true, Bool.not_eq_true', h_mapped, if_true]
        rfl

theorem ipToBinary_of_isIPv4 (h : IsIPv4 t) :
    ∃ b, ipToBinary t = some b ∧ IsBits b (bitsOf t) (numberOf t) := by
  have h_v4 := isIPv4_iff.mpr h
  have h_octets : ∀ n ∈ octets t, n < 2 ^ 8 := by
    intro n h_n
    obtain ⟨part, h_part, rfl⟩ := List.mem_map.mp h_n
    exact Nat.lt_succ_of_le (h.octets part h_part).bound
  have h_bits := isBits_flatMap (by decide) h_octets
  have h_text : ((JsText.splitChars '.' t).flatMap fun part =>
      padStart 8 (binary (parseInt10 part))) =
      (octets t).flatMap fun (n : Nat) => padStart 8 (binary (some (n : Int))) := by
    rw [octets, List.flatMap_map]
    refine List.flatMap_congr fun part h_part => ?_
    have h_octet := h.octets part h_part
    rw [parseInt10_digits h_octet.nonempty h_octet.digits]
  rw [octets, List.length_map, h.four] at h_bits
  refine ⟨_, by rw [ipToBinary, if_pos h_v4], ?_⟩
  rw [h_text, bitsOf, if_pos h_v4, numberOf, if_pos h_v4]
  exact h_bits

/-- The bits of an IPv6 text, or what is read as such. -/
def sixBits (ip : Text) : Text :=
  (partsOf ip).flatMap fun part => padStart 16 (binary (parseInt16 (padStart 4 part)))

theorem ipToBinary_of_isIPv6 (h : isIPv6 t = true) :
    ipToBinary t = if expands t then some (sixBits t) else none := by
  rw [ipToBinary, not_isIPv4_of_isIPv6 h, if_neg Bool.false_ne_true, if_pos h, expandIPv6_eq]
  split
  · rename_i h_expanded
    split at h_expanded
    · cases h_expanded
    · rename_i h_not
      rw [if_neg h_not]
  · rename_i expanded h_expanded
    split at h_expanded
    · rename_i h_expands
      have h_len : ((partsOf t).map (padStart 4)).length = 8 := by
        rw [List.length_map, length_partsOf h_expands]
      have h_split : JsText.splitChars ':' expanded = (partsOf t).map (padStart 4) := by
        rw [← Option.some.inj h_expanded]
        apply splitChars_intercalate
        · exact fun h_nil => by rw [h_nil] at h_len; cases h_len
        · intro part h_part h_colon
          obtain ⟨p, h_p, rfl⟩ := List.mem_map.mp h_part
          obtain h_colon | h_colon := List.mem_append.mp h_colon
          · exact absurd (List.mem_replicate.mp h_colon).2 (by decide)
          · exact colon_not_mem_partsOf h_p h_colon
      have h_ne : expanded ≠ [] := by
        rintro rfl
        rw [← h_split] at h_len
        cases h_len
      rw [if_pos h_expands, if_neg h_ne, h_split, List.flatMap_map]
      rfl
    · cases h_expanded

/-- Each part takes sixteen characters at least. -/
theorem length_sixBits (h : expands t = true) : 128 ≤ (sixBits t).length := by
  have h_len : ∀ parts : List Text, parts.length * 16 ≤
      (parts.flatMap fun part => padStart 16 (binary (parseInt16 (padStart 4 part)))).length := by
    intro parts
    induction parts with
    | nil => exact Nat.le_refl _
    | cons part parts ih =>
      rw [List.flatMap_cons, List.length_append, padStart, List.length_append,
        List.length_replicate, List.length_cons]
      omega
  have h_all := h_len (partsOf t)
  rw [length_partsOf h] at h_all
  exact h_all

structure IsPlainSix (t : Text) : Prop where
  accepted : isIPv6 t = true
  unmapped : TextSearch.includes MAPPED t = false
  undotted : '.' ∉ address t
  zoneFree : ':' ∉ zone t
  ended : zone t = [] ∨ (address t).getLast? ≠ some ':'

theorem isPlain_iff : isPlain t = true ↔ IsIPv4 t ∨ IsPlainSix t := by
  simp only [isPlain, Bool.or_eq_true, isIPv4_iff, Bool.and_eq_true, Bool.not_eq_true',
    List.contains_eq_mem, decide_eq_false_iff_not, beq_iff_eq, bne_iff_ne, ne_eq]
  refine or_congr Iff.rfl ⟨?_, fun h => ?_⟩
  · rintro ⟨⟨⟨⟨h_six, h_unmapped⟩, h_dot⟩, h_colon⟩, h_end⟩
    exact ⟨h_six, h_unmapped, h_dot, h_colon, h_end⟩
  · exact ⟨⟨⟨⟨h.accepted, h.unmapped⟩, h.undotted⟩, h.zoneFree⟩, h.ended⟩

/-- A tail would be dotted. -/
theorem no_tail {a : Text} (h_tail : IsTail tail) (h : ∀ p ∈ tail, ∀ c ∈ p, c ∈ a)
    (h_dot : '.' ∉ a) : tail = [] := by
  obtain rfl | ⟨v, rfl, h_v⟩ := h_tail
  · rfl
  · exact absurd (h v (List.mem_singleton_self v) '.' h_v.dot_mem) h_dot

theorem parse_groups {z : Text} (h_z : z = [] ∨ z.head? = some '%') (h : ∀ g ∈ gs, IsGroup g) :
    (appendLast z gs).map (fun part => parseInt16 (padStart 4 part)) =
      (gs.map hexadecimal).map fun (n : Nat) => some (n : Int) := by
  have h_alone : ∀ g ∈ gs, parseInt16 (padStart 4 g) = some (hexadecimal g : Int) := by
    intro g h_g
    have h_read := parseInt16_group (h g h_g) (.inl rfl)
    rwa [List.append_nil] at h_read
  rw [map_appendLast fun g h_g => (parseInt16_group (h g h_g) h_z).trans (h_alone g h_g).symm,
    List.map_map]
  exact List.map_congr_left h_alone

/-- The parts are read as the words. -/
theorem IsPlainSix.parts (h : IsPlainSix t) : expands t = true ∧
    (partsOf t).map (fun part => parseInt16 (padStart 4 part)) =
      (words t).map fun (n : Nat) => some (n : Int) := by
  have h_text : address t ++ zone t = t := List.takeWhile_append_dropWhile
  have h_z : zone t = [] ∨ (zone t).head? = some '%' := by
    cases h_zone : zone t with
    | nil => exact .inl rfl
    | cons c cs =>
      have h_c := List.head?_dropWhile_not (fun c => c != '%') t
      rw [show t.dropWhile (fun c => c != '%') = c :: cs from h_zone] at h_c
      right
      simpa using h_c
  have h_split : splitDouble t = appendLast (zone t) (splitDouble (address t)) := by
    rw [← splitDouble_zone h.zoneFree, h_text]
  have h_zero : parseInt16 (padStart 4 ['0']) = some ((0 : Nat) : Int) := by decide
  obtain ⟨gs, tail, h_full⟩ | ⟨l, r, left, gs, tail, h_cut⟩ := isIPv6_cases h.accepted
  · have h_nil : tail = [] :=
      no_tail h_full.ending
        (fun p h_p c h_c =>
          mem_of_mem_splitChars (h_full.parts ▸ List.mem_append_right gs h_p) h_c) h.undotted
    subst h_nil
    have h_parts := h_full.parts
    have h_width := h_full.width
    rw [List.append_nil] at h_parts
    rw [List.length_nil, Nat.mul_zero, Nat.add_zero] at h_width
    have h_address : address t ≠ [] := by
      intro h_empty
      rw [h_empty] at h_parts
      rw [← h_parts] at h_width
      cases h_width
    rw [h_full.whole] at h_split
    have h_left : colonParts ((splitDouble t).headD []) = appendLast (zone t) gs := by
      rw [h_split, appendLast, List.headD_cons, colonParts_zone h.zoneFree (.inr h_address),
        colonParts, if_neg h_address, h_parts]
    have h_right : colonParts ((splitDouble t).getD 1 []) = [] := by
      rw [h_split]
      rfl
    have h_eq : partsOf t = appendLast (zone t) gs := by
      rw [partsOf, h_left, h_right, length_appendLast, h_width]
      simp
    refine ⟨?_, ?_⟩
    · rw [expands, h.unmapped, h_left, h_right, h_split, length_appendLast, length_appendLast,
        h_width]
      rfl
    · rw [h_eq, parse_groups h_z h_full.groups, h_full.words, List.flatMap_nil, List.append_nil]
  · have h_join := intercalate_splitDouble (address t)
    rw [h_cut.halves, List.intercalate_cons_cons, List.intercalate_singleton] at h_join
    have h_nil : tail = [] := by
      refine no_tail h_cut.ending (fun p h_p c h_c => ?_) h.undotted
      have h_part : p ∈ colonParts r := h_cut.back ▸ List.mem_append_right gs h_p
      rw [colonParts] at h_part
      split at h_part
      · cases h_part
      · rw [← h_join]
        exact List.mem_append_right _ (mem_of_mem_splitChars h_part h_c)
    subst h_nil
    have h_back := h_cut.back
    have h_width := h_cut.width
    rw [List.append_nil] at h_back
    rw [List.length_nil, Nat.mul_zero, Nat.add_zero] at h_width
    have h_behind : zone t = [] ∨ r ≠ [] := by
      refine h.ended.imp id fun h_last h_r => h_last ?_
      rw [← h_join, h_r, List.append_nil, List.getLast?_append]
      rfl
    rw [h_cut.halves] at h_split
    have h_left : colonParts ((splitDouble t).headD []) = left := by
      rw [h_split, appendLast_cons _ (List.cons_ne_nil _ _), List.headD_cons, h_cut.front]
    have h_right : colonParts ((splitDouble t).getD 1 []) = appendLast (zone t) gs := by
      have h_second : (splitDouble t).getD 1 [] = r ++ zone t := by
        rw [h_split]
        rfl
      rw [h_second, colonParts_zone h.zoneFree h_behind, h_back]
    have h_eq : partsOf t =
        left ++ List.replicate (8 - left.length - gs.length) ['0'] ++ appendLast (zone t) gs := by
      rw [partsOf, h_left, h_right, length_appendLast]
    have h_two : (splitDouble t).length ≤ 2 := by
      rw [h_split, length_appendLast]
      exact Nat.le_refl 2
    have h_front := parse_groups (.inl rfl) h_cut.leftGroups
    rw [appendLast_nil] at h_front
    refine ⟨?_, ?_⟩
    · have h_eight : left.length + gs.length ≤ 8 := by omega
      rw [expands, h.unmapped, h_left, h_right, length_appendLast, decide_eq_true h_two,
        decide_eq_true h_eight]
      rfl
    · rw [h_eq, h_cut.words, List.map_append, List.map_append, h_front,
        parse_groups h_z h_cut.groups, List.map_replicate, h_zero, List.map_append, List.map_append,
        List.map_replicate, List.flatMap_nil, List.append_nil]
      rfl

/-- Plain addresses become the bits of their number. -/
theorem ipToBinary_plain (h : isPlain t = true) :
    ∃ b, ipToBinary t = some b ∧ IsBits b (bitsOf t) (numberOf t) := by
  obtain h_v4 | h_six := isPlain_iff.mp h
  · exact ipToBinary_of_isIPv4 h_v4
  · obtain ⟨h_expands, h_parts⟩ := h_six.parts
    have h_len : (words t).length = 8 := by
      have h_map := congrArg List.length h_parts
      rw [List.length_map, List.length_map, length_partsOf h_expands] at h_map
      exact h_map.symm
    have h_words : ∀ w ∈ words t, w < 2 ^ 16 := words_lt h_six.accepted
    have h_bits := isBits_flatMap (by decide) h_words
    have h_text : sixBits t =
        (words t).flatMap fun (n : Nat) => padStart 16 (binary (some (n : Int))) := by
      have h_both := congrArg (List.flatMap fun n => padStart 16 (binary n)) h_parts
      rw [List.flatMap_map, List.flatMap_map] at h_both
      exact h_both
    have h_v4 := not_isIPv4_of_isIPv6 h_six.accepted
    refine ⟨sixBits t, ?_, ?_⟩
    · rw [ipToBinary_of_isIPv6 h_six.accepted, if_pos h_expands]
    · rw [h_text, bitsOf, numberOf, h_v4, if_neg Bool.false_ne_true, if_neg Bool.false_ne_true]
      rw [h_len] at h_bits
      exact h_bits

/-- Only accepted addresses become bits, and the two families never the same number of them. -/
theorem ipToBinary_length (h : ipToBinary t = some b) :
    isIPv4 t = true ∧ b.length = 32 ∨ isIPv6 t = true ∧ isIPv4 t = false ∧ 128 ≤ b.length := by
  by_cases h_v4 : isIPv4 t = true
  · obtain ⟨b', h_b', h_bits⟩ := ipToBinary_of_isIPv4 (isIPv4_iff.mp h_v4)
    have h_len := h_bits.length
    rw [bitsOf, if_pos h_v4] at h_len
    rw [Option.some.inj (h.symm.trans h_b')]
    exact .inl ⟨h_v4, h_len⟩
  · by_cases h_six : isIPv6 t = true
    · rw [ipToBinary_of_isIPv6 h_six] at h
      split at h
      · rename_i h_expands
        rw [← Option.some.inj h]
        exact .inr ⟨h_six, Bool.not_eq_true _ ▸ h_v4, length_sixBits h_expands⟩
      · cases h
    · rw [ipToBinary, if_neg h_v4, if_neg h_six] at h
      cases h

theorem ipToBinary_mapped (h : isMapped t = true) : ipToBinary t = none := by
  rw [isMapped, Bool.and_eq_true, Bool.and_eq_true] at h
  rw [ipToBinary_of_isIPv6 h.1.1, expands, h.1.2]
  rfl

end Addresses

/-! ## Matching -/

/-- What is in front of the first slash. -/
def subnetAddress (subnet : Text) : Text := (JsText.splitChars '/' subnet).headD []

/-- What is behind the first slash, up to the next. -/
def prefixText (subnet : Text) : Option Text := (JsText.splitChars '/' subnet)[1]?

section Matching

variable {ip subnet a t : Text} {n : Nat}

theorem isIpInSubnet_iff : isIpInSubnet ip subnet = true ↔
    ∃ prefixLength b c, (prefixText subnet).bind parseInt10 = some prefixLength ∧
      ipToBinary ip = some b ∧ ipToBinary (subnetAddress subnet) = some c ∧
      b.length = c.length ∧ b.take prefixLength.toNat = c.take prefixLength.toNat := by
  have h_ne : ∀ {t b : Text}, ipToBinary t = some b → b ≠ [] := by
    rintro t b h_b rfl
    obtain ⟨-, h_len⟩ | ⟨-, -, h_len⟩ := ipToBinary_length h_b
    · cases h_len
    · exact absurd h_len (by decide)
  rw [isIpInSubnet]
  constructor
  · intro h
    split at h
    · cases h
    · rename_i prefixLength h_length
      split at h
      · cases h
      · split at h
        · rename_i b c h_b h_c
          rw [if_neg (not_or.mpr ⟨h_ne h_b, h_ne h_c⟩)] at h
          split at h
          · cases h
          · rename_i h_len
            exact ⟨prefixLength, b, c, h_length, h_b, h_c, not_not.mp h_len, beq_iff_eq.mp h⟩
        · cases h
  · rintro ⟨prefixLength, b, c, h_length, h_b, h_c, h_len, h_take⟩
    have h_address : subnetAddress subnet ≠ [] := by
      intro h_nil
      rw [h_nil] at h_c
      obtain ⟨h_v4, -⟩ | ⟨h_six, -⟩ := ipToBinary_length h_c
      · exact absurd h_v4 (by decide)
      · exact absurd h_six (by decide)
    rw [prefixText] at h_length
    rw [subnetAddress] at h_c h_address
    simp only [h_length, if_neg h_address, h_b, h_c, if_neg (not_or.mpr ⟨h_ne h_b, h_ne h_c⟩),
      h_len, ne_eq, not_true_eq_false, if_false, h_take, beq_self_eq_true]

/-- A number is read only where there is a digit. -/
theorem digit_of_parseInt10 {p : Int} (h : parseInt10 t = some p) : ∃ c ∈ t, isDigit c = true := by
  have h_read : ∀ {cs : Text} {n : Nat}, leadingNumber isDigit digit 10 cs = some n →
      ∃ c ∈ cs, isDigit c = true := by
    intro cs n h_n
    rw [leadingNumber] at h_n
    split at h_n
    · cases h_n
    · rename_i h_ne
      obtain ⟨c, ds, h_ds⟩ := List.exists_cons_of_ne_nil h_ne
      have h_c : c ∈ cs.takeWhile isDigit := h_ds ▸ List.mem_cons_self
      exact ⟨c, List.takeWhile_subset _ h_c, List.mem_takeWhile_imp h_c⟩
  have h_signed : ∀ cs : Text, signed (leadingNumber isDigit digit 10) cs = some p →
      ∃ c ∈ cs, isDigit c = true := by
    intro cs h_cs
    rw [signed.eq_def] at h_cs
    split at h_cs
    all_goals obtain ⟨n, h_n, -⟩ := Option.map_eq_some_iff.mp h_cs
    · obtain ⟨c, h_c, h_digit⟩ := h_read h_n
      exact ⟨c, List.mem_cons_of_mem _ h_c, h_digit⟩
    · obtain ⟨c, h_c, h_digit⟩ := h_read h_n
      exact ⟨c, List.mem_cons_of_mem _ h_c, h_digit⟩
    · exact h_read h_n
  obtain ⟨c, h_c, h_digit⟩ := h_signed _ h
  exact ⟨c, List.dropWhile_subset _ h_c, h_digit⟩

/-- What a subnet in CIDR notation is made of. -/
theorem cidr_eq_some (h : cidr subnet = some (a, n)) :
    subnetAddress subnet = a ∧ (prefixText subnet).bind parseInt10 = some (n : Int) ∧
      n ≤ bitsOf a := by
  rw [cidr] at h
  split at h
  · rename_i address digits h_parts
    split at h
    · rename_i h_ok
      simp only [Bool.and_eq_true, Bool.not_eq_true', List.isEmpty_eq_false_iff,
        List.all_eq_true, decide_eq_true_eq] at h_ok
      obtain ⟨⟨⟨-, h_ne⟩, h_digits⟩, h_le⟩ := h_ok
      obtain ⟨rfl, rfl⟩ := Prod.mk.inj (Option.some.inj h)
      refine ⟨by rw [subnetAddress, h_parts]; rfl, ?_, h_le⟩
      rw [prefixText, h_parts]
      exact parseInt10_digits h_ne h_digits
    · cases h
  · cases h

/-- Between plain addresses matching is CIDR matching. -/
theorem isIpInSubnet_eq_agree (h_ip : isPlain ip = true) (h_a : isPlain a = true)
    (h : cidr subnet = some (a, n)) : isIpInSubnet ip subnet = agree n ip a := by
  obtain ⟨h_address, h_length, h_le⟩ := cidr_eq_some h
  obtain ⟨b, h_b, h_bits⟩ := ipToBinary_plain h_ip
  obtain ⟨c, h_c, h_bits'⟩ := ipToBinary_plain h_a
  rw [Bool.eq_iff_iff, isIpInSubnet_iff, h_address, agree, Bool.and_eq_true, beq_iff_eq, beq_iff_eq]
  constructor
  · rintro ⟨p, b', c', h_p, h_b', h_c', h_len, h_take⟩
    rw [← Option.some.inj (h_length.symm.trans h_p), Int.toNat_natCast,
      ← Option.some.inj (h_b.symm.trans h_b'), ← Option.some.inj (h_c.symm.trans h_c')] at h_take
    rw [← Option.some.inj (h_b.symm.trans h_b'), ← Option.some.inj (h_c.symm.trans h_c'),
      h_bits.length, h_bits'.length] at h_len
    rw [h_len] at h_bits ⊢
    exact ⟨rfl, (take_eq_iff h_bits h_bits').mp h_take⟩
  · rintro ⟨h_width, h_div⟩
    rw [h_width] at h_bits h_div
    refine ⟨n, b, c, h_length, h_b, h_c, h_bits.length.trans h_bits'.length.symm, ?_⟩
    rw [Int.toNat_natCast]
    exact (take_eq_iff h_bits h_bits').mpr h_div

/-- Two spellings of one plain address are the same bits. -/
theorem ipToBinary_congr (h : isPlain ip = true) (h' : isPlain a = true)
    (h_width : bitsOf ip = bitsOf a) (h_number : numberOf ip = numberOf a) :
    ipToBinary ip = ipToBinary a := by
  obtain ⟨b, h_b, h_bits⟩ := ipToBinary_plain h
  obtain ⟨c, h_c, h_bits'⟩ := ipToBinary_plain h'
  rw [h_width, h_number] at h_bits
  have h_eq := (take_eq_iff (p := bitsOf a) h_bits h_bits').mpr rfl
  rw [List.take_of_length_le (Nat.le_of_eq h_bits.length),
    List.take_of_length_le (Nat.le_of_eq h_bits'.length)] at h_eq
  rw [h_b, h_c, h_eq]

theorem isIpInSubnet_congr (h : ipToBinary ip = ipToBinary a) (subnet : Text) :
    isIpInSubnet ip subnet = isIpInSubnet a subnet := by
  rw [Bool.eq_iff_iff, isIpInSubnet_iff, isIpInSubnet_iff, h]

/-- What admits an address is an accepted address of its family with a number behind it. -/
theorem admitted (h : isIpInSubnet ip subnet = true) :
    isIP ip = true ∧ isIP (subnetAddress subnet) = true ∧
      bitsOf (subnetAddress subnet) = bitsOf ip ∧
      ∃ text, prefixText subnet = some text ∧ ∃ c ∈ text, isDigit c = true := by
  obtain ⟨p, b, c, h_length, h_b, h_c, h_len, -⟩ := isIpInSubnet_iff.mp h
  obtain ⟨text, h_text, h_p⟩ := Option.bind_eq_some_iff.mp h_length
  have h_digit := digit_of_parseInt10 h_p
  have h_ip := ipToBinary_length h_b
  have h_address := ipToBinary_length h_c
  rw [h_len] at h_ip
  rw [isIP, isIP, bitsOf, bitsOf]
  obtain ⟨h_v4, h_32⟩ | ⟨h_six, h_not, h_128⟩ := h_ip
  · obtain ⟨h_v4', -⟩ | ⟨-, -, h_128'⟩ := h_address
    · rw [h_v4, h_v4']
      exact ⟨rfl, rfl, rfl, text, h_text, h_digit⟩
    · omega
  · obtain ⟨-, h_32'⟩ | ⟨h_six', h_not', -⟩ := h_address
    · omega
    · rw [h_not, h_not', h_six, h_six']
      exact ⟨rfl, rfl, rfl, text, h_text, h_digit⟩

/-- The access check lets a plain address in for a subnet that contains it, and for no other
    reason. -/
theorem checkSubnetAccess_plain {subnets : List Text} (h_ip : isPlain ip = true)
    (h : ∀ s ∈ subnets, ∃ a n, cidr s = some (a, n) ∧ isPlain a = true) :
    checkSubnetAccess (some ⟨true, some subnets⟩) (some ip) = .allowed ↔
      ∃ s ∈ subnets, contains s ip = true := by
  have h_accepted : isIP ip = true := by
    rw [isIP, Bool.or_eq_true]
    exact (isPlain_iff.mp h_ip).imp isIPv4_iff.mpr fun h_six => h_six.accepted
  have h_same : ∀ s ∈ subnets, isIpInSubnet ip s = contains s ip := by
    intro s h_s
    obtain ⟨a, n, h_cidr, h_a⟩ := h s h_s
    rw [isIpInSubnet_eq_agree h_ip h_a h_cidr, contains, h_cidr]
  cases subnets with
  | nil => simp [checkSubnetAccess, h_accepted]
  | cons s rest =>
    have h_any : (s :: rest).any (isIpInSubnet ip) = true ↔
        ∃ s' ∈ s :: rest, contains s' ip = true := by
      rw [List.any_eq_true]
      refine exists_congr fun s' => and_congr_right fun h_s => ?_
      rw [h_same s' h_s]
    rw [← h_any, checkSubnetAccess]
    simp only [Bool.not_true, Bool.false_eq_true, if_false, h_accepted]
    split
    · rename_i h_in
      exact ⟨fun _ => h_in, fun _ => rfl⟩
    · rename_i h_out
      refine ⟨fun h_eq => ?_, fun h_in => absurd h_in h_out⟩
      cases h_eq

/-- Matching is CIDR matching between plain addresses; what is no subnet to start with, or of
    the other family, or mapped, never matches; spellings of one address match alike. -/
theorem matches_as_cidr (ip subnet : Text) :
    (∀ a n, isPlain ip = true → cidr subnet = some (a, n) → isPlain a = true →
        isIpInSubnet ip subnet = contains subnet ip) ∧
      (isIpInSubnet ip subnet = true →
        isIP ip = true ∧ isIP (subnetAddress subnet) = true ∧
          bitsOf (subnetAddress subnet) = bitsOf ip ∧
          ∃ text, prefixText subnet = some text ∧ ∃ c ∈ text, isDigit c = true) ∧
      (isMapped ip = true ∨ isMapped (subnetAddress subnet) = true →
        isIpInSubnet ip subnet = false) ∧
      ∀ ip', isPlain ip = true → isPlain ip' = true → bitsOf ip = bitsOf ip' →
        numberOf ip = numberOf ip' → isIpInSubnet ip subnet = isIpInSubnet ip' subnet := by
  refine ⟨fun a n h_ip h_cidr h_a => ?_, admitted, fun h_mapped => ?_,
    fun ip' h_ip h_ip' h_width h_number => ?_⟩
  · rw [isIpInSubnet_eq_agree h_ip h_a h_cidr, contains, h_cidr]
  · rw [← Bool.not_eq_true]
    intro h_in
    obtain ⟨p, b, c, -, h_b, h_c, -⟩ := isIpInSubnet_iff.mp h_in
    obtain h_ip | h_address := h_mapped
    · rw [ipToBinary_mapped h_ip] at h_b
      cases h_b
    · rw [ipToBinary_mapped h_address] at h_c
      cases h_c
  · exact isIpInSubnet_congr (ipToBinary_congr h_ip h_ip' h_width h_number) subnet

/-- A mapped address is in no subnet, its own included; a negative prefix admits everyone, a
    dotted tail is no part of the number, and `::` in front of a zone hides the last group. -/
theorem mapped_and_malformed :
    (isIP "::ffff:1.2.3.4".toList = true ∧
        contains "::ffff:1.2.3.4/128".toList "::ffff:1.2.3.4".toList = true ∧
        isIpInSubnet "::ffff:1.2.3.4".toList "::ffff:1.2.3.4/128".toList = false) ∧
      (isIP "8.8.8.8".toList = true ∧ contains "10.0.0.0/-1".toList "8.8.8.8".toList = false ∧
        isIpInSubnet "8.8.8.8".toList "10.0.0.0/-1".toList = true) ∧
      (isIP "1:2:3:4:5:6:1.2.3.4".toList = true ∧
        contains "1:2:3:4:5:6:102:304/128".toList "1:2:3:4:5:6:1.2.3.4".toList = true ∧
        isIpInSubnet "1:2:3:4:5:6:1.2.3.4".toList "1:2:3:4:5:6:102:304/128".toList = false) ∧
      (isIP "fe80::%eth0".toList = true ∧
        contains "fe80::/128".toList "fe80::%eth0".toList = true ∧
        isIpInSubnet "fe80::%eth0".toList "fe80::/128".toList = false) := by
  decide +kernel

end Matching

end Kubek.Subnets
