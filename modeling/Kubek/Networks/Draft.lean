/-
  Kubek.Networks.Draft

  Members of a proxy network and the changes of them (`plan/network-naming.ts`,
  `plan/network-draft.ts`, `network-members.service.ts`): what a change makes of the member
  rows it reads, and what `velocity.toml` lists for the result.

  `toLowerCase().normalize("NFKD")` is a parameter, and so are the servers of the panel:
  their names, their addresses behind the proxy, and whether Velocity can serve them.
-/

import Mathlib.Data.List.Sort
import Mathlib.Data.List.Perm.Subperm
import Kubek.Properties.SafeEdits

namespace Kubek.Networks

open Properties (CodeUnit Text unitsOf)

def DASH : CodeUnit := 0x2D

/-! ## Names -/

/-- `[a-z0-9_-]`. -/
def isAliasUnit (c : CodeUnit) : Bool :=
  (0x61 ≤ c && c ≤ 0x7A) || (0x30 ≤ c && c ≤ 0x39) || c == 0x5F || c == DASH

/-- `replace(/[^a-z0-9_-]+/g, "-")`; `inRun` says that the run has its dash already. -/
def dashed : Bool → Text → Text
  | _, [] => []
  | inRun, c :: text =>
      if isAliasUnit c then c :: dashed false text
      else if inRun then dashed true text
      else DASH :: dashed true text

/-- `replace(/^-+|-+$/g, "")`. -/
def trimDashes (text : Text) : Text :=
  ((text.dropWhile (· == DASH)).reverse.dropWhile (· == DASH)).reverse

/-- The name of an alias before it is numbered. -/
def aliasBase (fold : Text → Text) (name : Text) : Text :=
  let base := (trimDashes (dashed false (fold name))).take 32
  if base = [] then unitsOf "server" else base

/-- `${base}-${i}`. -/
def numbered (base : Text) (i : Nat) : Text := base ++ DASH :: unitsOf (Nat.repr i)

/-- The loop of `aliasFor`: the first of the numbered names that is free. One of the first
    `used.length + 1` is. -/
def freeAlias (base : Text) (used : List Text) : Nat → Nat → Text
  | 0, i => numbered base i
  | fuel + 1, i =>
      if numbered base i ∈ used then freeAlias base used fuel (i + 1) else numbered base i

def aliasFor (fold : Text → Text) (name : Text) (taken : List Text) : Text :=
  let base := aliasBase fold name
  if base ∈ taken then freeAlias base taken taken.length 2 else base

/-! ## Members -/

/-- A row of `network_members`, and the backend it stands for in a draft. -/
structure Member where
  serverId : Text
  aliasName : Text
  tryOrder : Option Nat
  deriving DecidableEq, Repr

/-- `ORDER BY tryOrder IS NULL, tryOrder, alias`. -/
def inOrder (a b : Member) : Bool :=
  match a.tryOrder, b.tryOrder with
  | some m, some n => decide (m < n) || (m == n && !decide (b.aliasName < a.aliasName))
  | some _, none => true
  | none, some _ => false
  | none, none => !decide (b.aliasName < a.aliasName)

/-- Earlier in the try order. -/
def byTryOrder (a b : Member) : Bool := a.tryOrder.getD 0 ≤ b.tryOrder.getD 0

/-- `members`. -/
def sorted (rows : List Member) : List Member := rows.insertionSort fun a b => inOrder a b

/-- The backends of the try list, the default one first. -/
def tried (backends : List Member) : List Member :=
  (backends.filter fun b => b.tryOrder.isSome).insertionSort fun a b => byTryOrder a b

/-- `compactOrder`. -/
def compactOrder (backends : List Member) : List Member :=
  let compacted := backends.map fun b =>
    match b.tryOrder with
    | none => b
    | some _ => { b with tryOrder := (tried backends).idxOf? b }
  match compacted with
  | [] => []
  | b :: rest =>
      if (b :: rest).all fun x => x.tryOrder.isNone then { b with tryOrder := some 0 } :: rest
      else b :: rest

/-- What the drafts take from the servers of the panel. -/
structure Panel where
  /-- `toLowerCase().normalize("NFKD")`. -/
  fold : Text → Text
  name : Text → Text
  /-- The server is there and its blueprint can run behind Velocity. -/
  serves : Text → Bool
  /-- `backendAddress`. -/
  address : Text → Text

/-- A change of the members. -/
inductive Change
  | addMember (serverId : Text)
  | removeMember (serverId : Text)
  | setOrder (order : List Text)
  | rotateSecret
  deriving DecidableEq, Repr

/-- What the panel writes of a network into `velocity.toml`. -/
structure VelocityFile where
  servers : List (Text × Text)
  tryList : List Text
  deriving DecidableEq, Repr

section Draft

variable (p : Panel)

/-- The backends of `draftOf`. -/
def draftOf (rows : List Member) : List Member := (sorted rows).filter fun m => p.serves m.serverId

/-- The member that `addMember` adds to the backends of a draft. -/
def added (serverId : Text) (backends : List Member) : Member where
  serverId := serverId
  aliasName := aliasFor p.fold (p.name serverId) (backends.map Member.aliasName)
  tryOrder := if backends.all fun b => b.tryOrder.isNone then some 0 else none

/-- The backends a change commits, from the rows it reads; none where it refuses. -/
def drafted (rows : List Member) : Change → Option (List Member)
  | .addMember serverId => some (draftOf p rows ++ [added p serverId (draftOf p rows)])
  | .removeMember serverId =>
      some (compactOrder (draftOf p (rows.filter fun m => m.serverId ≠ serverId)))
  | .setOrder order =>
      if order = [] ∨ ¬ order.Nodup ∨
          ¬ order.all fun s => (draftOf p rows).any fun b => b.serverId == s then none
      else some ((draftOf p rows).map fun b => { b with tryOrder := order.idxOf? b.serverId })
  | .rotateSecret => some (draftOf p rows)

/-- The server list and the try list of a draft. -/
def velocityFile (backends : List Member) : VelocityFile where
  servers := backends.map fun b => (b.aliasName, p.address b.serverId)
  tryList := (tried backends).map Member.aliasName

end Draft

/-- The keys of the table: a server and a name are in one row at most. -/
def insertable (backends : List Member) : Bool :=
  decide (backends.map Member.serverId).Nodup && decide (backends.map Member.aliasName).Nodup &&
    decide (backends.filterMap Member.tryOrder).Nodup

/-! ## Which servers a change names -/

/-- What a member is besides its place in the try order. -/
def Member.key (m : Member) : Text × Text := (m.serverId, m.aliasName)

section Keys

variable {p : Panel} {rows backends : List Member} {change : Change}

theorem key_compactOrder (backends : List Member) :
    (compactOrder backends).map Member.key = backends.map Member.key := by
  have h_map : (backends.map fun b => match b.tryOrder with
      | none => b
      | some _ => { b with tryOrder := (tried backends).idxOf? b }).map Member.key =
        backends.map Member.key := by
    rw [List.map_map]
    apply List.map_congr_left
    intro b _
    rw [Function.comp_apply]
    split
    · rfl
    · rfl
  rw [← h_map, compactOrder]
  split
  · rename_i h_nil
    rw [h_nil]
  · rename_i b rest h_cons
    rw [h_cons]
    split
    · rfl
    · rfl

/-- The servers and names of the rows that Velocity serves. -/
def served (p : Panel) (rows : List Member) : List (Text × Text) :=
  (rows.filter fun m => p.serves m.serverId).map Member.key

theorem key_draftOf (p : Panel) (rows : List Member) :
    ((draftOf p rows).map Member.key).Perm (served p rows) :=
  ((List.perm_insertionSort _ rows).filter _).map _

theorem served_filter (p : Panel) (rows : List Member) (s : Text) :
    served p (rows.filter fun m => m.serverId ≠ s) =
      (served p rows).filter fun k => k.1 ≠ s := by
  rw [served, served, List.filter_map, List.filter_filter, List.filter_filter]
  congr 1
  apply List.filter_congr
  intro m _
  exact Bool.and_comm _ _

theorem mem_served {k : Text × Text} :
    k ∈ served p rows ↔ k ∈ rows.map Member.key ∧ p.serves k.1 = true := by
  simp only [served, List.mem_map, List.mem_filter]
  constructor
  · rintro ⟨m, ⟨h_m, h_serves⟩, rfl⟩
    exact ⟨⟨m, h_m, rfl⟩, h_serves⟩
  · rintro ⟨⟨m, h_m, rfl⟩, h_serves⟩
    exact ⟨m, ⟨h_m, h_serves⟩, rfl⟩

theorem served_eq (p : Panel) (rows : List Member) :
    served p rows = (rows.map Member.key).filter fun k => p.serves k.1 := by
  rw [served, List.filter_map]
  rfl

/-- Rows with the servers and names that Velocity serves of others. -/
theorem served_perm {rows' : List Member} (h : (served p rows).Perm (rows'.map Member.key)) :
    (served p rows).Perm (served p rows') := by
  have h_filter := h.filter fun k => p.serves k.1
  rw [← served_eq p rows', served_eq p rows, List.filter_filter] at h_filter
  rw [served_eq p rows]
  simpa only [Bool.and_self] using h_filter

/-- The server that a change adds or removes. -/
def Change.server : Change → Option Text
  | .addMember serverId => some serverId
  | .removeMember serverId => some serverId
  | .setOrder _ => none
  | .rotateSecret => none

/-- The draft of a change, server by server. -/
theorem mem_key_drafted (h : drafted p rows change = some backends) (k : Text × Text)
    (h_server : change.server ≠ some k.1) : k ∈ backends.map Member.key ↔ k ∈ served p rows := by
  cases change with
  | addMember s =>
    cases h
    have h_ne : k ≠ (added p s (draftOf p rows)).key := fun h_eq => h_server (by rw [h_eq]; rfl)
    rw [List.map_append, List.mem_append, (key_draftOf p rows).mem_iff]
    simp [h_ne]
  | removeMember s =>
    cases h
    have h_ne : k.1 ≠ s := fun h_eq => h_server (congrArg some h_eq.symm)
    rw [key_compactOrder, (key_draftOf p _).mem_iff, served_filter, List.mem_filter]
    simp [h_ne]
  | setOrder order =>
    simp only [drafted] at h
    split at h
    · cases h
    · cases h
      rw [List.map_map]
      exact (key_draftOf p rows).mem_iff
  | rotateSecret =>
    cases h
    exact (key_draftOf p rows).mem_iff

theorem added_mem_drafted {s : Text} (h : drafted p rows (.addMember s) = some backends) :
    (added p s (draftOf p rows)).key ∈ backends.map Member.key := by
  cases h
  exact List.mem_map_of_mem (List.mem_append_right _ (List.mem_singleton_self _))

theorem not_mem_drafted {s : Text} (h : drafted p rows (.removeMember s) = some backends)
    (k : Text × Text) (h_k : k ∈ backends.map Member.key) : k.1 ≠ s := by
  cases h
  rw [key_compactOrder, (key_draftOf p _).mem_iff, served_filter, List.mem_filter] at h_k
  simpa using h_k.2

end Keys

/-! ## Names that are free -/

theorem toNat_digit {n : Nat} {c : Char} (h : c ∈ Nat.toDigits 10 n) : c.toNat < 65536 := by
  have h_digit := Nat.isDigit_of_mem_toDigits (by decide : 0 < 10) (Nat.le_refl 10) h
  simp only [Char.isDigit, Bool.and_eq_true, decide_eq_true_eq] at h_digit
  have h_le : c.toNat ≤ 57 := UInt32.le_iff_toNat_le.mp h_digit.2
  omega

/-- The digits of a number say which it is. -/
theorem unitsOf_repr_injective {i j : Nat} (h : unitsOf (Nat.repr i) = unitsOf (Nat.repr j)) :
    i = j := by
  have h_back : ∀ n, (unitsOf (Nat.repr n)).map (fun c => Char.ofNat c.toNat) =
      Nat.toDigits 10 n := by
    intro n
    rw [unitsOf, Nat.repr, String.toList_ofList, List.map_map]
    conv_rhs => rw [← List.map_id (Nat.toDigits 10 n)]
    apply List.map_congr_left
    intro c h_c
    rw [Function.comp_apply, UInt16.toNat_ofNat', Nat.mod_eq_of_lt (toNat_digit h_c), id_eq,
      Char.ofNat_toNat]
  calc i = Nat.ofDigitChars 10 (Nat.toDigits 10 i) 0 := Nat.ofDigitChars_ten_toDigits.symm
    _ = Nat.ofDigitChars 10 (Nat.toDigits 10 j) 0 := by rw [← h_back i, h, h_back j]
    _ = j := Nat.ofDigitChars_ten_toDigits

/-- One of more numbered names than there are names is free. -/
theorem exists_numbered_not_mem (base : Text) (used : List Text) (i : Nat) :
    ∃ k, i ≤ k ∧ k ≤ i + used.length ∧ numbered base k ∉ used := by
  by_contra h_none
  simp only [not_exists, not_and, not_not] at h_none
  have h_nodup : ((List.range (used.length + 1)).map fun d => numbered base (i + d)).Nodup := by
    apply List.Nodup.map _ List.nodup_range
    intro d d' h_eq
    have h_num := unitsOf_repr_injective (List.cons.inj (List.append_cancel_left h_eq)).2
    omega
  have h_subset : ((List.range (used.length + 1)).map fun d => numbered base (i + d)) ⊆ used := by
    intro name h_name
    obtain ⟨d, h_d, rfl⟩ := List.mem_map.mp h_name
    have h_lt := List.mem_range.mp h_d
    exact h_none (i + d) (by omega) (by omega)
  have h_length := (List.subperm_of_subset h_nodup h_subset).length_le
  rw [List.length_map, List.length_range] at h_length
  omega

theorem freeAlias_not_mem (base : Text) (used : List Text) (fuel i : Nat)
    (h : ∃ k, i ≤ k ∧ k ≤ i + fuel ∧ numbered base k ∉ used) :
    freeAlias base used fuel i ∉ used := by
  induction fuel generalizing i with
  | zero =>
    obtain ⟨k, h_le, h_ge, h_free⟩ := h
    have h_eq : k = i := by omega
    rw [freeAlias, ← h_eq]
    exact h_free
  | succ fuel ih =>
    rw [freeAlias]
    split
    · rename_i h_used
      obtain ⟨k, h_le, h_ge, h_free⟩ := h
      have h_ne : k ≠ i := by
        rintro rfl
        exact h_free h_used
      exact ih (i + 1) ⟨k, by omega, by omega, h_free⟩
    · rename_i h_free
      exact h_free

/-- `aliasFor` gives a name that is not taken. -/
theorem aliasFor_not_mem (fold : Text → Text) (name : Text) (taken : List Text) :
    aliasFor fold name taken ∉ taken := by
  rw [aliasFor]
  split
  · exact freeAlias_not_mem _ _ _ _ (exists_numbered_not_mem _ taken 2)
  · rename_i h_free
    exact h_free

/-! ## Rows that the table takes -/

section Insertable

variable {p : Panel} {rows backends : List Member} {change : Change}

theorem insertable_iff : insertable backends = true ↔ (backends.map Member.serverId).Nodup ∧
    (backends.map Member.aliasName).Nodup ∧ (backends.filterMap Member.tryOrder).Nodup := by
  simp only [insertable, Bool.and_eq_true, decide_eq_true_eq, and_assoc]

theorem insertable_of_sublist (h : backends.Sublist rows) (h_rows : insertable rows = true) :
    insertable backends = true := by
  rw [insertable_iff] at h_rows ⊢
  exact ⟨(h.map _).nodup h_rows.1, (h.map _).nodup h_rows.2.1, (h.filterMap _).nodup h_rows.2.2⟩

theorem insertable_of_perm (h : backends.Perm rows) (h_rows : insertable rows = true) :
    insertable backends = true := by
  rw [insertable_iff] at h_rows ⊢
  exact ⟨(h.map _).nodup_iff.mpr h_rows.1, (h.map _).nodup_iff.mpr h_rows.2.1,
    (h.filterMap _).nodup_iff.mpr h_rows.2.2⟩

theorem insertable_draftOf (p : Panel) (h : insertable rows = true) :
    insertable (draftOf p rows) = true :=
  insertable_of_sublist List.filter_sublist
    (insertable_of_perm (List.perm_insertionSort _ rows) h)

/-- Only the try order differs. -/
theorem insertable_of_key {rows' : List Member} (h_key : backends.map Member.key = rows'.map Member.key)
    (h_rows : insertable rows' = true) (h_order : (backends.filterMap Member.tryOrder).Nodup) :
    insertable backends = true := by
  have h_fst := congrArg (List.map Prod.fst) h_key
  have h_snd := congrArg (List.map Prod.snd) h_key
  simp only [List.map_map] at h_fst h_snd
  rw [insertable_iff] at h_rows ⊢
  refine ⟨?_, ?_, h_order⟩
  · rw [show Member.serverId = Prod.fst ∘ Member.key from rfl, h_fst]
    exact h_rows.1
  · rw [show Member.aliasName = Prod.snd ∘ Member.key from rfl, h_snd]
    exact h_rows.2.1

/-- Different members have different places. -/
theorem eq_of_idxOf? {α : Type} [BEq α] [LawfulBEq α] {l : List α} {a b : α} {i : Nat}
    (h_a : l.idxOf? a = some i) (h_b : l.idxOf? b = some i) : a = b := by
  obtain ⟨_, h_a, -⟩ := List.idxOf?_eq_some_iff.mp h_a
  obtain ⟨_, h_b, -⟩ := List.idxOf?_eq_some_iff.mp h_b
  rw [← h_a, ← h_b]

theorem nodup_of_insertable (h : insertable backends = true) : backends.Nodup :=
  List.Nodup.of_map _ (insertable_iff.mp h).1

theorem nodup_compactOrder (h : backends.Nodup) :
    ((compactOrder backends).filterMap Member.tryOrder).Nodup := by
  rw [compactOrder]
  split
  · exact List.nodup_nil
  · rename_i b rest h_cons
    have h_places : ((b :: rest).filterMap Member.tryOrder).Nodup := by
      rw [← h_cons, List.filterMap_map]
      apply h.filterMap
      intro a b place h_a h_b
      simp only [Function.comp_apply] at h_a h_b
      split at h_a
      · rename_i h_none
        rw [h_none] at h_a
        cases h_a
      · split at h_b
        · rename_i h_none
          rw [h_none] at h_b
          cases h_b
        · exact eq_of_idxOf? h_a h_b
    split
    · -- Without a try list the first becomes the default.
      rename_i h_all
      have h_rest : rest.filterMap Member.tryOrder = [] := by
        rw [List.filterMap_eq_nil_iff]
        intro m h_m
        simpa using List.all_eq_true.mp h_all m (List.mem_cons_of_mem b h_m)
      have h_cons_some : ({ b with tryOrder := some 0 } :: rest).filterMap Member.tryOrder =
          0 :: rest.filterMap Member.tryOrder := List.filterMap_cons_some rfl
      rw [h_cons_some, h_rest]
      exact List.nodup_singleton 0
    · exact h_places

/-- The table never refuses the rows that a change makes of its rows. -/
theorem insertable_drafted (h_rows : insertable rows = true)
    (h_free : ∀ s, change = .addMember s → s ∉ rows.map Member.serverId)
    (h : drafted p rows change = some backends) : insertable backends = true := by
  cases change with
  | addMember s =>
    cases h
    obtain ⟨h_ids, h_names, h_order⟩ := insertable_iff.mp (insertable_draftOf p h_rows)
    have h_s : s ∉ (draftOf p rows).map Member.serverId := by
      intro h_mem
      obtain ⟨m, h_m, rfl⟩ := List.mem_map.mp h_mem
      exact h_free m.serverId rfl (List.mem_map_of_mem
        ((List.perm_insertionSort _ rows).mem_iff.mp (List.mem_of_mem_filter h_m)))
    rw [insertable_iff, List.map_append, List.map_append, List.filterMap_append]
    refine ⟨?_, ?_, ?_⟩
    · exact h_ids.append (List.nodup_singleton _) (List.disjoint_singleton.mpr h_s)
    · exact h_names.append (List.nodup_singleton _)
        (List.disjoint_singleton.mpr (aliasFor_not_mem p.fold _ _))
    · by_cases h_all : (draftOf p rows).all (fun b => b.tryOrder.isNone) = true
      · have h_nil : (draftOf p rows).filterMap Member.tryOrder = [] := by
          rw [List.filterMap_eq_nil_iff]
          intro m h_m
          simpa using List.all_eq_true.mp h_all m h_m
        have h_new : (added p s (draftOf p rows)).tryOrder = some 0 := if_pos h_all
        rw [h_nil, List.nil_append, List.filterMap_cons_some h_new]
        exact List.nodup_singleton 0
      · have h_new : (added p s (draftOf p rows)).tryOrder = none := if_neg h_all
        rw [List.filterMap_cons_none h_new, List.filterMap_nil, List.append_nil]
        exact h_order
  | removeMember s =>
    cases h
    have h_draft := insertable_draftOf p (insertable_of_sublist
      (List.filter_sublist (p := fun m : Member => decide (m.serverId ≠ s))) h_rows)
    exact insertable_of_key (key_compactOrder _) h_draft
      (nodup_compactOrder (nodup_of_insertable h_draft))
  | setOrder order =>
    simp only [drafted] at h
    split at h
    · cases h
    · cases h
      have h_draft := insertable_draftOf p h_rows
      refine insertable_of_key (by rw [List.map_map]; rfl) h_draft ?_
      have h_places : ((draftOf p rows).map fun b => { b with tryOrder := order.idxOf? b.serverId }
          ).filterMap Member.tryOrder =
            ((draftOf p rows).map Member.serverId).filterMap (order.idxOf? ·) := by
        rw [List.filterMap_map, List.filterMap_map]
        rfl
      rw [h_places]
      apply (insertable_iff.mp h_draft).1.filterMap
      intro a b place h_a h_b
      exact eq_of_idxOf? (Option.mem_def.mp h_a) (Option.mem_def.mp h_b)
  | rotateSecret =>
    cases h
    exact insertable_draftOf p h_rows

end Insertable
end Kubek.Networks
