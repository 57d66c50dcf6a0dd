/-
  Kubek.Players.Lists

  The player lists of a stopped server (list-codec.ts, list-files.ts, offline.applier.ts).

  A change reads the list file, edits the entries in memory and writes the file anew: first
  a temporary file next to it, then a rename over it. Every file operation is a step of its
  own, and any number of changes of any server and list are between their steps. The lists are
  read and written without a queue, so two changes of one list may both read before one of
  them writes, and the first one is lost (`whitelist_change_lost`).

  A file is what `JSON.parse` makes of it; entries hold what was parsed. `toLowerCase` is a
  parameter.
-/

import Kubek.Lib.JsonValue
import Kubek.Lib.Machine
import Kubek.Lib.Suspended
import Mathlib.Data.List.Permutation

namespace Kubek.Players

open JsJson Transition

/-! ## Server dates -/

/-- A year, a month and a day of the UTC calendar, from the days since 1970. -/
def civil (days : Int) : Int × Nat × Nat :=
  let z := days + 719468
  let era := z / 146097
  let dayOfEra := (z % 146097).toNat
  let yearOfEra := (dayOfEra - dayOfEra / 1460 + dayOfEra / 36524 - dayOfEra / 146096) / 365
  let dayOfYear := dayOfEra - (365 * yearOfEra + yearOfEra / 4 - yearOfEra / 100)
  let month := (5 * dayOfYear + 2) / 153
  let day := dayOfYear - (153 * month + 2) / 5 + 1
  if month < 10 then (yearOfEra + era * 400, month + 3, day)
  else (yearOfEra + era * 400 + 1, month - 9, day)

def natText (n : Nat) : Text := Nat.toDigits 10 n

/-- `pad`. -/
def pad (n : Nat) : Text := if n < 10 then '0' :: natText n else natText n

/-- The year as a template shows it. -/
def yearText (year : Int) : Text :=
  if year < 0 then '-' :: natText year.natAbs else natText year.natAbs

/-- `formatServerDate`: `yyyy-MM-dd HH:mm:ss Z` in UTC. Beyond 8.64e15 a date is invalid. -/
def formatServerDate (ms : Int) : Text :=
  if ms.natAbs > 8640000000000000 then "NaN-NaN-NaN NaN:NaN:NaN +0000".toList
  else
    let (year, month, day) := civil (ms / 86400000)
    let second := ((ms % 86400000) / 1000).toNat
    yearText year ++ '-' :: pad month ++ '-' :: pad day ++ ' ' :: pad (second / 3600) ++
      ':' :: pad (second / 60 % 60) ++ ':' :: pad (second % 60) ++ " +0000".toList

example : formatServerDate 1792845005000 = "2026-10-24 12:30:05 +0000".toList := by decide +kernel

/-! ## list-codec.ts -/

inductive PlayerList where
  | whitelist
  | ops
  | bans
  | ipBans
  deriving DecidableEq, Repr

structure PlayerEntry where
  name : Text
  uuid : Text
  deriving DecidableEq, Repr

structure BanChange where
  reason : Text
  source : Text
  expiresAt : Option Int
  deriving DecidableEq, Repr

/-- `ListChange`. -/
inductive ListChange (N : Type) where
  | addWhitelist (player : PlayerEntry)
  | addOp (player : PlayerEntry) (level : N) (bypassesPlayerLimit : Bool)
  | addBan (player : PlayerEntry) (ban : BanChange)
  | addIpBan (ip : Text) (ban : BanChange)
  | removeWhitelist (name : Text)
  | removeOp (name : Text)
  | removeBan (name : Text)
  | removeIpBan (ip : Text)

variable {N : Type}

def ListChange.list : ListChange N → PlayerList
  | .addWhitelist _ => .whitelist
  | .addOp _ _ _ => .ops
  | .addBan _ _ => .bans
  | .addIpBan _ _ => .ipBans
  | .removeWhitelist _ => .whitelist
  | .removeOp _ => .ops
  | .removeBan _ => .bans
  | .removeIpBan _ => .ipBans

/-- `text(entry[key])` of a parsed entry, an object or an array. -/
def entryText (entry : JsonValue N) (key : Text) : Text :=
  match entry with
  | .obj fields =>
      match fieldOf fields key with
      | some (.str text) => text
      | _ => []
  | _ => []

section Codec

variable (toLowerCase : Text → Text)

/-- The names agree up to case. -/
def sameName (entry : JsonValue N) (name : Text) : Bool :=
  toLowerCase (entryText entry "name".toList) = toLowerCase name

/-- The names agree, or the identifiers when the change has one. -/
def samePlayer (entry : JsonValue N) (player : PlayerEntry) : Bool :=
  sameName toLowerCase entry player.name ||
    (decide (player.uuid ≠ []) &&
      decide (toLowerCase (entryText entry "uuid".toList) = toLowerCase player.uuid))

def sameIp (entry : JsonValue N) (ip : Text) : Bool := entryText entry "ip".toList = ip

/-- `matches`. -/
def matchesEntry (entry : JsonValue N) : ListChange N → Bool
  | .addWhitelist player => samePlayer toLowerCase entry player
  | .addOp player _ _ => samePlayer toLowerCase entry player
  | .addBan player _ => samePlayer toLowerCase entry player
  | .addIpBan ip _ => sameIp entry ip
  | .removeWhitelist name => sameName toLowerCase entry name
  | .removeOp name => sameName toLowerCase entry name
  | .removeBan name => sameName toLowerCase entry name
  | .removeIpBan ip => sameIp entry ip

/-- `encodeBan`. -/
def encodeBan (ban : BanChange) (now : Int) : List (Text × JsonValue N) :=
  [("created".toList, .str (formatServerDate now)),
   ("source".toList, .str ban.source),
   ("expires".toList, .str (match ban.expiresAt with
      | none => "forever".toList
      | some ms => formatServerDate ms)),
   ("reason".toList, .str (if ban.reason = [] then "Banned by an operator.".toList else ban.reason))]

def encodePlayer (player : PlayerEntry) : List (Text × JsonValue N) :=
  [("uuid".toList, .str player.uuid), ("name".toList, .str player.name)]

/-- `encode`; none for a removal. -/
def encode (now : Int) : ListChange N → Option (JsonValue N)
  | .addWhitelist player => some (.obj (encodePlayer player))
  | .addOp player level bypasses =>
      some (.obj (encodePlayer player ++
        [("level".toList, .num level), ("bypassesPlayerLimit".toList, .bool bypasses)]))
  | .addBan player ban => some (.obj (encodePlayer player ++ encodeBan ban now))
  | .addIpBan ip ban => some (.obj (("ip".toList, .str ip) :: encodeBan ban now))
  | .removeWhitelist _ => none
  | .removeOp _ => none
  | .removeBan _ => none
  | .removeIpBan _ => none

/-- `applyChange`. -/
def applyChange (raw : List (JsonValue N)) (change : ListChange N) (now : Int) :
    List (JsonValue N) :=
  raw.filter (fun entry => !matchesEntry toLowerCase entry change) ++ (encode now change).toList

end Codec

/-! ## list-files.ts -/

/-- What is on disk at a path. -/
inductive FileText (N : Type) where
  | missing
  | blank
  /-- A part of a document, while a write goes on. -/
  | partly
  /-- No JSON, or no array. -/
  | garbage
  | array (items : List (JsonValue N))

/-- `!!entry && typeof entry === "object"`. -/
def isEntry : JsonValue N → Bool
  | .obj _ => true
  | .arr _ => true
  | _ => false

/-- `readListFile`; none is `ListFileUnreadableError`. -/
def readListFile : FileText N → Option (List (JsonValue N))
  | .missing => some []
  | .blank => some []
  | .partly => none
  | .garbage => none
  | .array items => some (items.filter isEntry)

/-! ## offline.applier.ts -/

/-- How far `writeFileAtomic` is. -/
inductive WriteStage where
  | begins
  | opened
  | written
  deriving DecidableEq, Repr

/-- `OfflineApplier.apply` of a change, by what it awaits. -/
inductive Call (N : Type) where
  | reading (serverId : Text) (change : ListChange N)
  /-- The file was read; `next` is the list with the change. -/
  | writing (serverId : Text) (change : ListChange N) (now : Int) (next : List (JsonValue N))
      (stage : WriteStage)
  | done
  | failed

/-- A change that is in its list file. -/
structure Applied (N : Type) where
  serverId : Text
  change : ListChange N
  now : Int

/-- The list files, the temporary file of each call, and the calls. -/
structure Disk (N : Type) where
  files : Text → PlayerList → FileText N
  temps : Nat → FileText N := fun _ => .missing
  calls : List (Call N) := []
  /-- The changes whose request was answered with success, in the order of their renames. -/
  applied : List (Applied N) := []

inductive Event (N : Type) where
  /-- `apply` begins. -/
  | accept (serverId : Text) (change : ListChange N)
  /-- The list file is read, at the time `now`. -/
  | read (i : Nat) (now : Int)
  /-- The temporary file is there, with a part of the text at most. -/
  | openTemp (i : Nat)
  | writeTemp (i : Nat)
  | rename (i : Nat)
  /-- The write fails, and the temporary file is removed. -/
  | writeFails (i : Nat)

namespace Disk

def callAt (d : Disk N) (i : Nat) : Call N := Suspended.get .done d.calls i

def setFile (files : Text → PlayerList → FileText N) (serverId : Text) (list : PlayerList)
    (content : FileText N) : Text → PlayerList → FileText N :=
  fun s l => if s = serverId ∧ l = list then content else files s l

/-- The call `i` goes on to `c`. -/
def moveTo (d : Disk N) (i : Nat) (c : Call N) : Disk N := { d with calls := d.calls.set i c }

def step (toLowerCase : Text → Text) (d : Disk N) : Event N → Option (Disk N)
  | .accept serverId change => some { d with calls := d.calls ++ [.reading serverId change] }
  | .read i now =>
      match d.callAt i with
      | .reading serverId change =>
          match readListFile (d.files serverId change.list) with
          | none => some (d.moveTo i .failed)
          | some raw =>
              some (d.moveTo i
                (.writing serverId change now (applyChange toLowerCase raw change now) .begins))
      | _ => none
  | .openTemp i =>
      match d.callAt i with
      | .writing serverId change now next .begins =>
          some { d.moveTo i (.writing serverId change now next .opened) with
            temps := Function.update d.temps i .partly }
      | _ => none
  | .writeTemp i =>
      match d.callAt i with
      | .writing serverId change now next .opened =>
          some { d.moveTo i (.writing serverId change now next .written) with
            temps := Function.update d.temps i (.array next) }
      | _ => none
  | .rename i =>
      match d.callAt i with
      | .writing serverId change now _ .written =>
          some { d.moveTo i .done with
            files := setFile d.files serverId change.list (d.temps i)
            temps := Function.update d.temps i .missing
            applied := d.applied ++ [⟨serverId, change, now⟩] }
      | _ => none
  | .writeFails i =>
      match d.callAt i with
      | .writing _ _ _ _ _ =>
          some { d.moveTo i .failed with temps := Function.update d.temps i .missing }
      | _ => none

end Disk

/-- The runs on a disk that holds `files`. -/
def machine (toLowerCase : Text → Text) (files : Text → PlayerList → FileText N) :
    Machine (Disk N) (Event N) where
  init d := d = { files := files }
  step := Disk.step toLowerCase

/-! ## Changes one after another -/

section Serial

variable (toLowerCase : Text → Text) (start : Text → PlayerList → FileText N)

/-- The file after a change that has it for itself. -/
def applyTo (file : FileText N) (a : Applied N) : FileText N :=
  .array (applyChange toLowerCase ((readListFile file).getD []) a.change a.now)

/-- The successful changes of one list. -/
def changesOf (d : Disk N) (serverId : Text) (list : PlayerList) : List (Applied N) :=
  d.applied.filter fun a => a.serverId = serverId ∧ a.change.list = list

/-- Every list file is what its successful changes make of it one after another, so it holds all
of them and is whole. -/
def ListsSerial (d : Disk N) : Prop :=
  ∀ serverId list, ∃ order : List (Applied N), order.Perm (changesOf d serverId list) ∧
    d.files serverId list = order.foldl (applyTo toLowerCase) (start serverId list)

/-- The list a call is about to write. -/
def Call.target : Call N → Option (Text × PlayerList)
  | .writing serverId change _ _ _ => some (serverId, change.list)
  | _ => none

/-- A list is read for a change while no other change of it is between its read and its
rename. -/
def readsAlone (d : Disk N) : Event N → Bool
  | .read i _ =>
      match d.callAt i with
      | .reading serverId change => d.calls.all fun c => c.target ≠ some (serverId, change.list)
      | _ => true
  | _ => true

/-- What runs without overlapping changes keep: a call that read its list still has the latest
one, and no other call writes that list. -/
structure Inv (d : Disk N) : Prop where
  serial : ∀ serverId list, d.files serverId list
    = (changesOf d serverId list).foldl (applyTo toLowerCase) (start serverId list)
  next : ∀ i serverId change now next stage,
    d.callAt i = .writing serverId change now next stage →
      next = applyChange toLowerCase ((readListFile (d.files serverId change.list)).getD []) change now
  temp : ∀ i serverId change now next,
    d.callAt i = .writing serverId change now next .written → d.temps i = .array next
  alone : ∀ i j target, (d.callAt i).target = some target → (d.callAt j).target = some target → i = j

end Serial

section Steps

variable {toLowerCase : Text → Text} {start : Text → PlayerList → FileText N} {d d' : Disk N}

theorem Inv.listsSerial (h : Inv toLowerCase start d) : ListsSerial toLowerCase start d :=
  fun serverId list => ⟨_, .rfl, h.serial serverId list⟩

theorem callAt_moveTo {i : Nat} {c c' : Call N} (h_at : d.callAt i = c) (h_c : c.target ≠ none ∨
    ∃ serverId change, c = .reading serverId change) :
    (d.moveTo i c').callAt = Function.update d.callAt i c' := by
  have h_lt : i < d.calls.length := by
    refine Suspended.lt_of_get_ne .done ?_
    rw [show Suspended.get .done d.calls i = c from h_at]
    rintro rfl
    rcases h_c with h_c | ⟨_, _, h_c⟩
    · exact h_c rfl
    · cases h_c
  exact Suspended.get_set .done h_lt c'

/-- A call goes on without touching a list file. -/
theorem Inv.move (h : Inv toLowerCase start d) {i : Nat} {c : Call N}
    (calls : d'.callAt = Function.update d.callAt i c) (files : d'.files = d.files)
    (applied : d'.applied = d.applied) (temps : ∀ j, j ≠ i → d'.temps j = d.temps j)
    (h_next : ∀ serverId change now next stage, c = .writing serverId change now next stage →
      next = applyChange toLowerCase ((readListFile (d.files serverId change.list)).getD []) change now)
    (h_temp : ∀ serverId change now next,
      c = .writing serverId change now next .written → d'.temps i = .array next)
    (h_alone : ∀ target, c.target = some target → ∀ j, j ≠ i → (d.callAt j).target ≠ some target) :
    Inv toLowerCase start d' where
  serial serverId list := by
    rw [files, changesOf, applied]
    exact h.serial serverId list
  next j serverId change now next stage h_j := by
    rw [files]
    obtain ⟨-, h_c⟩ | ⟨-, h_old⟩ := Suspended.update_cases calls h_j
    · exact h_next serverId change now next stage h_c
    · exact h.next j serverId change now next stage h_old
  temp j serverId change now next h_j := by
    obtain ⟨h_eq, h_c⟩ | ⟨h_ne, h_old⟩ := Suspended.update_cases calls h_j
    · rw [h_eq]
      exact h_temp serverId change now next h_c
    · rw [temps j h_ne]
      exact h.temp j serverId change now next h_old
  alone j k target h_j h_k := by
    obtain ⟨h_ji, h_cj⟩ | ⟨h_ji, h_cj⟩ := Suspended.update_cases calls (rfl : d'.callAt j = _)
    · obtain ⟨h_ki, -⟩ | ⟨h_ki, h_ck⟩ := Suspended.update_cases calls (rfl : d'.callAt k = _)
      · rw [h_ji, h_ki]
      · rw [← h_cj] at h_j
        rw [← h_ck] at h_k
        exact absurd h_k (h_alone target h_j k h_ki)
    · obtain ⟨h_ki, h_ck⟩ | ⟨-, h_ck⟩ := Suspended.update_cases calls (rfl : d'.callAt k = _)
      · rw [← h_cj] at h_j
        rw [← h_ck] at h_k
        exact absurd h_j (h_alone target h_k j h_ji)
      · rw [← h_cj] at h_j
        rw [← h_ck] at h_k
        exact h.alone j k target h_j h_k

/-- A call that writes nothing from here on. -/
theorem Inv.ends (h : Inv toLowerCase start d) {i : Nat} {c : Call N}
    (calls : d'.callAt = Function.update d.callAt i c) (files : d'.files = d.files)
    (applied : d'.applied = d.applied) (temps : ∀ j, j ≠ i → d'.temps j = d.temps j)
    (h_c : c.target = none) : Inv toLowerCase start d' := by
  have h_not : ∀ serverId change now next stage, c ≠ .writing serverId change now next stage := by
    rintro serverId change now next stage rfl
    cases h_c
  refine h.move calls files applied temps ?_ ?_ ?_
  · intro serverId change now next stage h_eq
    exact absurd h_eq (h_not serverId change now next stage)
  · intro serverId change now next h_eq
    exact absurd h_eq (h_not serverId change now next .written)
  · intro target h_target
    rw [h_c] at h_target
    cases h_target

/-- A call that goes on with the list it read. -/
theorem Inv.proceeds (h : Inv toLowerCase start d) {i : Nat} {serverId : Text}
    {change : ListChange N} {now : Int} {next : List (JsonValue N)} {stage stage' : WriteStage}
    (h_at : d.callAt i = .writing serverId change now next stage)
    (calls : d'.callAt = Function.update d.callAt i (.writing serverId change now next stage'))
    (files : d'.files = d.files) (applied : d'.applied = d.applied)
    (temps : ∀ j, j ≠ i → d'.temps j = d.temps j)
    (h_temp : stage' = .written → d'.temps i = .array next) : Inv toLowerCase start d' := by
  refine h.move calls files applied temps ?_ ?_ ?_
  · rintro _ _ _ _ _ ⟨⟩
    exact h.next i serverId change now next stage h_at
  · rintro _ _ _ _ ⟨⟩
    exact h_temp rfl
  · intro target h_target j h_ne h_other
    have h_mine : (d.callAt i).target = some target := by
      rw [h_at]
      exact h_target
    exact h_ne (h.alone j i target h_other h_mine)

/-- The rename brings the latest list with the change, and no other call reads or writes it. -/
theorem Inv.renames (h : Inv toLowerCase start d) {i : Nat} {serverId : Text}
    {change : ListChange N} {now : Int} {next : List (JsonValue N)}
    (h_at : d.callAt i = .writing serverId change now next .written)
    (calls : d'.callAt = Function.update d.callAt i .done)
    (files : d'.files = Disk.setFile d.files serverId change.list (d.temps i))
    (applied : d'.applied = d.applied ++ [⟨serverId, change, now⟩])
    (temps : ∀ j, j ≠ i → d'.temps j = d.temps j) : Inv toLowerCase start d' where
  serial s l := by
    rw [files, Disk.setFile, changesOf, applied, List.filter_append]
    by_cases h_eq : s = serverId ∧ l = change.list
    · obtain ⟨rfl, rfl⟩ := h_eq
      have h_file : d.temps i = applyTo toLowerCase (d.files s change.list) ⟨s, change, now⟩ := by
        rw [h.temp i s change now next h_at, h.next i s change now next .written h_at]
        rfl
      have h_new : [(⟨s, change, now⟩ : Applied N)].filter
          (fun a => a.serverId = s ∧ a.change.list = change.list) = [⟨s, change, now⟩] := by
        simp
      rw [if_pos ⟨rfl, rfl⟩, h_new, List.foldl_append, h_file, h.serial s change.list]
      rfl
    · have h_none : [(⟨serverId, change, now⟩ : Applied N)].filter
          (fun a => a.serverId = s ∧ a.change.list = l) = [] := by
        simp only [List.filter_cons, List.filter_nil, decide_eq_true_eq]
        rw [if_neg]
        rintro ⟨rfl, rfl⟩
        exact h_eq ⟨rfl, rfl⟩
      rw [if_neg h_eq, h_none, List.append_nil]
      exact h.serial s l
  next j s c t next' stage h_j := by
    obtain ⟨-, h_c⟩ | ⟨h_ne, h_old⟩ := Suspended.update_cases calls h_j
    · cases h_c
    · rw [files, Disk.setFile, if_neg]
      · exact h.next j s c t next' stage h_old
      · rintro ⟨rfl, h_list⟩
        refine h_ne (h.alone j i (s, c.list) ?_ ?_)
        · rw [h_old]
          rfl
        · rw [h_at, h_list]
          rfl
  temp j s c t next' h_j := by
    obtain ⟨-, h_c⟩ | ⟨h_ne, h_old⟩ := Suspended.update_cases calls h_j
    · cases h_c
    · rw [temps j h_ne]
      exact h.temp j s c t next' h_old
  alone j k target h_j h_k := by
    have h_old : ∀ j, (d'.callAt j).target = some target → (d.callAt j).target = some target := by
      intro j h_target
      obtain ⟨-, h_c⟩ | ⟨-, h_same⟩ := Suspended.update_cases calls (rfl : d'.callAt j = _)
      · rw [← h_c] at h_target
        cases h_target
      · rw [h_same]
        exact h_target
    exact h.alone j k target (h_old j h_j) (h_old k h_k)

theorem Inv.step {e : Event N} (h : Inv toLowerCase start d) (h_guard : readsAlone d e = true)
    (h_step : d.step toLowerCase e = some d') : Inv toLowerCase start d' := by
  have h_update : ∀ (i j : Nat) (content : FileText N), j ≠ i →
      Function.update d.temps i content j = d.temps j :=
    fun i j content h_ne => Function.update_of_ne h_ne content d.temps
  cases e with
  | accept serverId change =>
    cases h_step
    have h_calls : Disk.callAt { d with calls := d.calls ++ [.reading serverId change] }
        = Function.update d.callAt d.calls.length (.reading serverId change) :=
      Suspended.get_push Call.done d.calls (.reading serverId change)
    exact h.ends h_calls rfl rfl (fun _ _ => rfl) rfl
  | read i now =>
    simp only [Disk.step] at h_step
    split at h_step
    · rename_i serverId change h_at
      have h_calls : ∀ c, (d.moveTo i c).callAt = Function.update d.callAt i c :=
        fun c => callAt_moveTo h_at (.inr ⟨serverId, change, rfl⟩)
      split at h_step
      · cases h_step
        exact h.ends (h_calls _) rfl rfl (fun _ _ => rfl) rfl
      · rename_i raw h_raw
        cases h_step
        refine h.move (h_calls _) rfl rfl (fun _ _ => rfl) ?_ ?_ ?_
        · rintro _ _ _ _ _ ⟨⟩
          rw [h_raw]
          rfl
        · rintro _ _ _ _ ⟨⟩
        · rintro _ ⟨⟩ j - h_other
          simp only [readsAlone, h_at, List.all_eq_true, decide_eq_true_eq] at h_guard
          have h_lt : j < d.calls.length := by
            refine Suspended.lt_of_get_ne .done fun h_done => ?_
            rw [Disk.callAt, h_done] at h_other
            cases h_other
          have h_mem : d.callAt j ∈ d.calls := by
            rw [Disk.callAt, Suspended.get, List.getElem?_eq_getElem h_lt]
            exact List.getElem_mem h_lt
          exact h_guard _ h_mem h_other
    · cases h_step
  | openTemp i =>
    simp only [Disk.step] at h_step
    split at h_step
    · rename_i h_at
      cases h_step
      exact h.proceeds h_at (callAt_moveTo h_at (.inl (by simp [Call.target]))) rfl rfl
        (fun j => h_update i j _) (fun h_stage => by cases h_stage)
    · cases h_step
  | writeTemp i =>
    simp only [Disk.step] at h_step
    split at h_step
    · rename_i h_at
      cases h_step
      exact h.proceeds h_at (callAt_moveTo h_at (.inl (by simp [Call.target]))) rfl rfl
        (fun j => h_update i j _) (fun _ => Function.update_self i _ d.temps)
    · cases h_step
  | rename i =>
    simp only [Disk.step] at h_step
    split at h_step
    · rename_i h_at
      cases h_step
      exact h.renames h_at (callAt_moveTo h_at (.inl (by simp [Call.target]))) rfl rfl
        (fun j => h_update i j _)
    · cases h_step
  | writeFails i =>
    simp only [Disk.step] at h_step
    split at h_step
    · rename_i h_at
      cases h_step
      exact h.ends (callAt_moveTo h_at (.inl (by simp [Call.target]))) rfl rfl
        (fun j => h_update i j _) rfl
    · cases h_step

end Steps

/-- **Offline changes.** In every run in which no two changes of one list overlap between the read
and the rename, every list file holds all successful changes, as if made one after another. -/
theorem listsSerial_of_reachableUnder (toLowerCase : Text → Text)
    (start : Text → PlayerList → FileText N) {d : Disk N}
    (h : (machine toLowerCase start).ReachableUnder (fun d e => readsAlone d e = true) d) :
    ListsSerial toLowerCase start d := by
  have h_inv : Inv toLowerCase start d := by
    refine h.invariant ?_ fun _ _ _ h_inv h_guard h_step => h_inv.step h_guard h_step
    rintro d rfl
    refine ⟨fun _ _ => rfl, ?_, ?_, ?_⟩
    · intro i serverId change now next stage h_at
      cases h_at
    · intro i serverId change now next h_at
      cases h_at
    · intro i j target h_i
      cases h_i
  exact h_inv.listsSerial

/-- Two players for the whitelist of one server. -/
def addSteve : ListChange Nat := .addWhitelist ⟨"Steve".toList, []⟩

def addAlex : ListChange Nat := .addWhitelist ⟨"Alex".toList, []⟩

/-- A change from its read to its rename. -/
def writes (i : Nat) : List (Event Nat) := [.openTemp i, .writeTemp i, .rename i]

/-- Empty lists on every server. -/
def emptyLists : Text → PlayerList → FileText Nat := fun _ _ => .array []

def inTurn : List (Event Nat) :=
  [.accept [] addSteve, .accept [] addAlex, .read 0 0] ++ writes 0 ++ [.read 1 0] ++ writes 1

theorem listsSerial_inTurn :
    ∃ d, (machine id emptyLists).runUnder readsAlone { files := emptyLists } inTurn = some d ∧
      d.applied.length = 2 ∧ ListsSerial id emptyLists d :=
  ⟨_, rfl, rfl, listsSerial_of_reachableUnder id emptyLists
    ((machine id emptyLists).reachableUnder_of_runUnder inTurn (.init rfl) rfl)⟩

/-! ## A lost change -/

/-- Both changes read the list before one of them is in it. -/
def bothRead : List (Event Nat) :=
  [.accept [] addSteve, .accept [] addAlex, .read 0 0, .read 1 0] ++ writes 0 ++ writes 1

/-- How many entries a list file holds. -/
def FileText.size : FileText N → Nat
  | .array items => items.length
  | _ => 0

theorem whitelist_change_lost :
    ¬ ∀ (toLowerCase : Text → Text) (start : Text → PlayerList → FileText Nat) (d : Disk Nat),
        (machine toLowerCase start).Reachable d → ListsSerial toLowerCase start d := by
  intro h
  have h_run := (Option.some_get
    (x := (machine id emptyLists).run { files := emptyLists } bothRead) rfl).symm
  obtain ⟨order, h_perm, h_file⟩ := h id emptyLists _
    ((machine id emptyLists).reachable_of_run bothRead (.init rfl) h_run) [] .whitelist
  have h_size := congrArg FileText.size h_file
  rcases List.perm_pair (a := Applied.mk [] addSteve 0) (b := Applied.mk [] addAlex 0).mp h_perm
    with rfl | rfl
  · exact absurd h_size (by decide)
  · exact absurd h_size (by decide)

end Kubek.Players
