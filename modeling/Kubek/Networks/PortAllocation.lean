/-
  Kubek.Networks.PortAllocation

  The ports of the servers that a network wizard creates: the check of the request
  (`dto/network-requests.dto.ts`), `allocatePorts` (`wizard-spec.service.ts`), `allocate`
  (`network-ports.service.ts`) and `freePorts` (`plan/network-naming.ts`).

  The search of `freePorts` is the front of the list of all free ports (`freePorts_eq`). What
  `allocate` picks and the chosen ports are, in some order, the ports of the new servers
  (`fill_perm`), which gives the properties of the whole list.
-/

import Kubek.Lib.Fallible
import Mathlib.Data.List.Nodup
import Mathlib.Data.List.Perm.Subperm
import Mathlib.Data.List.ReduceOption

namespace Kubek.Networks.PortAllocation

def BACKEND_PORT_START : Nat := 25566
def PROXY_PORT : Nat := 25577
def LAST_PORT : Nat := 65535

/-! ## Free ports -/

/-- The loop of `freePorts`, with the number of ports that are left to look at. -/
def freePortsFrom (used : List Nat) : Nat → Nat → Nat → List Nat
  | 0, _, _ => []
  | left + 1, count, port =>
      if count = 0 then []
      else if used.contains port then freePortsFrom used left count (port + 1)
      else port :: freePortsFrom used left (count - 1) (port + 1)

/-- First free ports from `start` up, skipping the used ones. -/
def freePorts (used : List Nat) (count start : Nat) : List Nat :=
  freePortsFrom used (LAST_PORT + 1 - start) count start

inductive Refusal
  | invalid
  /-- `PORT_TAKEN`, with the port. -/
  | portTaken (port : Option Nat)
  /-- `NO_FREE_PORT`. -/
  | noFreePort
  deriving DecidableEq, Repr

/-- Free ports for new servers, the preferred one first when it is free. -/
def allocate (used : List Nat) (count : Nat) (preferred : Option Nat) (excluded : List Nat) :
    Except Refusal (List Nat) :=
  if count = 0 then .ok []
  else
    let used := used ++ excluded
    let first := preferred.toList.filter fun port => !used.contains port
    let out := first ++ freePorts (first ++ used) (count - first.length) BACKEND_PORT_START
    if out.length < count then .error .noFreePort else .ok out

/-! ## The request -/

/-- The `port` of a new server in the request. -/
inductive PortField
  | undefined
  | null
  | number (n : Int)
  /-- No integer. -/
  | other
  deriving DecidableEq, Repr

namespace PortField

/-- `IsOptional`, `IsInt`, `Min(1)` and `Max(65535)`: what is optional may be null. -/
def valid : PortField → Bool
  | .undefined => true
  | .null => true
  | .number n => 1 ≤ n && n ≤ LAST_PORT
  | .other => false

/-- The chosen port. -/
def chosen? : PortField → Option Nat
  | .number n => some n.toNat
  | _ => none

/-- `!port`. -/
def falsy (f : PortField) : Bool := f.chosen?.getD 0 == 0

/-- What the loop over the chosen ports sees: `undefined` is skipped, null is not. -/
def value? : PortField → Option (Option Nat)
  | .null => some none
  | f => f.chosen?.map some

end PortField

/-- The loop over the chosen ports. -/
def choose (used : List Nat) :
    List (Option Nat) → List PortField → Except Refusal (List (Option Nat))
  | chosen, [] => .ok chosen
  | chosen, f :: fields =>
      match f.value? with
      | none => choose used chosen fields
      | some port =>
          if port.any used.contains || chosen.contains port then .error (.portTaken port)
          else choose used (chosen ++ [port]) fields

/-- `backends.map((b) => b.port ?? auto.shift()!)`. -/
def fill : List PortField → List Nat → List Nat
  | [], _ => []
  | f :: fields, auto =>
      match f.chosen? with
      | some port => port :: fill fields auto
      | none => auto.headD 0 :: fill fields auto.tail

/-- The port of the proxy; without a new proxy it is 0. -/
def proxyPort (used : List Nat) (newProxy : Option PortField) (chosen : List Nat) :
    Except Refusal Nat :=
  match newProxy with
  | none => .ok 0
  | some f =>
      if f.falsy then (allocate used 1 (some PROXY_PORT) chosen).map fun out => out.headD 0
      else .ok (f.chosen?.getD 0)

/-- Chosen ports are checked, the rest is picked around them. -/
def allocatePorts (used : List Nat) (newProxy : Option PortField) (backends : List PortField) :
    Except Refusal (List Nat) := do
  let chosen ← choose used [] (newProxy.getD .undefined :: backends)
  let proxy ← proxyPort used newProxy chosen.reduceOption
  let auto ← allocate used (backends.filter (·.falsy)).length none
    (chosen.reduceOption ++ [proxy])
  pure (proxy :: fill backends auto)

/-- The ports of a wizard request, with the check of its fields. -/
def wizardPorts (used : List Nat) (newProxy : Option PortField) (backends : List PortField) :
    Except Refusal (List Nat) :=
  if (newProxy.toList ++ backends).all PortField.valid then allocatePorts used newProxy backends
  else .error .invalid

/-! ## What is free -/

/-- All ports that `freePorts` may give. -/
def free (used : List Nat) (start : Nat) : List Nat :=
  (List.range' start (LAST_PORT + 1 - start)).filter fun port => !used.contains port

theorem freePortsFrom_eq (used : List Nat) (left count port : Nat) :
    freePortsFrom used left count port =
      ((List.range' port left).filter fun port => !used.contains port).take count := by
  induction left generalizing count port with
  | zero => simp [freePortsFrom]
  | succ left ih =>
    rw [freePortsFrom, List.range'_succ, List.filter_cons]
    by_cases h_count : count = 0
    · rw [if_pos h_count, h_count, List.take_zero]
    · rw [if_neg h_count]
      cases h_used : used.contains port with
      | true => exact ih count (port + 1)
      | false =>
        obtain ⟨rest, rfl⟩ := Nat.exists_eq_succ_of_ne_zero h_count
        exact congrArg (port :: ·) (ih rest (port + 1))

/-- The search gives the front of the free ports. -/
theorem freePorts_eq (used : List Nat) (count start : Nat) :
    freePorts used count start = (free used start).take count := freePortsFrom_eq used _ count start

theorem mem_free {used : List Nat} {start port : Nat} :
    port ∈ free used start ↔ (start ≤ port ∧ port ≤ LAST_PORT) ∧ port ∉ used := by
  rw [free, List.mem_filter, List.mem_range'_1]
  simp only [Bool.not_eq_true', List.contains_eq_mem, decide_eq_false_iff_not]
  refine and_congr_left fun _ => ?_
  omega

theorem nodup_free (used : List Nat) (start : Nat) : (free used start).Nodup :=
  List.Nodup.filter _ List.nodup_range'

/-- One more used port takes at most one free port away. -/
theorem length_free_le (used : List Nat) (port start : Nat) :
    (free used start).length ≤ (free (port :: used) start).length + 1 := by
  have h_sub : free used start ⊆ port :: free (port :: used) start := by
    intro q h_q
    obtain ⟨h_range, h_used⟩ := mem_free.mp h_q
    by_cases h_eq : q = port
    · exact h_eq ▸ List.mem_cons_self
    · refine List.mem_cons_of_mem port (mem_free.mpr ⟨h_range, ?_⟩)
      rw [List.mem_cons, not_or]
      exact ⟨h_eq, h_used⟩
  exact (List.subperm_of_subset (nodup_free used start) h_sub).length_le

/-! ## Allocation -/

section Allocate

variable {used excluded out : List Nat} {count : Nat} {preferred : Option Nat}

/-- What is picked: as many ports as asked for, all free. -/
structure Picked (used : List Nat) (count : Nat) (out : List Nat) : Prop where
  length : out.length = count
  nodup : out.Nodup
  free : ∀ port ∈ out, port ∉ used
  range : ∀ port ∈ out, BACKEND_PORT_START ≤ port ∧ port ≤ LAST_PORT

theorem allocate_picked (h : allocate used count preferred excluded = .ok out)
    (h_preferred : ∀ port ∈ preferred, BACKEND_PORT_START ≤ port ∧ port ≤ LAST_PORT) :
    Picked (used ++ excluded) count out := by
  rw [allocate] at h
  split at h
  · rename_i h_zero
    cases h
    exact ⟨h_zero.symm, List.nodup_nil, nofun, nofun⟩
  · rename_i h_count
    dsimp only at h
    generalize h_first :
      (preferred.toList.filter fun port => !(used ++ excluded).contains port) = first at h
    split at h
    · cases h
    · rename_i h_length
      cases h
      have h_mem : ∀ port ∈ first, port ∈ preferred ∧ port ∉ used ++ excluded := by
        intro port h_port
        rw [← h_first, List.mem_filter, Option.mem_toList] at h_port
        exact ⟨h_port.1, by simpa using h_port.2⟩
      have h_short : first.length ≤ 1 := by
        rw [← h_first]
        refine Nat.le_trans (List.length_filter_le _ _) ?_
        cases preferred <;> simp
      have h_nodup : first.Nodup := by
        rw [← h_first]
        refine List.Nodup.filter _ ?_
        cases preferred <;> simp
      have h_rest : ∀ port ∈ freePorts (first ++ (used ++ excluded)) (count - first.length)
          BACKEND_PORT_START, (BACKEND_PORT_START ≤ port ∧ port ≤ LAST_PORT) ∧
            port ∉ first ++ (used ++ excluded) := by
        intro port h_port
        rw [freePorts_eq] at h_port
        exact mem_free.mp (List.mem_of_mem_take h_port)
      refine ⟨?_, ?_, fun port h_port => ?_, fun port h_port => ?_⟩
      · rw [freePorts_eq, List.length_append, List.length_take] at h_length ⊢
        omega
      · refine List.nodup_append.mpr ⟨h_nodup, ?_, ?_⟩
        · rw [freePorts_eq]
          exact (nodup_free _ _).sublist (List.take_sublist _ _)
        · rintro port h_port _ h_other rfl
          exact (h_rest port h_other).2 (List.mem_append_left _ h_port)
      · obtain h_port | h_port := List.mem_append.mp h_port
        · exact (h_mem port h_port).2
        · exact fun h_used => (h_rest port h_port).2 (List.mem_append_right _ h_used)
      · obtain h_port | h_port := List.mem_append.mp h_port
        · exact h_preferred port (h_mem port h_port).1
        · exact (h_rest port h_port).1

theorem Picked.mono {used' : List Nat} (h : Picked used count out)
    (h_used : ∀ port ∈ used', port ∈ used) : Picked used' count out :=
  ⟨h.length, h.nodup, fun port h_port h_in => h.free port h_port (h_used port h_in), h.range⟩

theorem Picked.cons {port : Nat} (h : Picked (used ++ [port]) count out)
    (h_port : Picked used 1 [port]) : Picked used (count + 1) (port :: out) := by
  refine ⟨congrArg (· + 1) h.length, List.nodup_cons.mpr ⟨fun h_in => ?_, h.nodup⟩, ?_, ?_⟩
  · exact h.free port h_in (List.mem_append_right _ List.mem_cons_self)
  · intro q h_q
    obtain rfl | h_q := List.mem_cons.mp h_q
    · exact h_port.free q List.mem_cons_self
    · exact fun h_used => h.free q h_q (List.mem_append_left _ h_used)
  · intro q h_q
    obtain rfl | h_q := List.mem_cons.mp h_q
    · exact h_port.range q List.mem_cons_self
    · exact h.range q h_q

/-- A refusal: fewer ports are free than asked for. -/
theorem free_of_allocate_error {e : Refusal}
    (h : allocate used count preferred excluded = .error e) :
    (free (used ++ excluded) BACKEND_PORT_START).length < count := by
  rw [allocate] at h
  split at h
  · cases h
  · rename_i h_count
    dsimp only at h
    generalize h_first :
      (preferred.toList.filter fun port => !(used ++ excluded).contains port) = first at h
    split at h
    · rename_i h_length
      have h_one : first = [] ∨ ∃ port, first = [port] := by
        have h_short : first.length ≤ 1 := by
          rw [← h_first]
          refine Nat.le_trans (List.length_filter_le _ _) ?_
          cases preferred <;> simp
        match first, h_short with
        | [], _ => exact .inl rfl
        | [port], _ => exact .inr ⟨port, rfl⟩
      rw [freePorts_eq, List.length_append, List.length_take] at h_length
      obtain rfl | ⟨port, rfl⟩ := h_one
      · simp only [List.length_nil, List.nil_append] at h_length
        omega
      · have h_less := length_free_le (used ++ excluded) port BACKEND_PORT_START
        simp only [List.length_singleton, List.singleton_append] at h_length
        omega
    · cases h

end Allocate

/-! ## The chosen ports -/

section Choose

variable {used : List Nat} {chosen out : List (Option Nat)} {fields : List PortField}

theorem choose_spec (h : choose used chosen fields = .ok out) (h_nodup : chosen.Nodup) :
    out = chosen ++ fields.filterMap PortField.value? ∧ out.Nodup ∧
      ∀ port, some port ∈ fields.filterMap PortField.value? → port ∉ used := by
  induction fields generalizing chosen with
  | nil =>
    cases h
    exact ⟨(List.append_nil _).symm, h_nodup, nofun⟩
  | cons f fields ih =>
    rw [choose] at h
    rw [List.filterMap_cons]
    split at h
    · rename_i h_value
      rw [h_value]
      exact ih h h_nodup
    · rename_i port h_value
      rw [h_value]
      split at h
      · cases h
      · rename_i h_free
        rw [Bool.or_eq_true, not_or] at h_free
        have h_new : port ∉ chosen := by simpa using h_free.2
        have h_more : (chosen ++ [port]).Nodup :=
          List.nodup_append.mpr ⟨h_nodup, List.nodup_singleton port, by
            rintro q h_q _ h_port rfl
            exact h_new (List.mem_singleton.mp h_port ▸ h_q)⟩
        obtain ⟨h_out, h_out_nodup, h_unused⟩ := ih h h_more
        refine ⟨by rw [h_out, List.append_assoc]; rfl, h_out_nodup, fun q h_q => ?_⟩
        obtain rfl | h_q := List.mem_cons.mp h_q
        · simpa using h_free.1
        · exact h_unused q h_q

/-- A refusal: a chosen port is in use, or chosen twice. -/
theorem of_choose_error {e : Refusal} (h : choose used chosen fields = .error e) :
    (∃ port ∈ used, some port ∈ fields.filterMap PortField.value?) ∨
      ¬ (chosen ++ fields.filterMap PortField.value?).Nodup := by
  induction fields generalizing chosen with
  | nil => cases h
  | cons f fields ih =>
    rw [choose] at h
    rw [List.filterMap_cons]
    split at h
    · rename_i h_value
      rw [h_value]
      exact ih h
    · rename_i port h_value
      rw [h_value]
      split at h
      · rename_i h_taken
        obtain h_used | h_twice := Bool.or_eq_true _ _ |>.mp h_taken
        · cases port with
          | none => cases h_used
          | some q => exact .inl ⟨q, by simpa using h_used, List.mem_cons_self⟩
        · refine .inr fun h_nodup => ?_
          have h_mem : port ∈ chosen := by simpa using h_twice
          exact (List.nodup_append.mp h_nodup).2.2 port h_mem port List.mem_cons_self rfl
      · obtain ⟨q, h_q, h_mem⟩ | h_twice := ih h
        · exact .inl ⟨q, h_q, List.mem_cons_of_mem _ h_mem⟩
        · rw [List.append_assoc] at h_twice
          exact .inr h_twice

end Choose

namespace PortField

theorem reduceOption_value? (fields : List PortField) :
    (fields.filterMap value?).reduceOption = fields.filterMap chosen? := by
  rw [List.reduceOption, List.filterMap_filterMap]
  refine List.filterMap_congr fun f _ => ?_
  cases f <;> rfl

theorem some_mem_value? {fields : List PortField} {port : Nat} :
    some port ∈ fields.filterMap value? ↔ port ∈ fields.filterMap chosen? := by
  rw [← reduceOption_value?, List.reduceOption_mem_iff]

/-- A field that passes the check is falsy if and only if it chooses no port. -/
theorem falsy_iff {f : PortField} (h : f.valid = true) : f.falsy = f.chosen?.isNone := by
  cases f with
  | number n =>
    rw [valid, Bool.and_eq_true, decide_eq_true_eq, decide_eq_true_eq] at h
    have h_pos : n.toNat ≠ 0 := by omega
    simp [falsy, chosen?, h_pos]
  | _ => rfl

theorem chosen?_range {f : PortField} (h : f.valid = true) {port : Nat}
    (h_port : f.chosen? = some port) : 1 ≤ port ∧ port ≤ LAST_PORT := by
  cases f with
  | number n =>
    cases h_port
    rw [valid, Bool.and_eq_true, decide_eq_true_eq, decide_eq_true_eq] at h
    omega
  | _ => cases h_port

/-- Without null, no port is chosen twice in the loop that the request chooses once. -/
theorem nodup_value? {fields : List PortField} (h_null : .null ∉ fields)
    (h : (fields.filterMap chosen?).Nodup) : (fields.filterMap value?).Nodup := by
  have h_same : fields.filterMap value? = (fields.filterMap chosen?).map some := by
    rw [List.map_filterMap]
    refine List.filterMap_congr fun f h_f => ?_
    cases f with
    | null => exact absurd h_f h_null
    | _ => rfl
  rw [h_same]
  exact List.Nodup.map (fun _ _ h_eq => Option.some.inj h_eq) h

end PortField

/-! ## Matching the ports with the servers -/

attribute [local simp] fill in
theorem length_fill (fields : List PortField) (auto : List Nat) :
    (fill fields auto).length = fields.length := by
  induction fields generalizing auto with
  | nil => rfl
  | cons f fields ih =>
    rw [fill]
    split
    · exact congrArg (· + 1) (ih auto)
    · exact congrArg (· + 1) (ih auto.tail)

theorem getElem?_fill {fields : List PortField} {i port : Nat} {f : PortField}
    (h : fields[i]? = some f) (h_port : f.chosen? = some port) (auto : List Nat) :
    (fill fields auto)[i]? = some port := by
  induction fields generalizing i auto with
  | nil => cases h
  | cons g fields ih =>
    rw [fill]
    cases i with
    | zero =>
      cases h
      rw [h_port]
      rfl
    | succ i =>
      split
      · exact ih h auto
      · exact ih h auto.tail

/-- The ports of the servers are the chosen ones and the picked ones. -/
theorem fill_perm (fields : List PortField) {auto : List Nat}
    (h : auto.length = (fields.filter (·.chosen?.isNone)).length) :
    (fill fields auto).Perm (fields.filterMap PortField.chosen? ++ auto) := by
  induction fields generalizing auto with
  | nil =>
    rw [List.length_eq_zero_iff.mp h]
    exact .refl _
  | cons f fields ih =>
    rw [fill, List.filterMap_cons]
    rw [List.filter_cons] at h
    cases h_chosen : f.chosen? with
    | some port =>
      rw [h_chosen] at h
      exact (ih h).cons port
    | none =>
      rw [h_chosen] at h
      cases auto with
      | nil => cases h
      | cons port auto =>
        have h_rest := (ih (Nat.succ.inj h)).cons port
        exact h_rest.trans List.perm_middle.symm

/-! ## The ports of a request -/

section Request

variable {used result : List Nat} {newProxy : Option PortField} {backends : List PortField}

/-- The new servers of a request, the proxy first. -/
def newServers (newProxy : Option PortField) (backends : List PortField) : List PortField :=
  newProxy.toList ++ backends

/-- The ports of the new servers. Without a new proxy the first port is of no server. -/
def serverPorts (newProxy : Option PortField) (result : List Nat) : List Nat :=
  if newProxy.isSome then result else result.tail

/-- Ports as the request and the panel want them. -/
structure Assigned (used : List Nat) (servers : List PortField) (ports : List Nat) : Prop where
  length : ports.length = servers.length
  range : ∀ port ∈ ports, 1 ≤ port ∧ port ≤ LAST_PORT
  honoured : ∀ (i : Nat) (f : PortField) (port : Nat), servers[i]? = some f →
    f.chosen? = some port → ports[i]? = some port
  /-- A chosen port is the port of no other server. -/
  only : ∀ (i j : Nat) (f : PortField) (port : Nat), servers[i]? = some f →
    f.chosen? = some port → ports[j]? = some port → j = i
  nodup : ports.Nodup
  unused : ∀ port ∈ ports, port ∉ used

/-- The chosen ports and the picked ones, in the order of the servers. -/
theorem assigned_of_perm {servers : List PortField} {ports picks : List Nat} {count : Nat}
    (h_length : ports.length = servers.length)
    (h_honoured : ∀ (i : Nat) (f : PortField) (port : Nat), servers[i]? = some f →
      f.chosen? = some port → ports[i]? = some port)
    (h_perm : ports.Perm (servers.filterMap PortField.chosen? ++ picks))
    (h_valid : ∀ f ∈ servers, f.valid = true)
    (h_nodup : (servers.filterMap PortField.chosen?).Nodup)
    (h_unused : ∀ port ∈ servers.filterMap PortField.chosen?, port ∉ used)
    (h_picks : Picked (used ++ servers.filterMap PortField.chosen?) count picks) :
    Assigned used servers ports := by
  have h_ports : ports.Nodup := by
    refine h_perm.nodup_iff.mpr (List.nodup_append.mpr ⟨h_nodup, h_picks.nodup, ?_⟩)
    rintro port h_chosen _ h_pick rfl
    exact h_picks.free port h_pick (List.mem_append_right used h_chosen)
  refine ⟨h_length, fun port h_port => ?_, h_honoured, fun i j f port h_f h_chosen h_j => ?_,
    h_ports, fun port h_port => ?_⟩
  · obtain h_chosen | h_pick := List.mem_append.mp (h_perm.mem_iff.mp h_port)
    · obtain ⟨f, h_f, h_eq⟩ := List.mem_filterMap.mp h_chosen
      exact PortField.chosen?_range (h_valid f h_f) h_eq
    · have h_range := h_picks.range port h_pick
      rw [BACKEND_PORT_START] at h_range
      omega
  · have h_i := h_honoured i f port h_f h_chosen
    obtain ⟨h_lt, -⟩ := List.getElem?_eq_some_iff.mp h_j
    exact (List.getElem?_inj h_lt h_ports).mp (h_j.trans h_i.symm)
  · obtain h_chosen | h_pick := List.mem_append.mp (h_perm.mem_iff.mp h_port)
    · exact h_unused port h_chosen
    · exact fun h_used => h_picks.free port h_pick (List.mem_append_left _ h_used)

/-- The fields that choose no port, by what the code tests. -/
theorem filter_falsy {fields : List PortField} (h_valid : ∀ f ∈ fields, f.valid = true) :
    fields.filter (·.falsy) = fields.filter (·.chosen?.isNone) :=
  List.filter_congr fun f h_f => PortField.falsy_iff (h_valid f h_f)

/-- What the loop over the chosen ports has seen. -/
theorem reduceOption_chosen {chosen : List (Option Nat)}
    (h : choose used [] (newProxy.getD .undefined :: backends) = .ok chosen) :
    chosen.reduceOption = (newServers newProxy backends).filterMap PortField.chosen? ∧
      ((newServers newProxy backends).filterMap PortField.chosen?).Nodup ∧
      ∀ port ∈ (newServers newProxy backends).filterMap PortField.chosen?, port ∉ used := by
  obtain ⟨h_chosen, h_nodup, h_unused⟩ := choose_spec h List.nodup_nil
  have h_same : (newProxy.getD .undefined :: backends).filterMap PortField.chosen? =
      (newServers newProxy backends).filterMap PortField.chosen? := by
    cases newProxy <;> rfl
  have h_reduced : chosen.reduceOption =
      (newServers newProxy backends).filterMap PortField.chosen? := by
    rw [h_chosen, List.nil_append, PortField.reduceOption_value?, h_same]
  refine ⟨h_reduced, ?_, fun port h_port => ?_⟩
  · rw [← h_reduced]
    refine h_nodup.filterMap fun a b port h_a h_b => ?_
    exact (Option.mem_def.mp h_a).trans (Option.mem_def.mp h_b).symm
  · rw [← h_same] at h_port
    exact h_unused port (PortField.some_mem_value?.mpr h_port)

/-- An accepted request. -/
theorem wizardPorts_assigned (h : wizardPorts used newProxy backends = .ok result) :
    Assigned used (newServers newProxy backends) (serverPorts newProxy result) := by
  rw [wizardPorts] at h
  split at h
  · rename_i h_all
    have h_valid := List.all_eq_true.mp h_all
    have h_backends : ∀ f ∈ backends, f.valid = true := fun f h_f =>
      h_valid f (List.mem_append_right _ h_f)
    simp only [allocatePorts, Fallible.bind_eq_ok] at h
    obtain ⟨chosen, h_choose, proxy, h_proxy, auto, h_auto, h_result⟩ := h
    cases h_result
    obtain ⟨h_reduced, h_nodup, h_unused⟩ := reduceOption_chosen h_choose
    rw [h_reduced] at h_proxy h_auto
    have h_picked := allocate_picked h_auto nofun
    have h_count : auto.length = (backends.filter (·.chosen?.isNone)).length := by
      rw [h_picked.length, filter_falsy h_backends]
    have h_perm := fill_perm backends h_count
    cases newProxy with
    | none =>
      refine assigned_of_perm (length_fill backends auto) (fun i f port h_f h_port => ?_) h_perm
        h_valid h_nodup h_unused (h_picked.mono fun port h_port => ?_)
      · exact getElem?_fill h_f h_port auto
      · rw [← List.append_assoc]
        exact List.mem_append_left _ h_port
    | some f =>
      have h_length : (proxy :: fill backends auto).length = (f :: backends).length :=
        congrArg (· + 1) (length_fill backends auto)
      have h_f : f.valid = true := h_valid f List.mem_cons_self
      rw [← List.append_assoc] at h_picked
      rw [proxyPort] at h_proxy
      cases h_port : f.chosen? with
      | none =>
        -- the proxy's port is picked as well
        rw [PortField.falsy_iff h_f, h_port] at h_proxy
        obtain ⟨out, h_out, rfl⟩ := Fallible.map_eq_ok.mp h_proxy
        have h_first := allocate_picked h_out fun port h_preferred => by
          cases h_preferred
          decide
        obtain ⟨port, rfl⟩ := List.length_eq_one_iff.mp h_first.length
        refine assigned_of_perm h_length (fun i g q h_g h_q => ?_) ?_ h_valid h_nodup h_unused
          (h_picked.cons h_first)
        · cases i with
          | zero =>
            cases h_g
            cases h_port.symm.trans h_q
          | succ i =>
            have h_backend : backends[i]? = some g := h_g
            exact getElem?_fill h_backend h_q auto
        · show (port :: fill backends auto).Perm ((f :: backends).filterMap _ ++ port :: auto)
          rw [List.filterMap_cons, h_port]
          exact (h_perm.cons port).trans List.perm_middle.symm
      | some port =>
        rw [PortField.falsy_iff h_f, h_port] at h_proxy
        cases h_proxy
        refine assigned_of_perm h_length (fun i g q h_g h_q => ?_) ?_ h_valid h_nodup h_unused
          (h_picked.mono fun q h_q => List.mem_append_left _ h_q)
        · cases i with
          | zero =>
            cases h_g
            exact h_port.symm.trans h_q
          | succ i =>
            have h_backend : backends[i]? = some g := h_g
            exact getElem?_fill h_backend h_q auto
        · show (port :: fill backends auto).Perm ((f :: backends).filterMap _ ++ auto)
          rw [List.filterMap_cons, h_port]
          exact h_perm.cons port
  · cases h

/-- Why a request is refused. -/
def Refused (used : List Nat) (servers : List PortField) : Prop :=
  (∃ f ∈ servers, f.valid = false) ∨
    (∃ port ∈ used, port ∈ servers.filterMap PortField.chosen?) ∨
    ¬ (servers.filterMap PortField.chosen?).Nodup ∨
    (free (used ++ servers.filterMap PortField.chosen?) BACKEND_PORT_START).length <
      (servers.filter (·.chosen?.isNone)).length

theorem length_free_subset {used' : List Nat} (start : Nat)
    (h : ∀ port, start ≤ port → port ∈ used' → port ∈ used) :
    (free used start).length ≤ (free used' start).length := by
  refine (List.subperm_of_subset (nodup_free used start) fun port h_port => ?_).length_le
  obtain ⟨h_range, h_free⟩ := mem_free.mp h_port
  exact mem_free.mpr ⟨h_range, fun h_used => h_free (h port h_range.1 h_used)⟩

/-- A refused request; a request with null ports may be refused without a reason. -/
theorem refused_of_wizardPorts {e : Refusal} (h : wizardPorts used newProxy backends = .error e)
    (h_null : .null ∉ newServers newProxy backends) :
    Refused used (newServers newProxy backends) := by
  rw [wizardPorts] at h
  split at h
  · rename_i h_all
    have h_valid := List.all_eq_true.mp h_all
    have h_backends : ∀ f ∈ backends, f.valid = true := fun f h_f =>
      h_valid f (List.mem_append_right _ h_f)
    simp only [allocatePorts, Fallible.bind_eq_error] at h
    obtain h_choose | ⟨chosen, h_choose, h⟩ := h
    · have h_same : (newProxy.getD .undefined :: backends).filterMap PortField.value? =
          (newServers newProxy backends).filterMap PortField.value? := by
        cases newProxy <;> rfl
      have h_taken := of_choose_error h_choose
      rw [List.nil_append, h_same] at h_taken
      obtain ⟨port, h_used, h_port⟩ | h_twice := h_taken
      · exact .inr (.inl ⟨port, h_used, PortField.some_mem_value?.mp h_port⟩)
      · exact .inr (.inr (.inl fun h_nodup => h_twice (PortField.nodup_value? h_null h_nodup)))
    · obtain ⟨h_reduced, h_nodup, h_unused⟩ := reduceOption_chosen h_choose
      rw [h_reduced] at h
      refine .inr (.inr (.inr ?_))
      obtain h_proxy | ⟨proxy, h_proxy, h_auto | ⟨auto, -, h_result⟩⟩ := h
      · -- not even the proxy gets a port
        cases newProxy with
        | none => cases h_proxy
        | some f =>
          rw [proxyPort, PortField.falsy_iff (h_valid f List.mem_cons_self)] at h_proxy
          cases h_port : f.chosen? with
          | some port =>
            rw [h_port] at h_proxy
            cases h_proxy
          | none =>
            rw [h_port, Option.isNone_none, if_pos rfl] at h_proxy
            have h_one : 1 ≤ ((newServers (some f) backends).filter (·.chosen?.isNone)).length := by
              refine List.length_pos_of_mem (List.mem_filter.mpr ⟨List.mem_cons_self, ?_⟩)
              rw [h_port]
              rfl
            generalize h_allocate : allocate used 1 (some PROXY_PORT) _ = out at h_proxy
            cases out with
            | ok out => cases h_proxy
            | error e => exact Nat.lt_of_lt_of_le (free_of_allocate_error h_allocate) h_one
      · -- the backends need more ports than the proxy leaves
        have h_less := free_of_allocate_error h_auto
        rw [filter_falsy h_backends] at h_less
        generalize h_numbers : (newServers newProxy backends).filterMap PortField.chosen? = numbers
          at h_less h_proxy ⊢
        cases newProxy with
        | none =>
          cases h_proxy
          refine Nat.lt_of_le_of_lt (length_free_subset _ fun port h_start h_port => ?_) h_less
          rw [← List.append_assoc, List.mem_append, List.mem_singleton] at h_port
          refine h_port.resolve_right ?_
          rintro rfl
          exact absurd h_start (by decide)
        | some f =>
          rw [proxyPort, PortField.falsy_iff (h_valid f List.mem_cons_self)] at h_proxy
          have h_servers : newServers (some f) backends = f :: backends := rfl
          rw [h_servers, List.filter_cons]
          cases h_port : f.chosen? with
          | some port =>
            rw [h_port] at h_proxy
            cases h_proxy
            refine Nat.lt_of_le_of_lt (length_free_subset _ fun q _ h_q => ?_) h_less
            rw [← List.append_assoc, List.mem_append, List.mem_singleton] at h_q
            obtain h_q | rfl := h_q
            · exact h_q
            · refine List.mem_append_right used (h_numbers ▸ ?_)
              exact List.mem_filterMap.mpr ⟨f, List.mem_cons_self, h_port⟩
          | none =>
            have h_one := length_free_le (used ++ numbers) proxy BACKEND_PORT_START
            have h_more : (free (proxy :: (used ++ numbers)) BACKEND_PORT_START).length ≤
                (free (used ++ (numbers ++ [proxy])) BACKEND_PORT_START).length := by
              refine length_free_subset _ fun q _ h_q => ?_
              rw [← List.append_assoc, List.mem_append, List.mem_singleton] at h_q
              exact List.mem_cons.mpr h_q.symm
            rw [Option.isNone_none, if_pos rfl, List.length_cons]
            omega
      · cases h_result
  · rename_i h_all
    rw [Bool.not_eq_true, List.all_eq_false] at h_all
    obtain ⟨f, h_f, h_invalid⟩ := h_all
    exact .inl ⟨f, h_f, Bool.not_eq_true _ ▸ h_invalid⟩

/-- The ports of a wizard request: right when it is accepted, and with a reason when it is
    refused. The ports below 25566 are never picked. -/
theorem wizardPorts_spec (used : List Nat) (newProxy : Option PortField)
    (backends : List PortField) :
    (∀ result, wizardPorts used newProxy backends = .ok result →
      Assigned used (newServers newProxy backends) (serverPorts newProxy result)) ∧
    (.null ∉ newServers newProxy backends →
      ∀ e, wizardPorts used newProxy backends = .error e →
        Refused used (newServers newProxy backends)) :=
  ⟨fun _ h => wizardPorts_assigned h, fun h_null _ h => refused_of_wizardPorts h h_null⟩

end Request

/-- A chosen proxy port, and two backends around a third with a chosen one. -/
theorem wizardPorts_mixed :
    wizardPorts [25566] (some (.number 25567)) [.undefined, .number 25568, .undefined] =
        .ok [25567, 25569, 25568, 25570] ∧
      Assigned [25566] [.number 25567, .undefined, .number 25568, .undefined]
        [25567, 25569, 25568, 25570] :=
  ⟨by decide +kernel,
    (wizardPorts_spec [25566] (some (.number 25567)) [.undefined, .number 25568, .undefined]).1 _
      (by decide +kernel)⟩

/-- All ports from 25566 on. -/
def highPorts : List Nat := List.range' BACKEND_PORT_START (LAST_PORT + 1 - BACKEND_PORT_START)

/-- A backend whose port is to be picked is refused, with the port 1 free and no port chosen. -/
theorem refused_with_low_ports_free :
    wizardPorts highPorts none [.undefined] = .error .noFreePort ∧ 1 ∉ highPorts := by
  have h_none : free (highPorts ++ [0]) BACKEND_PORT_START = [] := by
    rw [free, List.filter_eq_nil_iff]
    intro port h_port
    simp only [List.contains_eq_mem, Bool.not_eq_true', decide_eq_false_iff_not, not_not]
    exact List.mem_append_left _ h_port
  have h_allocate : allocate highPorts 1 none [0] = .error .noFreePort := by
    rw [allocate, if_neg Nat.one_ne_zero]
    simp [freePorts_eq, h_none]
  have h_request : ∀ used, wizardPorts used none [.undefined] =
      (allocate used 1 none [0]).map fun auto => [0, auto.headD 0] := by
    intro used
    show (allocate used 1 none [0] >>= _) = _
    cases allocate used 1 none [0] <;> rfl
  refine ⟨?_, fun h_one => ?_⟩
  · rw [h_request, h_allocate]
    rfl
  · have h_range := List.mem_range'_1.mp h_one
    exact absurd h_range.1 (by decide)

end Kubek.Networks.PortAllocation
