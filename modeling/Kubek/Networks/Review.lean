/-
  Kubek.Networks.Review

  The review step of the network wizard (`plan/network-draft.ts`, `plan/network-naming.ts`):
  the edits of a draft, and the changes that are shown of them, with the forwarding secret
  masked.

  The mask replaces the secret as it is, the config files carry it escaped. What is shown is
  free of both exactly for the secrets that are `Masked`:

    * no star at an end and no eight stars in a row, or the mask itself makes the secret;
    * each written form of the secret takes more than one line or has the secret inside.
-/

import Kubek.Networks.Forwarding
import Kubek.Networks.LineDiff

namespace Kubek.Networks

open Properties (Text unitsOf trim splitLf LF)

/-! ## Drafts -/

/-- A server as the network sees it, without an id until the wizard creates it. -/
structure DraftServer where
  serverId : Option Text
  name : Text
  gameVersion : Option Text
  port : Nat
  running : Bool

structure DraftProxy extends DraftServer where
  docker : Bool

structure DraftBackend extends DraftServer where
  aliasName : Text
  tryOrder : Option Nat
  forwarding : BackendForwardingKind

/-- Desired state of a whole network. -/
structure NetworkDraft where
  proxy : DraftProxy
  backends : List DraftBackend
  mode : ForwardingMode
  secret : Text
  settings : String → Option SettingValue

structure ServerEdits where
  server : DraftServer
  edits : List FileEdit

/-- A proxy in a container reaches the published backend ports through the host. -/
def backendAddress (proxy : DraftProxy) (backend : DraftBackend) : Text :=
  unitsOf (if proxy.docker then "host.docker.internal" else "127.0.0.1") ++ unitsOf ":" ++
    unitsOf (Nat.repr backend.port)

section Edits

variable (lib : VelocityLib) (yaml : Yaml)

/-- The backends of the try list in its order. -/
def tryList (backends : List DraftBackend) : List Text :=
  ((backends.filter fun b => b.tryOrder.isSome).insertionSort fun a b =>
    decide (a.tryOrder.getD 0 ≤ b.tryOrder.getD 0)).map DraftBackend.aliasName

def proxyEdits (draft : NetworkDraft) (files : ServerFiles) : Option (List FileEdit) := do
  let before ← files VELOCITY_CONFIG
  let after := configureVelocity lib
    (before.getD (velocityTemplate lib draft.proxy.port draft.proxy.gameVersion))
    { mode := draft.mode
      servers := draft.backends.map fun b => ⟨b.aliasName, backendAddress draft.proxy b⟩
      tryList := tryList draft.backends
      settings := draft.settings }
  let secretBefore ← files FORWARDING_SECRET_FILE
  return editOf VELOCITY_CONFIG before after ++
    if secretBefore.map trim = some draft.secret then []
    else editOf FORWARDING_SECRET_FILE secretBefore draft.secret

def SERVER_PROPERTIES : String := "server.properties"

/-- `server.properties` of a backend behind the proxy. A fresh file has to carry the port too. -/
def offlineProperties (properties : Option Text) (port : Nat) : Text :=
  let doc := (Properties.parse (properties.getD [])).set (unitsOf "online-mode") (unitsOf "false")
  if properties = none ∧ port ≠ 0 then
    (doc.set (unitsOf "server-port") (unitsOf (Nat.repr port))).toText
  else doc.toText

def backendEdits (draft : NetworkDraft) (backend : DraftBackend) (files : ServerFiles) :
    Option (List FileEdit) := do
  let forwarding ← forwardingEdits yaml files ⟨draft.mode, draft.secret, backend.gameVersion⟩
    backend.forwarding
  -- the install of a new server writes its own `server.properties`
  if backend.serverId = none then return forwarding
  let properties ← files SERVER_PROPERTIES
  return editOf SERVER_PROPERTIES properties (offlineProperties properties backend.port) ++ forwarding

/-- Edits of the proxy and of the listed backends. -/
def draftEdits (draft : NetworkDraft) (configure : List DraftBackend)
    (filesOf : DraftServer → ServerFiles) : Option (List ServerEdits) := do
  let proxy ← proxyEdits lib draft (filesOf draft.proxy.toDraftServer)
  let backends ← configure.mapM fun backend =>
    (backendEdits yaml draft backend (filesOf backend.toDraftServer)).map
      (ServerEdits.mk backend.toDraftServer)
  return (⟨draft.proxy.toDraftServer, proxy⟩ :: backends).filter fun entry => entry.edits ≠ []

end Edits

/-! ## The review -/

def STAR : Properties.CodeUnit := 0x2A

/-- `"********"`. -/
def MASK : Text := List.replicate 8 STAR

/-- Hides a secret inside text shown to the user. -/
def maskSecret (text secret : Text) : Text :=
  if secret = [] then text else TextSearch.replaceAll secret MASK text

inductive ChangeKind
  | create
  | update
  deriving DecidableEq, Repr

structure NetworkFileChange where
  serverId : Option Text
  serverName : Text
  path : String
  kind : ChangeKind
  diff : List (DiffLine Text)
  deriving DecidableEq, Repr

/-- File changes for the review step. -/
def fileChanges (edits : List ServerEdits) (secret : Text) : List NetworkFileChange :=
  edits.flatMap fun entry => entry.edits.map fun edit =>
    { serverId := entry.server.serverId
      serverName := entry.server.name
      path := edit.path
      kind := if edit.before = none then .create else .update
      diff := lineDiff (maskSecret (edit.before.getD []) secret) (maskSecret edit.after secret) 3 }

/-! ## What must not be seen -/

section Seen

variable (lib : VelocityLib) (yaml : Yaml) (secret : Text)

/-- The secret between the quotes of a TOML value, of the two YAML values and of a properties
    value. -/
def writtenForms : List Text :=
  [Toml.jsonBody secret, doubled secret, yaml.spelled secret, Properties.escapeValue secret]

/-- No line of the review has the secret, as it is or as a config file writes it. -/
def HidesSecret : Prop :=
  ∀ (draft : NetworkDraft) (configure : List DraftBackend) (filesOf : DraftServer → ServerFiles)
    (edits : List ServerEdits), draft.secret = secret →
    draftEdits lib yaml draft configure filesOf = some edits →
    ∀ change ∈ fileChanges edits secret, ∀ op, .op op ∈ change.diff →
      ∀ form ∈ secret :: writtenForms yaml secret, ¬ form <:+: op.line

/-- The secrets that the review hides. -/
structure Masked : Prop where
  startsPlain : secret.head? ≠ some STAR
  endsPlain : secret.getLast? ≠ some STAR
  noMask : ¬ MASK <:+: secret
  written : ∀ form ∈ writtenForms yaml secret, LF ∈ form ∨ secret <:+: form

end Seen

/-! ## What the mask leaves -/

section Masked

variable {lib : VelocityLib} {yaml : Yaml} {secret : Text}

theorem maskSecret_eq (h : secret ≠ []) (text : Text) :
    maskSecret text secret = TextSearch.replaceAll secret MASK text := if_neg h

theorem maskSecret_self (h : secret ≠ []) : maskSecret secret secret = MASK := by
  have h_all := TextSearch.replaceAll_append h MASK []
  rw [List.append_nil, TextSearch.replaceAll_nil, List.append_nil] at h_all
  rw [maskSecret_eq h, h_all]

/-- Every part of the mask that is not empty begins and ends with a star. -/
theorem star_of_infix_mask {t : Text} (h_ne : t ≠ []) (h : t <:+: MASK) :
    t.head? = some STAR ∧ t.getLast? = some STAR := by
  have h_star : ∀ c ∈ t, c = STAR := fun c h_c => List.eq_of_mem_replicate (h.subset h_c)
  have h_first := h_star _ (List.head_mem h_ne)
  have h_last := h_star _ (List.getLast_mem h_ne)
  exact ⟨by rw [List.head?_eq_some_head h_ne, h_first],
    by rw [List.getLast?_eq_some_getLast h_ne, h_last]⟩

theorem Masked.clear (h : Masked yaml secret) (h_ne : secret ≠ []) :
    TextSearch.Clear secret MASK where
  behind t h_t h_end := by
    constructor
    · intro h_pre
      have h_star := (star_of_infix_mask h_t h_pre.isInfix).2
      obtain ⟨front, h_front⟩ := h_end
      rw [← List.getLast?_append_of_ne_nil front h_t, h_front] at h_star
      exact h.endsPlain h_star
    · exact fun h_pre => h.noMask (h_pre.isInfix.trans h_end.isInfix)
  before t h_t h_end := by
    constructor
    · intro h_pre
      have h_star := (star_of_infix_mask h_t h_end.isInfix).1
      obtain ⟨rest, h_rest⟩ := h_pre
      rw [← List.head?_append_of_ne_nil t h_t, h_rest] at h_star
      exact h.startsPlain h_star
    · intro h_pre
      exact h.startsPlain (star_of_infix_mask h_ne (h_pre.isInfix.trans h_end.isInfix)).1

/-- What is shown is a line of a masked text. -/
theorem exists_masked_of_mem {edits : List ServerEdits} {change : NetworkFileChange} {op : Op Text}
    (h_change : change ∈ fileChanges edits secret) (h_op : .op op ∈ change.diff) :
    ∃ text, op.line ∈ splitLf (maskSecret text secret) := by
  simp only [fileChanges, List.mem_flatMap, List.mem_map] at h_change
  obtain ⟨entry, -, edit, -, rfl⟩ := h_change
  obtain h_line | h_line := mem_diffLines_of_mem_lineDiff h_op
  · exact ⟨_, mem_splitLf_of_mem_diffLines h_line⟩
  · exact ⟨_, mem_splitLf_of_mem_diffLines h_line⟩

theorem Masked.hides (h : Masked yaml secret) (h_ne : secret ≠ []) :
    HidesSecret lib yaml secret := by
  intro draft configure filesOf edits _ _ change h_change op h_op form h_form h_in
  obtain ⟨text, h_line⟩ := exists_masked_of_mem h_change h_op
  have h_clear : ¬ secret <:+: op.line := by
    intro h_secret
    have h_text := h_secret.trans (infix_of_mem_splitLf h_line)
    rw [maskSecret_eq h_ne] at h_text
    exact (h.clear h_ne).not_infix_replaceAll h_ne text h_text
  obtain rfl | h_form := List.mem_cons.mp h_form
  · exact h_clear h_in
  · obtain h_lf | h_secret := h.written form h_form
    · exact Properties.lf_not_mem_of_mem_splitLf h_line (h_in.subset h_lf)
    · exact h_clear (h_secret.trans h_in)

end Masked

/-! ## What is seen of the other secrets -/

/-- A network of a proxy alone. -/
def bareDraft (secret : Text) : NetworkDraft where
  proxy := ⟨⟨some (unitsOf "proxy"), unitsOf "Proxy", none, 25565, false⟩, false⟩
  backends := []
  mode := .modern
  secret := secret
  settings := fun _ => none

/-- Folders with a secret file only. -/
def secretFile (text : Text) : DraftServer → ServerFiles := fun _ path =>
  if path = FORWARDING_SECRET_FILE then some (some text) else some none

section Seen

variable {lib : VelocityLib} {yaml : Yaml} {secret : Text}

/-- The secret file is the last that is written of a proxy. -/
theorem proxyEdits_eq {draft : NetworkDraft} {files : ServerFiles} {velocity before : Option Text}
    (h_velocity : files VELOCITY_CONFIG = some velocity)
    (h_before : files FORWARDING_SECRET_FILE = some before)
    (h_trim : before.map trim ≠ some draft.secret) :
    ∃ edits, proxyEdits lib draft files =
      some (edits ++ editOf FORWARDING_SECRET_FILE before draft.secret) := by
  simp only [proxyEdits, h_velocity, h_before, Option.bind_eq_bind, Option.bind_some, if_neg h_trim]
  exact ⟨_, rfl⟩

/-- A line of a short secret file is shown when the file is written anew. -/
theorem not_hides_of_line {before line form : Text} (h_ne : secret ≠ [])
    (h_trim : trim before ≠ secret) (h_differ : diffLines (maskSecret before secret) ≠ [MASK])
    (h_short : (diffLines (maskSecret before secret)).length ≤ 3)
    (h_line : line ∈ diffLines (maskSecret before secret))
    (h_form : form ∈ secret :: writtenForms yaml secret) (h_in : form <:+: line) :
    ¬ HidesSecret lib yaml secret := by
  intro h
  have h_after : diffLines (maskSecret secret secret) = [MASK] := by
    rw [maskSecret_self h_ne]
    decide
  have h_edit : editOf FORWARDING_SECRET_FILE (some before) secret =
      [⟨FORWARDING_SECRET_FILE, some before, secret⟩] := by
    rw [editOf, if_neg]
    rintro ⟨⟩
    exact h_differ h_after
  have h_written : ∃ edits, proxyEdits lib (bareDraft secret)
      (secretFile before (bareDraft secret).proxy.toDraftServer) =
        some (edits ++ editOf FORWARDING_SECRET_FILE (some before) secret) :=
    proxyEdits_eq rfl rfl fun h_eq => h_trim (Option.some.inj h_eq)
  obtain ⟨edits, h_proxy⟩ := h_written
  have h_sum : (diffLines (maskSecret before secret)).length +
      (diffLines (maskSecret secret secret)).length ≤ 3 + 1 := by
    rw [h_after]
    exact Nat.add_le_add_right h_short 1
  obtain ⟨op, h_op, h_eq⟩ := mem_lineDiff_of_short 3 (h_after ▸ h_differ) h_sum h_line
  have h_draft : draftEdits lib yaml (bareDraft secret) [] (secretFile before) =
      some [⟨(bareDraft secret).proxy.toDraftServer,
        edits ++ [⟨FORWARDING_SECRET_FILE, some before, secret⟩]⟩] := by
    rw [draftEdits, h_proxy, h_edit]
    simp
  have h_change : (⟨some (unitsOf "proxy"), unitsOf "Proxy", FORWARDING_SECRET_FILE, .update,
      lineDiff (maskSecret before secret) (maskSecret secret secret) 3⟩ : NetworkFileChange) ∈
        fileChanges [⟨(bareDraft secret).proxy.toDraftServer,
          edits ++ [⟨FORWARDING_SECRET_FILE, some before, secret⟩]⟩] secret := by
    simp [fileChanges, bareDraft]
  exact h (bareDraft secret) [] (secretFile before) _ rfl h_draft _ h_change op h_op form h_form
    (h_eq ▸ h_in)

/-- Two lines in front of a text, which `trim` leaves apart. -/
def headed (text : Text) : Text := [Properties.HASH, LF, Properties.HASH] ++ LF :: text

theorem lf_mem_trim_headed (text : Text) : LF ∈ trim (headed text) := by
  have h_front : (headed text).dropWhile Properties.isTrimmed = headed text := by
    rw [headed, List.cons_append, List.dropWhile_cons, if_neg (by decide)]
  have h_back : (headed text).reverse = (LF :: text).reverse ++ [Properties.HASH, LF, Properties.HASH] := by
    rw [headed, List.reverse_append]
    rfl
  rw [trim, h_front, List.mem_reverse, h_back, List.dropWhile_append]
  split
  · exact List.mem_cons_of_mem _ List.mem_cons_self
  · exact List.mem_append_right _ (List.mem_cons_of_mem _ List.mem_cons_self)

/-- Of a secret in one line, a part of a masked line is shown. -/
theorem not_hides_of_infix {text form : Text} (h_ne : secret ≠ []) (h_lf : LF ∉ secret)
    (h_text : text ≠ []) (h_text_lf : LF ∉ text) (h_form : form ∈ secret :: writtenForms yaml secret)
    (h_in : form <:+: TextSearch.replaceAll secret MASK text) : ¬ HidesSecret lib yaml secret := by
  have h_plain : ∀ {t : Text}, LF ∉ t → LF ∉ TextSearch.replaceAll secret MASK t := by
    intro t h_t h_mem
    obtain h_mem | h_mem := TextSearch.mem_of_mem_replaceAll h_ne h_mem
    · exact absurd h_mem (by decide)
    · exact h_t h_mem
  have h_last : TextSearch.replaceAll secret MASK text ≠ [] :=
    TextSearch.replaceAll_ne_nil h_ne (by decide) h_text
  -- the masked file: two short lines and the masked text
  have h_masked : maskSecret (headed text) secret =
      (TextSearch.replaceAll secret MASK [Properties.HASH] ++ LF ::
        TextSearch.replaceAll secret MASK [Properties.HASH]) ++ LF ::
          TextSearch.replaceAll secret MASK text := by
    have h_front : TextSearch.replaceAll secret MASK [Properties.HASH, LF, Properties.HASH] =
        TextSearch.replaceAll secret MASK [Properties.HASH] ++ LF ::
          TextSearch.replaceAll secret MASK [Properties.HASH] :=
      TextSearch.replaceAll_append_cons h_ne h_lf [Properties.HASH] [Properties.HASH]
    rw [maskSecret_eq h_ne, headed, TextSearch.replaceAll_append_cons h_ne h_lf, h_front]
  obtain ⟨lines, h_length, h_lines⟩ := splitLf_append (h_plain h_text_lf)
    (TextSearch.replaceAll secret MASK [Properties.HASH] ++ LF ::
      TextSearch.replaceAll secret MASK [Properties.HASH])
  have h_count : (TextSearch.replaceAll secret MASK [Properties.HASH]).count LF = 0 :=
    List.count_eq_zero.mpr (h_plain (by decide))
  rw [List.count_append, List.count_cons_self, h_count] at h_length
  have h_diff : diffLines (maskSecret (headed text) secret) =
      lines ++ [TextSearch.replaceAll secret MASK text] := by
    rw [diffLines, h_masked, h_lines, List.getLast?_append, List.getLast?_singleton, if_neg]
    simpa using h_last
  apply not_hides_of_line h_ne _ _ _ _ h_form h_in
  · exact headed text
  · intro h_trim
    exact h_lf (h_trim ▸ lf_mem_trim_headed text)
  · intro h_eq
    have h_two := congrArg List.length (h_diff.symm.trans h_eq)
    rw [List.length_append, h_length] at h_two
    simp at h_two
  · rw [h_diff, List.length_append, h_length]
    simp
  · rw [h_diff]
    exact List.mem_append_right _ (List.mem_singleton_self _)

/-- A secret of several lines is written in one line into a properties file. -/
theorem lf_not_mem_of_hides (h_ne : secret ≠ []) (h : HidesSecret lib yaml secret) :
    LF ∉ secret := by
  intro h_lf
  have h_plain : LF ∉ Properties.escapeValue secret := (Properties.oneLine_escapeValue secret).1
  have h_back : Properties.unescape (Properties.escapeValue secret) = secret := by
    rw [Properties.escapeValue_eq]
    exact Properties.unescape_tokens (Properties.tokens_value secret)
  have h_value : Properties.escapeValue secret ≠ [] := by
    intro h_nil
    rw [h_nil] at h_back
    exact h_ne h_back.symm
  have h_masked : maskSecret (Properties.escapeValue secret) secret =
      Properties.escapeValue secret := by
    rw [maskSecret_eq h_ne]
    exact TextSearch.replaceAll_of_not_infix fun h_in => h_plain (h_in.subset h_lf)
  have h_diff : diffLines (maskSecret (Properties.escapeValue secret) secret) =
      [Properties.escapeValue secret] := by
    rw [h_masked, diffLines, splitLf_of_not_mem h_plain, List.getLast?_singleton, if_neg]
    simpa using h_value
  have h_trim : trim (Properties.escapeValue secret) ≠ secret := by
    intro h_trim
    rw [← h_trim] at h_lf
    exact h_plain (Properties.mem_of_mem_trim h_lf)
  have h_mask : Properties.escapeValue secret ≠ MASK := by
    intro h_mask
    rw [h_mask] at h_back
    rw [← h_back] at h_lf
    exact absurd h_lf (by decide +kernel)
  have h_form : Properties.escapeValue secret ∈ secret :: writtenForms yaml secret := by
    simp [writtenForms]
  apply not_hides_of_line h_ne h_trim _ _ _ h_form (List.infix_refl _) h
  · rw [h_diff]
    simpa using h_mask
  · rw [h_diff]
    exact Nat.le_add_left 1 2
  · rw [h_diff]
    exact List.mem_singleton_self _

/-- A secret with a star behind `front` is no part of a text before it is due. -/
theorem not_prefix_drop {front rest : Text} (h_secret : secret = front ++ STAR :: rest)
    (h_head : secret.head? ≠ some STAR) (behind : Text) :
    ∀ k < front.length, ¬ secret <+: (front ++ (secret ++ behind)).drop k := by
  rintro k h_k ⟨more, h_more⟩
  -- the unit `k` is a star by what stands behind `front`, and the first of the secret
  have h_unit : ∀ i < secret.length, (front ++ (secret ++ behind))[k + i]? = secret[i]? := by
    intro i h_i
    rw [← List.getElem?_drop, ← h_more, List.getElem?_append_left h_i]
  have h_length : secret.length = front.length + (rest.length + 1) := by
    rw [h_secret, List.length_append, List.length_cons]
  have h_first : front[k]? = secret[0]? := by
    rw [← h_unit 0 (by omega), Nat.add_zero, List.getElem?_append_left h_k]
  have h_star : secret[k]? = some STAR := by
    have h_at := h_unit front.length (by omega)
    rw [List.getElem?_append_right (by omega), Nat.add_sub_cancel_right,
      List.getElem?_append_left (by omega)] at h_at
    rw [h_at, h_secret, List.getElem?_append_right (Nat.le_refl _), Nat.sub_self]
    rfl
  have h_front : secret[k]? = front[k]? := by rw [h_secret, List.getElem?_append_left h_k]
  apply h_head
  rw [List.head?_eq_getElem?, ← h_first, ← h_front, h_star]

theorem Masked.of_hides (h_ne : secret ≠ []) (h : HidesSecret lib yaml secret) :
    Masked yaml secret := by
  have h_lf := lf_not_mem_of_hides h_ne h
  -- Less than the whole secret is not masked.
  have h_rest : ∀ {front rest : Text}, front ≠ [] → secret = front ++ rest →
      TextSearch.replaceAll secret MASK rest = rest := by
    intro front rest h_front h_secret
    apply TextSearch.replaceAll_of_not_infix
    intro h_in
    have h_length := h_in.length_le
    rw [h_secret, List.length_append] at h_length
    have h_pos := List.length_pos_of_ne_nil h_front
    omega
  have h_head : secret.head? ≠ some STAR := by
    intro h_head
    obtain ⟨rest, h_secret⟩ := List.head?_eq_some_iff.mp h_head
    have h_masked : TextSearch.replaceAll secret MASK (secret ++ rest) = MASK ++ rest := by
      rw [TextSearch.replaceAll_append h_ne, h_rest (List.cons_ne_nil STAR []) h_secret]
    apply not_hides_of_infix h_ne h_lf _ _ List.mem_cons_self _ h
    · exact secret ++ rest
    · exact List.append_ne_nil_of_left_ne_nil h_ne rest
    · rw [List.mem_append, not_or]
      exact ⟨h_lf, fun h_mem => h_lf (h_secret ▸ List.mem_cons_of_mem STAR h_mem)⟩
    · rw [h_masked, h_secret]
      exact ⟨List.replicate 7 STAR, [], by rw [List.append_nil]; rfl⟩
  -- The mask stands in for a star of the secret that has `front` before it.
  have h_inner : ∀ {front rest behind : Text}, secret = front ++ STAR :: rest →
      behind <:+ secret → TextSearch.replaceAll secret MASK behind = behind →
      ¬ secret <:+: front ++ (MASK ++ behind) := by
    intro front rest behind h_secret h_behind h_same h_in
    have h_masked : TextSearch.replaceAll secret MASK (front ++ (secret ++ behind)) =
        front ++ (MASK ++ behind) := by
      rw [TextSearch.replaceAll_first h_ne (not_prefix_drop h_secret h_head behind), h_same]
    apply not_hides_of_infix h_ne h_lf _ _ List.mem_cons_self _ h
    · exact front ++ (secret ++ behind)
    · simp [h_ne]
    · have h_front : LF ∉ front := fun h_mem => h_lf (h_secret ▸ List.mem_append_left _ h_mem)
      simpa [h_lf, h_front] using fun h_mem => h_lf (h_behind.subset h_mem)
    · rw [h_masked]
      exact h_in
  refine ⟨h_head, fun h_last => ?_, fun h_mask => ?_, fun form h_form => ?_⟩
  · obtain ⟨front, h_secret⟩ := List.getLast?_eq_some_iff.mp h_last
    apply h_inner h_secret List.nil_suffix (TextSearch.replaceAll_nil secret MASK)
    rw [h_secret, List.append_nil]
    exact ⟨[], List.replicate 7 STAR, by rw [List.nil_append, List.append_assoc]; rfl⟩
  · obtain ⟨front, behind, h_secret⟩ := h_mask
    have h_star : secret = front ++ STAR :: (List.replicate 7 STAR ++ behind) := by
      rw [← h_secret, List.append_assoc]
      rfl
    have h_same := h_rest (List.append_ne_nil_of_right_ne_nil front (by decide)) h_secret.symm
    have h_around : front ++ (MASK ++ behind) = secret := by rw [← List.append_assoc, h_secret]
    exact h_inner h_star ⟨front ++ MASK, h_secret⟩ h_same
      ⟨[], [], by rw [List.nil_append, List.append_nil, h_around]⟩
  · by_contra h_form'
    rw [not_or] at h_form'
    have h_same : TextSearch.replaceAll secret MASK form = form :=
      TextSearch.replaceAll_of_not_infix h_form'.2
    by_cases h_nil : form = []
    · apply not_hides_of_infix h_ne h_lf (List.cons_ne_nil Properties.HASH []) (by decide)
        (List.mem_cons_of_mem secret h_form) _ h
      rw [h_nil]
      exact List.nil_infix
    · exact not_hides_of_infix h_ne h_lf h_nil h_form'.1 (List.mem_cons_of_mem secret h_form)
        ⟨[], [], by rw [List.nil_append, List.append_nil, h_same]⟩ h

/-- The review hides a secret, whatever the network and its files are, exactly when the mask
    cannot make the secret and each written form of it has more than one line or the secret
    itself inside. -/
theorem hidesSecret_iff (lib : VelocityLib) (yaml : Yaml) (h_ne : secret ≠ []) :
    HidesSecret lib yaml secret ↔ Masked yaml secret :=
  ⟨Masked.of_hides h_ne, fun h => h.hides h_ne⟩

end Seen

/-- Libraries that know an empty proxy config and empty YAML documents. -/
def emptyLib : VelocityLib where
  parseToml _ := some []
  template3 := []
  template4 := []

def plainYaml : Yaml where
  lookup _ _ := some .other
  setIn source path value :=
    some (source ++ Properties.joinWith (unitsOf ".") path ++ unitsOf ": " ++ yamlLiteral value)
  spelled text := text

/-- A secret of letters and digits. -/
theorem hidesSecret_alphanumeric : HidesSecret emptyLib plainYaml (unitsOf "k7Qp") :=
  (hidesSecret_iff emptyLib plainYaml (by decide)).mpr
    ⟨by decide, by decide, by decide +kernel, by decide +kernel⟩

/-- A Fabric backend that is not installed yet. -/
def fabricBackend : DraftBackend where
  serverId := none
  name := unitsOf "Lobby"
  gameVersion := none
  port := 25566
  running := false
  aliasName := unitsOf "lobby"
  tryOrder := some 0
  forwarding := .fabric

/-- The proxy has the secret `a"b` already. -/
def quotedDraft : NetworkDraft :=
  { bareDraft (unitsOf "a\x22b") with backends := [fabricBackend] }

/-- A form of the secret is in a line of the change. -/
def NetworkFileChange.shows (change : NetworkFileChange) (form : Text) : Bool :=
  change.diff.any fun line =>
    match line with
    | .op op => TextSearch.includes form op.line
    | .skip _ => false

theorem NetworkFileChange.exists_of_shows {change : NetworkFileChange} {form : Text}
    (h : change.shows form = true) : ∃ op, .op op ∈ change.diff ∧ form <:+: op.line := by
  obtain ⟨line, h_line, h_in⟩ := List.any_eq_true.mp h
  cases line with
  | skip count => cases h_in
  | op op =>
    obtain ⟨i, h_i⟩ := Option.isSome_iff_exists.mp h_in
    obtain ⟨front, rest, h_eq, -⟩ := TextSearch.indexOf_eq_some h_i
    exact ⟨op, h_line, front, rest, h_eq.symm⟩

/-- A quote in the secret is escaped in the mod's config, which the mask does not know. -/
theorem quoted_is_seen : ¬ HidesSecret emptyLib plainYaml (unitsOf "a\x22b") := by
  intro h
  have h_some : (draftEdits emptyLib plainYaml quotedDraft [fabricBackend]
      (secretFile (unitsOf "a\x22b"))).isSome = true := by decide +kernel
  have h_shown : ((fileChanges ((draftEdits emptyLib plainYaml quotedDraft [fabricBackend]
      (secretFile (unitsOf "a\x22b"))).getD []) (unitsOf "a\x22b")).any
        fun change => change.shows (Toml.jsonBody (unitsOf "a\x22b"))) = true := by
    decide +kernel
  obtain ⟨edits, h_edits⟩ := Option.isSome_iff_exists.mp h_some
  rw [h_edits, Option.getD_some] at h_shown
  obtain ⟨change, h_change, h_shows⟩ := List.any_eq_true.mp h_shown
  obtain ⟨op, h_op, h_in⟩ := change.exists_of_shows h_shows
  exact h quotedDraft [fabricBackend] _ _ rfl h_edits change h_change op h_op _
    (List.mem_cons_of_mem _ List.mem_cons_self) h_in

end Kubek.Networks
