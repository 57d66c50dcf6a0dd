/-
  Kubek.Assistant.SecretFiles

  Which paths the assistant is refused (`isSecretFile` of redact.ts), and which file
  `read_file` and `write_file` open for them (`getSafeServerPath`).

  The check reads the path as it was given, the file is found under its normalised form. The
  two agree on paths whose last segment is a name (`namesFile`); a trailing slash or dot
  segment hides the name from the check and is gone from the file (`hidden_iff`).
-/

import Kubek.Assistant.FilesTools
import Kubek.Core.Paths

namespace Kubek.Assistant

open JsText Transition
open FileTree (Path)

/-! ## Reading -/

def MAX_READ_BYTES : Nat := 256 * 1024

/-- What `read_file` gives back: the text it shows or why it does not. -/
def readFile (cwd : Path) (decode : Bytes → Text) (disk : Path → Option Bytes)
    (serverId path : String) : Except String Text :=
  if isSecretFile path then .error secretFile
  else
    match Paths.getSafeServerPath cwd serverId path with
    | none =>
        if serverId = "" || Paths.hasSlashOrDots serverId then .error "Invalid server id"
        else .error "Invalid path: directory traversal attempt detected"
    | some full =>
        match disk full with
        | none => .error "File not found"
        | some buffer =>
            if looksBinary buffer then .error "Binary file, cannot show it"
            else
              let head := decode (buffer.take MAX_READ_BYTES)
              if buffer.length > MAX_READ_BYTES then
                .ok (head ++ unitsOf ("\n[file is " ++ toString buffer.length ++
                  " bytes, only the start is shown]"))
              else .ok head

/-! ## Names -/

/-- One of `SECRET_FILES` matches. -/
def matchesSecret (text : List Char) : Bool :=
  let name := text.map Char.toLower
  let secret := "forwarding.secret".toList
  name = secret || ("/".toList ++ secret).isSuffixOf name ||
    ("\\".toList ++ secret).isSuffixOf name || ".pem".toList.isSuffixOf name ||
      ".key".toList.isSuffixOf name

/-- The file has a name that is one of a secret file. -/
def HasSecretName (full : Path) : Prop :=
  ∃ name, full.getLast? = some name ∧ matchesSecret name.toList = true

/-- The last segment of the path is the name of what it leads to. -/
def namesFile (path : String) : Bool :=
  (split '/' path).getLast?.any fun segment => segment != "" && segment != "." && segment != ".."

/-- The files of all servers, on the panel's disk. -/
def panelFiles (cwd : Path) (decode : Bytes → Text) (encode : Text → Bytes) :
    Machine (Files Path) (FileEvent Path) :=
  filesMachine (Paths.getSafeServerPath cwd) decode encode

/-- If the path leads to a file with a secret name, then `read_file` refuses it whatever the
    disk holds, and in every run every call of `write_file` for it has failed from the start. -/
def Hidden (cwd : Path) (decode : Bytes → Text) (encode : Text → Bytes)
    (serverId path : String) : Prop :=
  ∀ full, Paths.getSafeServerPath cwd serverId path = some full → HasSecretName full →
    (∀ disk, readFile cwd decode disk serverId path = .error secretFile) ∧
    ∀ f, (panelFiles cwd decode encode).Reachable f → ∀ call ∈ f.calls,
      call.args.serverId = serverId → call.args.path = path → call.phase = .failed

theorem isSecretFile_eq (path : String) :
    isSecretFile path = matchesSecret (trimChars path.toList) := rfl

/-! ## The check and the names -/

section Names

variable {text front : List Char} {c : Char}

theorem isSpace_eq_false (h : 33 ≤ c.toNat) (h_ascii : c.toNat < 128) : isSpace c = false := by
  simp only [isSpace, Bool.or_eq_false_iff, Bool.and_eq_false_iff, decide_eq_false_iff_not,
    beq_eq_false_iff_ne]
  omega

theorem isSpace_toLower (c : Char) : isSpace c.toLower = isSpace c := by
  by_cases h : c.val ≥ 'A'.val ∧ c.val ≤ 'Z'.val
  · have h_from : 65 ≤ c.toNat := UInt32.le_iff_toNat_le.mp h.1
    have h_to : c.toNat ≤ 90 := UInt32.le_iff_toNat_le.mp h.2
    have h_lower : c.toLower.toNat = c.toNat + 32 := by
      have h_val : c.toLower.val = c.val + 32 := congrArg Char.val (dif_pos h)
      change c.toLower.val.toNat = c.val.toNat + 32
      rw [h_val, UInt32.toNat_add]
      exact Nat.mod_eq_of_lt (by change c.toNat + 32 < _; omega)
    rw [isSpace_eq_false (by omega) (by omega), isSpace_eq_false (by omega) (by omega)]
  · have h_same : c.toLower = c := dif_neg h
    rw [h_same]

theorem matchesSecret_iff : matchesSecret text = true ↔
    text.map Char.toLower = "forwarding.secret".toList ∨
      ∃ tail ∈ ["/forwarding.secret".toList, "\\forwarding.secret".toList, ".pem".toList,
        ".key".toList], tail <:+ text.map Char.toLower := by
  simp only [matchesSecret, Bool.or_eq_true, decide_eq_true_eq, List.isSuffixOf_iff_suffix,
    List.mem_cons, List.not_mem_nil, or_false, exists_eq_or_imp, exists_eq_left, or_assoc]
  exact Iff.rfl

/-- A secret name ends in a letter. -/
theorem last_of_matchesSecret (h : matchesSecret text = true) :
    ∃ init c, text = init ++ [c] ∧ isSpace c = false ∧ c ≠ '/' ∧ c ≠ '.' := by
  have h_last : ∃ d ∈ ['t', 'm', 'y'], (text.map Char.toLower).getLast? = some d := by
    obtain h | ⟨tail, h_tail, front, h⟩ := matchesSecret_iff.mp h
    · exact ⟨'t', by decide, by rw [h]; decide⟩
    · have h_ends : ∃ d ∈ ['t', 'm', 'y'], tail.getLast? = some d := by
        simp only [List.mem_cons, List.not_mem_nil, or_false] at h_tail
        obtain rfl | rfl | rfl | rfl := h_tail
        · exact ⟨'t', by decide, by decide⟩
        · exact ⟨'t', by decide, by decide⟩
        · exact ⟨'m', by decide, by decide⟩
        · exact ⟨'y', by decide, by decide⟩
      obtain ⟨d, h_d, h_ends⟩ := h_ends
      refine ⟨d, h_d, ?_⟩
      rw [← h, List.getLast?_append, h_ends]
      rfl
  obtain ⟨d, h_d, h_last⟩ := h_last
  rw [List.getLast?_map, Option.map_eq_some_iff] at h_last
  obtain ⟨c, h_c, rfl⟩ := h_last
  obtain ⟨init, h_text⟩ := List.getLast?_eq_some_iff.mp h_c
  refine ⟨init, c, h_text, ?_, ?_, ?_⟩
  · rw [← isSpace_toLower]
    simp only [List.mem_cons, List.not_mem_nil, or_false] at h_d
    obtain h | h | h := h_d <;> rw [h] <;> decide
  · rintro rfl
    exact absurd h_d (by decide)
  · rintro rfl
    exact absurd h_d (by decide)

/-- The check knows a secret name behind a slash, whatever blanks are around the path. -/
theorem matchesSecret_trim {name : List Char} (h : matchesSecret name = true)
    (h_front : front = [] ∨ front.getLast? = some '/') :
    matchesSecret (trimChars (front ++ name)) = true := by
  obtain ⟨init, c, h_name, h_space, -⟩ := last_of_matchesSecret h
  have h_trim : trimChars (front ++ name) = (front ++ name).dropWhile isSpace := by
    rw [h_name, ← List.append_assoc, trimChars_of_last h_space, dropWhile_append_of_head h_space]
  rw [h_trim]
  -- Blanks stop where the name begins, or what is left of `front` ends in the slash.
  have h_kept : ∀ before c after, isSpace c.toLower = false →
      ((before ++ c :: after).dropWhile isSpace) = before.dropWhile isSpace ++ c :: after :=
    fun before c after h => dropWhile_append_of_head ((isSpace_toLower c).symm.trans h) before after
  rw [matchesSecret_iff]
  obtain h | ⟨tail, h_tail, before, h⟩ := matchesSecret_iff.mp h
  · obtain ⟨c, rest, rfl⟩ : ∃ c rest, name = c :: rest := by
      cases name with
      | nil => cases h
      | cons c rest => exact ⟨c, rest, rfl⟩
    have h_c : c.toLower = 'f' := (List.cons.inj h).1
    rw [h_kept _ _ _ (by rw [h_c]; decide)]
    obtain rfl | h_slash := h_front
    · exact .inl h
    · obtain ⟨init, rfl⟩ := List.getLast?_eq_some_iff.mp h_slash
      refine .inr ⟨_, List.mem_cons_self, (init.dropWhile isSpace).map Char.toLower, ?_⟩
      rw [dropWhile_append_of_head (by decide), List.map_append, List.map_append, h,
        List.append_assoc]
      rfl
  · obtain ⟨first, last, rfl, -, h_last⟩ := List.map_eq_append_iff.mp h.symm
    obtain ⟨c, rest, rfl⟩ : ∃ c rest, last = c :: rest := by
      cases last with
      | nil =>
        rw [← h_last] at h_tail
        exact absurd h_tail (by decide)
      | cons c rest => exact ⟨c, rest, rfl⟩
    have h_c : isSpace c.toLower = false := by
      simp only [List.mem_cons, List.not_mem_nil, or_false] at h_tail
      obtain rfl | rfl | rfl | rfl := h_tail <;> rw [(List.cons.inj h_last).1] <;> decide
    rw [← List.append_assoc, h_kept _ _ _ h_c]
    refine .inr ⟨tail, h_tail, ((front ++ first).dropWhile isSpace).map Char.toLower, ?_⟩
    rw [List.map_append, h_last]

end Names

/-! ## The file that is opened -/

section Opened

variable {cwd full : Path} {serverId path : String} {decode : Bytes → Text} {encode : Text → Bytes}

/-- A path is what is in front of its last segment and that segment. -/
theorem path_split (path : String) :
    ∃ segments front segment, split '/' path = segments ++ [segment] ∧
      path.toList = front ++ segment.toList ∧ (front = [] ∨ front.getLast? = some '/') := by
  obtain ⟨parts, front, last, h_parts, h_path, h_front⟩ := splitChars_last '/' path.toList
  refine ⟨parts.map String.ofList, front, String.ofList last, ?_, ?_, ?_⟩
  · rw [split, h_parts, List.map_append]
    rfl
  · rw [h_path, String.toList_ofList]
  · exact h_front.imp And.left And.left

/-- A path whose last segment is a name leads to an entry of that name. -/
theorem last_of_namesFile {segments : List String} {segment : String}
    (h_split : split '/' path = segments ++ [segment]) (h_names : namesFile path = true)
    (h : Paths.getSafeServerPath cwd serverId path = some full) : full.getLast? = some segment := by
  rw [namesFile, h_split, List.getLast?_concat, Option.any_some] at h_names
  simp only [Bool.and_eq_true, bne_iff_ne] at h_names
  obtain ⟨⟨h_empty, h_dot⟩, h_dots⟩ := h_names
  have h_last : ∀ start : Path, (Paths.resolveFrom start (segments ++ [segment])).getLast? =
      some segment := by
    intro start
    rw [Paths.resolveFrom, List.foldl_append, List.foldl_cons, List.foldl_nil, Paths.resolveOne,
      if_neg (not_or.mpr ⟨h_empty, h_dot⟩), if_neg h_dots, List.getLast?_concat]
  rw [Paths.getSafeServerPath] at h
  split at h
  · cases h
  · simp only at h
    split at h
    · cases h
      rw [Paths.resolveUnder, h_split]
      split
      · rw [List.getLast?_append, h_last]
        rfl
      · exact h_last _
    · cases h

/-- The check finds a secret name exactly where the path names its file. -/
theorem isSecretFile_iff (h : Paths.getSafeServerPath cwd serverId path = some full)
    (h_secret : HasSecretName full) : isSecretFile path = true ↔ namesFile path = true := by
  obtain ⟨segments, front, segment, h_split, h_path, h_front⟩ := path_split path
  rw [isSecretFile_eq, h_path]
  constructor
  · intro h_match
    rw [namesFile, h_split, List.getLast?_concat, Option.any_some]
    by_contra h_not
    -- The path ends in a slash or a dot, which trimming leaves.
    have h_end : front ++ segment.toList = [] ∨
        ∃ init d, front ++ segment.toList = init ++ [d] ∧ (d = '/' ∨ d = '.') := by
      have h_segment : segment = "" ∨ segment = "." ∨ segment = ".." := by
        by_contra h_other
        simp only [not_or] at h_other
        simp [h_other] at h_not
      obtain rfl | rfl | rfl := h_segment
      · rw [String.toList_empty, List.append_nil]
        refine h_front.imp_right fun h_slash => ?_
        obtain ⟨init, h_init⟩ := List.getLast?_eq_some_iff.mp h_slash
        exact ⟨init, '/', h_init, .inl rfl⟩
      · exact .inr ⟨front, '.', rfl, .inr rfl⟩
      · exact .inr ⟨front ++ ['.'], '.', by rw [List.append_assoc]; rfl, .inr rfl⟩
    obtain ⟨init, c, h_trim, -, h_slash, h_dot⟩ := last_of_matchesSecret h_match
    obtain h_nil | ⟨init', d, h_eq, h_d⟩ := h_end
    · rw [h_nil] at h_trim
      exact absurd h_trim (by simp [trimChars])
    · have h_space : isSpace d = false := by
        obtain rfl | rfl := h_d <;> decide
      rw [h_eq, trimChars_of_last h_space] at h_trim
      obtain ⟨-, h_last⟩ := List.append_inj' h_trim rfl
      cases h_last
      exact h_d.elim h_slash h_dot
  · intro h_names
    obtain ⟨name, h_name, h_match⟩ := h_secret
    rw [last_of_namesFile h_split h_names h, Option.some.injEq] at h_name
    exact matchesSecret_trim (h_name ▸ h_match) h_front

/-! ## Refused calls -/

theorem begin_of_secret {args : WriteArgs} {next : Reading → CallPhase}
    (h : isSecretFile args.path = true) : Files.begin_ args next = .failed := by
  rw [Files.begin_, if_pos h]

/-- Every call for a path that is refused has failed. -/
def SecretsFailed (f : Files Path) : Prop :=
  ∀ call ∈ f.calls, isSecretFile call.args.path = true → call.phase = .failed

theorem secretsFailed_of_reachable {f : Files Path}
    (h : (panelFiles cwd decode encode).Reachable f) : SecretsFailed f := by
  refine h.invariant (P := SecretsFailed) (fun f h_init call h_call => ?_) ?_
  · rw [show f.calls = [] from h_init] at h_call
    cases h_call
  intro f event f' ih h_step
  -- A step of call `k` gives it another phase, which only one that has not failed has.
  have h_set : ∀ k call phase, f.calls[k]? = some call → call.phase ≠ .failed →
      SecretsFailed (f.setPhase k call phase) := by
    intro k call phase h_k h_phase call' h_call' h_secret
    obtain h_call' | h_eq := List.mem_or_eq_of_mem_set h_call'
    · exact ih call' h_call' h_secret
    · rw [h_eq] at h_secret
      exact absurd (ih call (List.mem_of_getElem? h_k) h_secret) h_phase
  cases event with
  | touch p content =>
    cases h_step
    exact ih
  | call args =>
    cases h_step
    intro call h_call h_secret
    obtain h_call | h_call := List.mem_append.mp h_call
    · exact ih call h_call h_secret
    · rw [List.mem_singleton] at h_call
      rw [h_call] at h_secret ⊢
      exact begin_of_secret h_secret
  | read k =>
    simp only [panelFiles, filesMachine, Files.step, Files.read] at h_step
    split at h_step
    · cases h_step
    · rename_i call h_k
      split at h_step
      · rename_i reading h_phase
        cases h_step
        exact h_set k call _ h_k (by simp [h_phase])
      · rename_i preview reading h_phase
        cases h_step
        exact h_set k call _ h_k (by simp [h_phase])
      · cases h_step
  | approve k =>
    simp only [panelFiles, filesMachine, Files.step, Files.approve] at h_step
    split at h_step
    · rename_i args preview h_k
      cases h_step
      exact h_set k _ _ h_k (by simp)
    · cases h_step
  | fail k =>
    simp only [panelFiles, filesMachine, Files.step, Files.fail] at h_step
    split at h_step
    · cases h_step
    · rename_i call h_k
      split at h_step
      · cases h_step
      · cases h_step
      · rename_i h_written h_failed
        cases h_step
        exact h_set k call _ h_k h_failed
  | write k =>
    simp only [panelFiles, filesMachine, Files.step, Files.write] at h_step
    split at h_step
    · rename_i args preview plan h_k
      split at h_step
      · cases h_step
      · cases h_step
        exact h_set k _ _ h_k (by simp)
    · cases h_step

variable (cwd serverId path decode encode) in
/-- A file with a secret name is hidden under exactly the paths that name it last. -/
theorem hidden_iff : Hidden cwd decode encode serverId path ↔
    (namesFile path = true ∨ ∀ full, Paths.getSafeServerPath cwd serverId path = some full →
      ¬ HasSecretName full) := by
  constructor
  · intro h
    by_cases h_open : ∃ full, Paths.getSafeServerPath cwd serverId path = some full ∧
        HasSecretName full
    · obtain ⟨full, h_full, h_secret⟩ := h_open
      left
      rw [← isSecretFile_iff h_full h_secret]
      by_contra h_shown
      -- An empty file is shown.
      have h_read := (h full h_full h_secret).1 fun _ => some []
      simp [readFile, h_shown, h_full, looksBinary] at h_read
    · exact .inr fun full h_full h_secret => h_open ⟨full, h_full, h_secret⟩
  · intro h full h_full h_secret
    have h_names := h.resolve_right fun h_plain => h_plain full h_full h_secret
    have h_refused := (isSecretFile_iff h_full h_secret).mpr h_names
    refine ⟨fun disk => by rw [readFile, if_pos h_refused], fun f h_f call h_call _ h_path => ?_⟩
    exact secretsFailed_of_reachable h_f call h_call (h_path ▸ h_refused)

end Opened

/-- Text of one byte for each character. -/
def plainDecode (bytes : Bytes) : Text := bytes.map UInt8.toUInt16

/-- The secret of a proxy is shown under its path with a slash behind. -/
theorem trailing_slash_is_shown : ¬ ∀ (cwd : Path) (decode : Bytes → Text)
    (encode : Text → Bytes) (serverId path : String), Hidden cwd decode encode serverId path := by
  intro h
  have h_full : Paths.getSafeServerPath ["panel"] "s" "forwarding.secret/" =
      some ["panel", "servers", "s", "forwarding.secret"] := by decide +kernel
  have h_secret : HasSecretName ["panel", "servers", "s", "forwarding.secret"] :=
    ⟨"forwarding.secret", rfl, by decide +kernel⟩
  have h_read := (h ["panel"] plainDecode (fun _ => []) "s" "forwarding.secret/" _ h_full h_secret).1
    fun _ => some [107]
  have h_shown : readFile ["panel"] plainDecode (fun _ => some [107]) "s" "forwarding.secret/" =
      .ok [107] := by decide +kernel
  rw [h_shown] at h_read
  cases h_read

end Kubek.Assistant
