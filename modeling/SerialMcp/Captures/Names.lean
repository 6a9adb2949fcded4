/-
  Capture filenames: the nine checks of `validate_capture_filename` against their
  documented grammar, and where such a name leads.

  * `PortableName`: the grammar;
  * `Passes`: the checks, which a name passes all or is rejected by the first it fails;
  * `Contained`: below a root, on Unix and on Windows, a name is one component, and no
    file of the store's own;
  * `validateCaptureFilename_iff`: the checks accept exactly the grammar, and only names
    that are contained below every root.
-/
import Mathlib.Tactic.IntervalCases
import Mathlib.Tactic.MkIffOfInductiveProp
import SerialMcp.Captures.Directory
import SerialMcp.Lib.Paths

namespace SerialMcp.Captures

open Paths (Platform Component Plain components)

/-! ## The grammar -/

/-- The digits of a device. -/
def deviceDigits : List Char := ['1', '2', '3', '4', '5', '6', '7', '8', '9']

/-- Names that Windows reserves for devices. -/
def windowsDevices : List Text :=
  ["CON".toList, "PRN".toList, "AUX".toList, "NUL".toList] ++
    deviceDigits.map (fun c => "COM".toList ++ [c]) ++
    deviceDigits.map fun c => "LPT".toList ++ [c]

/-- The documented grammar of capture filenames. -/
structure PortableName (name : Text) : Prop where
  length : 1 ≤ name.length ∧ name.length ≤ 120
  ascii : ∀ c ∈ name, c.toNat < 128
  /-- `[A-Za-z0-9][A-Za-z0-9._-]*` -/
  characters : ∃ c rest, name = c :: rest ∧ isAsciiAlphanumeric c = true ∧
    ∀ x ∈ rest, isAsciiAlphanumeric x = true ∨ x = '.' ∨ x = '_' ∨ x = '-'
  suffix : ".jsonl".toList <:+ name
  unreserved : ¬ ".serial-mcp-".toList <:+: name
  /-- the part before the first dot is no device, in upper case -/
  device : ∀ stem rest, name = stem ++ '.' :: rest → '.' ∉ stem →
    stem.map toAsciiUppercase ∉ windowsDevices

/-- Below a root, the name is a file of its own. -/
structure Contained (platform : Platform) (root : List Component) (name : Text) : Prop where
  /-- no separator, drive or parent component -/
  component : components platform name = [.normal name]
  join : Paths.join root (components platform name) = root ++ [.normal name]
  parent : Paths.parent (Paths.join root (components platform name)) = some root
  fileName : Paths.fileName (Paths.join root (components platform name)) = some name
  lockFile : Paths.join root (components platform name) ≠
    Paths.join root (components platform captureLockFile)
  tempFile : ∀ suffix, Paths.fileName (Paths.join root (components platform name)) ≠
    some (captureTempPrefix ++ suffix)

/-! ## Reserved stems -/

theorem mem_deviceDigits {c : Char} : c ∈ deviceDigits ↔ '1' ≤ c ∧ c ≤ '9' := by
  constructor
  · intro h
    simp only [deviceDigits, List.mem_cons, List.not_mem_nil, or_false] at h
    rcases h with rfl | rfl | rfl | rfl | rfl | rfl | rfl | rfl | rfl <;> decide
  · rintro ⟨hlo, hhi⟩
    have hlo' : 49 ≤ c.toNat := hlo
    have hhi' : c.toNat ≤ 57 := hhi
    rw [← Char.ofNat_toNat c]
    generalize c.toNat = n at hlo' hhi'
    interval_cases n <;> decide

/-- A device with a digit. -/
theorem numbered_iff {front upper : Text} :
    (front.isPrefixOf upper && match upper.drop front.length with
      | [c] => decide ('1' ≤ c ∧ c ≤ '9')
      | _ => false) = true ↔ upper ∈ deviceDigits.map fun c => front ++ [c] := by
  rw [Bool.and_eq_true, List.isPrefixOf_iff_prefix, List.mem_map]
  constructor
  · rintro ⟨⟨tail, rfl⟩, h⟩
    rw [List.drop_left] at h
    split at h
    · next c => exact ⟨c, mem_deviceDigits.2 (of_decide_eq_true h), rfl⟩
    · cases h
  · rintro ⟨c, hc, rfl⟩
    refine ⟨List.prefix_append _ _, ?_⟩
    rw [List.drop_left]
    exact decide_eq_true (mem_deviceDigits.1 hc)

theorem isWindowsReservedStem_iff (stem : Text) :
    isWindowsReservedStem stem = true ↔ stem.map toAsciiUppercase ∈ windowsDevices := by
  rw [isWindowsReservedStem, windowsDevices, List.mem_append, List.mem_append, Bool.or_eq_true,
    Bool.or_eq_true, decide_eq_true_iff]
  exact or_congr (or_congr Iff.rfl numbered_iff) numbered_iff

/-! ## The checks -/

theorem findSubsequence_isSome_iff {h n : Text} (hne : n ≠ []) :
    (findSubsequence h n).isSome = true ↔ n <:+: h := by
  rw [← not_iff_not, Bool.not_eq_true, Option.isSome_eq_false_iff, Option.isNone_iff_eq_none,
    findSubsequence_eq_none hne]
  constructor
  · intro hno hin
    obtain ⟨t, hprefix, hsuffix⟩ := List.infix_iff_prefix_suffix.1 hin
    rw [List.suffix_iff_eq_drop] at hsuffix
    exact hno _ (hsuffix ▸ hprefix)
  · intro hno j hj
    exact hno (hj.isInfix.trans (List.drop_suffix j h).isInfix)

theorem asBytes_length_of_ascii {name : Text} (h : ∀ c ∈ name, c.toNat < 128) :
    (asBytes name).length = name.length := by
  induction name with
  | nil => rfl
  | cons c rest ih =>
    have hc : c.toNat < 128 := h c List.mem_cons_self
    have hone : c.utf8Size = 1 := Char.utf8Size_eq_one_iff.2 (UInt32.le_iff_toNat_le.2 (by
      show c.toNat ≤ 127
      omega))
    rw [asBytes_cons_length, hone, ih fun x hx => h x (List.mem_cons_of_mem _ hx),
      List.length_cons, Nat.add_comm]

theorem takeWhile_stem {stem rest : Text} (hdot : '.' ∉ stem) :
    (stem ++ '.' :: rest).takeWhile (fun c => decide (c ≠ '.')) = stem := by
  rw [List.takeWhile_append_of_pos]
  · simp
  · intro c hc
    refine decide_eq_true ?_
    rintro rfl
    exact hdot hc

theorem allowed_iff {x : Char} :
    (isAsciiAlphanumeric x || x = '.' || x = '_' || x = '-') = true ↔
      isAsciiAlphanumeric x = true ∨ x = '.' ∨ x = '_' ∨ x = '-' := by
  simp [or_assoc]

/-- What a name passes, one check after another. -/
@[mk_iff] structure Passes (name : Text) : Prop where
  nonempty : name ≠ []
  short : (asBytes name).length ≤ maxCaptureFilenameLen
  ascii : ∀ c ∈ name, c.toNat < 128
  relative : ¬ (name = ['.'] ∨ name = ['.', '.'])
  separator : ¬ ('/' ∈ name ∨ '\\' ∈ name)
  suffix : captureFilenameSuffix <:+ name
  unreserved : ¬ captureReservedPrefix <:+: name
  head : name.head?.any isAsciiAlphanumeric = true
  tail : ∀ x ∈ name.tail, isAsciiAlphanumeric x = true ∨ x = '.' ∨ x = '_' ∨ x = '-'
  stem : (name.takeWhile fun c => decide (c ≠ '.')).map toAsciiUppercase ∉ windowsDevices

theorem validate_eq_ok {name : Text} :
    validateCaptureFilename name = .ok () ↔ Passes name := by
  have hne : captureReservedPrefix ≠ [] := by decide
  simp only [validateCaptureFilename, check_ok, passes_iff, ← isWindowsReservedStem_iff,
    ← findSubsequence_isSome_iff hne, Bool.not_eq_true', Bool.not_eq_false, List.all_eq_true,
    decide_eq_true_eq, List.isSuffixOf_iff_suffix, allowed_iff, Nat.not_lt, and_true, ne_eq]

/-! ## The checks and the grammar -/

section
variable {name : Text}

theorem Passes.portable (h : Passes name) : PortableName name := by
  have hlen := h.short
  rw [asBytes_length_of_ascii h.ascii] at hlen
  rcases name with _ | ⟨c, rest⟩
  · exact absurd rfl h.nonempty
  refine ⟨⟨Nat.succ_pos _, hlen⟩, h.ascii, ⟨c, rest, rfl, h.head, h.tail⟩, h.suffix,
    h.unreserved, ?_⟩
  intro stem tail hname hdot
  have hstem := h.stem
  rw [hname, takeWhile_stem hdot] at hstem
  exact hstem

theorem PortableName.not_mem (h : PortableName name) {c : Char}
    (hc : isAsciiAlphanumeric c = false) (hdot : c ≠ '.') (hunder : c ≠ '_') (hdash : c ≠ '-') :
    c ∉ name := by
  obtain ⟨first, rest, rfl, hfirst, hrest⟩ := h.characters
  intro hmem
  rcases List.mem_cons.1 hmem with rfl | hmem
  · rw [hc] at hfirst
    cases hfirst
  · rcases hrest c hmem with hx | hx | hx | hx
    · rw [hc] at hx
      cases hx
    · exact hdot hx
    · exact hunder hx
    · exact hdash hx

theorem PortableName.head (h : PortableName name) : name.head? ≠ some '.' := by
  obtain ⟨c, rest, rfl, hc, -⟩ := h.characters
  intro hhead
  obtain rfl : c = '.' := Option.some.inj hhead
  exact absurd hc (by decide)

theorem PortableName.plain (h : PortableName name) : Plain name where
  nonempty := by
    rintro rfl
    exact absurd h.length.1 (by decide)
  slash := h.not_mem (by decide) (by decide) (by decide) (by decide)
  backslash := h.not_mem (by decide) (by decide) (by decide) (by decide)
  colon := h.not_mem (by decide) (by decide) (by decide) (by decide)
  current := by
    rintro rfl
    exact h.head rfl
  parent := by
    rintro rfl
    exact h.head rfl

theorem PortableName.passes (h : PortableName name) : Passes name where
  nonempty := h.plain.nonempty
  short := by
    rw [asBytes_length_of_ascii h.ascii]
    exact h.length.2
  ascii := h.ascii
  relative := not_or.2 ⟨h.plain.current, h.plain.parent⟩
  separator := not_or.2 ⟨h.plain.slash, h.plain.backslash⟩
  suffix := h.suffix
  unreserved := h.unreserved
  head := by
    obtain ⟨c, rest, rfl, hc, -⟩ := h.characters
    exact hc
  tail := by
    obtain ⟨c, rest, rfl, -, hrest⟩ := h.characters
    exact hrest
  stem := by
    -- the suffix has a dot, so the stem ends at one
    have hdot : '.' ∈ name := h.suffix.subset (by decide)
    obtain ⟨stem, rest, hname, hfirst⟩ := List.eq_append_cons_of_mem hdot
    rw [hname, takeWhile_stem hfirst]
    exact h.device stem rest hname hfirst

theorem lockFile_plain : Plain captureLockFile where
  nonempty := by decide
  slash := by decide +kernel
  backslash := by decide +kernel
  colon := by decide +kernel
  current := by decide
  parent := by decide

/-- **A name is a file of its own**, below every root. -/
theorem PortableName.contained (h : PortableName name) (platform : Platform)
    (root : List Component) : Contained platform root name := by
  have hname := Paths.components_plain h.plain platform
  have hjoin : Paths.join root (components platform name) = root ++ [.normal name] := by
    rw [hname, Paths.join_normal]
  constructor
  · exact hname
  · exact hjoin
  · rw [hjoin, Paths.parent_concat]
  · rw [hjoin, Paths.fileName_concat]
  · rw [hjoin, Paths.components_plain lockFile_plain, Paths.join_normal]
    intro heq
    obtain rfl : name = captureLockFile := by simpa using heq
    exact h.head (by decide)
  · intro suffix
    rw [hjoin, Paths.fileName_concat]
    intro heq
    obtain rfl : name = captureTempPrefix ++ suffix := Option.some.inj heq
    exact h.head rfl

end

/-- **Capture filenames are exactly the documented grammar**, for every text; and below
    every root, on both platforms, a name that is accepted is a direct child that is
    neither the lock file nor a temp file. -/
theorem validateCaptureFilename_iff (name : Text) :
    (validateCaptureFilename name = .ok () ↔ PortableName name) ∧
    (validateCaptureFilename name = .ok () →
      ∀ (platform : Platform) (root : List Component), Contained platform root name) := by
  rw [validate_eq_ok]
  constructor
  · constructor
    · exact Passes.portable
    · exact PortableName.passes
  · intro h platform root
    exact h.portable.contained platform root

theorem validateCaptureFilename_boot : PortableName "boot.jsonl".toList ∧
    Contained .windows (components .windows "C:\\captures".toList) "boot.jsonl".toList := by
  have hok : validateCaptureFilename "boot.jsonl".toList = .ok () := by rfl
  obtain ⟨hgrammar, hcontained⟩ := validateCaptureFilename_iff "boot.jsonl".toList
  exact ⟨hgrammar.1 hok, hcontained hok _ _⟩

end SerialMcp.Captures
