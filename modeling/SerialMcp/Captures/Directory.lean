/-
  Capture directories (`capture_store.rs`): the portable names, and the files that a
  store manages.

  * `validateCaptureFilename`, with `isManaged`;
  * `Directory`, with the changes a store makes of one, and what each does to its
    managed files;
  * `Directory.usageOf`: the usage that a scan of some names finds.
-/
import Mathlib.Data.List.Nodup
import SerialMcp.Text
import SerialMcp.Util

namespace SerialMcp.Captures

/-! ## Names -/

def captureLockFile : Text := ".serial-mcp-captures.lock".toList

def captureTempPrefix : Text := ".serial-mcp-capture-".toList

def captureReservedPrefix : Text := ".serial-mcp-".toList

def maxCaptureFilenameLen : ℕ := 120

def captureFilenameSuffix : Text := ".jsonl".toList

/-- `char::is_ascii_alphanumeric` -/
def isAsciiAlphanumeric (c : Char) : Bool :=
  ('0' ≤ c ∧ c ≤ '9') ∨ ('A' ≤ c ∧ c ≤ 'Z') ∨ ('a' ≤ c ∧ c ≤ 'z')

/-- `char::to_ascii_uppercase` -/
def toAsciiUppercase (c : Char) : Char :=
  if 'a' ≤ c ∧ c ≤ 'z' then Char.ofNat (c.toNat - 32) else c

def isWindowsReservedStem (stem : Text) : Bool :=
  let upper := stem.map toAsciiUppercase
  let reservedNumeric (front : Text) : Bool :=
    front.isPrefixOf upper && match upper.drop front.length with
      | [c] => '1' ≤ c ∧ c ≤ '9'
      | _ => false
  upper ∈ ["CON".toList, "PRN".toList, "AUX".toList, "NUL".toList] ||
    reservedNumeric "COM".toList || reservedNumeric "LPT".toList

def validateCaptureFilename (name : Text) : Except String Unit :=
  if name = [] then .error "capture filename is empty"
  else if maxCaptureFilenameLen < (asBytes name).length then
    .error "capture filename exceeds 120 characters (including '.jsonl')"
  else if !name.all (fun c => c.toNat < 128) then .error "capture filename must be ASCII"
  else if name = ['.'] ∨ name = ['.', '.'] then
    .error "capture filename must not be '.' or '..'"
  else if '/' ∈ name ∨ '\\' ∈ name then
    .error "capture filename must not contain path separators"
  else if !captureFilenameSuffix.isSuffixOf name then
    .error "capture filename must end with '.jsonl'"
  else if (findSubsequence name captureReservedPrefix).isSome then
    .error "capture filename must not contain the reserved internal prefix '.serial-mcp-'"
  else if !name.head?.any isAsciiAlphanumeric then
    .error "capture filename must start with an alphanumeric character"
  else if !name.tail.all (fun c => isAsciiAlphanumeric c || c = '.' || c = '_' || c = '-') then
    .error "capture filename may only contain alphanumeric, '.', '_', and '-'"
  else
    let stem := name.takeWhile (· ≠ '.')
    if isWindowsReservedStem stem then
      .error ("capture filename uses reserved stem '" ++ String.ofList stem ++
        "' (Windows device names are rejected)")
    else .ok ()

/-- `is_managed_capture_filename` -/
def isManagedCaptureFilename (name : Text) : Bool := (validateCaptureFilename name).isOk

example : isManagedCaptureFilename "com10.jsonl".toList := by decide +kernel

example : ¬ isManagedCaptureFilename "COM9.jsonl".toList := by decide +kernel

/-- The name of an entry of a directory. -/
inductive FileName where
  | text (name : Text)
  /-- not UTF-8 -/
  | raw (bytes : Bytes)
  deriving DecidableEq, Repr

/-- The names that a scan looks at. -/
def FileName.isManaged : FileName → Bool
  | text name => name ≠ captureLockFile && !captureTempPrefix.isPrefixOf name &&
      isManagedCaptureFilename name
  | raw _ => false

def lockName : FileName := .text captureLockFile

/-- The name of a temp file. -/
def tempName (suffix : Text) : FileName := .text (captureTempPrefix ++ suffix)

theorem check_ok {c : Prop} [Decidable c] {e : String} {rest : Except String Unit} :
    (if c then .error e else rest) = .ok () ↔ ¬ c ∧ rest = .ok () := by
  by_cases hc : c
  · simp [hc]
  · simp [hc]

theorem validate_head {name : Text} (h : validateCaptureFilename name = .ok ()) :
    name.head?.any isAsciiAlphanumeric = true := by
  simp only [validateCaptureFilename, check_ok] at h
  obtain ⟨-, -, -, -, -, -, -, hhead, -⟩ := h
  simpa using hhead

theorem isManaged_of_validate {name : Text} (h : validateCaptureFilename name = .ok ()) :
    (FileName.text name).isManaged = true := by
  have hhead := validate_head h
  have hlock : name ≠ captureLockFile := by
    rintro rfl
    exact absurd hhead (by decide +kernel)
  have htemp : captureTempPrefix.isPrefixOf name = false := by
    by_contra hne
    rw [Bool.not_eq_false, List.isPrefixOf_iff_prefix] at hne
    obtain ⟨rest, rfl⟩ := hne
    have hdot : captureTempPrefix.head? = some '.' := by decide +kernel
    rw [List.head?_append, hdot] at hhead
    have hno : isAsciiAlphanumeric '.' = false := by decide
    simp [hno] at hhead
  simp [FileName.isManaged, isManagedCaptureFilename, hlock, htemp, h, Except.isOk, Except.toBool]

theorem lockName_unmanaged : lockName.isManaged = false := by
  simp [lockName, FileName.isManaged]

theorem tempName_unmanaged (suffix : Text) : (tempName suffix).isManaged = false := by
  have hprefix : captureTempPrefix.isPrefixOf (captureTempPrefix ++ suffix) = true :=
    List.isPrefixOf_iff_prefix.2 (List.prefix_append _ _)
  simp [tempName, FileName.isManaged, hprefix]

/-! ## Directories -/

inductive Entry where
  | file (bytes : Bytes)
  | symlink
  /-- a directory, or special -/
  | other
  deriving DecidableEq, Repr

/-- The content of a regular file. -/
def Entry.content : Entry → Option Bytes
  | file bytes => some bytes
  | _ => none

/-- A directory with its entries; what it says of other names does not count. -/
structure Directory where
  names : List FileName
  nodup : names.Nodup
  entry : FileName → Entry

/-- A file with its name. -/
abbrev ManagedFile := FileName × Bytes

namespace Directory

variable {d : Directory} {n m : FileName} {e : Entry}

/-- A name of the directory, as a managed file. -/
def managedFile (d : Directory) (n : FileName) : Option ManagedFile :=
  if n.isManaged then (d.entry n).content.map fun bytes => (n, bytes) else none

/-- The managed files. -/
def managed (d : Directory) : List ManagedFile := d.names.filterMap d.managedFile

/-- `symlink_metadata`, with the content of a file -/
def lookup (d : Directory) (n : FileName) : Option Entry :=
  if n ∈ d.names then some (d.entry n) else none

def insert (d : Directory) (n : FileName) (e : Entry) (h : n ∉ d.names) : Directory where
  names := d.names ++ [n]
  nodup := List.concat_eq_append (a := n) ▸ List.Nodup.concat h d.nodup
  entry := Function.update d.entry n e

/-- Another content for an entry. -/
def set (d : Directory) (n : FileName) (e : Entry) : Directory :=
  { d with entry := Function.update d.entry n e }

def erase (d : Directory) (n : FileName) : Directory where
  names := d.names.erase n
  nodup := d.nodup.erase n
  entry := d.entry

theorem not_mem_erase (h : m ∉ d.names) : m ∉ (d.erase n).names :=
  fun hm => h (List.mem_of_mem_erase hm)

/-- Rename an entry to a name that is free. -/
def rename (d : Directory) (n m : FileName) (h : m ∉ d.names) : Directory :=
  (d.erase n).insert m (d.entry n) (not_mem_erase h)

theorem managedFile_unmanaged (h : n.isManaged = false) : d.managedFile n = none := by
  rw [managedFile, h]
  rfl

theorem managedFile_update (h : m ≠ n) :
    (d.set n e).managedFile m = d.managedFile m := by
  simp only [managedFile, set, Function.update_of_ne h]

theorem managedFile_set (h : n.isManaged = false) : (d.set n e).managedFile = d.managedFile := by
  funext m
  by_cases hm : m = n
  · rw [hm, managedFile_unmanaged h, managedFile_unmanaged h]
  · exact managedFile_update hm

theorem managed_set (h : n.isManaged = false) : (d.set n e).managed = d.managed := by
  rw [managed, managed, managedFile_set h]
  rfl

theorem managed_insert (h : n ∉ d.names) :
    (d.insert n e h).managed = d.managed ++ ((d.set n e).managedFile n).toList := by
  have hold : ∀ m ∈ d.names, (d.set n e).managedFile m = d.managedFile m := fun m hm =>
    managedFile_update fun heq => h (heq ▸ hm)
  have hnew : (d.insert n e h).managedFile = (d.set n e).managedFile := rfl
  rw [managed, hnew, insert, List.filterMap_append, List.filterMap_congr hold]
  cases hlast : (d.set n e).managedFile n <;> simp [managed, hlast]

theorem managed_insert_unmanaged (h : n ∉ d.names) (hn : n.isManaged = false) :
    (d.insert n e h).managed = d.managed := by
  rw [managed_insert, managedFile_unmanaged hn, Option.toList_none, List.append_nil]

theorem managed_erase (hn : n.isManaged = false) : (d.erase n).managed = d.managed := by
  change (d.names.erase n).filterMap d.managedFile = d.managed
  by_cases hmem : n ∈ d.names
  · obtain ⟨front, back, -, hnames, herase⟩ := List.exists_erase_eq hmem
    have hnone : d.managedFile n = none := managedFile_unmanaged hn
    rw [herase, managed, hnames]
    simp only [List.filterMap_append, List.filterMap_cons, hnone]
  · rw [List.erase_of_not_mem hmem, managed]

/-- **A file is committed**: it is renamed from a name that is not managed. -/
theorem managed_rename {bytes : Bytes} (h : m ∉ d.names) (hn : n.isManaged = false)
    (hm : m.isManaged = true) (hbytes : d.entry n = .file bytes) :
    (d.rename n m h).managed = d.managed ++ [(m, bytes)] := by
  have hfile : ((d.erase n).set m (.file bytes)).managedFile m = some (m, bytes) := by
    simp [managedFile, hm, set, Entry.content]
  rw [rename, hbytes, managed_insert, hfile, managed_erase hn]
  rfl

theorem managed_names_nodup (d : Directory) : (d.managed.map Prod.fst).Nodup := by
  have hname : ∀ n m, m ∈ (d.managedFile n).map Prod.fst → m = n := by
    intro n m hm
    simp only [managedFile, Option.mem_def, Option.map_eq_some_iff] at hm
    obtain ⟨f, hf, rfl⟩ := hm
    split_ifs at hf
    obtain ⟨bytes, -, rfl⟩ := Option.map_eq_some_iff.1 hf
    rfl
  rw [managed, List.map_filterMap]
  exact d.nodup.filterMap fun n n' m hm hm' => (hname n m hm).symm.trans (hname n' m hm')

theorem managed_perm {names : List FileName} (h : names.Perm d.names) :
    (names.filterMap d.managedFile).Perm d.managed :=
  h.filterMap _

end Directory

/-! ## Usage -/

structure RootUsage where
  files : ℕ
  totalBytes : ℕ
  deriving DecidableEq, Repr

/-- The usage of some files. -/
def usageOf (files : List ManagedFile) : RootUsage :=
  ⟨files.length, (files.map fun f => f.2.length).sum⟩

theorem usageOf_concat (files : List ManagedFile) (f : ManagedFile) :
    usageOf (files ++ [f]) =
      ⟨(usageOf files).files + 1, (usageOf files).totalBytes + f.2.length⟩ := by
  simp [usageOf]

theorem usageOf_perm {fs gs : List ManagedFile} (h : fs.Perm gs) : usageOf fs = usageOf gs := by
  rw [usageOf, usageOf, h.length_eq, (h.map _).sum_nat]

/-- `CaptureLimits` -/
structure CaptureLimits where
  maxFileBytes : ℕ
  maxTotalBytes : ℕ
  maxFiles : ℕ
  deriving DecidableEq, Repr

/-- Some files are within limits. -/
structure CaptureLimits.Allow (limits : CaptureLimits) (files : List ManagedFile) : Prop where
  count : (usageOf files).files ≤ limits.maxFiles
  total : (usageOf files).totalBytes ≤ limits.maxTotalBytes
  each : ∀ f ∈ files, f.2.length ≤ limits.maxFileBytes

end SerialMcp.Captures
