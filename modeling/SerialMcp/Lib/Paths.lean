/-
  Paths by their components, on Unix and on Windows, as `std::path` documents them.

  * `components` takes a text apart: the volume of a Windows path (`Prefix`), the root,
    and what stands between separators;
  * `join` puts two paths together: the second one replaces the first, all of it but
    its volume, or nothing of it;
  * `components_plain`: a text without separators and colons is one normal component,
    whatever the platform, so joining it adds this component (`join_normal`).
-/
import Mathlib.Tactic.Common

namespace Paths

inductive Platform where
  | unix
  | windows
  deriving DecidableEq, Repr

/-- What a Windows path may begin with. -/
inductive Volume where
  /-- `C:` -/
  | disk (drive : Char)
  /-- `\\server\share` -/
  | unc (server share : List Char)
  /-- `\\.\device` -/
  | device (name : List Char)
  /-- `\\?\name` -/
  | verbatim (name : List Char)
  /-- `\\?\UNC\server\share` -/
  | verbatimUnc (server share : List Char)
  /-- `\\?\C:` -/
  | verbatimDisk (drive : Char)
  deriving DecidableEq, Repr

/-- Text behind it is taken as it is. -/
def Volume.isVerbatim : Volume → Bool
  | verbatim _ | verbatimUnc .. | verbatimDisk _ => true
  | _ => false

/-- Every other volume has a root, whether or not a separator follows it. -/
def Volume.isDisk : Volume → Bool
  | disk _ => true
  | _ => false

inductive Component where
  | volume (v : Volume)
  | rootDir
  | curDir
  | parentDir
  | normal (name : List Char)
  deriving DecidableEq, Repr

def Component.isVolume : Component → Bool
  | volume _ => true
  | _ => false

/-! ## Components of a text -/

def isSeparator (platform : Platform) (verbatim : Bool) (c : Char) : Bool :=
  match platform with
  | .unix => c = '/'
  | .windows => c = '\\' || (!verbatim && c = '/')

/-- The text up to a separator, and what is left from there on. -/
def splitFirst (separator : Char → Bool) (text : List Char) : List Char × List Char :=
  (text.takeWhile (!separator ·), text.dropWhile (!separator ·))

/-- `server\share` -/
def splitShare (separator : Char → Bool) (text : List Char) :
    (List Char × List Char) × List Char :=
  let (server, behind) := splitFirst separator text
  let (share, rest) := splitFirst separator behind.tail
  ((server, share), if share = [] then behind else rest)

/-- The volume behind `\\?\`. -/
def verbatimVolume (text : List Char) : Volume × List Char :=
  let named :=
    let (name, rest) := splitFirst (isSeparator .windows true) text
    (.verbatim name, rest)
  match text with
  | 'U' :: 'N' :: 'C' :: '\\' :: rest =>
    let ((server, share), rest) := splitShare (isSeparator .windows true) rest
    (.verbatimUnc server share, rest)
  | drive :: ':' :: rest =>
    if drive.isAlpha && rest.head?.all (isSeparator .windows false) then
      (.verbatimDisk drive.toUpper, rest)
    else named
  | _ => named

/-- The volume of a Windows path, if it has one, and the rest of the path. -/
def splitVolume (text : List Char) : Option Volume × List Char :=
  let separator := isSeparator .windows false
  match text with
  | '\\' :: '\\' :: '?' :: '\\' :: rest =>
    let (volume, rest) := verbatimVolume rest
    (some volume, rest)
  | a :: b :: rest =>
    if separator a && separator b then
      if rest.head? = some '.' && rest.tail.head?.any separator then
        let (name, rest) := splitFirst separator (rest.drop 2)
        (some (.device name), rest)
      else
        let ((server, share), rest) := splitShare separator rest
        if server = [] ∨ share = [] then (none, text) else (some (.unc server share), rest)
    else if a.isAlpha && b = ':' then (some (.disk a.toUpper), rest)
    else (none, text)
  | _ => (none, text)

/-- What stands between two separators. -/
def part (verbatim : Bool) (text : List Char) : Option Component :=
  if text = [] then none
  else if text = ['.'] then if verbatim then some .curDir else none
  else if text = ['.', '.'] then some .parentDir
  else some (.normal text)

/-- `Path::components` -/
def components (platform : Platform) (text : List Char) : List Component :=
  let (volume, rest) := match platform with
    | .unix => (none, text)
    | .windows => splitVolume text
  let verbatim := volume.any Volume.isVerbatim
  let separator := isSeparator platform verbatim
  let parts := rest.splitOnP separator
  let start : List Component :=
    if rest.head?.any separator || volume.any (!·.isDisk) then [.rootDir]
    else if parts.head? = some ['.'] then [.curDir]
    else []
  volume.toList.map Component.volume ++ start ++ parts.filterMap (part verbatim)

/-! ## Paths -/

/-- A component that is joined to a verbatim path. -/
def joinVerbatim (root : List Component) : Component → List Component
  | .rootDir => root.take 1 ++ [.rootDir]
  | .curDir => root
  | .parentDir =>
    match root.getLast? with
    | some (.normal _) => root.dropLast
    | _ => root
  | c => root ++ [c]

/-- `Path::join` -/
def join (root path : List Component) : List Component :=
  if path.head?.any Component.isVolume then path
  else if root.any fun c => match c with | .volume v => v.isVerbatim | _ => false then
    path.foldl joinVerbatim root
  else match path with
    | .rootDir :: _ => root.filter Component.isVolume ++ path
    | .curDir :: rest => root ++ if root.all Component.isVolume then path else rest
    | _ => root ++ path

/-- `Path::parent` -/
def parent (path : List Component) : Option (List Component) :=
  match path.getLast? with
  | none | some (.volume _) | some .rootDir => none
  | _ => some path.dropLast

/-- `Path::file_name` -/
def fileName (path : List Component) : Option (List Char) :=
  match path.getLast? with
  | some (.normal name) => some name
  | _ => none

section
variable {name : List Char} {platform : Platform}

/-- A text without separators and colons that is not `.` or `..`. -/
structure Plain (name : List Char) : Prop where
  nonempty : name ≠ []
  slash : '/' ∉ name
  backslash : '\\' ∉ name
  colon : ':' ∉ name
  current : name ≠ ['.']
  parent : name ≠ ['.', '.']

theorem Plain.not_separator (h : Plain name) (platform : Platform) (verbatim : Bool) :
    ∀ c ∈ name, ¬ isSeparator platform verbatim c := by
  intro c hc hsep
  cases platform with
  | unix =>
    obtain rfl : c = '/' := by simpa [isSeparator] using hsep
    exact h.slash hc
  | windows =>
    have hor : c = '\\' ∨ verbatim = false ∧ c = '/' := by simpa [isSeparator] using hsep
    rcases hor with rfl | ⟨-, rfl⟩
    · exact h.backslash hc
    · exact h.slash hc

theorem Plain.splitVolume (h : Plain name) : splitVolume name = (none, name) := by
  have hsep := h.not_separator .windows false
  rcases name with _ | ⟨a, _ | ⟨b, rest⟩⟩
  · exact absurd rfl h.nonempty
  · simp [Paths.splitVolume]
  have ha : a ≠ '\\' := by
    rintro rfl
    exact h.backslash List.mem_cons_self
  have hb : b ≠ ':' := by
    rintro rfl
    exact h.colon (List.mem_cons_of_mem _ List.mem_cons_self)
  have hseparator : isSeparator .windows false a = false := by
    simpa using hsep a List.mem_cons_self
  simp [Paths.splitVolume, ha, hb, hseparator]

/-- **A plain text is one normal component**, on both platforms. -/
theorem components_plain (h : Plain name) (platform : Platform) :
    components platform name = [.normal name] := by
  have hvolume : (match platform with
      | .unix => (none, name)
      | .windows => splitVolume name) = (none, name) := by
    cases platform with
    | unix => rfl
    | windows => exact h.splitVolume
  have hsplit : name.splitOnP (isSeparator platform false) = [name] :=
    List.splitOnP_eq_singleton (by simpa using h.not_separator platform false)
  have hhead : name.head?.any (isSeparator platform false) = false := by
    rcases name with _ | ⟨a, rest⟩
    · rfl
    · simpa using h.not_separator platform false a List.mem_cons_self
  have hpart : part false name = some (.normal name) := by
    simp [part, h.nonempty, h.current, h.parent]
  simp only [components, hvolume, Option.any_none, hsplit, hhead]
  simp [h.current, hpart]

theorem join_normal (root : List Component) (name : List Char) :
    join root [.normal name] = root ++ [.normal name] := by
  simp only [join]
  split_ifs with hvolume hverbatim
  · cases hvolume
  · rfl
  · rfl

@[simp] theorem parent_concat (root : List Component) (name : List Char) :
    parent (root ++ [.normal name]) = some root := by
  simp [parent]

@[simp] theorem fileName_concat (root : List Component) (name : List Char) :
    fileName (root ++ [.normal name]) = some name := by
  simp [fileName]

end

end Paths
