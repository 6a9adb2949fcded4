/-
  The parts of Rust's `str` that the frame parsers and the matcher use.

  A `&str` is a list of characters, a `&[u8]` a list of bytes.

  * `fromUtf8Lossy` replaces every maximal invalid subpart of the input by
    U+FFFD; `fromUtf8` fails on such input;
  * `trim`, `trimEnd` remove Unicode white space;
  * `fromStrRadix16` is `u8::from_str_radix(_, 16)`, which accepts a leading
    plus sign.
-/
import Mathlib.Algebra.Ring.Nat
import Mathlib.Data.List.Basic
import Mathlib.Tactic.Common

namespace SerialMcp

/-- `&[u8]` and `Vec<u8>` -/
abbrev Bytes := List UInt8

/-- A delimiter, marker or needle that was checked not to be empty. -/
abbrev Marker := {m : Bytes // m ≠ []}

/-- `&str` and `String`, as the list of their characters -/
abbrev Text := List Char

/-- `str::as_bytes` -/
def asBytes (s : Text) : Bytes := s.flatMap String.utf8EncodeChar

/-! ## Decoding -/

/-- The length of the sequence that a leading byte announces, 0 if it cannot
    lead one. -/
def utf8CharWidth (b : UInt8) : ℕ :=
  if b < 0x80 then 1
  else if 0xC2 ≤ b ∧ b ≤ 0xDF then 2
  else if 0xE0 ≤ b ∧ b ≤ 0xEF then 3
  else if 0xF0 ≤ b ∧ b ≤ 0xF4 then 4
  else 0

/-- The bytes that may follow the leading byte `b`: no overlong forms, no
    surrogates, nothing above U+10FFFF. -/
def secondByteOk (b c : UInt8) : Bool :=
  if b = 0xE0 then 0xA0 ≤ c ∧ c ≤ 0xBF
  else if b = 0xED then 0x80 ≤ c ∧ c ≤ 0x9F
  else if b = 0xF0 then 0x90 ≤ c ∧ c ≤ 0xBF
  else if b = 0xF4 then 0x80 ≤ c ∧ c ≤ 0x8F
  else 0x80 ≤ c ∧ c ≤ 0xBF

/-- The continuation bytes of a sequence led by `b` that are well formed. -/
def continuation (b : UInt8) (rest : Bytes) : Bytes :=
  match (rest.take (utf8CharWidth b - 1)) with
  | [] => []
  | c :: cs => if secondByteOk b c then c :: cs.takeWhile fun x => 0x80 ≤ x ∧ x ≤ 0xBF else []

/-- The scalar value of a sequence: the payload bits of the leading byte, then
    six bits from each continuation byte. -/
def scalarValue (b : UInt8) (cs : Bytes) : ℕ :=
  let lead := match cs.length with
    | 0 => b.toNat
    | 1 => b.toNat % 32
    | 2 => b.toNat % 16
    | _ => b.toNat % 8
  cs.foldl (fun acc c => acc * 64 + c.toNat % 64) lead

/-- One character, or one maximal invalid subpart (`none`), with its length. -/
def utf8Step (b : UInt8) (rest : Bytes) : Option Char × ℕ :=
  let cs := continuation b rest
  if cs.length + 1 = utf8CharWidth b then (some (Char.ofNat (scalarValue b cs)), cs.length + 1)
  else (none, cs.length + 1)

/-- The characters and invalid subparts of `bs`; `n` bounds their number. -/
def utf8Chunks : ℕ → Bytes → List (Option Char)
  | 0, _ | _, [] => []
  | n + 1, b :: rest =>
    let s := utf8Step b rest
    s.1 :: utf8Chunks n ((b :: rest).drop s.2)

/-- `String::from_utf8_lossy` -/
def fromUtf8Lossy (bs : Bytes) : Text :=
  (utf8Chunks bs.length bs).map fun c => c.getD (Char.ofNat 0xFFFD)

/-- `str::from_utf8` -/
def fromUtf8 (bs : Bytes) : Option Text := (utf8Chunks bs.length bs).mapM id

example : fromUtf8Lossy [0xE2, 0x82, 0x41, 0xC3, 0xA9] = ['\uFFFD', 'A', 'é'] := by decide

/-! ## Sizes -/

theorem utf8Chunks_length_le (n : ℕ) (bs : Bytes) : (utf8Chunks n bs).length ≤ n := by
  induction n generalizing bs with
  | zero => simp [utf8Chunks]
  | succ n ih =>
    rcases bs with _ | ⟨b, rest⟩
    · simp [utf8Chunks]
    · rw [utf8Chunks, List.length_cons]
      exact Nat.succ_le_succ (ih _)

theorem fromUtf8Lossy_length_le (bs : Bytes) : (fromUtf8Lossy bs).length ≤ bs.length := by
  rw [fromUtf8Lossy, List.length_map]
  exact utf8Chunks_length_le ..

theorem asBytes_cons_length (c : Char) (s : Text) :
    (asBytes (c :: s)).length = c.utf8Size + (asBytes s).length := by
  simp [asBytes]

theorem asBytes_length_le (s : Text) : (asBytes s).length ≤ 4 * s.length := by
  induction s with
  | nil => exact Nat.le_refl _
  | cons c s ih =>
    have hc := c.utf8Size_le_four
    rw [asBytes_cons_length, List.length_cons]
    omega

/-! ## Trimming and numbers -/

/-- `char::is_whitespace` -/
def isWhitespace (c : Char) : Bool :=
  let n := c.toNat
  (0x9 ≤ n ∧ n ≤ 0xD) ∨ n = 0x20 ∨ n = 0x85 ∨ n = 0xA0 ∨ n = 0x1680 ∨ (0x2000 ≤ n ∧ n ≤ 0x200A) ∨
    n = 0x2028 ∨ n = 0x2029 ∨ n = 0x202F ∨ n = 0x205F ∨ n = 0x3000

/-- `str::trim_end` -/
def trimEnd (s : Text) : Text := (s.reverse.dropWhile isWhitespace).reverse

/-- `str::trim` -/
def trim (s : Text) : Text := trimEnd (s.dropWhile isWhitespace)

/-- `char::to_digit(16)` -/
def hexDigit (c : Char) : Option ℕ :=
  if '0' ≤ c ∧ c ≤ '9' then some (c.toNat - '0'.toNat)
  else if 'a' ≤ c ∧ c ≤ 'f' then some (c.toNat - 'a'.toNat + 10)
  else if 'A' ≤ c ∧ c ≤ 'F' then some (c.toNat - 'A'.toNat + 10)
  else none

/-- The digits of a hexadecimal `u8`, none when one is invalid or the value
    does not fit. -/
def hexDigits (acc : ℕ) : Text → Option UInt8
  | [] => some (UInt8.ofNat acc)
  | c :: cs => do
    let d ← hexDigit c
    if acc * 16 + d < 256 then hexDigits (acc * 16 + d) cs else none

/-- `u8::from_str_radix(_, 16)` -/
def fromStrRadix16 : Text → Option UInt8
  | [] | ['+'] | ['-'] => none
  | '+' :: ds => hexDigits 0 ds
  | ds => hexDigits 0 ds

example : fromStrRadix16 ['+', 'a'] = some 10 := by decide

end SerialMcp
