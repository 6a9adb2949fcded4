/-
  Pages of the MCP lists (`paginate` in `server.rs`), with cursors that are
  offsets, written in decimal and encoded as base64.

  * `paginate`: one page, and the cursor of the next one if there is more;
  * `paginate_window`: whatever the cursor is, the page is a window of the list;
  * `follow_all`: a client that follows the cursors gets the whole list, every
    item once and in order, on full pages but for the last.
-/
import SerialMcp.Read.Result

namespace SerialMcp.Pages

/-! ## Cursors -/

/-- `usize::MAX` -/
def usizeMax : ℕ := 2 ^ 64 - 1

/-- `str::parse::<usize>`: digits behind an optional sign, without overflow. -/
def parseUsize (s : Text) : Option ℕ :=
  let digits := match s with
    | '+' :: rest => rest
    | _ => s
  if digits ≠ [] ∧ digits.all Char.isDigit ∧ Nat.ofDigitChars 10 digits 0 ≤ usizeMax then
    some (Nat.ofDigitChars 10 digits 0)
  else none

/-- `usize::to_string` -/
def usizeToString (n : ℕ) : Text := Nat.toDigits 10 n

/-- The standard engine of the base64 crate. -/
structure Base64 where
  encode : Bytes → Text
  decode : Text → Option Bytes

section
variable {α : Type} (base64 : Base64)

/-- The offset that a cursor stands for; anything else is the start. -/
def cursorOffset (cursor : Option Text) : ℕ :=
  (((cursor.bind base64.decode).bind fromUtf8).bind parseUsize).getD 0

/-- The cursor of an offset. -/
def offsetCursor (offset : ℕ) : Text := base64.encode (asBytes (usizeToString offset))

/-- `paginate` -/
def paginate (all : List α) (cursor : Option Text) (pageSize : ℕ) : List α × Option Text :=
  let offset := min (cursorOffset base64 cursor) all.length
  let last := min (saturatingAdd offset pageSize) all.length
  (all.extract offset last, if last < all.length then some (offsetCursor base64 last) else none)

/-- A client that asks for a page, and for the next one as long as it gets a cursor. -/
def follow (all : List α) (pageSize : ℕ) : ℕ → Option Text → List (List α)
  | 0, _ => []
  | requests + 1, cursor =>
    let page := paginate base64 all cursor pageSize
    page.1 :: match page.2 with
      | none => []
      | some next => follow all pageSize requests (some next)

end

/-! ## Decimal numbers -/

theorem parseUsize_toString {n : ℕ} (h : n ≤ usizeMax) : parseUsize (usizeToString n) = some n := by
  have hdigits : ∀ c ∈ Nat.toDigits 10 n, c.isDigit = true := fun c hc =>
    Nat.isDigit_of_mem_toDigits (by decide) (by decide) hc
  have hsign : ∀ rest, Nat.toDigits 10 n ≠ '+' :: rest := by
    intro rest hrest
    have hplus := hdigits '+' (by rw [hrest]; exact List.mem_cons_self)
    cases hplus
  have hvalue : Nat.ofDigitChars 10 (Nat.toDigits 10 n) 0 = n := Nat.ofDigitChars_ten_toDigits
  rw [parseUsize, usizeToString, hvalue,
    if_pos ⟨Nat.toDigits_ne_nil, List.all_eq_true.2 hdigits, h⟩]
  exact hsign

section
variable {α : Type} {base64 : Base64} {all : List α} {cursor : Option Text} {pageSize n : ℕ}

theorem cursorOffset_offsetCursor (hround : ∀ b, base64.decode (base64.encode b) = some b)
    (h : n ≤ usizeMax) : cursorOffset base64 (some (offsetCursor base64 n)) = n := by
  simp only [cursorOffset, offsetCursor, Option.bind_some, hround, fromUtf8_asBytes,
    parseUsize_toString h, Option.getD_some]

/-! ## One page -/

/-- Whatever the cursor is, a page is a window of the list with at most `pageSize` items. A
    cursor comes with it iff items are left, and it stands for the first of them. -/
theorem paginate_window (cursor : Option Text) (pageSize : ℕ)
    (hround : ∀ b, base64.decode (base64.encode b) = some b)
    (hlen : all.length ≤ usizeMax) :
    let offset := min (cursorOffset base64 cursor) all.length
    let page := paginate base64 all cursor pageSize
    page.1 = (all.drop offset).take pageSize ∧
      (page.2 = none ↔ all.length ≤ offset + pageSize) ∧
      ∀ next, page.2 = some next → cursorOffset base64 (some next) = offset + pageSize := by
  intro offset page
  have hoffset : offset ≤ all.length := min_le_right _ _
  have hlast : min (saturatingAdd offset pageSize) all.length =
      min (offset + pageSize) all.length := by
    have hmax : usizeMax = u64Size - 1 := rfl
    simp only [saturatingAdd]
    omega
  have hpage : page = (all.extract offset (min (offset + pageSize) all.length),
      if min (offset + pageSize) all.length < all.length
        then some (offsetCursor base64 (min (offset + pageSize) all.length)) else none) := by
    simp only [page, paginate, offset, hlast]
  rw [hpage]
  refine ⟨?_, ?_, ?_⟩
  · rw [List.extract_eq_drop_take', List.drop_take]
    rw [List.take_eq_take_iff, List.length_drop]
    omega
  · constructor
    · intro h
      by_contra hmore
      rw [if_pos (by omega)] at h
      cases h
    · intro h
      exact if_neg (by omega)
  · intro next h
    by_cases hmore : min (offset + pageSize) all.length < all.length
    · rw [if_pos hmore] at h
      cases h
      rw [cursorOffset_offsetCursor hround (by omega)]
      omega
    · rw [if_neg hmore] at h
      cases h

/-! ## All pages -/

/-- From any cursor on, the pages make up the rest of the list, and only the last of them
    may be short. -/
theorem follow_rest (hround : ∀ b, base64.decode (base64.encode b) = some b)
    (hlen : all.length ≤ usizeMax) (hsize : 0 < pageSize) (requests : ℕ) (cursor : Option Text)
    (henough : all.length - cursorOffset base64 cursor < requests) :
    (follow base64 all pageSize requests cursor).flatten =
        all.drop (min (cursorOffset base64 cursor) all.length) ∧
      ∀ page ∈ (follow base64 all pageSize requests cursor).dropLast,
        page.length = pageSize := by
  induction requests generalizing cursor with
  | zero => omega
  | succ requests ih =>
    obtain ⟨hitems, hnone, hnext⟩ :=
      paginate_window cursor pageSize hround hlen
    rw [follow]
    cases hcursor : (paginate base64 all cursor pageSize).2 with
    | none =>
      have hend := hnone.1 hcursor
      simp only [List.dropLast_singleton, List.not_mem_nil, false_implies, implies_true, and_true,
        List.flatten_cons, List.flatten_nil, List.append_nil, hitems]
      exact List.take_of_length_le (by rw [List.length_drop]; omega)
    | some next =>
      have hmore : ¬ all.length ≤ min (cursorOffset base64 cursor) all.length + pageSize := by
        intro hend
        rw [hnone.2 hend] at hcursor
        cases hcursor
      have hoffset := hnext next hcursor
      obtain ⟨hrest, hfull⟩ := ih (some next) (by omega)
      have hstart : min (cursorOffset base64 (some next)) all.length =
          min (cursorOffset base64 cursor) all.length + pageSize := by omega
      constructor
      · rw [List.flatten_cons, hrest, hitems, hstart, ← List.drop_drop, List.take_append_drop]
      · intro page hpage
        have hne : follow base64 all pageSize requests (some next) ≠ [] := by
          cases requests with
          | zero => omega
          | succ requests => exact List.cons_ne_nil _ _
        rw [List.dropLast_cons_of_ne_nil hne, List.mem_cons] at hpage
        rcases hpage with rfl | hpage
        · rw [hitems, List.length_take, List.length_drop]
          omega
        · exact hfull page hpage

/-- Following the cursors from the start lists every item once, in order, and only the last
    page may be short. -/
theorem follow_all (hround : ∀ b, base64.decode (base64.encode b) = some b)
    (hlen : all.length ≤ usizeMax) (hsize : 0 < pageSize) {requests : ℕ}
    (henough : all.length < requests) :
    (follow base64 all pageSize requests none).flatten = all ∧
      ∀ page ∈ (follow base64 all pageSize requests none).dropLast,
        page.length = pageSize := by
  have hstart : cursorOffset base64 none = 0 := rfl
  have hrest := follow_rest hround hlen hsize requests none (by omega)
  rwa [hstart, Nat.zero_min, List.drop_zero] at hrest

end

/-- Five items on pages of two. -/
theorem follow_all_five :
    (follow ⟨base64Encode, base64Decode⟩ [1, 2, 3, 4, 5] 2 6 none).flatten = [1, 2, 3, 4, 5] ∧
      ∀ page ∈ (follow ⟨base64Encode, base64Decode⟩ [1, 2, 3, 4, 5] 2 6 none).dropLast,
        page.length = 2 :=
  follow_all base64Decode_encode (by decide) (by decide) (by decide)

end SerialMcp.Pages
