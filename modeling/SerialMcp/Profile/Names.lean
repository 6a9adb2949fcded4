/-
  The names of generated profiles (`profiles.rs`).

  * `Slug`: words of lowercase letters and digits, with a hyphen between them;
  * `normalizeGeneratedLabel_slug`: a label of any text becomes a slug of at most 32
    characters, and a slug of at most 32 characters stays as it is;
  * `allocateGeneratedName_eq`: the loop ends, since the names taken are too few for
    its candidates, with the first that is free.
-/
import Mathlib.Data.List.Perm.Subperm
import SerialMcp.Profile.Store
import SerialMcp.Text

namespace SerialMcp

/-! ## Slugs -/

/-- `[a-z0-9]` -/
def isLowerAlphanumeric (c : Char) : Bool := ('a' ≤ c ∧ c ≤ 'z') ∨ ('0' ≤ c ∧ c ≤ '9')

/-- `[a-z0-9]+(-[a-z0-9]+)*` -/
def SlugForm (s : Text) : Prop :=
  ∃ word words, (∀ w ∈ word :: words, w ≠ [] ∧ ∀ c ∈ w, isLowerAlphanumeric c) ∧
    s = word ++ words.flatMap fun w => '-' :: w

/-- Slugs, one character after another. -/
inductive Slug : Text → Prop
  | single {c : Char} (hc : isLowerAlphanumeric c) : Slug [c]
  | letter {s : Text} {c : Char} (hs : Slug s) (hc : isLowerAlphanumeric c) : Slug (s ++ [c])
  | hyphen {s : Text} {c : Char} (hs : Slug s) (hc : isLowerAlphanumeric c) :
      Slug (s ++ ['-', c])

section
variable {s out label : Text} {c : Char} {k : ℕ} {pendingSep : Bool}

theorem ne_hyphen (hc : isLowerAlphanumeric c) : c ≠ '-' := by
  rintro rfl
  exact absurd hc (by decide)

theorem word_letter {w : Text} (hw : ∀ x ∈ w, isLowerAlphanumeric x)
    (hc : isLowerAlphanumeric c) : w ++ [c] ≠ [] ∧ ∀ x ∈ w ++ [c], isLowerAlphanumeric x := by
  constructor
  · simp
  · intro x hx
    rcases List.mem_append.1 hx with hx | hx
    · exact hw x hx
    · rw [List.mem_singleton.1 hx]
      exact hc

theorem SlugForm.letter (hs : SlugForm s) (hc : isLowerAlphanumeric c) : SlugForm (s ++ [c]) := by
  obtain ⟨word, words, hwords, rfl⟩ := hs
  induction words using List.reverseRecOn with
  | nil =>
    refine ⟨word ++ [c], [], ?_, by simp⟩
    intro w hw
    rw [List.mem_singleton.1 hw]
    exact word_letter (hwords word (by simp)).2 hc
  | append_singleton words last _ =>
    refine ⟨word, words ++ [last ++ [c]], ?_, by simp⟩
    intro w hw
    rw [← List.cons_append] at hw
    rcases List.mem_append.1 hw with hw | hw
    · exact hwords w (by rw [← List.cons_append]; exact List.mem_append_left _ hw)
    · rw [List.mem_singleton.1 hw]
      exact word_letter (hwords last (by simp)).2 hc

theorem Slug.form (h : Slug s) : SlugForm s := by
  induction h with
  | @single c hc =>
    refine ⟨[c], [], ?_, rfl⟩
    intro w hw
    rw [List.mem_singleton.1 hw]
    simpa using hc
  | letter _ hc ih => exact ih.letter hc
  | @hyphen s c _ hc ih =>
    obtain ⟨word, words, hwords, rfl⟩ := ih
    refine ⟨word, words ++ [[c]], ?_, by simp⟩
    intro w hw
    rw [← List.cons_append] at hw
    rcases List.mem_append.1 hw with hw | hw
    · exact hwords w hw
    · rw [List.mem_singleton.1 hw]
      simpa using hc

theorem Slug.ne_nil (h : Slug s) : s ≠ [] := by
  cases h <;> simp

theorem Slug.head (h : Slug s) : ∃ c rest, s = c :: rest ∧ c ≠ '-' := by
  induction h with
  | single hc => exact ⟨_, [], rfl, ne_hyphen hc⟩
  | letter _ _ ih =>
    obtain ⟨c, rest, rfl, hc⟩ := ih
    exact ⟨c, _, rfl, hc⟩
  | hyphen _ _ ih =>
    obtain ⟨c, rest, rfl, hc⟩ := ih
    exact ⟨c, _, rfl, hc⟩

theorem Slug.dropWhile (h : Slug s) : s.dropWhile (· = '-') = s := by
  obtain ⟨c, rest, rfl, hc⟩ := h.head
  simp [hc]

theorem Slug.rdropWhile (h : Slug s) : s.rdropWhile (· = '-') = s := by
  cases h with
  | single hc => simp [List.rdropWhile_singleton, ne_hyphen hc]
  | letter _ hc => exact List.rdropWhile_concat_neg _ _ _ (by simpa using ne_hyphen hc)
  | @hyphen s c _ hc =>
    have hconcat : s ++ ['-', c] = (s ++ ['-']) ++ [c] := by simp
    rw [hconcat]
    exact List.rdropWhile_concat_neg _ _ _ (by simpa using ne_hyphen hc)

/-- The first characters of a slug, without a hyphen at their end. -/
theorem Slug.take (h : Slug s) (hk : 0 < k) : Slug ((s.take k).rdropWhile (· = '-')) := by
  induction h with
  | @single c hc =>
    have hs : Slug [c] := .single hc
    rw [List.take_of_length_le hk, hs.rdropWhile]
    exact hs
  | @letter s c hs hc ih =>
    rcases Nat.lt_or_ge s.length k with hlt | hle
    · have hwhole : Slug (s ++ [c]) := hs.letter hc
      rw [List.take_of_length_le (by simp; omega), hwhole.rdropWhile]
      exact hwhole
    · rw [List.take_append_of_le_length hle]
      exact ih
  | @hyphen s c hs hc ih =>
    rcases Nat.lt_or_ge s.length k with hlt | hle
    · by_cases hcut : k = s.length + 1
      · -- the cut is behind the hyphen
        have htake : (s ++ ['-', c]).take k = s ++ ['-'] := by
          rw [hcut, List.take_length_add_append]
          rfl
        rw [htake, List.rdropWhile_concat_pos _ _ _ (by simp), hs.rdropWhile]
        exact hs
      · have hwhole : Slug (s ++ ['-', c]) := hs.hyphen hc
        rw [List.take_of_length_le (by simp; omega), hwhole.rdropWhile]
        exact hwhole
    · rw [List.take_append_of_le_length hle]
      exact ih

/-! ## Labels -/

/-- A character in the loop of `normalize_generated_label`. -/
def labelChar (st : Text × Bool) (c : Char) : Text × Bool :=
  if c.isAlphanum then
    ((if st.2 ∧ st.1 ≠ [] then st.1 ++ ['-'] else st.1) ++ [c.toLower], false)
  else (st.1, true)

/-- The end of `normalize_generated_label`. -/
def trimLabel (out : Text) : String :=
  let out := (out.dropWhile (· = '-')).rdropWhile (· = '-')
  let capped := (out.take 32).rdropWhile (· = '-')
  if capped = [] then "serial-device" else .ofList capped

theorem normalizeGeneratedLabel_eq (label : String) :
    normalizeGeneratedLabel label = trimLabel (label.toList.foldl labelChar ([], false)).1 := rfl

theorem forall_ascii {p : Char → Prop} (h : ∀ n < 128, p (Char.ofNat n)) (hc : c.toNat < 128) :
    p c := by
  have hof := h c.toNat hc
  rwa [Char.ofNat_toNat] at hof

theorem isLowerAlphanumeric_toLower (hc : c.isAlphanum = true) :
    isLowerAlphanumeric c.toLower = true := by
  have hranges : c.isAlphanum = (decide (c.val ≥ 65 ∧ c.val ≤ 90) ||
    (c.val ≥ 97 && c.val ≤ 122) || (c.val ≥ 48 && c.val ≤ 57)) := rfl
  have hascii : c.toNat < 128 := by
    simp only [hranges, Bool.or_eq_true, Bool.and_eq_true, decide_eq_true_eq,
      UInt32.le_iff_toNat_le, ge_iff_le, UInt32.reduceToNat] at hc
    show c.val.toNat < 128
    omega
  have hlower : ∀ n < 128, (Char.ofNat n).isAlphanum = true →
      isLowerAlphanumeric (Char.ofNat n).toLower = true := by decide +kernel
  exact forall_ascii (p := fun c => c.isAlphanum = true → isLowerAlphanumeric c.toLower = true)
    hlower hascii hc

theorem isAlphanum_of_isLowerAlphanumeric (hc : isLowerAlphanumeric c = true) :
    c.isAlphanum = true ∧ c.toLower = c := by
  have hascii : c.toNat < 128 := by
    simp only [isLowerAlphanumeric, decide_eq_true_eq, Char.le_def, UInt32.le_iff_toNat_le] at hc
    show c.val.toNat < 128
    have hz : ('z').val.toNat = 122 := rfl
    have h9 : ('9').val.toNat = 57 := rfl
    omega
  have hsame : ∀ n < 128, isLowerAlphanumeric (Char.ofNat n) = true →
      (Char.ofNat n).isAlphanum = true ∧ (Char.ofNat n).toLower = Char.ofNat n := by
    decide +kernel
  exact forall_ascii
    (p := fun c => isLowerAlphanumeric c = true → c.isAlphanum = true ∧ c.toLower = c)
    hsame hascii hc

/-- **Step**: a character leaves a slug, or nothing yet. -/
theorem labelChar_slug (h : out = [] ∨ Slug out) :
    (labelChar (out, pendingSep) c).1 = [] ∨ Slug (labelChar (out, pendingSep) c).1 := by
  unfold labelChar
  by_cases hc : c.isAlphanum
  · have hlower := isLowerAlphanumeric_toLower hc
    rw [if_pos hc]
    rcases h with rfl | hslug
    · exact .inr (by simpa using Slug.single hlower)
    · have hne := hslug.ne_nil
      cases pendingSep with
      | true =>
        rw [if_pos ⟨rfl, hne⟩, List.append_assoc]
        exact .inr (hslug.hyphen hlower)
      | false =>
        rw [if_neg (by simp)]
        exact .inr (hslug.letter hlower)
  · rw [if_neg hc]
    exact h

/-- **Run**: so does a label. -/
theorem foldl_slug (label : Text) (h : out = [] ∨ Slug out) :
    (label.foldl labelChar (out, pendingSep)).1 = [] ∨
      Slug (label.foldl labelChar (out, pendingSep)).1 := by
  induction label generalizing out pendingSep with
  | nil => exact h
  | cons c label ih => exact ih (labelChar_slug h)

theorem label_slug (label : Text) : (label.foldl labelChar ([], false)).1 = [] ∨
    Slug (label.foldl labelChar ([], false)).1 := foldl_slug label (.inl rfl)

theorem Slug.foldl (h : Slug s) : s.foldl labelChar ([], false) = (s, false) := by
  have hletter : ∀ {out : Text} {c : Char}, isLowerAlphanumeric c →
      labelChar (out, false) c = (out ++ [c], false) := by
    intro out c hc
    obtain ⟨halnum, hlower⟩ := isAlphanum_of_isLowerAlphanumeric hc
    simp [labelChar, halnum, hlower]
  induction h with
  | single hc => exact hletter hc
  | letter _ hc ih => rw [List.foldl_concat, ih, hletter hc]
  | @hyphen s c hs hc ih =>
    obtain ⟨halnum, hlower⟩ := isAlphanum_of_isLowerAlphanumeric hc
    have hsep : ('-').isAlphanum = false := by decide
    rw [List.foldl_append, ih]
    simp [labelChar, hsep, halnum, hlower, hs.ne_nil]

theorem slug_serialDevice : Slug "serial-device".toList := by
  have hself : ("serial-device".toList.foldl labelChar ([], false)).1 = "serial-device".toList := by
    decide +kernel
  have hslug := label_slug "serial-device".toList
  rw [hself] at hslug
  rcases hslug with hnil | hslug
  · exact absurd hnil (by decide +kernel)
  · exact hslug

/-- **A normalized label** is a slug of at most 32 characters. -/
theorem normalizeGeneratedLabel_slug (label : String) :
    Slug (normalizeGeneratedLabel label).toList ∧
      (normalizeGeneratedLabel label).toList.length ≤ 32 := by
  rw [normalizeGeneratedLabel_eq, trimLabel]
  rcases label_slug label.toList with hnil | hslug
  · rw [hnil]
    exact ⟨slug_serialDevice, by decide +kernel⟩
  · have hcapped := hslug.take (k := 32) (by decide)
    simp only [hslug.dropWhile, hslug.rdropWhile, hcapped.ne_nil, if_false, String.toList_ofList]
    refine ⟨hcapped, ?_⟩
    refine (List.rdropWhile_prefix _ _).length_le.trans ?_
    rw [List.length_take]
    exact Nat.min_le_left ..

/-- A slug of at most 32 characters is its own normalized label. -/
theorem Slug.normalizeGeneratedLabel {label : String} (h : Slug label.toList)
    (hlen : label.toList.length ≤ 32) : normalizeGeneratedLabel label = label := by
  rw [normalizeGeneratedLabel_eq, h.foldl, trimLabel]
  simp only [h.dropWhile, h.rdropWhile, List.take_of_length_le hlen, h.ne_nil, if_false,
    String.ofList_toList]

end

/-! ## Free names -/

/-- `base-k` -/
def suffixed (base : String) (k : ℕ) : String := base ++ "-" ++ toString k

theorem suffixed_injective (base : String) : Function.Injective (suffixed base) := by
  intro k k' h
  have hdigits : toString k = toString k' := (String.append_right_inj _).1 h
  -- the number is read off its digits
  have hread : ∀ n : ℕ, Nat.ofDigitChars 10 (toString n).toList 0 = n := by
    intro n
    simp
  rw [← hread k, hdigits, hread]

section
variable {taken : List String} {base name : String} {suffix fuel : ℕ}

theorem freeSuffix_eq_some (h : freeSuffix taken base suffix fuel = some name) :
    ∃ k ≥ suffix, name = suffixed base k ∧
      ∀ j, suffix ≤ j → j < k → suffixed base j ∈ taken := by
  induction fuel generalizing suffix with
  | zero => cases h
  | succ fuel ih =>
    rw [freeSuffix] at h
    split_ifs at h with htaken
    · obtain ⟨k, hk, hname, hbefore⟩ := ih h
      refine ⟨k, by omega, hname, ?_⟩
      intro j hj hjk
      by_cases hsuffix : j = suffix
      · rw [hsuffix]
        exact htaken
      · exact hbefore j (by omega) hjk
    · cases h
      refine ⟨suffix, Nat.le_refl _, rfl, ?_⟩
      intro j hj hjk
      omega

theorem freeSuffix_eq_none (h : freeSuffix taken base suffix fuel = none) :
    ∀ i < fuel, suffixed base (suffix + i) ∈ taken := by
  induction fuel generalizing suffix with
  | zero =>
    intro i hi
    omega
  | succ fuel ih =>
    rw [freeSuffix] at h
    split_ifs at h with htaken
    intro i hi
    cases i with
    | zero => exact htaken
    | succ i =>
      have hnext := ih h i (by omega)
      rwa [Nat.add_assoc, Nat.add_comm 1 i] at hnext

/-- **The loop ends**: its candidates are all different, and there are more of them than
    names taken. -/
theorem freeSuffix_isSome (base : String) (suffix : ℕ) (h : taken.length < fuel) :
    ∃ name, freeSuffix taken base suffix fuel = some name := by
  rcases hfound : freeSuffix taken base suffix fuel with _ | name
  · have htaken := freeSuffix_eq_none hfound
    have hnodup : ((List.range fuel).map fun i => suffixed base (suffix + i)).Nodup := by
      refine List.Nodup.map ?_ List.nodup_range
      intro i i' hi
      have hadd := suffixed_injective base hi
      omega
    have hsub : ((List.range fuel).map fun i => suffixed base (suffix + i)) ⊆ taken := by
      intro name hname
      obtain ⟨i, hi, rfl⟩ := List.mem_map.1 hname
      exact htaken i (List.mem_range.1 hi)
    have hle := (List.subperm_of_subset hnodup hsub).length_le
    rw [List.length_map, List.length_range] at hle
    omega
  · exact ⟨name, rfl⟩

end

/-- `name` is `base` if it is free, and otherwise the first of `base-2`, `base-3`, … that is. -/
def FirstFree (existing : List Profile) (base name : String) : Prop :=
  name ∉ existing.map Profile.name ∧
    (name = base ∨ base ∈ existing.map Profile.name ∧
      ∃ k ≥ 2, name = suffixed base k ∧
        ∀ j, 2 ≤ j → j < k → suffixed base j ∈ existing.map Profile.name)

/-- **Allocation** ends as long as there are fewer names than suffixes. -/
theorem allocateGeneratedName_firstFree {existing : List Profile} (base : String)
    (h : existing.length < 2 ^ 32 - 2) :
    ∃ name, allocateGeneratedName existing base = some name ∧ FirstFree existing base name := by
  by_cases hbase : base ∈ existing.map Profile.name
  · obtain ⟨name, hname⟩ := freeSuffix_isSome base 2 (by rwa [List.length_map] :
      (existing.map Profile.name).length < 2 ^ 32 - 2)
    refine ⟨name, ?_, ProfileStore.freeSuffix_notMem hname, .inr ⟨hbase, freeSuffix_eq_some hname⟩⟩
    rw [allocateGeneratedName]
    exact (if_pos hbase).trans hname
  · exact ⟨base, if_neg hbase, hbase, .inl rfl⟩

/-- **Generated names**: any label is normalized to a slug of 1 to 32 characters, which
    is then left as it is; and the name allocated for a base is free, and the first that is. -/
theorem generated_names (label base : String) {existing : List Profile}
    (h : existing.length < 2 ^ 32 - 2) :
    (SlugForm (normalizeGeneratedLabel label).toList ∧
      1 ≤ (normalizeGeneratedLabel label).toList.length ∧
      (normalizeGeneratedLabel label).toList.length ≤ 32) ∧
    normalizeGeneratedLabel (normalizeGeneratedLabel label) = normalizeGeneratedLabel label ∧
    ∃ name, allocateGeneratedName existing base = some name ∧ FirstFree existing base name := by
  obtain ⟨hslug, hlen⟩ := normalizeGeneratedLabel_slug label
  refine ⟨⟨hslug.form, ?_, hlen⟩, hslug.normalizeGeneratedLabel hlen,
    allocateGeneratedName_firstFree base h⟩
  exact List.length_pos_iff.2 hslug.ne_nil

/-- A profile that was generated before. -/
def receiver : Profile where
  name := "auto-gps-7"
  selector := {}
  defaults := {}
  metadata := ProfileStore.createMetadata 10
  revisions := []

theorem generated_names_receiver :
    normalizeGeneratedLabel "GPS 7" = "gps-7" ∧
    allocateGeneratedName [receiver] "auto-gps-7" = some "auto-gps-7-2" ∧
    ((SlugForm (normalizeGeneratedLabel "GPS 7").toList ∧
      1 ≤ (normalizeGeneratedLabel "GPS 7").toList.length ∧
      (normalizeGeneratedLabel "GPS 7").toList.length ≤ 32) ∧
    normalizeGeneratedLabel (normalizeGeneratedLabel "GPS 7") = normalizeGeneratedLabel "GPS 7" ∧
    ∃ name, allocateGeneratedName [receiver] "auto-gps-7" = some name ∧
      FirstFree [receiver] "auto-gps-7" name) :=
  ⟨by decide +kernel, by decide +kernel, generated_names _ _ (by decide)⟩

end SerialMcp
