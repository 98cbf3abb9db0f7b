/-
  Versions read from their own text.

  A version keeps one word of the text it was read from.  Read again, that word gives the same
  numbers, and the same text unless it ends in a quote (`parse?_text`): quotes are taken off what is
  read before the word is cut out, so a quote with something behind it stays the first time.

  A version made of numbers is written in the scheme of today and read so (`parse?_ofComponents`),
  except after a leading 1, which is taken for the older scheme.

    * `text_reads_back`   which versions come back from their text
    * `text_reads_other`  versions of both kinds that do not
-/
import KotlinHarness.Proofs.Text.Split
import KotlinHarness.Toolchain.Version

namespace KotlinHarness

/-! ## Text that is cut nowhere -/

namespace Text

variable {p : Char → Bool} {text : List Char}

theorem firstWord_of_none (h : ∀ c ∈ text, isSpace c = false) : firstWord text = text := by
  have hstart : trimStart text = text := by
    cases text with
    | nil => rfl
    | cons c rest => simp [trimStart, h c List.mem_cons_self]
  rw [firstWord, hstart, List.takeWhile_eq_self_iff]
  simpa using h

theorem splitWhere_of_none (h : ∀ c ∈ text, p c = false) : splitWhere p text = [text] := by
  induction text with
  | nil => rfl
  | cons c rest ih =>
    rw [splitWhere, ih fun d hd => h d (List.mem_cons_of_mem _ hd)]
    simp [h c List.mem_cons_self]

/-- The first piece is what precedes the first separator. -/
theorem splitWhere_append_cons {before : List Char} {c : Char} (h : ∀ d ∈ before, p d = false)
    (hc : p c = true) (after : List Char) :
    splitWhere p (before ++ c :: after) = before :: splitWhere p after := by
  induction before with
  | nil => simp [splitWhere, hc]
  | cons d rest ih =>
    rw [List.cons_append, splitWhere, ih fun e he => h e (List.mem_cons_of_mem _ he)]
    simp [h d List.mem_cons_self]

/-! ## Numbers -/

theorem digitsValue_toDigits (n : Nat) : digitsValue (Nat.toDigits 10 n) = n := by
  calc digitsValue (Nat.toDigits 10 n)
      = Nat.ofDigitChars 10 (Nat.toDigits 10 n) 0 := by
        simp only [digitsValue, Nat.ofDigitChars, Nat.mul_comm]
    _ = n := Nat.ofDigitChars_toDigits (by decide) (by decide)

theorem isDigit_of_mem_toDigits {n : Nat} {c : Char} (h : c ∈ Nat.toDigits 10 n) :
    c.isDigit = true :=
  Nat.isDigit_of_mem_toDigits (by decide) (by decide) h

theorem number?_toDigits {n : Nat} (h : n < numberBound) : number? (Nat.toDigits 10 n) = some n := by
  have hne : (Nat.toDigits 10 n).isEmpty = false := by
    rw [List.isEmpty_eq_false_iff]
    exact Nat.toDigits_ne_nil
  have hall : (Nat.toDigits 10 n).all Char.isDigit = true :=
    List.all_eq_true.2 fun _ => isDigit_of_mem_toDigits
  simp [number?, hne, hall, digitsValue_toDigits, h]

end Text

namespace JavaVersion

open Text

variable {text word quotes : List Char} {v : JavaVersion}

/-! ## The numbers of a word -/

theorem leadingNumbers_congr {pieces others : List (List Char)}
    (h : pieces.map (List.takeWhile Char.isDigit) = others.map (List.takeWhile Char.isDigit)) :
    leadingNumbers pieces = leadingNumbers others := by
  induction pieces generalizing others with
  | nil =>
    obtain rfl := List.map_eq_nil_iff.1 h.symm
    rfl
  | cons piece pieces ih =>
    obtain ⟨other, others, rfl⟩ : ∃ other rest, others = other :: rest := by
      cases others with
      | nil => cases h
      | cons other rest => exact ⟨other, rest, rfl⟩
    obtain ⟨hfirst, hrest⟩ := List.cons_eq_cons.1 h
    rw [leadingNumbers, leadingNumbers, leadingNumber?, leadingNumber?, hfirst, ih hrest]

/-- Quotes at the end of a word change no number that a piece starts with. -/
theorem takeWhile_splitWhere_append (hquotes : ∀ c ∈ quotes, (c == '"') = true) (word : List Char) :
    (splitWhere isSeparator (word ++ quotes)).map (List.takeWhile Char.isDigit) =
      (splitWhere isSeparator word).map (List.takeWhile Char.isDigit) := by
  induction word with
  | nil =>
    have hnone : ∀ c ∈ quotes, isSeparator c = false := by
      intro c hc
      obtain rfl : c = '"' := by simpa using hquotes c hc
      rfl
    have hdigits : quotes.takeWhile Char.isDigit = [] := by
      cases quotes with
      | nil => rfl
      | cons c rest =>
        obtain rfl : c = '"' := by simpa using hquotes c List.mem_cons_self
        rfl
    simp [splitWhere, splitWhere_of_none hnone, hdigits]
  | cons c rest ih =>
    rw [List.cons_append, splitWhere, splitWhere]
    by_cases hc : isSeparator c = true
    · rw [if_pos hc, if_pos hc, List.map_cons, List.map_cons, ih]
    · rw [if_neg hc, if_neg hc]
      -- Both splits go on with a first piece, to which the character is added.
      rcases hlong : splitWhere isSeparator (rest ++ quotes) with - | ⟨piece, pieces⟩
      · exact absurd hlong (splitWhere_ne_nil _ _)
      rcases hshort : splitWhere isSeparator rest with - | ⟨other, others⟩
      · exact absurd hshort (splitWhere_ne_nil _ _)
      rw [hlong, hshort, List.map_cons, List.map_cons] at ih
      obtain ⟨hfirst, hothers⟩ := List.cons_eq_cons.1 ih
      simp only [List.map_cons, List.takeWhile_cons, hfirst, hothers]

/-- `v` with another text. -/
def withText (v : JavaVersion) (text : List Char) : JavaVersion := { v with text := .ofList text }

/-- A word that spells a version spells it with quotes at its end, too. -/
theorem ofWord?_append (hquotes : ∀ c ∈ quotes, (c == '"') = true) (word : List Char) :
    ofWord? (word ++ quotes) = (ofWord? word).map (·.withText (word ++ quotes)) := by
  have hsame := takeWhile_splitWhere_append hquotes word
  rw [ofWord?, ofWord?]
  rcases hlong : splitWhere isSeparator (word ++ quotes) with - | ⟨piece, pieces⟩
  · exact absurd hlong (splitWhere_ne_nil _ _)
  rcases hshort : splitWhere isSeparator word with - | ⟨other, others⟩
  · exact absurd hshort (splitWhere_ne_nil _ _)
  rw [hlong, hshort, List.map_cons, List.map_cons] at hsame
  obtain ⟨hfirst, hothers⟩ := List.cons_eq_cons.1 hsame
  simp only [leadingNumber?, hfirst, leadingNumbers_congr hothers]
  cases number? (other.takeWhile Char.isDigit) <;> rfl

/-! ## The word of a text -/

theorem isDigit_head_of_ofWord? (h : ofWord? word = some v) :
    ∃ c rest, word = c :: rest ∧ c.isDigit = true := by
  cases word with
  | nil => cases h
  | cons c rest =>
    refine ⟨c, rest, rfl, ?_⟩
    by_contra hc
    have hnone : leadingNumber? [] = none := rfl
    have hnone' : ∀ piece, leadingNumber? (c :: piece) = none := by
      intro piece
      rw [leadingNumber?, List.takeWhile_cons_of_neg hc]
      rfl
    rw [ofWord?, splitWhere] at h
    by_cases hsep : isSeparator c = true
    · simp only [if_pos hsep, hnone] at h
      cases h
    · rw [if_neg hsep] at h
      rcases hrest : splitWhere isSeparator rest with - | ⟨piece, pieces⟩ <;>
        simp only [hrest, hnone'] at h <;> cases h

theorem isQuote_of_isDigit {c : Char} (h : c.isDigit = true) : (c == '"') = false := by
  rw [beq_eq_false_iff_ne]
  rintro rfl
  cases h

/-- A word that starts with a digit is read as it is, without quotes at its end. -/
theorem core_of_word {c : Char} {rest : List Char} (hdigit : c.isDigit = true)
    (hword : ∀ d ∈ c :: rest, isSpace d = false) :
    core (c :: rest) = dropEndWhile (· == '"') (c :: rest) := by
  have hquote : (c == '"') = false := isQuote_of_isDigit hdigit
  have hj : ('j' == c) = false := by
    cases h : 'j' == c with
    | false => rfl
    | true =>
      rw [← eq_of_beq h] at hdigit
      cases hdigit
  have hunquote : unquote (c :: rest) = dropEndWhile (· == '"') (c :: rest) := by
    rw [unquote, List.dropWhile_cons, hquote]
    rfl
  obtain ⟨dropped, heq, hdropped⟩ := exists_dropEndWhile (· == '"') (c :: rest)
  -- The first character stays, as it is no quote.
  obtain ⟨kept, hkept⟩ : ∃ kept, dropEndWhile (· == '"') (c :: rest) = c :: kept := by
    rcases h : dropEndWhile (· == '"') (c :: rest) with - | ⟨d, kept⟩
    · rw [h, List.nil_append] at heq
      have := hdropped c (heq ▸ List.mem_cons_self)
      rw [hquote] at this
      cases this
    · rw [h, List.cons_append] at heq
      obtain ⟨rfl, -⟩ := List.cons_eq_cons.1 heq
      exact ⟨kept, rfl⟩
  have hspace : ∀ d ∈ c :: kept, isSpace d = false := by
    intro d hd
    refine hword d ?_
    rw [heq, hkept]
    exact List.mem_append_left _ hd
  have hjavac : "javac ".toList.isPrefixOf? (c :: kept) = none := by
    simp [List.isPrefixOf?, hj]
  have hjava : "java ".toList.isPrefixOf? (c :: kept) = none := by
    simp [List.isPrefixOf?, hj]
  rw [core, trim_of_none hword, hunquote, hkept]
  simp only [hjavac, hjava]
  show firstWord (trim (c :: kept)) = c :: kept
  rw [trim_of_none hspace, firstWord_of_none hspace]

theorem isSpace_of_mem_core {c : Char} (h : c ∈ core text) : isSpace c = false := by
  rw [core, firstWord] at h
  simpa using List.mem_takeWhile_imp h

/-- A version keeps the word that it was read from. -/
theorem text_of_ofWord? (h : ofWord? word = some v) : v.text.toList = word := by
  rw [ofWord?] at h
  split at h
  · cases h
  · split at h
    · cases h
    · cases h
      exact String.toList_ofList

/-! ## Reading the text of a version -/

/-- `v` with the quotes at the end of its text taken off. -/
def dropQuotes (v : JavaVersion) : JavaVersion :=
  v.withText (dropEndWhile (· == '"') v.text.toList)

theorem dropQuotes_eq_iff : v.dropQuotes = v ↔ v.text.toList.getLast? ≠ some '"' := by
  have htext : v.dropQuotes = v ↔ dropEndWhile (· == '"') v.text.toList = v.text.toList := by
    constructor
    · intro h
      have := congrArg (fun other : JavaVersion => other.text.toList) h
      simpa [dropQuotes, withText] using this
    · intro h
      rw [dropQuotes, h, withText, String.ofList_toList]
  rw [htext, dropEndWhile_eq_rdropWhile, List.rdropWhile_eq_self_iff]
  generalize v.text.toList = text
  cases hlast : text.getLast? with
  | none => simp [List.getLast?_eq_none_iff.1 hlast]
  | some c =>
    have hne : text ≠ [] := by
      rintro rfl
      cases hlast
    rw [List.getLast?_eq_some_getLast hne] at hlast
    obtain rfl := Option.some.inj hlast
    simp [hne]

/-- What was read is read again from its text, without quotes at the end. -/
theorem parse?_text {read : String} (h : parse? read = some v) :
    parse? v.text = some v.dropQuotes := by
  have htext : v.text.toList = core read.toList := text_of_ofWord? h
  obtain ⟨c, rest, hword, hdigit⟩ := isDigit_head_of_ofWord? h
  have hspace : ∀ d ∈ c :: rest, isSpace d = false := by
    rw [← hword]
    exact fun d => isSpace_of_mem_core
  obtain ⟨dropped, heq, hdropped⟩ := exists_dropEndWhile (· == '"') (c :: rest)
  have hread : ofWord? (c :: rest) = some v := hword ▸ h
  rw [heq, ofWord?_append hdropped] at hread
  obtain ⟨again, hagain, rfl⟩ := Option.map_eq_some_iff.1 hread
  have hcore : core (c :: rest) = dropEndWhile (· == '"') (c :: rest) := core_of_word hdigit hspace
  rw [parse?, htext, hword, hcore, hagain, dropQuotes, htext, hword]
  have hsame : again.text.toList = dropEndWhile (· == '"') (c :: rest) := text_of_ofWord? hagain
  rw [← hsame, withText, withText, String.ofList_toList]

/-! ## Versions made of numbers -/

theorem toList_ofComponents (major minor patch : Nat) :
    (ofComponents major minor patch).text.toList =
      Nat.toDigits 10 major ++ '.' :: (Nat.toDigits 10 minor ++ '.' :: Nat.toDigits 10 patch) := by
  have hdigits : ∀ n : Nat, (toString n).toList = Nat.toDigits 10 n := fun _ => Nat.toList_repr
  show (toString major ++ "." ++ toString minor ++ "." ++ toString patch).toList = _
  simp only [String.toList_append, hdigits, List.append_assoc]
  rfl

theorem isSeparator_of_isDigit {c : Char} (h : c.isDigit = true) : isSeparator c = false := by
  cases hsep : isSeparator c with
  | false => rfl
  | true =>
    simp only [isSeparator, Bool.or_eq_true, beq_iff_eq] at hsep
    rcases hsep with ((rfl | rfl) | rfl) | rfl <;> cases h

theorem isSpace_of_isDigit {c : Char} (h : c.isDigit = true) : isSpace c = false := by
  simp only [Char.isDigit, Bool.and_eq_true, decide_eq_true_eq, UInt32.le_iff_toNat_le] at h
  have hlow : 48 ≤ c.toNat := h.1
  have hhigh : c.toNat ≤ 57 := h.2
  simp only [isSpace, Bool.or_eq_false_iff, Bool.and_eq_false_iff, decide_eq_false_iff_not,
    beq_eq_false_iff_ne]
  omega

theorem leadingNumber?_toDigits {n : Nat} (h : n < numberBound) :
    leadingNumber? (Nat.toDigits 10 n) = some n := by
  rw [leadingNumber?, List.takeWhile_eq_self_iff.2 fun _ => isDigit_of_mem_toDigits,
    number?_toDigits h]

/-- A version made of numbers is read with its numbers where the scheme of today has them. -/
theorem parse?_ofComponents {major minor patch : Nat} (hmajor : major < numberBound)
    (hminor : minor < numberBound) (hpatch : patch < numberBound) :
    parse? (ofComponents major minor patch).text =
      some (if major = 1 then ⟨minor, patch, 0, (ofComponents major minor patch).text⟩
        else ofComponents major minor patch) := by
  have hlist := toList_ofComponents major minor patch
  have hsep : ∀ n : Nat, ∀ c ∈ Nat.toDigits 10 n, isSeparator c = false :=
    fun _ _ hc => isSeparator_of_isDigit (isDigit_of_mem_toDigits hc)
  have hword : ofWord? (ofComponents major minor patch).text.toList =
      some (if major = 1 then ⟨minor, patch, 0, (ofComponents major minor patch).text⟩
        else ofComponents major minor patch) := by
    rw [ofWord?, hlist, splitWhere_append_cons (hsep major) rfl,
      splitWhere_append_cons (hsep minor) rfl, splitWhere_of_none (hsep patch)]
    simp only [leadingNumber?_toDigits hmajor, leadingNumbers, leadingNumber?_toDigits hminor,
      leadingNumber?_toDigits hpatch]
    rw [← hlist, String.ofList_toList]
    by_cases hone : major = 1
    · rw [if_pos hone, hone]
      rfl
    · rw [if_neg hone, shift]
      · rfl
      · intro _ _ heq
        exact absurd heq hone
  have hchar : ∀ c ∈ (ofComponents major minor patch).text.toList, c.isDigit = true ∨ c = '.' := by
    intro c hc
    simp only [hlist, List.mem_append, List.mem_cons] at hc
    rcases hc with hc | rfl | hc | rfl | hc
    · exact .inl (isDigit_of_mem_toDigits hc)
    · exact .inr rfl
    · exact .inl (isDigit_of_mem_toDigits hc)
    · exact .inr rfl
    · exact .inl (isDigit_of_mem_toDigits hc)
  have hspace : ∀ c ∈ (ofComponents major minor patch).text.toList, isSpace c = false := by
    intro c hc
    rcases hchar c hc with hdigit | rfl
    · exact isSpace_of_isDigit hdigit
    · rfl
  have hquote : ∀ c ∈ (ofComponents major minor patch).text.toList, (c == '"') = false := by
    intro c hc
    rcases hchar c hc with hdigit | rfl
    · exact isQuote_of_isDigit hdigit
    · rfl
  obtain ⟨c, rest, hcons, hdigit⟩ := isDigit_head_of_ofWord? hword
  rw [parse?]
  rw [hcons] at hspace hquote hword ⊢
  rw [core_of_word hdigit hspace, dropEndWhile_of_none hquote, hword]

/-! ## Which versions come back -/

/-- **The text of a version is read as that version.**  For versions that were read, the numbers come
    back always, and all of the version does unless its text ends in a quote.  Versions made of
    numbers come back unless they are of release 1. -/
theorem text_reads_back (read : String) (v : JavaVersion) (major minor patch : UInt32) :
    (parse? read = some v →
      ∃ again, parse? v.text = some again ∧ again.major = v.major ∧ again.minor = v.minor ∧
        again.patch = v.patch ∧ again.isModular = v.isModular ∧
        (again = v ↔ v.text.toList.getLast? ≠ some '"')) ∧
      (parse? (ofComponents major.toNat minor.toNat patch.toNat).text =
          some (ofComponents major.toNat minor.toNat patch.toNat) ↔ major ≠ 1) := by
  refine ⟨fun h => ?_, ?_⟩
  · exact ⟨v.dropQuotes, parse?_text h, rfl, rfl, rfl, rfl, dropQuotes_eq_iff⟩
  · have hone : major ≠ 1 ↔ major.toNat ≠ 1 := not_congr UInt32.toNat_inj.symm
    rw [parse?_ofComponents major.toNat_lt minor.toNat_lt patch.toNat_lt, hone]
    by_cases h : major.toNat = 1
    · -- All numbers move one place, and the last of them becomes 0.
      rw [if_pos h, ofComponents, Option.some_inj, JavaVersion.mk.injEq]
      constructor
      · rintro ⟨hminor, hpatch, hzero, -⟩
        omega
      · exact fun hne => absurd h hne
    · rw [if_neg h]
      exact ⟨fun _ => h, fun _ => rfl⟩

/-- A quoted version of the older scheme, and one made of numbers. -/
theorem legacy_reads_back :
    parse? "\"1.8.0_292\"" = some ⟨8, 0, 292, "1.8.0_292"⟩ ∧
      parse? "1.8.0_292" = some ⟨8, 0, 292, "1.8.0_292"⟩ ∧
      (11 : UInt32) ≠ 1 ∧ parse? (ofComponents 11 0 2).text = some (ofComponents 11 0 2) := by
  have hread : parse? "\"1.8.0_292\"" = some ⟨8, 0, 292, "1.8.0_292"⟩ := by decide +kernel
  have hmodern : (11 : UInt32) ≠ 1 := by decide
  obtain ⟨hback, hnumbers⟩ := text_reads_back "\"1.8.0_292\"" ⟨8, 0, 292, "1.8.0_292"⟩ 11 0 2
  obtain ⟨again, hagain, -, -, -, -, hsame⟩ := hback hread
  obtain rfl := hsame.2 (by decide +kernel)
  exact ⟨hread, hagain, hmodern, hnumbers.2 hmodern⟩

/-- A version that was followed by something else in quotes loses the quote it kept; the numbers of
    one of release 1 are taken for those of another release, which may be one with modules. -/
theorem text_reads_other :
    parse? "17\" LTS" = some ⟨17, 0, 0, "17\""⟩ ∧ parse? "17\"" = some ⟨17, 0, 0, "17"⟩ ∧
      parse? (ofComponents 1 9 0).text = some ⟨9, 0, 0, "1.9.0"⟩ ∧
      (ofComponents 1 9 0).isModular = false ∧ (⟨9, 0, 0, "1.9.0"⟩ : JavaVersion).isModular = true := by
  decide +kernel

end JavaVersion

end KotlinHarness
