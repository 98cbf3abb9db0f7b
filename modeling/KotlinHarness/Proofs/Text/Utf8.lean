/-
  Text that is encoded can be decoded again, and what was decoded encoded.

  The octets of a character are a leading one and up to three continuations, and `decodeStep` reads
  them back whatever follows (`decodeStep_encode`).  The other way round, a character that was read
  has the octets it was read from (`encode_of_decodeStep`), as no overlong form is read.  The
  comparisons of octets are taken to numbers first; what remains is arithmetic on the code point.
  Text appended to any octets whatever leaves them as they read (`decodeLossy_append_encode`).
-/
import KotlinHarness.Text.Utf8

namespace KotlinHarness.Text

/-! ## Octets as numbers -/

theorem isContinuation_iff (b : UInt8) :
    isContinuation b = true ↔ 0x80 ≤ b.toNat ∧ b.toNat ≤ 0xBF := by
  simp [isContinuation, UInt8.le_iff_toNat_le]

/-- An octet after the leading one, from its six bits. -/
def continuation (n : Nat) : UInt8 := UInt8.ofNat (n % 64 + 0x80)

@[simp] theorem toNat_continuation (n : Nat) : (continuation n).toNat = n % 64 + 0x80 := by
  rw [continuation, UInt8.toNat_ofNat_of_lt' (show n % 64 + 0x80 < UInt8.size by
    have : UInt8.size = 256 := rfl
    omega)]

@[simp] theorem isContinuation_continuation (n : Nat) :
    isContinuation (continuation n) = true := by
  rw [isContinuation_iff, toNat_continuation]
  omega

@[simp] theorem payload_continuation (n : Nat) : payload (continuation n) = n % 64 := by
  rw [payload, toNat_continuation]
  omega

/-- The second octet is right when the leading one is not at the edge of its range, or the payload
    is on the right side of it. -/
theorem maySecond_continuation {first : UInt8} {n : Nat}
    (he0 : first.toNat = 0xE0 → 0x20 ≤ n % 64) (hed : first.toNat = 0xED → n % 64 < 0x20)
    (hf0 : first.toNat = 0xF0 → 0x10 ≤ n % 64) (hf4 : first.toNat = 0xF4 → n % 64 < 0x10) :
    maySecond first (continuation n) = true := by
  have number : ∀ {edge : UInt8}, (first == edge) = true → first.toNat = edge.toNat := fun h =>
    congrArg UInt8.toNat (beq_iff_eq.1 h)
  unfold maySecond
  split
  · next h =>
    have := he0 (number h)
    simp [UInt8.le_iff_toNat_le]
    omega
  · split
    · next h =>
      have := hed (number h)
      simp [UInt8.le_iff_toNat_le]
      omega
    · split
      · next h =>
        have := hf0 (number h)
        simp [UInt8.le_iff_toNat_le]
        omega
      · split
        · next h =>
          have := hf4 (number h)
          simp [UInt8.le_iff_toNat_le]
          omega
        · exact isContinuation_continuation n

/-! ## One character -/

/-- One octet. -/
theorem decodeStep_one {n : Nat} (high : n ≤ 0x7F) (rest : Bytes) :
    decodeStep (UInt8.ofNat n) rest = (some (Char.ofNat n), 0) := by
  have hnumber : (UInt8.ofNat n).toNat = n := by
    rw [UInt8.toNat_ofNat']
    omega
  have hlt : UInt8.ofNat n < 0x80 := by
    rw [UInt8.lt_iff_toNat_lt, hnumber]
    exact Nat.lt_succ_of_le high
  simp only [decodeStep, if_pos hlt, hnumber]

/-- Two octets. -/
theorem decodeStep_two {n : Nat} (low : 0x7F < n) (high : n ≤ 0x7FF) (rest : Bytes) :
    decodeStep (UInt8.ofNat (n / 64 % 0x20 + 0xC0)) (continuation n :: rest) =
      (some (Char.ofNat n), 1) := by
  generalize hfirst : UInt8.ofNat (n / 64 % 0x20 + 0xC0) = first
  have hnumber : first.toNat = n / 64 + 0xC0 := by
    rw [← hfirst, UInt8.toNat_ofNat']
    omega
  have h₁ : ¬ first < 0x80 := by
    simp [UInt8.lt_iff_toNat_lt, hnumber]
  have h₂ : (0xC2 ≤ first && first ≤ 0xDF) = true := by
    simp [UInt8.le_iff_toNat_le, hnumber]
    omega
  have hchar : first.toNat % 32 * 64 + payload (continuation n) = n := by
    rw [payload_continuation, hnumber]
    omega
  simp only [decodeStep, if_neg h₁, if_pos h₂, isContinuation_continuation, if_true, hchar]

/-- Three octets. -/
theorem decodeStep_three {n : Nat} (low : 0x7FF < n) (high : n ≤ 0xFFFF)
    (valid : n < 0xD800 ∨ 0xDFFF < n) (rest : Bytes) :
    decodeStep (UInt8.ofNat (n / 4096 % 0x10 + 0xE0))
      (continuation (n / 64) :: continuation n :: rest) = (some (Char.ofNat n), 2) := by
  generalize hfirst : UInt8.ofNat (n / 4096 % 0x10 + 0xE0) = first
  have hnumber : first.toNat = n / 4096 + 0xE0 := by
    rw [← hfirst, UInt8.toNat_ofNat']
    omega
  have h₁ : ¬ first < 0x80 := by
    simp [UInt8.lt_iff_toNat_lt, hnumber]
  have h₂ : ¬ (0xC2 ≤ first && first ≤ 0xDF) = true := by
    simp [UInt8.le_iff_toNat_le, hnumber]
  have h₃ : (0xE0 ≤ first && first ≤ 0xEF) = true := by
    simp [UInt8.le_iff_toNat_le, hnumber]
    omega
  have hsecond : maySecond first (continuation (n / 64)) = true := by
    refine maySecond_continuation ?_ ?_ ?_ ?_ <;> rw [hnumber] <;> omega
  have hchar : (first.toNat % 16 * 64 + payload (continuation (n / 64))) * 64
      + payload (continuation n) = n := by
    rw [payload_continuation, payload_continuation, hnumber]
    omega
  simp only [decodeStep, if_neg h₁, if_neg h₂, if_pos h₃, hsecond, isContinuation_continuation,
    if_true, hchar]

/-- Four octets. -/
theorem decodeStep_four {n : Nat} (low : 0xFFFF < n) (high : n < 0x110000) (rest : Bytes) :
    decodeStep (UInt8.ofNat (n / 262144 % 0x08 + 0xF0))
      (continuation (n / 4096) :: continuation (n / 64) :: continuation n :: rest) =
        (some (Char.ofNat n), 3) := by
  generalize hfirst : UInt8.ofNat (n / 262144 % 0x08 + 0xF0) = first
  have hnumber : first.toNat = n / 262144 + 0xF0 := by
    rw [← hfirst, UInt8.toNat_ofNat']
    omega
  have h₁ : ¬ first < 0x80 := by
    simp [UInt8.lt_iff_toNat_lt, hnumber]
  have h₂ : ¬ (0xC2 ≤ first && first ≤ 0xDF) = true := by
    simp [UInt8.le_iff_toNat_le, hnumber]
  have h₃ : ¬ (0xE0 ≤ first && first ≤ 0xEF) = true := by
    simp [UInt8.le_iff_toNat_le, hnumber]
  have h₄ : (0xF0 ≤ first && first ≤ 0xF4) = true := by
    simp [UInt8.le_iff_toNat_le, hnumber]
    omega
  have hsecond : maySecond first (continuation (n / 4096)) = true := by
    refine maySecond_continuation ?_ ?_ ?_ ?_ <;> rw [hnumber] <;> omega
  have hchar : ((first.toNat % 8 * 64 + payload (continuation (n / 4096))) * 64
      + payload (continuation (n / 64))) * 64 + payload (continuation n) = n := by
    rw [payload_continuation, payload_continuation, payload_continuation, hnumber]
    omega
  simp only [decodeStep, if_neg h₁, if_neg h₂, if_neg h₃, if_pos h₄, hsecond,
    isContinuation_continuation, if_true, hchar]

/-- The octets of a character are read back, whatever follows. -/
theorem decodeStep_encode (c : Char) (rest : Bytes) :
    ∃ first tail, String.utf8EncodeChar c = first :: tail ∧
      decodeStep first (tail ++ rest) = (some c, tail.length) := by
  have valid : c.val.toNat < 0xD800 ∨ 0xDFFF < c.val.toNat ∧ c.val.toNat < 0x110000 := c.valid
  have hchar : Char.ofNat c.val.toNat = c := Char.ofNat_toNat c
  rw [String.utf8EncodeChar]
  generalize c.val.toNat = n at valid hchar
  subst hchar
  show ∃ first tail, (if n ≤ 0x7F then _ else if n ≤ 0x7FF then _ else if n ≤ 0xFFFF then _ else _)
    = first :: tail ∧ _
  split
  · next h => exact ⟨_, _, rfl, decodeStep_one h rest⟩
  · split
    · exact ⟨_, _, rfl, decodeStep_two (by omega) (by omega) rest⟩
    · split
      · exact ⟨_, _, rfl, decodeStep_three (by omega) (by omega) (by omega) rest⟩
      · exact ⟨_, _, rfl, decodeStep_four (by omega) (by omega) rest⟩

/-! ## Whole texts -/

/-- Octets that belong to a character read before are passed over. -/
theorem decodeFrom_append (passed rest : Bytes) :
    decodeFrom passed.length (passed ++ rest) = decodeFrom 0 rest := by
  induction passed with
  | nil => rfl
  | cons first others ih => exact ih

theorem decodeFrom_encode (chars : List Char) :
    decodeFrom 0 (chars.flatMap String.utf8EncodeChar) = chars.map some := by
  induction chars with
  | nil => rfl
  | cons c others ih =>
    obtain ⟨first, tail, heq, hstep⟩ :=
      decodeStep_encode c (others.flatMap String.utf8EncodeChar)
    rw [List.flatMap_cons, heq, List.cons_append, decodeFrom, hstep, List.map_cons]
    simp only [decodeFrom_append, ih]

/-- **Encoded text is decoded to itself.** -/
theorem decode?_encode (text : String) : decode? (encode text) = some text := by
  have hall : (text.toList.map some).mapM id = some text.toList := by
    induction text.toList with
    | nil => rfl
    | cons c others ih => simp [List.mapM_cons, ih]
  rw [decode?, encode, decodeFrom_encode, hall, Option.map_some, String.ofList_toList]

/-! ## Octets that were decoded -/

theorem maySecond_iff (first b : UInt8) :
    maySecond first b = true ↔
      (first.toNat = 0xE0 → 0xA0 ≤ b.toNat) ∧ (first.toNat = 0xED → b.toNat ≤ 0x9F) ∧
      (first.toNat = 0xF0 → 0x90 ≤ b.toNat) ∧ (first.toNat = 0xF4 → b.toNat ≤ 0x8F) ∧
      0x80 ≤ b.toNat ∧ b.toNat ≤ 0xBF := by
  simp only [maySecond, beq_iff_eq, ← UInt8.toNat_inj, isContinuation, UInt8.le_iff_toNat_le]
  repeat' split
  all_goals simp_all
  all_goals omega

theorem ofNat_eq {b : UInt8} {n : Nat} (h : n = b.toNat) : UInt8.ofNat n = b := by
  rw [h, UInt8.ofNat_toNat]

theorem continuation_eq {b : UInt8} {n : Nat} (h : n % 64 + 0x80 = b.toNat) : continuation n = b :=
  ofNat_eq h

/-- The octets of a character, given by its code point. -/
theorem utf8EncodeChar_ofNat {n : Nat} (valid : n.isValidChar) :
    String.utf8EncodeChar (Char.ofNat n) =
      if n ≤ 0x7F then [UInt8.ofNat n]
      else if n ≤ 0x7FF then [UInt8.ofNat (n / 64 % 0x20 + 0xC0), continuation n]
      else if n ≤ 0xFFFF then
        [UInt8.ofNat (n / 4096 % 0x10 + 0xE0), continuation (n / 64), continuation n]
      else
        [UInt8.ofNat (n / 262144 % 0x08 + 0xF0), continuation (n / 4096), continuation (n / 64),
          continuation n] := by
  have hval : (Char.ofNat n).val.toNat = n := by
    rw [Char.ofNat, dif_pos valid]
    rfl
  rw [String.utf8EncodeChar, hval]
  rfl

theorem encode_one {first : UInt8} (hfirst : first.toNat < 0x80) :
    String.utf8EncodeChar (Char.ofNat first.toNat) = [first] := by
  have valid : first.toNat.isValidChar := Or.inl (by omega)
  rw [utf8EncodeChar_ofNat valid, if_pos (by omega), UInt8.ofNat_toNat]

theorem encode_two {first b : UInt8} (hfirst : 0xC2 ≤ first.toNat ∧ first.toNat ≤ 0xDF)
    (hb : isContinuation b = true) :
    String.utf8EncodeChar (Char.ofNat (first.toNat % 32 * 64 + payload b)) = [first, b] := by
  rw [isContinuation_iff] at hb
  generalize hn : first.toNat % 32 * 64 + payload b = n
  rw [payload] at hn
  have valid : n.isValidChar := Or.inl (by omega)
  rw [utf8EncodeChar_ofNat valid, if_neg (by omega), if_pos (by omega),
    ofNat_eq (b := first) (by omega), continuation_eq (b := b) (by omega)]

theorem encode_three {first b c : UInt8} (hfirst : 0xE0 ≤ first.toNat ∧ first.toNat ≤ 0xEF)
    (hb : maySecond first b = true) (hc : isContinuation c = true) :
    String.utf8EncodeChar
      (Char.ofNat ((first.toNat % 16 * 64 + payload b) * 64 + payload c)) = [first, b, c] := by
  rw [maySecond_iff] at hb
  rw [isContinuation_iff] at hc
  generalize hn : (first.toNat % 16 * 64 + payload b) * 64 + payload c = n
  rw [payload, payload] at hn
  have valid : n.isValidChar := by
    rw [Nat.isValidChar]
    omega
  rw [utf8EncodeChar_ofNat valid, if_neg (by omega), if_neg (by omega), if_pos (by omega),
    ofNat_eq (b := first) (by omega), continuation_eq (b := b) (by omega),
    continuation_eq (b := c) (by omega)]

theorem encode_four {first b c d : UInt8} (hfirst : 0xF0 ≤ first.toNat ∧ first.toNat ≤ 0xF4)
    (hb : maySecond first b = true) (hc : isContinuation c = true)
    (hd : isContinuation d = true) :
    String.utf8EncodeChar (Char.ofNat (((first.toNat % 8 * 64 + payload b) * 64 + payload c) * 64
      + payload d)) = [first, b, c, d] := by
  rw [maySecond_iff] at hb
  rw [isContinuation_iff] at hc hd
  generalize hn : ((first.toNat % 8 * 64 + payload b) * 64 + payload c) * 64 + payload d = n
  rw [payload, payload, payload] at hn
  have valid : n.isValidChar := by
    rw [Nat.isValidChar]
    omega
  rw [utf8EncodeChar_ofNat valid, if_neg (by omega), if_neg (by omega), if_neg (by omega),
    ofNat_eq (b := first) (by omega), continuation_eq (b := b) (by omega),
    continuation_eq (b := c) (by omega), continuation_eq (b := d) (by omega)]

/-- A character that was read has the octets it was read from. -/
theorem encode_of_decodeStep {first : UInt8} {rest : Bytes} {c : Char} {used : Nat}
    (h : decodeStep first rest = (some c, used)) :
    ∃ tail others, rest = tail ++ others ∧ tail.length = used ∧
      String.utf8EncodeChar c = first :: tail := by
  unfold decodeStep at h
  split at h
  · next hfirst =>
    cases h
    exact ⟨[], rest, rfl, rfl, encode_one (by simpa [UInt8.lt_iff_toNat_lt] using hfirst)⟩
  · split at h
    · next hfirst =>
      simp only [Bool.and_eq_true, decide_eq_true_eq, UInt8.le_iff_toNat_le] at hfirst
      split at h
      · next b rest =>
        split at h
        · next hb =>
          cases h
          exact ⟨[b], rest, rfl, rfl, encode_two hfirst hb⟩
        · cases h
      · cases h
    · split at h
      · next hfirst =>
        simp only [Bool.and_eq_true, decide_eq_true_eq, UInt8.le_iff_toNat_le] at hfirst
        split at h
        · next b c rest =>
          split at h
          · next hb =>
            split at h
            · next hc =>
              cases h
              exact ⟨[b, c], rest, rfl, rfl, encode_three hfirst hb hc⟩
            · cases h
          · cases h
        · split at h <;> cases h
        · cases h
      · split at h
        · next hfirst =>
          simp only [Bool.and_eq_true, decide_eq_true_eq, UInt8.le_iff_toNat_le] at hfirst
          split at h
          · next b c d rest =>
            split at h
            · next hb =>
              split at h
              · next hc =>
                split at h
                · next hd =>
                  cases h
                  exact ⟨[b, c, d], rest, rfl, rfl, encode_four hfirst hb hc hd⟩
                · cases h
              · cases h
            · cases h
          · split at h
            · split at h <;> cases h
            · cases h
          · split at h <;> cases h
          · cases h
        · cases h

theorem encode_of_decodeFrom {chars : List Char} {bytes : Bytes}
    (h : decodeFrom 0 bytes = chars.map some) :
    chars.flatMap String.utf8EncodeChar = bytes := by
  induction chars generalizing bytes with
  | nil =>
    cases bytes with
    | nil => rfl
    | cons first rest => cases h
  | cons c others ih =>
    cases bytes with
    | nil => cases h
    | cons first rest =>
      rw [decodeFrom, List.map_cons] at h
      rcases hstep : decodeStep first rest with ⟨part, used⟩
      rw [hstep] at h
      obtain ⟨rfl, hothers⟩ := List.cons.inj h
      obtain ⟨tail, remaining, rfl, rfl, hoctets⟩ := encode_of_decodeStep hstep
      rw [decodeFrom_append] at hothers
      rw [List.flatMap_cons, hoctets, ih hothers]
      rfl

/-- **Decoding loses nothing**: a text that octets were decoded to is encoded by them. -/
theorem encode_of_decode? {bytes : Bytes} {text : String} (h : decode? bytes = some text) :
    encode text = bytes := by
  have hall : ∀ {parts : List (Option Char)} {chars : List Char},
      parts.mapM id = some chars → parts = chars.map some := by
    intro parts
    induction parts with
    | nil =>
      intro chars h
      cases h
      rfl
    | cons part rest ih =>
      intro chars h
      rw [List.mapM_cons] at h
      obtain ⟨c, hc, h⟩ := Option.bind_eq_some_iff.1 h
      obtain ⟨others, hothers, h⟩ := Option.bind_eq_some_iff.1 h
      cases h
      rw [List.map_cons, ← ih hothers, show part = some c from hc]
  rw [decode?, Option.map_eq_some_iff] at h
  obtain ⟨chars, hchars, rfl⟩ := h
  rw [encode, String.toList_ofList]
  exact encode_of_decodeFrom (hall hchars)

/-! ## Text after other octets -/

/-- The first octet of a character continues none. -/
theorem not_isContinuation_encode (c : Char) :
    ∃ first tail, String.utf8EncodeChar c = first :: tail ∧ isContinuation first = false := by
  have valid : c.val.toNat < 0xD800 ∨ 0xDFFF < c.val.toNat ∧ c.val.toNat < 0x110000 := c.valid
  rw [String.utf8EncodeChar]
  generalize c.val.toNat = n at valid
  have hfirst : ∀ {octet : Nat}, octet < 0x80 ∨ 0xBF < octet ∧ octet < 256 →
      isContinuation (UInt8.ofNat octet) = false := by
    intro octet h
    rw [Bool.eq_false_iff, ne_eq, isContinuation_iff,
      UInt8.toNat_ofNat_of_lt' (show octet < 256 by omega)]
    omega
  show ∃ first tail, (if n ≤ 0x7F then _ else if n ≤ 0x7FF then _ else if n ≤ 0xFFFF then _ else _)
    = first :: tail ∧ _
  repeat' split
  all_goals exact ⟨_, _, rfl, hfirst (by omega)⟩

/-- An octet that continues nothing ends whatever stands before it. -/
theorem decodeStep_append {first next : UInt8} {rest : Bytes} (h : isContinuation next = false)
    (others : Bytes) : decodeStep first (rest ++ next :: others) = decodeStep first rest := by
  have hmay : ∀ first, maySecond first next = false := by
    intro first
    rw [Bool.eq_false_iff, ne_eq, maySecond_iff]
    rw [Bool.eq_false_iff, ne_eq, isContinuation_iff] at h
    rintro ⟨-, -, -, -, hlow, hhigh⟩
    exact h ⟨hlow, hhigh⟩
  unfold decodeStep
  rcases rest with _ | ⟨b, _ | ⟨c, _ | ⟨d, rest⟩⟩⟩ <;> rcases others with _ | ⟨o, _ | ⟨p, others⟩⟩ <;>
    simp [h, hmay]

/-- The octets of a character are there. -/
theorem decodeStep_le (first : UInt8) (rest : Bytes) : (decodeStep first rest).2 ≤ rest.length := by
  unfold decodeStep
  repeat' split
  all_goals simp

theorem decodeFrom_append_encode {bytes : Bytes} {skip : Nat} (h : skip ≤ bytes.length)
    (chars : List Char) :
    decodeFrom skip (bytes ++ chars.flatMap String.utf8EncodeChar) =
      decodeFrom skip bytes ++ chars.map some := by
  induction bytes generalizing skip with
  | nil =>
    obtain rfl : skip = 0 := Nat.le_zero.1 h
    exact decodeFrom_encode chars
  | cons first rest ih =>
    cases skip with
    | succ skip => exact ih (Nat.le_of_succ_le_succ h)
    | zero =>
      have hstep : decodeStep first (rest ++ chars.flatMap String.utf8EncodeChar) =
          decodeStep first rest := by
        cases chars with
        | nil => rw [List.flatMap_nil, List.append_nil]
        | cons c others =>
          obtain ⟨next, tail, heq, hnext⟩ := not_isContinuation_encode c
          rw [List.flatMap_cons, heq, List.cons_append, decodeStep_append hnext]
      rw [List.cons_append, decodeFrom, decodeFrom, hstep]
      simp only [ih (decodeStep_le first rest), List.cons_append]

/-- A text that is appended does not change how the octets before it read. -/
theorem decodeLossy_append_encode (bytes : Bytes) (text : String) :
    decodeLossy (bytes ++ encode text) = decodeLossy bytes ++ text := by
  rw [decodeLossy, decodeLossy, encode, decodeFrom_append_encode (Nat.zero_le _), List.map_append,
    List.map_map, String.ofList_append]
  congr 1
  rw [show ((·.getD (Char.ofNat 0xFFFD)) ∘ some : Char → Char) = id from rfl, List.map_id,
    String.ofList_toList]

theorem encode_append (text other : String) : encode (text ++ other) = encode text ++ encode other := by
  rw [encode, String.toList_append, List.flatMap_append, ← encode, ← encode]

end KotlinHarness.Text
