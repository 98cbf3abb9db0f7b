/-
  Laws of cutting text at a separator.

  A text without the separator is one piece, and the pieces of a text with a separator somewhere
  are those before it followed by those after it.  With these two laws the pieces of any text that
  is put together from parts are known, and so is their number (`length_splitOn_joinWith`).  A part
  of a text that the separator does not stand in lies within one piece (`exists_piece`), and what
  stands behind the last separator is the last piece (`afterLast_append_cons`).  White space at both
  ends is cut off as a whole (`trim_append`).
-/
import KotlinHarness.Text.Split
import Mathlib.Data.List.DropRight
import Mathlib.Data.List.Infix

namespace KotlinHarness.Text

variable {separator : Char}

theorem splitOn_cons_self (rest : List Char) :
    splitOn separator (separator :: rest) = [] :: splitOn separator rest := by
  simp [splitOn, splitWhere]

/-- A character in front of a text belongs to its first piece. -/
theorem splitOn_cons {c : Char} (hne : c ≠ separator) (rest : List Char) :
    ∃ piece pieces, splitOn separator rest = piece :: pieces ∧
      splitOn separator (c :: rest) = (c :: piece) :: pieces := by
  obtain ⟨piece, pieces, hrest⟩ :=
    List.exists_cons_of_ne_nil (splitWhere_ne_nil (· == separator) rest)
  refine ⟨piece, pieces, hrest, ?_⟩
  simp [splitOn, splitWhere, hne, hrest]

theorem splitOn_of_not_mem {text : List Char} (h : separator ∉ text) :
    splitOn separator text = [text] := by
  induction text with
  | nil => rfl
  | cons c rest ih =>
    have hc : c ≠ separator := fun hc => h (hc ▸ List.mem_cons_self)
    obtain ⟨piece, pieces, heq, hcons⟩ := splitOn_cons hc rest
    rw [ih fun hrest => h (List.mem_cons_of_mem _ hrest)] at heq
    cases heq
    exact hcons

/-- Cutting at a separator parts the pieces. -/
theorem splitOn_append_cons (before after : List Char) :
    splitOn separator (before ++ separator :: after) =
      splitOn separator before ++ splitOn separator after := by
  induction before with
  | nil => exact splitOn_cons_self after
  | cons c rest ih =>
    by_cases h : c = separator
    · subst h
      rw [List.cons_append, splitOn_cons_self, splitOn_cons_self, ih, List.cons_append]
    · obtain ⟨piece, pieces, heq, hcons⟩ := splitOn_cons h rest
      obtain ⟨piece', pieces', heq', hcons'⟩ := splitOn_cons h (rest ++ separator :: after)
      rw [List.cons_append, hcons', hcons]
      rw [ih, heq, List.cons_append] at heq'
      cases heq'
      rfl

/-- No piece has the separator in it. -/
theorem not_mem_of_mem_splitOn {text piece : List Char} (h : piece ∈ splitOn separator text) :
    separator ∉ piece := by
  induction text generalizing piece with
  | nil =>
    rw [List.mem_singleton.1 h]
    exact List.not_mem_nil
  | cons c rest ih =>
    by_cases hc : c = separator
    · subst hc
      rw [splitOn_cons_self] at h
      rcases List.mem_cons.1 h with rfl | h
      · exact List.not_mem_nil
      · exact ih h
    · obtain ⟨first, others, heq, hcons⟩ := splitOn_cons hc rest
      rw [hcons] at h
      rcases List.mem_cons.1 h with rfl | h
      · intro hm
        rcases List.mem_cons.1 hm with hm | hm
        · exact hc hm.symm
        · exact ih (heq ▸ List.mem_cons_self) hm
      · exact ih (heq ▸ List.mem_cons_of_mem _ h)

/-- What is in a piece is in the text. -/
theorem mem_of_mem_splitOn {text piece : List Char} {c : Char}
    (h : piece ∈ splitOn separator text) (hc : c ∈ piece) : c ∈ text := by
  induction text generalizing piece with
  | nil =>
    rw [List.mem_singleton.1 h] at hc
    exact hc
  | cons first rest ih =>
    by_cases hfirst : first = separator
    · subst hfirst
      rw [splitOn_cons_self] at h
      rcases List.mem_cons.1 h with rfl | h
      · exact absurd hc List.not_mem_nil
      · exact List.mem_cons_of_mem _ (ih h hc)
    · obtain ⟨head, others, heq, hcons⟩ := splitOn_cons hfirst rest
      rw [hcons] at h
      rcases List.mem_cons.1 h with rfl | h
      · rcases List.mem_cons.1 hc with rfl | hc
        · exact List.mem_cons_self
        · exact List.mem_cons_of_mem _ (ih (heq ▸ List.mem_cons_self) hc)
      · exact List.mem_cons_of_mem _ (ih (heq ▸ List.mem_cons_of_mem _ h) hc)

/-- The last piece of a text that does not end in a separator is not empty. -/
theorem splitOn_getLast {text : List Char} (hne : text ≠ [])
    (hlast : text.getLast? ≠ some separator) :
    ∃ before piece, splitOn separator text = before ++ [piece] ∧ piece ≠ [] := by
  induction text with
  | nil => exact absurd rfl hne
  | cons c rest ih =>
    by_cases hrest : rest = []
    · subst hrest
      have hc : c ≠ separator := fun h => hlast (by rw [h]; rfl)
      refine ⟨[], [c], ?_, by simp⟩
      rw [splitOn_of_not_mem fun h => hc (List.mem_singleton.1 h).symm, List.nil_append]
    · have hlast' : rest.getLast? ≠ some separator := by
        intro h
        rw [List.getLast?_cons, h] at hlast
        exact hlast rfl
      obtain ⟨before, piece, heq, hpiece⟩ := ih hrest hlast'
      by_cases hc : c = separator
      · subst hc
        exact ⟨[] :: before, piece, by rw [splitOn_cons_self, heq, List.cons_append], hpiece⟩
      · obtain ⟨first, others, hfirst, hcons⟩ := splitOn_cons hc rest
        rw [heq] at hfirst
        cases before with
        | nil =>
          cases hfirst
          exact ⟨[], c :: piece, hcons, by simp⟩
        | cons second before =>
          cases hfirst
          exact ⟨(c :: first) :: before, piece, hcons, hpiece⟩

/-! ## Pieces put together -/

theorem joinWith_append {pieces others : List (List Char)} (hne : pieces ≠ []) (hne' : others ≠ []) :
    joinWith [separator] (pieces ++ others) =
      joinWith [separator] pieces ++ separator :: joinWith [separator] others := by
  induction pieces with
  | nil => exact absurd rfl hne
  | cons piece rest ih =>
    obtain ⟨other, others, rfl⟩ := List.exists_cons_of_ne_nil hne'
    cases rest with
    | nil => simp [joinWith]
    | cons next rest => simpa [joinWith] using ih (List.cons_ne_nil next rest)

/-- Pieces without the separator are found again when they are joined. -/
theorem splitOn_joinWith {pieces : List (List Char)} (hne : pieces ≠ [])
    (h : ∀ piece ∈ pieces, separator ∉ piece) :
    splitOn separator (joinWith [separator] pieces) = pieces := by
  induction pieces with
  | nil => exact absurd rfl hne
  | cons piece rest ih =>
    have hpiece := h piece List.mem_cons_self
    cases rest with
    | nil => exact splitOn_of_not_mem hpiece
    | cons next rest =>
      have hrest := ih (List.cons_ne_nil next rest) fun other hm => h other (List.mem_cons_of_mem _ hm)
      show splitOn separator (piece ++ [separator] ++ joinWith [separator] (next :: rest)) = _
      rw [List.append_assoc, List.singleton_append, splitOn_append_cons, hrest,
        splitOn_of_not_mem hpiece, List.singleton_append]

/-- There is one more piece than separators. -/
theorem length_splitOn (text : List Char) :
    (splitOn separator text).length = text.count separator + 1 := by
  induction text with
  | nil => rfl
  | cons c rest ih =>
    by_cases h : c = separator
    · subst h
      rw [splitOn_cons_self, List.length_cons, ih, List.count_cons_self]
    · obtain ⟨piece, pieces, heq, hcons⟩ := splitOn_cons h rest
      rw [heq] at ih
      rw [hcons, List.count_cons_of_ne h]
      exact ih

/-- Every separator within the pieces cuts one of them once more when they are joined and split. -/
theorem length_splitOn_joinWith {pieces : List (List Char)} (hne : pieces ≠ []) :
    (splitOn separator (joinWith [separator] pieces)).length =
      pieces.length + pieces.flatten.count separator := by
  induction pieces with
  | nil => exact absurd rfl hne
  | cons piece rest ih =>
    cases rest with
    | nil =>
      rw [show joinWith [separator] [piece] = piece from rfl, length_splitOn]
      simp [Nat.add_comm]
    | cons next rest =>
      have hjoined : joinWith [separator] (piece :: next :: rest) =
          piece ++ separator :: joinWith [separator] (next :: rest) := by
        simp [joinWith]
      rw [hjoined, splitOn_append_cons, List.length_append, ih (List.cons_ne_nil next rest),
        length_splitOn]
      simp only [List.length_cons, List.flatten_cons, List.count_append]
      omega

/-- Texts in one, with a separator between them. -/
theorem toList_intercalate (separator : String) (parts : List String) :
    (separator.intercalate parts).toList =
      joinWith separator.toList (parts.map String.toList) := by
  induction parts with
  | nil => rfl
  | cons part rest ih =>
    cases rest with
    | nil =>
      rw [String.intercalate_singleton]
      rfl
    | cons next rest =>
      rw [String.intercalate_cons_cons, String.toList_append, String.toList_append, ih]
      rfl

/-! ## Parts of a text -/

theorem occursIn_iff (part text : List Char) : occursIn part text = true ↔ part <:+: text := by
  induction text with
  | nil => simp [occursIn]
  | cons c rest ih => simp [occursIn, ih, List.infix_cons_iff]

/-- `text` is cut at the first occurrence of `part`: it starts at no place further left. -/
def IsCutAtFirst (part before after text : List Char) : Prop :=
  text = before ++ (part ++ after) ∧ ∀ n < before.length, ¬ part <+: text.drop n

section IsCutAtFirst

variable {part before after text : List Char} {c : Char}

/-- A first occurrence that is not at the start is the first one behind the first character. -/
theorem IsCutAtFirst.tail (h : IsCutAtFirst part (c :: before) after (c :: text)) :
    IsCutAtFirst part before after text ∧ ¬ part <+: c :: text := by
  obtain ⟨htext, hfirst⟩ := h
  refine ⟨⟨(List.cons.inj htext).2, fun n hn => ?_⟩, ?_⟩
  · exact hfirst (n + 1) (Nat.succ_lt_succ hn)
  · exact hfirst 0 (Nat.succ_pos _)

theorem IsCutAtFirst.cons (h : IsCutAtFirst part before after text) (free : ¬ part <+: c :: text) :
    IsCutAtFirst part (c :: before) after (c :: text) := by
  refine ⟨congrArg (c :: ·) h.1, fun n hn => ?_⟩
  cases n with
  | zero => exact free
  | succ n => exact h.2 n (Nat.lt_of_succ_lt_succ hn)

/-- What follows the first occurrence does not matter. -/
theorem IsCutAtFirst.withRest (h : IsCutAtFirst part before [] text) (rest : List Char) :
    IsCutAtFirst part before rest (text ++ rest) := by
  obtain ⟨rfl, hfirst⟩ := h
  rw [List.append_nil] at hfirst ⊢
  refine ⟨List.append_assoc _ _ _, fun n hn occurs => hfirst n hn ?_⟩
  rw [List.drop_append_of_le_length (by rw [List.length_append]; omega)] at occurs
  refine List.prefix_of_prefix_length_le occurs (List.prefix_append _ rest) ?_
  rw [List.length_drop, List.length_append]
  omega

theorem IsCutAtFirst.withoutRest (h : IsCutAtFirst part before after text) :
    IsCutAtFirst part before [] (before ++ part) := by
  obtain ⟨rfl, hfirst⟩ := h
  refine ⟨by rw [List.append_nil], fun n hn occurs => hfirst n hn (occurs.trans ?_)⟩
  rw [← List.append_assoc]
  exact (List.prefix_append _ after).drop n

theorem before?_eq_some_iff :
    before? part text = some before ↔ ∃ after, IsCutAtFirst part before after text := by
  induction text generalizing before with
  | nil =>
    rw [before?]
    constructor
    · intro h
      split at h
      · next hempty =>
        cases h
        exact ⟨[], by simpa using hempty, by simp⟩
      · cases h
    · rintro ⟨after, htext, -⟩
      simp [eq_comm] at htext
      simp [htext]
  | cons c rest ih =>
    rw [before?]
    by_cases hstarts : part <+: c :: rest
    · rw [if_pos (List.isPrefixOf_iff_prefix.2 hstarts)]
      constructor
      · rintro heq
        cases heq
        obtain ⟨after, hafter⟩ := hstarts
        exact ⟨after, hafter.symm, fun n hn => absurd hn (Nat.not_lt_zero n)⟩
      · rintro ⟨after, -, hfirst⟩
        rcases before with - | ⟨d, more⟩
        · rfl
        · exact absurd hstarts (hfirst 0 (Nat.succ_pos _))
    · rw [if_neg (by rwa [List.isPrefixOf_iff_prefix]), Option.map_eq_some_iff]
      constructor
      · rintro ⟨more, hmore, rfl⟩
        obtain ⟨after, hcut⟩ := ih.1 hmore
        exact ⟨after, hcut.cons hstarts⟩
      · rintro ⟨after, hcut⟩
        rcases before with - | ⟨d, more⟩
        · exact absurd ⟨after, hcut.1.symm⟩ hstarts
        · obtain rfl : c = d := (List.cons.inj hcut.1).1
          exact ⟨more, ih.2 ⟨after, hcut.tail.1⟩, rfl⟩

theorem before?_eq_none_iff : before? part text = none ↔ ¬ part <:+: text := by
  induction text with
  | nil => simp [before?]
  | cons c rest ih =>
    rw [before?, List.infix_cons_iff, ← List.isPrefixOf_iff_prefix, not_or, ← ih]
    split <;> simp [*]

end IsCutAtFirst

/-- A part without the separator lies on one side of it. -/
theorem infix_append_cons {part before after : List Char} (h : separator ∉ part) :
    part <:+: before ++ separator :: after ↔ part <:+: before ∨ part <:+: after := by
  constructor
  · rintro ⟨front, back, heq⟩
    rcases List.append_eq_append_iff.1 heq with ⟨gap, hbefore, -⟩ | ⟨gap, hfront, hback⟩
    · exact .inl ⟨front, gap, hbefore.symm⟩
    · rcases List.append_eq_append_iff.1 hfront with ⟨gap', -, hpart⟩ | ⟨gap', -, hgap⟩
      · -- The part begins in front of the separator, so it has to end there too.
        cases gap with
        | nil => exact .inl ⟨front, [], by rw [hfront, List.append_nil, List.append_nil]⟩
        | cons c gap =>
          obtain ⟨rfl, -⟩ := List.cons.inj hback
          exact absurd (hpart ▸ List.mem_append_right _ List.mem_cons_self) h
      · cases gap' with
        | nil =>
          cases gap with
          | nil => exact .inl ⟨front, [], by rw [hfront, List.append_nil, List.append_nil]⟩
          | cons c gap =>
            obtain ⟨rfl, -⟩ := List.cons.inj hback
            have hpart : separator :: gap = part := hgap
            exact absurd (hpart ▸ List.mem_cons_self) h
        | cons c' gap' =>
          rw [hgap] at hback
          obtain ⟨-, rfl⟩ := List.cons.inj hback
          exact .inr ⟨gap', back, rfl⟩
  · rintro (h | h)
    · exact h.trans (List.prefix_append _ _).isInfix
    · exact h.trans (List.suffix_append_of_suffix (List.suffix_cons _ _)).isInfix

/-- A part without the separator lies in one of the pieces. -/
theorem exists_piece {part text : List Char} (h : separator ∉ part) (occurs : part <:+: text) :
    ∃ piece ∈ splitOn separator text, part <:+: piece := by
  rw [← joinWith_splitOn separator text] at occurs
  obtain ⟨first, others, heq⟩ :=
    List.exists_cons_of_ne_nil (splitWhere_ne_nil (· == separator) text)
  rw [splitOn, heq] at occurs ⊢
  clear heq
  induction others generalizing first with
  | nil => exact ⟨first, List.mem_singleton_self first, occurs⟩
  | cons second others ih =>
    have occurs : part <:+: first ++ separator :: joinWith [separator] (second :: others) := by
      simpa [joinWith] using occurs
    rcases (infix_append_cons h).1 occurs with occurs | occurs
    · exact ⟨first, List.mem_cons_self, occurs⟩
    · obtain ⟨piece, hm, hpiece⟩ := ih second occurs
      exact ⟨piece, List.mem_cons_of_mem _ hm, hpiece⟩

/-- A part that does not end in a carriage return outlasts the removal of one. -/
theorem infix_dropReturn {part line : List Char} (h : '\r' ∉ part) (occurs : part <:+: line) :
    part <:+: dropReturn line := by
  rw [dropReturn]
  split
  · next hlast =>
    have hline : line = line.dropLast ++ '\r' :: [] := (List.dropLast_append_getLast? _ hlast).symm
    rw [hline] at occurs
    rcases (infix_append_cons h).1 occurs with occurs | occurs
    · exact occurs
    · exact List.infix_nil.1 occurs ▸ List.nil_infix
  · exact occurs

/-- A part within a line lies in one of the lines. -/
theorem exists_line {part text : List Char} (hne : part ≠ []) (hfeed : '\n' ∉ part)
    (hreturn : '\r' ∉ part) (occurs : part <:+: text) : ∃ line ∈ lines text, part <:+: line := by
  obtain ⟨piece, hm, hpiece⟩ := exists_piece hfeed occurs
  rw [lines]
  generalize splitOn '\n' text = pieces at hm
  induction pieces with
  | nil => exact absurd hm List.not_mem_nil
  | cons first others ih =>
    cases others with
    | nil =>
      rw [List.mem_singleton.1 hm] at hpiece
      have hfirst : first ≠ [] := fun h => hne (List.infix_nil.1 (h ▸ hpiece))
      exact ⟨first, by simp [linesOfPieces, hfirst], hpiece⟩
    | cons second others =>
      rcases List.mem_cons.1 hm with rfl | hm
      · exact ⟨dropReturn piece, List.mem_cons_self, infix_dropReturn hreturn hpiece⟩
      · obtain ⟨line, hline, hin⟩ := ih hm
        exact ⟨line, List.mem_cons_of_mem _ hline, hin⟩

/-! ## What stands behind the last separator -/

theorem afterLast_of_not_mem {text : List Char} (h : separator ∉ text) :
    afterLast separator text = text := by
  refine List.rtakeWhile_eq_self_iff.2 fun c hc => ?_
  rw [bne_iff_ne]
  rintro rfl
  exact h hc

theorem afterLast_append_cons (front : List Char) {last : List Char} (h : separator ∉ last) :
    afterLast separator (front ++ separator :: last) = last := by
  induction last using List.reverseRecOn with
  | nil => exact List.rtakeWhile_concat_neg _ _ _ (by simp)
  | append_singleton last c ih =>
    obtain ⟨hlast, hc⟩ := not_or.1 (List.mem_append.not.1 h)
    have hne : (c != separator) = true := by
      rw [bne_iff_ne]
      rintro rfl
      exact hc (List.mem_singleton_self _)
    rw [← List.cons_append, ← List.append_assoc]
    refine (List.rtakeWhile_concat_pos _ _ c hne).trans ?_
    congr 1
    exact ih hlast

/-! ## White space at both ends -/

section Ends

variable {p : Char → Bool} {text front core back : List Char}

theorem dropEndWhile_eq_rdropWhile (p : Char → Bool) (text : List Char) :
    dropEndWhile p text = text.rdropWhile p := rfl

theorem dropEndWhile_of_none (h : ∀ c ∈ text, p c = false) : dropEndWhile p text = text := by
  rw [dropEndWhile_eq_rdropWhile, List.rdropWhile_eq_self_iff]
  intro hne
  simp [h _ (List.getLast_mem hne)]

/-- What is dropped from the end is of the class. -/
theorem exists_dropEndWhile (p : Char → Bool) (text : List Char) :
    ∃ dropped, text = dropEndWhile p text ++ dropped ∧ ∀ c ∈ dropped, p c = true := by
  refine ⟨text.rtakeWhile p, ?_, fun c hc => List.mem_rtakeWhile_imp hc⟩
  rw [dropEndWhile_eq_rdropWhile, List.rdropWhile, List.rtakeWhile, ← List.reverse_append,
    List.takeWhile_append_dropWhile, List.reverse_reverse]

theorem trim_of_none (h : ∀ c ∈ text, isSpace c = false) : trim text = text := by
  have hstart : trimStart text = text := by
    cases text with
    | nil => rfl
    | cons c rest => simp [trimStart, h c List.mem_cons_self]
  rw [trim, hstart, dropEndWhile_of_none h]

/-- What is trimmed off is white space at the ends. -/
theorem exists_trim (text : List Char) :
    ∃ front back, text = front ++ (trim text ++ back) ∧ (∀ c ∈ front, isSpace c = true) ∧
      ∀ c ∈ back, isSpace c = true := by
  obtain ⟨back, heq, hback⟩ := exists_dropEndWhile isSpace (trimStart text)
  refine ⟨text.takeWhile isSpace, back, ?_, List.all_eq_true.1 List.all_takeWhile, hback⟩
  rw [trim, ← heq, trimStart, List.takeWhile_append_dropWhile]

/-- White space around a text that neither starts nor ends with any is trimmed off. -/
theorem trim_append (hfront : ∀ c ∈ front, isSpace c = true) (hback : ∀ c ∈ back, isSpace c = true)
    (starts : ∀ c ∈ core.head?, isSpace c = false) (ends : ∀ c ∈ core.getLast?, isSpace c = false) :
    trim (front ++ (core ++ back)) = core := by
  rw [trim, trimStart, List.dropWhile_append_of_pos hfront]
  rcases List.eq_nil_or_concat core with rfl | ⟨more, last, rfl⟩
  · rw [List.nil_append, List.dropWhile_eq_nil_iff.2 hback]
    rfl
  · have hlast : ¬ isSpace last = true := by simp [ends last (by simp)]
    have hstart : (more.concat last ++ back).dropWhile isSpace = more.concat last ++ back := by
      obtain ⟨c, rest, hcore⟩ := List.exists_cons_of_ne_nil (l := more.concat last) (by simp)
      have hc : ¬ isSpace c = true := by simp [starts c (by rw [hcore]; rfl)]
      rw [hcore, List.cons_append, List.dropWhile_cons_of_neg hc]
    rw [hstart, dropEndWhile, List.reverse_append,
      List.dropWhile_append_of_pos (fun c hc => hback c (List.mem_reverse.1 hc)),
      List.concat_eq_append, List.reverse_append, List.reverse_singleton, List.singleton_append,
      List.dropWhile_cons_of_neg hlast, List.reverse_cons, List.reverse_reverse]

end Ends

end KotlinHarness.Text
