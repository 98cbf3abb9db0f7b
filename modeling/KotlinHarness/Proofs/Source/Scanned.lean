/-
  What the scanners find in text that is put together from parts.

  A scanner takes the longest run it can, so where a run ends is told by the character behind it
  (`Stops`).  Where the first word is none that a declaration starts with, or no white space follows
  it, no declaration starts (`declaration?_plain`), and text of which that can be said everywhere is
  passed over (`PassedOver`).

    * `packageFrom_line`     a line without a package clause is passed over
    * `declarationsFrom_found`     the scan goes on behind a declaration that was found
    * `declarationHead?_keyword`   a keyword, white space and a name
-/
import KotlinHarness.Proofs.Source.Names

namespace KotlinHarness

/-! ## White space -/

namespace Text

/-- The code points of white space. -/
def spaceCodes : List Nat :=
  [9, 10, 11, 12, 13, 32, 0x85, 0xA0, 0x1680] ++ (List.range 11).map (0x2000 + ·) ++
    [0x2028, 0x2029, 0x202F, 0x205F, 0x3000]

theorem mem_spaceCodes {c : Char} (h : isSpace c = true) : c.toNat ∈ spaceCodes := by
  simp only [isSpace, Bool.or_eq_true, Bool.and_eq_true, decide_eq_true_eq, beq_iff_eq] at h
  have hrange : ∀ n, 0x2000 ≤ n → n ≤ 0x200A → n ∈ spaceCodes := by
    intro n hlow hhigh
    have hm : n - 0x2000 ∈ List.range 11 := List.mem_range.2 (by omega)
    refine List.mem_append_left _ (List.mem_append_right _ (List.mem_map.2 ⟨_, hm, ?_⟩))
    omega
  have hfew : ∀ n, 9 ≤ n → n ≤ 13 → n ∈ spaceCodes := by
    intro n hlow hhigh
    have hn : n = 9 ∨ n = 10 ∨ n = 11 ∨ n = 12 ∨ n = 13 := by omega
    rcases hn with rfl | rfl | rfl | rfl | rfl <;> decide
  generalize c.toNat = n at h
  rcases h with (((((((((h | h) | h) | h) | h) | h) | h) | h) | h) | h) | h
  · exact hfew n h.1 h.2
  all_goals first | (subst h; decide) | exact hrange n h.1 h.2

/-- No character is both white space and part of a word. -/
theorem isWord_of_isSpace {c : Char} (h : isSpace c = true) : isWord c = false := by
  have hall : ∀ n ∈ spaceCodes, isWord (Char.ofNat n) = false := by decide +kernel
  have hc := hall c.toNat (mem_spaceCodes h)
  rwa [Char.ofNat_toNat] at hc

theorem isSpace_of_isWord {c : Char} (h : isWord c = true) : isSpace c = false := by
  rw [← Bool.not_eq_true]
  intro hspace
  rw [isWord_of_isSpace hspace] at h
  cases h

theorem isSpace_of_isDotted {c : Char} (h : isDotted c = true) : isSpace c = false := by
  rw [isDotted, Bool.or_eq_true, beq_iff_eq] at h
  rcases h with h | rfl
  · exact isSpace_of_isWord h
  · decide

end Text

namespace Source

open Text

variable {p : Char → Bool} {text rest more name word space : List Char} {before : Option Char}
  {c : Char}

/-! ## Runs -/

/-- A text does not go on with a character of a class. -/
def Stops (p : Char → Bool) (text : List Char) : Prop := ∀ c ∈ text.head?, p c = false

theorem stops_cons : Stops p (c :: rest) ↔ p c = false :=
  ⟨fun h => h c rfl, fun h d hm => by cases hm; exact h⟩

theorem IsRun.stops {q : Char → Bool} (run : IsRun p name)
    (apart : ∀ c, p c = true → q c = false) : Stops q (name ++ rest) := by
  obtain ⟨c, more, rfl⟩ := List.exists_cons_of_ne_nil run.1
  exact stops_cons.2 (apart c (run.2 c List.mem_cons_self))

theorem isRun_singleton (h : p c = true) : IsRun p [c] :=
  ⟨List.cons_ne_nil _ _, fun _ hm => by rwa [List.mem_singleton.1 hm]⟩

theorem Stops.takeWhile (h : Stops p text) : text.takeWhile p = [] ∧ text.dropWhile p = text := by
  rcases text with - | ⟨c, rest⟩
  · exact ⟨rfl, rfl⟩
  · have hc : ¬ p c = true := by simp [stops_cons.1 h]
    exact ⟨List.takeWhile_cons_of_neg hc, List.dropWhile_cons_of_neg hc⟩

theorem takeWhile_append (hall : ∀ c ∈ name, p c = true) (stops : Stops p rest) :
    (name ++ rest).takeWhile p = name ∧ (name ++ rest).dropWhile p = rest := by
  rw [List.takeWhile_append_of_pos hall, List.dropWhile_append_of_pos hall, stops.takeWhile.1,
    stops.takeWhile.2]
  exact ⟨List.append_nil _, rfl⟩

theorem run?_append (run : IsRun p name) (stops : Stops p rest) :
    run? p (name ++ rest) = some (name, rest) := by
  have hne : name.isEmpty = false := by simpa using run.1
  simp only [run?, (takeWhile_append run.2 stops).1, hne, Bool.false_eq_true, if_false,
    List.drop_left]

theorem run?_stops (stops : Stops p text) : run? p text = none := by
  simp only [run?, stops.takeWhile.1, List.isEmpty_nil, if_true]

theorem trimStart_stops (stops : Stops isSpace text) : trimStart text = text :=
  stops.takeWhile.2

theorem spaces?_cons (h : isSpace c = true) (stops : Stops isSpace rest) :
    spaces? (c :: rest) = some rest := by
  rw [spaces?, if_pos h, trimStart_stops stops]

theorem spaces?_append (blank : IsRun isSpace space) (stops : Stops isSpace rest) :
    spaces? (space ++ rest) = some rest := by
  obtain ⟨c, more, rfl⟩ := List.exists_cons_of_ne_nil blank.1
  have hmore : (more ++ rest).dropWhile isSpace = rest :=
    (takeWhile_append (fun d hd => blank.2 d (List.mem_cons_of_mem c hd)) stops).2
  rw [List.cons_append, spaces?, if_pos (blank.2 c List.mem_cons_self), trimStart, hmore]

theorem spaces?_stops (stops : Stops isSpace text) : spaces? text = none := by
  rcases text with - | ⟨c, rest⟩
  · rfl
  · rw [spaces?, if_neg (by simp [stops_cons.1 stops])]

/-! ## Text without declarations -/

/-- The words that a declaration may start with. -/
def reservedWords : List String := modifierWords ++ Keyword.words.map Keyword.text

theorem isRun_of_mem_reservedWords {reserved : String} (h : reserved ∈ reservedWords) :
    IsRun isWord reserved.toList := by
  have hall : ∀ reserved ∈ reservedWords,
      reserved.toList ≠ [] ∧ reserved.toList.all isWord = true := by decide
  exact (hall reserved h).imp_right List.all_eq_true.1

/-- No declaration starts with the first word of a text. -/
structure Plain (text : List Char) : Prop where
  unmarked : text.head? ≠ some '@'
  word : String.ofList (text.takeWhile isWord) ∉ reservedWords ∨
    Stops isSpace (text.dropWhile isWord)

/-- A text that starts with a character of no word and no annotation. -/
theorem plain_cons (h : isWord c = false) (unmarked : c ≠ '@') : Plain (c :: rest) := by
  refine ⟨by simpa using unmarked, .inl ?_⟩
  rw [List.takeWhile_cons_of_neg (by simp [h])]
  decide

theorem Plain.spaces? (plain : Plain text) {reserved : String} (h : reserved ∈ reservedWords)
    (hfound : reserved.toList.isPrefixOf? text = some rest) : Source.spaces? rest = none := by
  have htext : reserved.toList ++ rest = text := List.isPrefixOf?_eq_some_iff_append_eq.1 hfound
  by_cases stops : Stops isSpace rest
  · exact spaces?_stops stops
  · -- White space ends the word, which is the reserved one then.
    exfalso
    have hrest : Stops isWord rest := by
      intro c hc
      rcases hspace : isSpace c with _ | _
      · refine absurd (fun d hd => ?_) stops
        rw [Option.mem_unique hd hc]
        exact hspace
      · exact isWord_of_isSpace hspace
    obtain ⟨htaken, hdropped⟩ := takeWhile_append (isRun_of_mem_reservedWords h).2 hrest
    rw [htext] at htaken hdropped
    rcases plain.word with hword | hword
    · rw [htaken, String.ofList_toList] at hword
      exact hword h
    · rw [hdropped] at hword
      exact stops hword

theorem modifierItem?_plain (plain : Plain text) : modifierItem? text = none := by
  rw [modifierItem?, List.findSome?_eq_none_iff]
  intro word hm
  rcases hfound : word.toList.isPrefixOf? text with - | rest
  · rfl
  · rw [Option.bind_some]
    exact plain.spaces? (List.mem_append_left _ hm) hfound

theorem isPrefixOf?_marked (unmarked : text.head? ≠ some '@') {mark : List Char} :
    ('@' :: mark).isPrefixOf? text = none := by
  rcases text with - | ⟨c, rest⟩
  · rfl
  · have hc : ('@' == c) = false := by
      rw [beq_eq_false_iff_ne]
      rintro rfl
      exact unmarked rfl
    rw [List.isPrefixOf?, hc]
    rfl

theorem declarationHead?_plain (plain : Plain text) (mayStart : Bool) :
    declarationHead? mayStart text = none := by
  simp only [declarationHead?]
  rw [List.findSome?_eq_none_iff]
  intro keyword hm
  have hkeyword : keyword ∈ Keyword.words ∨ keyword = .annotationType := by
    split at hm
    · exact (List.mem_append.1 hm).imp_right List.mem_singleton.1
    · exact .inr (List.mem_singleton.1 hm)
  rcases hkeyword with hword | rfl
  · rcases hfound : keyword.text.toList.isPrefixOf? text with - | rest
    · rfl
    · have hspaces := plain.spaces?
        (List.mem_append_right modifierWords (List.mem_map_of_mem hword)) hfound
      simp only [Option.bind_eq_bind, Option.bind_some, hspaces, Option.bind_none]
  · have hnone : Keyword.annotationType.text.toList.isPrefixOf? text = none :=
      isPrefixOf?_marked plain.unmarked
    rw [hnone]
    rfl

theorem annotationItem?_unmarked (unmarked : text.head? ≠ some '@') :
    annotationItem? text = none := by
  rw [annotationItem?, isPrefixOf?_marked unmarked]
  rfl

theorem afterItems_none {item? : List Char → Option (List Char)} (h : item? text = none)
    (budget : List Char) : afterItems item? budget text = [] := by
  cases budget with
  | nil => rfl
  | cons _ _ => rw [afterItems, h]

/-- What comes after items comes after the first one, or after more of them behind it. -/
theorem mem_afterItems {item? : List Char → Option (List Char)} {budget : List Char}
    (h : rest ∈ afterItems item? budget text) :
    ∃ next fewer, item? text = some next ∧ (rest = next ∨ rest ∈ afterItems item? fewer next) := by
  rcases budget with - | ⟨_, fewer⟩
  · cases h
  · rw [afterItems] at h
    rcases hitem : item? text with - | next
    · rw [hitem] at h
      cases h
    · rw [hitem] at h
      refine ⟨next, fewer, rfl, ?_⟩
      rcases List.mem_append.1 h with hm | hm
      · exact .inr hm
      · exact .inl (List.mem_singleton.1 hm)

/-- No declaration starts a plain text. -/
theorem declaration?_plain (plain : Plain text) (before : Option Char) :
    declaration? before text = none := by
  have hafter : ∀ mayStart, declarationAfter? text text mayStart = none := by
    intro mayStart
    simp only [declarationAfter?, withItems, afterItems_none (modifierItem?_plain plain)]
    cases mayStart <;> simp [declarationHead?_plain plain]
  rw [declaration?, withItems, afterItems_none (annotationItem?_unmarked plain.unmarked)]
  simp [hafter]

/-- No declaration is found in a text, whatever precedes it: the scan goes on behind it. -/
def PassedOver (text rest : List Char) : Prop :=
  ∀ before, ∃ before', declarationsFrom before 0 (text ++ rest) = declarationsFrom before' 0 rest

theorem declarationsFrom_plain (plain : Plain (c :: rest)) (before : Option Char) :
    declarationsFrom before 0 (c :: rest) = declarationsFrom (some c) 0 rest := by
  rw [declarationsFrom, declaration?_plain plain]

theorem passedOver_nil : PassedOver [] rest := fun before => ⟨before, rfl⟩

theorem PassedOver.cons (h : PassedOver text rest) (plain : Plain (c :: (text ++ rest))) :
    PassedOver (c :: text) rest := by
  intro before
  rw [List.cons_append, declarationsFrom_plain plain]
  exact h (some c)

theorem passedOver_plain (h : ∀ c ∈ text, isWord c = false ∧ c ≠ '@') :
    PassedOver text rest := by
  induction text with
  | nil => exact passedOver_nil
  | cons c more ih =>
    obtain ⟨hc, hmore⟩ := List.forall_mem_cons.1 h
    exact (ih hmore).cons (plain_cons hc.1 hc.2)

theorem PassedOver.append (h : PassedOver text (more ++ rest)) (h' : PassedOver more rest) :
    PassedOver (text ++ more) rest := by
  intro before
  obtain ⟨middle, hfirst⟩ := h before
  rw [List.append_assoc, hfirst]
  exact h' middle

/-- What belongs to the declaration that was found last is skipped. -/
theorem declarationsFrom_skip (text rest : List Char) (before : Option Char) :
    ∃ before', declarationsFrom before text.length (text ++ rest) =
      declarationsFrom before' 0 rest := by
  induction text generalizing before with
  | nil => exact ⟨before, rfl⟩
  | cons c more ih => exact ih (some c)

/-- The scan goes on behind the declaration that was found. -/
theorem declarationsFrom_found {found : Declaration} (hne : text ≠ [])
    (h : declaration? before (text ++ rest) = some (found, rest)) :
    ∃ before', declarationsFrom before 0 (text ++ rest) =
      found :: declarationsFrom before' 0 rest := by
  obtain ⟨c, more, rfl⟩ := List.exists_cons_of_ne_nil hne
  obtain ⟨before', hskip⟩ := declarationsFrom_skip more rest (some c)
  refine ⟨before', ?_⟩
  rw [List.cons_append] at h ⊢
  rw [declarationsFrom, h]
  simp only
  rw [List.length_append, Nat.add_sub_cancel, hskip]

theorem passedOver_word (hall : ∀ c ∈ word, isWord c = true)
    (free : ∀ part, part <:+ word → String.ofList part ∉ reservedWords)
    (stops : Stops isWord rest) : PassedOver word rest := by
  induction word with
  | nil => exact passedOver_nil
  | cons c more ih =>
    have hc : c ≠ '@' := by
      rintro rfl
      have hat := hall '@' List.mem_cons_self
      revert hat
      decide
    have hmore := ih (fun d hd => hall d (List.mem_cons_of_mem _ hd))
      fun part hpart => free part (hpart.trans (List.suffix_cons c more))
    refine hmore.cons ⟨by simpa using hc, .inl ?_⟩
    rw [← List.cons_append, (takeWhile_append hall stops).1]
    exact free _ (List.suffix_refl _)

/-- What follows the first word of a dotted name is a dot, or the end of the name. -/
theorem stops_dropWhile_dotted (hall : ∀ c ∈ name, isDotted c = true) (stops : Stops isSpace rest)
    (hrest : Stops isWord rest) : Stops isSpace ((name ++ rest).dropWhile isWord) := by
  induction name with
  | nil => rwa [List.nil_append, hrest.takeWhile.2]
  | cons c more ih =>
    rw [List.cons_append, List.dropWhile_cons]
    split
    · exact ih fun d hd => hall d (List.mem_cons_of_mem _ hd)
    · exact stops_cons.2 (isSpace_of_isDotted (hall c List.mem_cons_self))

theorem passedOver_dotted (hall : ∀ c ∈ name, isDotted c = true) (stops : Stops isSpace rest)
    (hrest : Stops isWord rest) : PassedOver name rest := by
  induction name with
  | nil => exact passedOver_nil
  | cons c more ih =>
    have hc : c ≠ '@' := by
      rintro rfl
      have hat := hall '@' List.mem_cons_self
      revert hat
      decide
    exact (ih fun d hd => hall d (List.mem_cons_of_mem _ hd)).cons
      ⟨by simpa using hc, .inr (stops_dropWhile_dotted hall stops hrest)⟩

/-! ## Package clauses -/

/-- The package clause of a text that starts with one. -/
theorem packageFrom_clause (run : IsRun isDotted name) (stops : Stops isDotted rest) :
    packageFrom true ("package".toList ++ ' ' :: (name ++ rest)) = some name := by
  have hstart : Stops isSpace ("package".toList ++ ' ' :: (name ++ rest)) := stops_cons.2 (by decide)
  have hname : Stops isSpace (name ++ rest) := run.stops fun _ => isSpace_of_isDotted
  have hclause : packageClause? ("package".toList ++ ' ' :: (name ++ rest)) = some name := by
    rw [packageClause?, trimStart_stops hstart,
      List.isPrefixOf?_eq_some_iff_append_eq.2 (Eq.refl ("package".toList ++ ' ' :: (name ++ rest)))]
    simp only [Option.bind_eq_bind, Option.bind_some, spaces?_cons (show isSpace ' ' = true by decide)
      hname, run?_append run stops]
    rfl
  have hcons : "package".toList ++ ' ' :: (name ++ rest) =
      'p' :: ("ackage".toList ++ ' ' :: (name ++ rest)) := rfl
  rw [hcons] at hclause ⊢
  rw [packageFrom, if_pos rfl, hclause]
  rfl

theorem packageFrom_skip (h : '\n' ∉ text) :
    packageFrom false (text ++ '\n' :: rest) = packageFrom true rest := by
  induction text with
  | nil => rfl
  | cons c more ih =>
    have hc : (c == '\n') = false := by
      rw [beq_eq_false_iff_ne]
      rintro rfl
      exact h List.mem_cons_self
    rw [List.cons_append, packageFrom, if_neg (by simp), hc]
    exact ih fun hm => h (List.mem_cons_of_mem _ hm)

/-- A line that does not start with a package clause. -/
theorem packageFrom_line (hc : isSpace c = false)
    (hword : "package".toList.isPrefixOf? (c :: (text ++ '\n' :: rest)) = none)
    (h : '\n' ∉ c :: text) :
    packageFrom true (c :: (text ++ '\n' :: rest)) = packageFrom true rest := by
  have hclause : packageClause? (c :: (text ++ '\n' :: rest)) = none := by
    rw [packageClause?, trimStart_stops (stops_cons.2 hc), hword]
    rfl
  have hne : (c == '\n') = false := by
    rw [beq_eq_false_iff_ne]
    rintro rfl
    exact h List.mem_cons_self
  rw [packageFrom, if_pos rfl, hclause, hne,
    packageFrom_skip fun hm => h (List.mem_cons_of_mem _ hm)]
  rfl

/-! ## Names behind at signs -/

theorem namesAfterAt_skip (h : '@' ∉ text) : namesAfterAt (text ++ rest) = namesAfterAt rest := by
  induction text with
  | nil => rfl
  | cons c more ih =>
    have hc : c ≠ '@' := fun heq => h (heq ▸ List.mem_cons_self)
    rw [List.cons_append, namesAfterAt, if_neg hc]
    exact ih fun hm => h (List.mem_cons_of_mem _ hm)

theorem isRun_of_mem_namesAfterAt {found : String} (h : found ∈ namesAfterAt text) :
    IsRun isDotted found.toList := by
  induction text with
  | nil => cases h
  | cons c rest ih =>
    rw [namesAfterAt] at h
    split at h
    · simp only at h
      split at h
      · exact ih h
      · next hempty =>
        rcases List.mem_cons.1 h with rfl | h
        · rw [String.toList_ofList]
          exact ⟨fun hnil => hempty (List.isEmpty_iff.2 hnil),
            fun d hd => List.all_eq_true.1 List.all_takeWhile d hd⟩
        · exact ih h
    · exact ih h

/-! ## Heads -/

/-- No keyword starts another one. -/
theorem isPrefixOf?_keyword (other keyword : Keyword) (text : List Char) :
    other.text.toList.isPrefixOf? (keyword.text.toList ++ text) =
      if other = keyword then some text else none := by
  cases other <;> cases keyword <;> rfl

/-- A keyword, white space and a name. -/
theorem declarationHead?_keyword (keyword : Keyword) (blank : IsRun isSpace space)
    (run : IsRun isWord name) (stops : Stops isWord rest) :
    declarationHead? true (keyword.text.toList ++ (space ++ (name ++ rest))) =
      some (keyword, name, rest) := by
  have hname : spaces? (space ++ (name ++ rest)) = some (name ++ rest) :=
    spaces?_append blank (run.stops fun _ => isSpace_of_isWord)
  have hrun := run?_append run stops
  simp only [declarationHead?, isPrefixOf?_keyword]
  cases keyword <;> simp [Keyword.words, hname, hrun]

/-- A word at the start of a text, with white space behind it, is the whole first word. -/
theorem spaces?_afterWord {after next : List Char} (run : ∀ c ∈ name, isWord c = true)
    (hword : ∀ c ∈ word, isWord c = true) (htext : word ++ after = name ++ (space ++ more))
    (hspaces : spaces? after = some next) (blank : IsRun isSpace space) (stops : Stops isSpace more) :
    next = more := by
  have hafter : Stops isWord after := by
    intro c hc
    rcases after with - | ⟨d, others⟩
    · cases hc
    · cases hc
      rw [spaces?] at hspaces
      split at hspaces
      · next hspace => exact isWord_of_isSpace hspace
      · cases hspaces
  have hbreak : Stops isWord (space ++ more) := blank.stops fun _ => isWord_of_isSpace
  have hsame := (takeWhile_append hword hafter).2
  rw [htext, (takeWhile_append run hbreak).2] at hsame
  rw [← hsame, spaces?_append blank stops] at hspaces
  exact (Option.some.inj hspaces).symm

/-- A modifier that stands alone leaves what is behind it. -/
theorem modifierItem?_lastWord {next : List Char} (run : IsRun isWord name)
    (blank : IsRun isSpace space) (stops : Stops isSpace more)
    (h : modifierItem? (name ++ (space ++ more)) = some next) : next = more := by
  obtain ⟨word, hm, hfound⟩ := List.exists_of_findSome?_eq_some h
  obtain ⟨after, hafter, hspaces⟩ := Option.bind_eq_some_iff.1 hfound
  have hreserved : word ∈ reservedWords := List.mem_append_left _ hm
  exact spaces?_afterWord run.2 (isRun_of_mem_reservedWords hreserved).2
    (List.isPrefixOf?_eq_some_iff_append_eq.1 hafter) hspaces blank stops

/-- A word that white space and no other word follow is no head. -/
theorem declarationHead?_lastWord (run : IsRun isWord name) (blank : IsRun isSpace space)
    (stops : Stops isWord more) (stops' : Stops isSpace more) :
    declarationHead? true (name ++ (space ++ more)) = none := by
  simp only [declarationHead?]
  rw [List.findSome?_eq_none_iff]
  intro keyword hm
  rcases hfound : keyword.text.toList.isPrefixOf? (name ++ (space ++ more)) with - | after
  · rfl
  · have htext : keyword.text.toList ++ after = name ++ (space ++ more) :=
      List.isPrefixOf?_eq_some_iff_append_eq.1 hfound
    have hword : ∀ c ∈ keyword.text.toList, isWord c = true := by
      rw [if_pos trivial] at hm
      rcases List.mem_append.1 hm with hm | hm
      · have hreserved : keyword.text ∈ reservedWords :=
          List.mem_append_right modifierWords (List.mem_map_of_mem hm)
        exact (isRun_of_mem_reservedWords hreserved).2
      · -- The name would start with an at sign.
        obtain ⟨first, others, hfirst⟩ := List.exists_cons_of_ne_nil run.1
        rw [List.mem_singleton.1 hm, hfirst,
          show Keyword.annotationType.text.toList = '@' :: "interface".toList from rfl] at htext
        obtain ⟨hmark, -⟩ := List.cons.inj htext
        have hat := run.2 first (by rw [hfirst]; exact List.mem_cons_self)
        rw [← hmark] at hat
        exact absurd hat (by decide)
    simp only [Option.bind_eq_bind, Option.bind_some]
    rcases hspaces : spaces? after with - | next
    · rfl
    · rw [spaces?_afterWord run.2 hword htext hspaces blank stops', Option.bind_some, run?_stops stops]
      rfl

/-! ## Code without literals -/

/-- Whether a character starts neither a comment nor a literal. -/
def isCode (c : Char) : Bool := c != '/' && c != '"' && c != '\''

theorem isCode_of_isDotted {c : Char} (h : Text.isDotted c = true) : isCode c = true := by
  by_contra hother
  have hc : c = '/' ∨ c = '"' ∨ c = '\'' := by
    simp only [isCode, Bool.and_eq_true, bne_iff_ne] at hother
    tauto
  rcases hc with rfl | rfl | rfl <;> exact absurd h (by decide)

/-- Text of such characters is code throughout. -/
theorem codeOnly_plain (h : ∀ c ∈ text, isCode c = true) : codeOnly text = text := by
  rw [codeOnly]
  induction text with
  | nil => rfl
  | cons c rest ih =>
    obtain ⟨⟨hslash, hquote⟩, hprime⟩ : (c ≠ '/' ∧ c ≠ '"') ∧ c ≠ '\'' := by
      simpa only [isCode, Bool.and_eq_true, bne_iff_ne] using h c List.mem_cons_self
    have hregion : region? (c :: rest) = none := by
      rw [region?]
      · intro _ heq
        cases heq
        exact hslash rfl
      · intro _ heq
        cases heq
        exact hslash rfl
      · intro _ heq
        cases heq
        exact hquote rfl
      · intro _ heq
        cases heq
        exact hprime rfl
    rw [codeFrom, hregion]
    simp only
    rw [ih fun d hd => h d (List.mem_cons_of_mem _ hd)]

end Source

end KotlinHarness
