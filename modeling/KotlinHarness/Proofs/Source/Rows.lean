/-
  Rows of annotations and modifiers, and the declaration behind them.

  A declaration stands in the text as a row of annotations (`Mark`), a row of modifier words
  (`Modifier`), a keyword, white space and a name.  Each recognizer has one law for either direction:
  what it makes of a text that is put together from parts (`declaration?_append`), and what parts a
  text has that it accepts (`declaration?_parts`).

  A recognizer takes as many items as it can and gives them up again one by one.  `enum` and
  `@interface` are taken for items too, and so is a name that is a modifier word; what is left then
  is never a declaration, because only one word is left in front of the white space.
-/
import KotlinHarness.Proofs.Source.Scanned

namespace KotlinHarness

namespace Source

open Text

variable {p : Char → Bool} {text rest more name space gap : List Char} {before : Option Char}

/-! ## Pieces -/

theorem isRun_takeWhile {c : Char} (hc : p c = true) (text : List Char) :
    IsRun p (c :: text.takeWhile p) := by
  refine ⟨List.cons_ne_nil _ _, List.forall_mem_cons.2 ⟨hc, ?_⟩⟩
  exact List.all_eq_true.1 List.all_takeWhile

theorem spaces?_eq_some (h : spaces? text = some rest) :
    ∃ space, IsRun isSpace space ∧ text = space ++ rest := by
  rcases text with - | ⟨c, more⟩
  · cases h
  · rw [spaces?] at h
    split at h
    · next hc =>
      cases h
      refine ⟨c :: more.takeWhile isSpace, isRun_takeWhile hc more, ?_⟩
      rw [List.cons_append, trimStart, List.takeWhile_append_dropWhile]
    · cases h

theorem run?_eq_some (h : run? p text = some (name, rest)) : IsRun p name ∧ text = name ++ rest := by
  refine ⟨isRun_of_run? h, ?_⟩
  simp only [run?] at h
  split at h
  · cases h
  · cases h
    exact (List.prefix_iff_eq_append.1 (List.takeWhile_prefix p)).symm

/-- A run is taken to its end. -/
theorem stops_of_run? (h : run? p text = some (name, rest)) : Stops p rest := by
  obtain ⟨run, htext⟩ := run?_eq_some h
  have htaken : text.takeWhile p = name := by
    simp only [run?] at h
    split at h
    · cases h
    · cases h
      rfl
  rw [htext, List.takeWhile_append_of_pos run.2, List.append_right_eq_self] at htaken
  rcases rest with - | ⟨c, more⟩
  · exact fun _ hm => absurd hm (Option.not_mem_none _)
  · refine stops_cons.2 ?_
    rw [← Bool.not_eq_true]
    intro hc
    rw [List.takeWhile_cons_of_pos hc] at htaken
    cases htaken

/-- Behind the name there are the arguments, if there is a parenthesis. -/
def argumentText : Option (List Char) → List Char
  | none => []
  | some text => '(' :: (text ++ [')'])

theorem arguments?_append {inner : List Char} (closed : ')' ∉ inner) (rest : List Char) :
    arguments? ('(' :: (inner ++ ')' :: rest)) = some rest := by
  have hall : ∀ c ∈ inner, (c != ')') = true := by
    intro c hc
    rw [bne_iff_ne]
    rintro rfl
    exact closed hc
  have stops : Stops (· != ')') (')' :: rest) := stops_cons.2 (by decide)
  rw [arguments?, (takeWhile_append hall stops).2]
  rfl

theorem arguments?_eq_some (h : arguments? text = some rest) :
    ∃ inner, ')' ∉ inner ∧ text = '(' :: (inner ++ ')' :: rest) := by
  unfold arguments? at h
  split at h
  · next more =>
    have hclose : ')' :: rest = more.dropWhile (· != ')') :=
      List.isPrefixOf?_eq_some_iff_append_eq.1 h
    refine ⟨more.takeWhile (· != ')'), fun hm => ?_, ?_⟩
    · have hne := List.all_eq_true.1 List.all_takeWhile _ hm
      revert hne
      decide
    · rw [hclose, List.takeWhile_append_dropWhile]
  · cases h

theorem arguments?_unopened (unopened : text.head? ≠ some '(') : arguments? text = none := by
  unfold arguments?
  split
  · exact absurd rfl unopened
  · rfl

/-! ## Annotations and modifiers -/

/-- An annotation in front of a declaration, with the white space behind it. -/
structure Mark where
  name : List Char
  /-- What stands between the parentheses, if there are any. -/
  arguments : Option (List Char)
  space : List Char
  isName : IsRun isDotted name
  closed : ∀ inner ∈ arguments, ')' ∉ inner
  isBlank : IsRun isSpace space

namespace Mark

/-- What stands behind the name. -/
def behind (mark : Mark) : List Char := argumentText mark.arguments ++ mark.space

def spelled (mark : Mark) : List Char := '@' :: (mark.name ++ mark.behind)

/-- What stands behind the name starts with a parenthesis or white space. -/
theorem exists_behind (mark : Mark) :
    ∃ c more, mark.behind = c :: more ∧ (c = '(' ∨ isSpace c = true) := by
  rw [behind]
  rcases mark.arguments with - | inner
  · obtain ⟨c, more, hmore⟩ := List.exists_cons_of_ne_nil mark.isBlank.1
    refine ⟨c, more, by rw [hmore]; rfl, .inr (mark.isBlank.2 c ?_)⟩
    rw [hmore]
    exact List.mem_cons_self
  · exact ⟨'(', _, rfl, .inl rfl⟩

theorem stops_behind (mark : Mark) (rest : List Char) : Stops isDotted (mark.behind ++ rest) := by
  obtain ⟨c, more, hmore, hc⟩ := mark.exists_behind
  rw [hmore]
  refine stops_cons.2 ?_
  rw [← Bool.not_eq_true]
  intro hdotted
  rcases hc with rfl | hspace
  · revert hdotted
    decide
  · rw [isSpace_of_isDotted hdotted] at hspace
    cases hspace

end Mark

/-- A modifier word in front of a declaration, with the white space behind it. -/
structure Modifier where
  word : String
  space : List Char
  isModifier : word ∈ modifierWords
  isBlank : IsRun isSpace space

def Modifier.spelled (modifier : Modifier) : List Char := modifier.word.toList ++ modifier.space

/-- An annotation is taken as it stands. -/
theorem annotationItem?_append (mark : Mark) (stops : Stops isSpace rest) :
    annotationItem? (mark.spelled ++ rest) = some rest := by
  have hat : ['@'].isPrefixOf? (mark.spelled ++ rest) =
      some (mark.name ++ (mark.behind ++ rest)) := by
    rw [Mark.spelled, List.cons_append, List.append_assoc]
    rfl
  have hname := run?_append mark.isName (mark.stops_behind rest)
  have hspace := spaces?_append mark.isBlank stops
  rw [annotationItem?, hat]
  simp only [Option.bind_eq_bind, Option.bind_some, hname]
  rw [Mark.behind, List.append_assoc]
  rcases harguments : mark.arguments with - | inner
  · have unopened : (mark.space ++ rest).head? ≠ some '(' := by
      obtain ⟨c, more, hmore⟩ := List.exists_cons_of_ne_nil mark.isBlank.1
      have hc := mark.isBlank.2 c (by rw [hmore]; exact List.mem_cons_self)
      rw [hmore, List.cons_append, List.head?_cons]
      intro heq
      rw [Option.some.inj heq] at hc
      revert hc
      decide
    rw [argumentText, List.nil_append, arguments?_unopened unopened]
    exact hspace
  · have hinner : arguments? ('(' :: (inner ++ ')' :: (mark.space ++ rest))) =
        some (mark.space ++ rest) := arguments?_append (mark.closed inner harguments) _
    rw [argumentText, List.cons_append, List.append_assoc, List.singleton_append, hinner]
    exact hspace

theorem annotationItem?_eq_some (h : annotationItem? text = some rest) :
    ∃ mark : Mark, text = mark.spelled ++ rest := by
  simp only [annotationItem?, Option.bind_eq_bind, Option.bind_eq_some_iff] at h
  obtain ⟨behindAt, hat, ⟨name, behindName⟩, hname, hspaces⟩ := h
  have hat : '@' :: behindAt = text := List.isPrefixOf?_eq_some_iff_append_eq.1 hat
  obtain ⟨isName, rfl⟩ := run?_eq_some hname
  obtain ⟨space, isBlank, hspace⟩ := spaces?_eq_some hspaces
  rcases harguments : arguments? behindName with - | behindArguments
  · rw [harguments, Option.getD_none] at hspace
    have hspace : behindName = space ++ rest := hspace
    refine ⟨⟨name, none, space, isName, fun _ hm => (Option.not_mem_none _ hm).elim, isBlank⟩, ?_⟩
    simp [Mark.spelled, Mark.behind, argumentText, ← hat, hspace]
  · rw [harguments, Option.getD_some] at hspace
    obtain ⟨inner, closed, hinner⟩ := arguments?_eq_some harguments
    refine ⟨⟨name, some inner, space, isName, fun other hm => ?_, isBlank⟩, ?_⟩
    · cases hm
      exact closed
    · simp [Mark.spelled, Mark.behind, argumentText, ← hat, hinner, hspace]

/-- A modifier is taken as it stands. -/
theorem modifierItem?_append (modifier : Modifier) (stops : Stops isSpace rest) :
    modifierItem? (modifier.spelled ++ rest) = some rest := by
  have hreserved : modifier.word ∈ reservedWords := List.mem_append_left _ modifier.isModifier
  rw [Modifier.spelled, List.append_assoc]
  rcases hitem : modifierItem? (modifier.word.toList ++ (modifier.space ++ rest)) with - | next
  · rw [modifierItem?, List.findSome?_eq_none_iff] at hitem
    have hnone := hitem modifier.word modifier.isModifier
    rw [List.isPrefixOf?_eq_some_iff_append_eq.2 rfl, Option.bind_some,
      spaces?_append modifier.isBlank stops] at hnone
    cases hnone
  · rw [modifierItem?_lastWord (isRun_of_mem_reservedWords hreserved) modifier.isBlank stops hitem]

theorem modifierItem?_eq_some (h : modifierItem? text = some rest) :
    ∃ modifier : Modifier, text = modifier.spelled ++ rest := by
  obtain ⟨word, isModifier, hword⟩ := List.exists_of_findSome?_eq_some h
  obtain ⟨behind, hbehind, hspaces⟩ := Option.bind_eq_some_iff.1 hword
  have htext : word.toList ++ behind = text := List.isPrefixOf?_eq_some_iff_append_eq.1 hbehind
  obtain ⟨space, isBlank, rfl⟩ := spaces?_eq_some hspaces
  refine ⟨⟨word, space, isModifier, isBlank⟩, ?_⟩
  rw [Modifier.spelled, List.append_assoc, htext]

/-! ## Rows -/

/-- An item that is taken as it stands, where no white space follows. -/
structure Taken (item? : List Char → Option (List Char)) (item : List Char) : Prop where
  starts : ∃ c more, item = c :: more ∧ isSpace c = false
  takes : ∀ rest, Stops isSpace rest → item? (item ++ rest) = some rest

theorem taken_mark (mark : Mark) : Taken annotationItem? mark.spelled :=
  ⟨⟨'@', _, rfl, by decide⟩, fun _ stops => annotationItem?_append mark stops⟩

/-- No annotation starts with a word. -/
theorem IsRun.unmarked (run : IsRun isWord name) (rest : List Char) :
    (name ++ rest).head? ≠ some '@' := by
  obtain ⟨c, more, rfl⟩ := List.exists_cons_of_ne_nil run.1
  intro heq
  have hc := run.2 c List.mem_cons_self
  rw [Option.some.inj heq] at hc
  revert hc
  decide

theorem isRun_keyword {keyword : Keyword} (h : keyword ≠ .annotationType) :
    IsRun isWord keyword.text.toList := by
  refine isRun_of_mem_reservedWords (List.mem_append_right _ (List.mem_map_of_mem ?_))
  revert h
  cases keyword <;> decide

theorem Modifier.isRun_word (modifier : Modifier) : IsRun isWord modifier.word.toList :=
  isRun_of_mem_reservedWords (List.mem_append_left _ modifier.isModifier)

theorem taken_modifier (modifier : Modifier) : Taken modifierItem? modifier.spelled := by
  refine ⟨?_, fun _ stops => modifierItem?_append modifier stops⟩
  have run := modifier.isRun_word
  obtain ⟨c, more, hmore⟩ := List.exists_cons_of_ne_nil run.1
  refine ⟨c, more ++ modifier.space, ?_, isSpace_of_isWord (run.2 c ?_)⟩
  · rw [Modifier.spelled, hmore, List.cons_append]
  · rw [hmore]
    exact List.mem_cons_self

theorem IsRun.exists_getLast? (run : IsRun p name) (front : List Char) :
    ∃ c ∈ (front ++ name).getLast?, p c = true := by
  refine ⟨name.getLast run.1, ?_, run.2 _ (List.getLast_mem run.1)⟩
  rw [List.getLast?_append, List.getLast?_eq_some_getLast run.1]
  rfl

/-- The last character of an annotation is white space. -/
theorem Mark.exists_getLast? (mark : Mark) : ∃ c ∈ mark.spelled.getLast?, isSpace c = true := by
  have hlast := mark.isBlank.exists_getLast? ('@' :: (mark.name ++ argumentText mark.arguments))
  rwa [List.cons_append, List.append_assoc] at hlast

theorem Modifier.exists_getLast? (modifier : Modifier) :
    ∃ c ∈ modifier.spelled.getLast?, isSpace c = true :=
  modifier.isBlank.exists_getLast? modifier.word.toList

section Rows

variable {α β : Type} {spell : α → List Char} {item? : List Char → Option (List Char)}

theorem stops_row (taken : ∀ one, Taken item? (spell one)) (stops : Stops isSpace rest) (row : List α) :
    Stops isSpace (row.flatMap spell ++ rest) := by
  cases row with
  | nil => exact stops
  | cons one row =>
    obtain ⟨c, more, hmore, hc⟩ := (taken one).starts
    rw [List.flatMap_cons, hmore]
    exact stops_cons.2 hc

theorem length_le_row (taken : ∀ one, Taken item? (spell one)) (row : List α) (rest : List Char) :
    row.length ≤ (row.flatMap spell ++ rest).length := by
  induction row with
  | nil => exact Nat.zero_le _
  | cons one row ih =>
    obtain ⟨c, more, hmore, -⟩ := (taken one).starts
    rw [List.flatMap_cons, hmore]
    simp only [List.length_append, List.length_cons] at ih ⊢
    omega

/-- Behind a row of items there may be more of them; the rest behind the row comes after these. -/
theorem afterItems_row (taken : ∀ one, Taken item? (spell one)) (stops : Stops isSpace rest)
    (row : List α) {budget : List Char} (enough : row.length ≤ budget.length) :
    ∃ left fewer, afterItems item? budget (row.flatMap spell ++ rest) ++ [row.flatMap spell ++ rest] =
      afterItems item? left rest ++ rest :: fewer := by
  induction row generalizing budget with
  | nil => exact ⟨budget, [], rfl⟩
  | cons one row ih =>
    obtain ⟨_, budget, rfl⟩ : ∃ b more, budget = b :: more :=
      List.exists_cons_of_ne_nil (List.ne_nil_of_length_pos (Nat.lt_of_lt_of_le (by simp) enough))
    obtain ⟨left, fewer, hrow⟩ := ih (by simpa using enough)
    have hitem := (taken one).takes _ (stops_row taken stops row)
    refine ⟨left, fewer ++ [(one :: row).flatMap spell ++ rest], ?_⟩
    rw [List.flatMap_cons, List.append_assoc, afterItems, hitem]
    simp only
    rw [hrow, List.append_assoc, List.cons_append]

/-- The first thing found behind a row of items is found right behind it, if nothing is found where
    more items are taken. -/
theorem findSome?_withItems (taken : ∀ one, Taken item? (spell one)) (stops : Stops isSpace rest)
    (row : List α) {f : List Char × Bool → Option β} {found : β}
    (more : ∀ budget, ∀ after ∈ afterItems item? budget rest, f (after, true) = none)
    (h : f (rest, true) = some found) :
    (withItems item? true (row.flatMap spell ++ rest)).findSome? f = some found := by
  obtain ⟨left, fewer, hrow⟩ := afterItems_row taken stops row (length_le_row taken row rest)
  have hmap := congrArg (List.map fun after => (after, true)) hrow
  rw [List.map_append, List.map_append, List.map_cons, List.map_cons] at hmap
  have hnone : ((afterItems item? left rest).map fun after => (after, true)).findSome? f = none := by
    rw [List.findSome?_eq_none_iff]
    intro after hm
    obtain ⟨after, hafter, rfl⟩ := List.mem_map.1 hm
    exact more left after hafter
  rw [List.map_nil] at hmap
  rw [withItems, hmap, List.findSome?_append, hnone, Option.none_or, List.findSome?_cons, h]

/-- What stands behind a row of items is among what is tried; a word may start there, if one may start
    in front or there are items. -/
theorem mem_withItems_row (taken : ∀ one, Taken item? (spell one)) (stops : Stops isSpace rest)
    (row : List α) {mayStart : Bool} (start : mayStart = true ∨ row ≠ []) :
    (rest, true) ∈ withItems item? mayStart (row.flatMap spell ++ rest) := by
  obtain ⟨left, fewer, hrow⟩ := afterItems_row taken stops row (length_le_row taken row rest)
  have hm : rest ∈ afterItems item? (row.flatMap spell ++ rest) (row.flatMap spell ++ rest) ++
      [row.flatMap spell ++ rest] := by
    rw [hrow]
    exact List.mem_append_right _ List.mem_cons_self
  rcases List.mem_append.1 hm with hm | hm
  · exact List.mem_append_left _ (List.mem_map_of_mem hm)
  · have hwhole := List.mem_singleton.1 hm
    have hnone : row = [] := by
      rcases row with - | ⟨one, row⟩
      · rfl
      · obtain ⟨c, more, hmore, -⟩ := (taken one).starts
        have hlength := congrArg List.length hwhole
        rw [List.flatMap_cons, hmore] at hlength
        simp only [List.length_append, List.length_cons] at hlength
        omega
    have hstart := start.resolve_right fun hne => hne hnone
    rw [hnone, hstart]
    exact List.mem_append_right _ (List.mem_singleton_self _)

/-- What comes after items comes after a row of them. -/
theorem row_of_afterItems (split : ∀ {text rest}, item? text = some rest → ∃ one, text = spell one ++ rest)
    {budget : List Char} (h : rest ∈ afterItems item? budget text) :
    ∃ row : List α, text = row.flatMap spell ++ rest := by
  induction budget generalizing text with
  | nil => cases h
  | cons _ budget ih =>
    rw [afterItems] at h
    split at h
    · next next hitem =>
      obtain ⟨one, rfl⟩ := split hitem
      rcases List.mem_append.1 h with hm | hm
      · obtain ⟨row, hrow⟩ := ih hm
        refine ⟨one :: row, ?_⟩
        rw [List.flatMap_cons, List.append_assoc, hrow]
      · refine ⟨[one], ?_⟩
        rw [List.mem_singleton.1 hm]
        simp
    · cases h

/-- Behind a row of items that end in white space a word may start. -/
theorem wordMayStart_row (ends : ∀ one, ∃ c ∈ (spell one).getLast?, isSpace c = true) (row : List α)
    (hne : row ≠ []) : wordMayStart ((row.flatMap spell).getLast?.or before) = true := by
  obtain ⟨init, one, rfl⟩ : ∃ init one, row = init ++ [one] :=
    ⟨row.dropLast, row.getLast hne, (List.dropLast_append_getLast hne).symm⟩
  obtain ⟨c, hc, hspace⟩ := ends one
  have hlast : ((init ++ [one]).flatMap spell).getLast? = some c := by
    rw [List.flatMap_append, List.flatMap_singleton, List.getLast?_append, Option.mem_def.1 hc]
    rfl
  rw [hlast, Option.some_or, wordMayStart, isWord_of_isSpace hspace]
  rfl

/-- Where the flag is set behind a row of items, a word may start. -/
theorem row_of_withItems (split : ∀ {text rest}, item? text = some rest → ∃ one, text = spell one ++ rest)
    (ends : ∀ one, ∃ c ∈ (spell one).getLast?, isSpace c = true) {mayStart flag : Bool}
    (start : mayStart = true → wordMayStart before = true)
    (h : (rest, flag) ∈ withItems item? mayStart text) :
    ∃ row : List α, text = row.flatMap spell ++ rest ∧
      (flag = true → wordMayStart ((row.flatMap spell).getLast?.or before) = true) := by
  rcases List.mem_append.1 h with hm | hm
  · obtain ⟨after, hafter, heq⟩ := List.mem_map.1 hm
    cases heq
    -- There is at least one item in front.
    obtain ⟨next, fewer, hitem, hbehind⟩ := mem_afterItems hafter
    obtain ⟨one, rfl⟩ := split hitem
    obtain ⟨row, rfl⟩ : ∃ row : List α, next = row.flatMap spell ++ rest := by
      rcases hbehind with rfl | hbehind
      · exact ⟨[], rfl⟩
      · exact row_of_afterItems split hbehind
    refine ⟨one :: row, ?_, fun _ => wordMayStart_row ends _ (List.cons_ne_nil _ _)⟩
    rw [List.flatMap_cons, List.append_assoc]
  · cases List.mem_singleton.1 hm
    exact ⟨[], rfl, start⟩

end Rows

/-! ## Declarations -/

/-- A text that starts with no word, no white space and no annotation. -/
structure Apart (text : List Char) : Prop where
  unmarked : text.head? ≠ some '@'
  word : Stops isWord text
  space : Stops isSpace text

theorem apart_cons {c : Char} (word : isWord c = false) (space : isSpace c = false) (unmarked : c ≠ '@') :
    Apart (c :: rest) :=
  ⟨by simpa using unmarked, stops_cons.2 word, stops_cons.2 space⟩

theorem Apart.plain (apart : Apart text) : Plain text := by
  refine ⟨apart.unmarked, .inl ?_⟩
  rw [apart.word.takeWhile.1]
  decide

theorem upTo_append (front rest : List Char) : upTo (front ++ rest) rest = front := by
  rw [upTo, List.length_append, Nat.add_sub_cancel, List.take_left]

section Heads

variable {budget after : List Char} {keyword : Keyword} (named : IsRun isWord name)
  (gapped : IsRun isSpace gap) (apart : Apart more)

include named gapped apart

/-- Behind a single word there is no declaration. -/
theorem declarationHead?_behindWord (h : after ∈ afterItems modifierItem? budget (name ++ (gap ++ more))) :
    declarationHead? true after = none := by
  obtain ⟨next, _, hitem, hafter⟩ := mem_afterItems h
  obtain rfl : next = more := modifierItem?_lastWord named gapped apart.space hitem
  rcases hafter with rfl | hafter
  · exact declarationHead?_plain apart.plain true
  · rw [afterItems_none (modifierItem?_plain apart.plain)] at hafter
    cases hafter

theorem declarationAfter?_word (text : List Char) :
    declarationAfter? text (name ++ (gap ++ more)) true = none := by
  rw [declarationAfter?, if_pos rfl, List.findSome?_eq_none_iff]
  rintro ⟨after, mayStart⟩ hm
  rcases List.mem_append.1 hm with hm | hm
  · obtain ⟨other, hother, heq⟩ := List.mem_map.1 hm
    cases heq
    simp only [declarationHead?_behindWord named gapped apart hother, Option.map_none]
  · cases List.mem_singleton.1 hm
    simp only [declarationHead?_lastWord named gapped apart.word apart.space, Option.map_none]

/-- When the keyword is taken for a modifier, what is left is the name. -/
theorem declarationHead?_behindKeyword (blank : IsRun isSpace space)
    (h : after ∈ afterItems modifierItem? budget
      (keyword.text.toList ++ (space ++ (name ++ (gap ++ more))))) :
    declarationHead? true after = none := by
  obtain ⟨next, _, hitem, hafter⟩ := mem_afterItems h
  have hnext : next = name ++ (gap ++ more) := by
    by_cases hkeyword : keyword = .annotationType
    · -- No modifier starts with an at sign.
      have hnone : ∀ text, modifierItem? (Keyword.annotationType.text.toList ++ text) = none :=
        fun _ => rfl
      rw [hkeyword, hnone] at hitem
      cases hitem
    · exact modifierItem?_lastWord (isRun_keyword hkeyword) blank
        (named.stops fun _ => isSpace_of_isWord) hitem
  subst hnext
  rcases hafter with rfl | hafter
  · exact declarationHead?_lastWord named gapped apart.word apart.space
  · exact declarationHead?_behindWord named gapped apart hafter

/-- When `@interface` is taken for an annotation, what is left is the name. -/
theorem declarationAfter?_behindKeyword (modifiers : List Modifier) (blank : IsRun isSpace space)
    (text : List Char) (h : after ∈ afterItems annotationItem? budget
      (modifiers.flatMap Modifier.spelled ++
        (keyword.text.toList ++ (space ++ (name ++ (gap ++ more)))))) :
    declarationAfter? text after true = none := by
  obtain ⟨next, _, hitem, hafter⟩ := mem_afterItems h
  have hnext : next = name ++ (gap ++ more) := by
    rcases modifiers with - | ⟨modifier, modifiers⟩
    · by_cases hkeyword : keyword = .annotationType
      · have stops : Stops isSpace (name ++ (gap ++ more)) := named.stops fun _ => isSpace_of_isWord
        have isName : IsRun isDotted "interface".toList :=
          ⟨by decide, List.all_eq_true.1 (by decide)⟩
        have htaken := annotationItem?_append
          ⟨"interface".toList, none, space, isName, fun _ hm => (Option.not_mem_none _ hm).elim, blank⟩
          stops
        rw [hkeyword] at hitem
        exact Option.some.inj (hitem.symm.trans htaken)
      · have unmarked := (isRun_keyword hkeyword).unmarked (space ++ (name ++ (gap ++ more)))
        rw [List.flatMap_nil, List.nil_append, annotationItem?_unmarked unmarked] at hitem
        cases hitem
    · rw [List.flatMap_cons, Modifier.spelled, List.append_assoc, List.append_assoc,
        annotationItem?_unmarked (modifier.isRun_word.unmarked _)] at hitem
      cases hitem
  subst hnext
  rcases hafter with rfl | hafter
  · exact declarationAfter?_word named gapped apart text
  · rw [afterItems_none (annotationItem?_unmarked (named.unmarked _))] at hafter
    cases hafter

/-- A declaration is found as it stands, if its name is followed by white space and no word. -/
theorem declaration?_append (marks : List Mark) (modifiers : List Modifier) (keyword : Keyword)
    (blank : IsRun isSpace space) (start : wordMayStart before = true) :
    declaration? before (marks.flatMap Mark.spelled ++ (modifiers.flatMap Modifier.spelled ++
        (keyword.text.toList ++ (space ++ (name ++ (gap ++ more)))))) =
      some (⟨marks.flatMap Mark.spelled, modifiers.flatMap Modifier.spelled, keyword, name⟩,
        gap ++ more) := by
  have stopsKeyword : Stops isSpace (keyword.text.toList ++ (space ++ (name ++ (gap ++ more)))) := by
    cases keyword <;> exact stops_cons.2 (by decide)
  have stopsModifiers := stops_row taken_modifier stopsKeyword modifiers
  have stopsName : Stops isWord (gap ++ more) := gapped.stops fun _ => isWord_of_isSpace
  have hhead := declarationHead?_keyword keyword blank named stopsName
  rw [declaration?, start]
  refine findSome?_withItems taken_mark stopsModifiers marks
    (fun budget after hm => declarationAfter?_behindKeyword named gapped apart modifiers blank _ hm) ?_
  simp only [declarationAfter?, if_true]
  refine findSome?_withItems taken_modifier stopsKeyword modifiers (fun budget after hm => ?_) ?_
  · simp only [declarationHead?_behindKeyword named gapped apart blank hm, Option.map_none]
  · simp only [hhead, Option.map_some, upTo_append]

end Heads

theorem declarationHead?_eq_some {mayStart : Bool} {keyword : Keyword}
    (h : declarationHead? mayStart text = some (keyword, name, rest)) :
    ∃ space, IsRun isSpace space ∧ IsRun isWord name ∧ Stops isWord rest ∧
      (keyword ≠ .annotationType → mayStart = true) ∧
      text = keyword.text.toList ++ (space ++ (name ++ rest)) := by
  simp only [declarationHead?] at h
  obtain ⟨candidate, hm, hfound⟩ := List.exists_of_findSome?_eq_some h
  simp only [Option.bind_eq_bind, Option.bind_eq_some_iff, Option.pure_def, Option.some.injEq] at hfound
  obtain ⟨behind, hkeyword, behindSpace, hspaces, ⟨found, after⟩, hrun, hsame⟩ := hfound
  cases hsame
  obtain ⟨space, isBlank, rfl⟩ := spaces?_eq_some hspaces
  have hstops := stops_of_run? hrun
  obtain ⟨isName, rfl⟩ := run?_eq_some hrun
  refine ⟨space, isBlank, isName, hstops, fun hword => ?_,
    (List.isPrefixOf?_eq_some_iff_append_eq.1 hkeyword).symm⟩
  split at hm
  · next hstart => exact hstart
  · exact absurd (List.mem_singleton.1 hm) hword

/-- A declaration stands in a text as annotations, modifiers, its keyword and its name, which ends there.
    A word may start where the keyword stands, if the keyword is one. -/
theorem declaration?_parts {found : Declaration} (h : declaration? before text = some (found, rest)) :
    ∃ (marks : List Mark) (modifiers : List Modifier) (space : List Char), IsRun isSpace space ∧
      found.annotationText = marks.flatMap Mark.spelled ∧
      found.modifierText = modifiers.flatMap Modifier.spelled ∧
      text = found.annotationText ++ (found.modifierText ++
        (found.keyword.text.toList ++ (space ++ (found.name ++ rest)))) ∧
      IsRun isWord found.name ∧ Stops isWord rest ∧
      (found.keyword ≠ .annotationType → wordMayStart (found.modifierText.getLast?.or
        (found.annotationText.getLast?.or before)) = true) := by
  obtain ⟨⟨behindMarks, mayStart⟩, hmarks, hafter⟩ := List.exists_of_findSome?_eq_some h
  obtain ⟨marks, rfl, start⟩ :=
    row_of_withItems annotationItem?_eq_some Mark.exists_getLast? id hmarks
  simp only [declarationAfter?] at hafter
  obtain ⟨⟨behindModifiers, mayStart'⟩, hmodifiers, hhead⟩ := List.exists_of_findSome?_eq_some hafter
  obtain ⟨modifiers, rfl, start'⟩ : ∃ modifiers : List Modifier,
      behindMarks = modifiers.flatMap Modifier.spelled ++ behindModifiers ∧
      (mayStart' = true → wordMayStart ((modifiers.flatMap Modifier.spelled).getLast?.or
        ((marks.flatMap Mark.spelled).getLast?.or before)) = true) := by
    split at hmodifiers
    · next hstart =>
      exact row_of_withItems modifierItem?_eq_some Modifier.exists_getLast? (fun _ => start hstart)
        hmodifiers
    · cases List.mem_singleton.1 hmodifiers
      exact ⟨[], rfl, fun hfalse => by cases hfalse⟩
  obtain ⟨⟨keyword, name, after⟩, hkeyword, hfound⟩ := Option.map_eq_some_iff.1 hhead
  cases hfound
  obtain ⟨space, isBlank, isName, whole, hword, rfl⟩ := declarationHead?_eq_some hkeyword
  refine ⟨marks, modifiers, space, isBlank, upTo_append _ _, upTo_append _ _, ?_, isName, whole, ?_⟩
  · rw [upTo_append, upTo_append]
  · rw [upTo_append, upTo_append]
    exact fun hne => start' (hword hne)

end Source

end KotlinHarness
