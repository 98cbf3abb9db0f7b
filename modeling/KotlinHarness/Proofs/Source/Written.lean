/-
  Parsing undoes printing.

  A file is printed as its package clause and its declarations, each of them with its annotations, one
  in each line, and a line of its modifiers, its keyword and its name.  Whatever the names are, be they
  keywords or modifiers themselves, exactly these declarations are read again, in order
  (`parse_text`).

    * `packageFrom_text`, `declarationsFrom_text`   what the scanners make of one declaration, with any
                                                    text behind it
    * `parse_behind`                                declarations behind a package clause, or none
-/
import KotlinHarness.Proofs.Source.Reported

namespace KotlinHarness

namespace Source

open Text

/-! ## What is printed -/

/-- What may stand between the parentheses of an annotation: no parenthesis, no at sign, no line
    feed, and nothing that starts a comment or literal. -/
def isArgument (c : Char) : Bool := isCode c && c != '(' && c != ')' && c != '@' && c != '\n'

/-- An annotation that is printed. -/
structure WrittenMark where
  name : String
  /-- What stands between the parentheses, if there are any. -/
  arguments : Option String
  isName : IsRun isDotted name.toList
  areArguments : ∀ inner ∈ arguments, ∀ c ∈ inner.toList, isArgument c = true

/-- An annotation takes up one line. -/
def WrittenMark.text (applied : WrittenMark) : String :=
  "@" ++ applied.name ++
    (match applied.arguments with
      | some inner => "(" ++ inner ++ ")"
      | none => "") ++ "\n"

/-- A declaration that is printed, with the words in front of its keyword. -/
structure WrittenDeclaration where
  annotations : List WrittenMark
  modifiers : List { word : String // word ∈ modifierWords }
  keyword : Keyword
  name : String
  isName : IsRun isWord name.toList

namespace WrittenDeclaration

/-- The words in front of the body. -/
def words (declaration : WrittenDeclaration) : List String :=
  declaration.modifiers.map (·.1) ++ [declaration.keyword.text, declaration.name]

/-- The annotations, one in each line, and a line of words with an empty body. -/
def text (declaration : WrittenDeclaration) : String :=
  String.join (declaration.annotations.map WrittenMark.text) ++
    (" ".intercalate declaration.words ++ " \x7b\x7d\n")

/-- The keyword decides, but a class may be marked as an enum or else as an annotation. -/
def kind (declaration : WrittenDeclaration) : ElementKind :=
  match declaration.keyword with
  | .interface => .interface
  | .enum => .enum
  | .object => .object
  | .record => .record
  | .function => .function
  | .annotationType => .annotationType
  | .classType =>
    if "enum" ∈ declaration.modifiers.map (·.1) then .enum
    else if "annotation" ∈ declaration.modifiers.map (·.1) then .annotationType
    else .classType

def element (declaration : WrittenDeclaration) (source : Path) (package : Option String) : Element where
  kind := declaration.kind
  package := package
  name := declaration.name
  annotations := declaration.annotations.map (·.name)
  source := source

end WrittenDeclaration

/-- A file that is printed. -/
structure WrittenFile where
  package : Option String
  declarations : List WrittenDeclaration
  isPackage : ∀ name ∈ package, IsRun isDotted name.toList

/-- The package clause on the first line, and the declarations. -/
def WrittenFile.text (file : WrittenFile) : String :=
  (match file.package with
    | some package => "package " ++ package ++ ";\n"
    | none => "") ++ String.join (file.declarations.map WrittenDeclaration.text)

/-! ## Annotations and modifiers -/

theorem isRun_blank : IsRun isSpace [' '] := isRun_singleton (by decide)

/-- Whether a character neither ends a line nor starts a comment or literal. -/
def isInLine (c : Char) : Bool := isCode c && c != '\n'

theorem isInLine_of_isDotted {c : Char} (h : isDotted c = true) : isInLine c = true := by
  rw [isInLine, isCode_of_isDotted h, Bool.true_and, bne_iff_ne]
  rintro rfl
  revert h
  decide

theorem isInLine_of_isArgument {c : Char} (h : isArgument c = true) : isInLine c = true := by
  simp only [isArgument, Bool.and_eq_true] at h
  rw [isInLine, h.1.1.1.1, h.2]
  rfl

theorem isInLine_of_mem_reservedWords {word : String} (h : word ∈ reservedWords) :
    ∀ c ∈ word.toList, isInLine c = true := fun c hc =>
  isInLine_of_isDotted (isDotted_of_isWord ((isRun_of_mem_reservedWords h).2 c hc))

theorem feed_of_isInLine {line : List Char} (h : ∀ c ∈ line, isInLine c = true) : '\n' ∉ line :=
  fun hm => absurd (h _ hm) (by decide)

namespace WrittenMark

/-- The annotation as it is found again. -/
def mark (applied : WrittenMark) : Mark where
  name := applied.name.toList
  arguments := applied.arguments.map String.toList
  space := ['\n']
  isName := applied.isName
  closed := by
    intro inner hinner hclose
    obtain ⟨written, hwritten, rfl⟩ := Option.map_eq_some_iff.1 hinner
    exact absurd (applied.areArguments written hwritten _ hclose) (by decide)
  isBlank := isRun_singleton (by decide)

theorem toList_text (applied : WrittenMark) :
    applied.text.toList = applied.mark.spelled := by
  simp only [text, mark, Mark.spelled, Mark.behind, String.toList_append]
  rcases applied.arguments with - | inner <;> simp [argumentText]

theorem names_mark (applied : WrittenMark) : applied.mark.names = [applied.name] := by
  show String.ofList applied.name.toList ::
    namesAfterAt ((applied.arguments.map String.toList).getD []) = [applied.name]
  rw [String.ofList_toList]
  rcases harguments : applied.arguments with - | inner
  · rfl
  · have hat : '@' ∉ inner.toList := fun hm =>
      absurd (applied.areArguments inner harguments _ hm) (by decide)
    rw [Option.map_some, Option.getD_some, ← List.append_nil inner.toList, namesAfterAt_skip hat]
    rfl

/-- An annotation is a line that starts with an at sign. -/
theorem exists_line (applied : WrittenMark) :
    ∃ line, applied.mark.spelled = '@' :: (line ++ ['\n']) ∧ ∀ c ∈ line, isInLine c = true := by
  refine ⟨applied.name.toList ++ argumentText (applied.arguments.map String.toList), ?_, ?_⟩
  · rw [Mark.spelled, Mark.behind, mark, List.append_assoc]
  · intro c hc
    rcases List.mem_append.1 hc with hc | hc
    · exact isInLine_of_isDotted (applied.isName.2 c hc)
    · rcases harguments : applied.arguments with - | inner
      · rw [harguments] at hc
        cases hc
      · rw [harguments, Option.map_some, argumentText, List.mem_cons, List.mem_append,
          List.mem_singleton] at hc
        rcases hc with rfl | hc | rfl
        · decide
        · exact isInLine_of_isArgument (applied.areArguments inner harguments c hc)
        · decide

end WrittenMark

theorem packageFrom_annotations (annotations : List WrittenMark) (rest : List Char) :
    packageFrom true ((annotations.map WrittenMark.mark).flatMap Mark.spelled ++ rest) =
      packageFrom true rest := by
  induction annotations with
  | nil => rfl
  | cons applied annotations ih =>
    obtain ⟨line, hline, hall⟩ := applied.exists_line
    have hfeed : '\n' ∉ '@' :: line := feed_of_isInLine (List.forall_mem_cons.2 ⟨by decide, hall⟩)
    rw [List.map_cons, List.flatMap_cons, hline, List.append_assoc, List.cons_append,
      List.append_assoc, List.singleton_append, packageFrom_line (by decide) rfl hfeed, ih]

/-- A line that starts with a modifier or a keyword is no package clause. -/
theorem packageFrom_word {word : String} (h : word ∈ "@interface" :: reservedWords)
    {line rest : List Char} (hfeed : '\n' ∉ word.toList ++ line) :
    packageFrom true (word.toList ++ (line ++ '\n' :: rest)) = packageFrom true rest := by
  -- No such word starts `package` or is started by it.
  have hapart : ∀ word ∈ "@interface" :: reservedWords,
      ¬ "package".toList <+: word.toList ∧ ¬ word.toList <+: "package".toList := by decide
  have hnone : "package".toList.isPrefixOf? (word.toList ++ (line ++ '\n' :: rest)) = none := by
    rw [Option.eq_none_iff_forall_ne_some]
    intro behind hbehind
    have htext := List.isPrefixOf?_eq_some_iff_append_eq.1 hbehind
    rcases List.prefix_or_prefix_of_prefix ⟨behind, htext⟩ (List.prefix_append word.toList _) with h' | h'
    · exact (hapart word h).1 h'
    · exact (hapart word h).2 h'
  obtain ⟨c, more, hmore, hc⟩ : ∃ c more, word.toList = c :: more ∧ isSpace c = false := by
    rcases List.mem_cons.1 h with rfl | h
    · exact ⟨'@', _, rfl, by decide⟩
    · have run := isRun_of_mem_reservedWords h
      obtain ⟨c, more, hmore⟩ := List.exists_cons_of_ne_nil run.1
      refine ⟨c, more, hmore, isSpace_of_isWord (run.2 c ?_)⟩
      rw [hmore]
      exact List.mem_cons_self
  rw [hmore, List.cons_append, ← List.append_assoc] at hnone ⊢
  rw [hmore, List.cons_append] at hfeed
  exact packageFrom_line hc hnone hfeed

/-- A modifier with a blank behind it. -/
def blankBehind (word : { word : String // word ∈ modifierWords }) : Modifier :=
  ⟨word.1, [' '], word.2, isRun_blank⟩

/-- A word with a blank behind it is the first word of a text. -/
theorem words_cons {word : List Char} (run : IsRun isWord word) (rest : List Char) :
    Text.words (word ++ ' ' :: rest) = word :: Text.words rest := by
  have hsplit : ∀ {word : List Char}, (∀ c ∈ word, isSpace c = false) →
      splitWhere isSpace (word ++ ' ' :: rest) = word :: splitWhere isSpace rest := by
    intro word hall
    induction word with
    | nil => rfl
    | cons c more ih =>
      rw [List.cons_append, splitWhere, if_neg (by simp [hall c List.mem_cons_self]),
        ih fun d hd => hall d (List.mem_cons_of_mem _ hd)]
  rw [Text.words, hsplit fun c hc => isSpace_of_isWord (run.2 c hc),
    List.filter_cons_of_pos (by simpa using run.1)]
  rfl

/-! ## One declaration -/

/-- What stands behind the blank behind the name. -/
def emptyBody : List Char := "\x7b\x7d\n".toList

theorem apart_emptyBody (rest : List Char) : Apart (emptyBody ++ rest) :=
  apart_cons (by decide) (by decide) (by decide)

namespace WrittenDeclaration

variable (declaration : WrittenDeclaration) {before : Option Char}

/-- The declaration as it is found again. -/
def found : Declaration where
  annotationText := (declaration.annotations.map WrittenMark.mark).flatMap Mark.spelled
  modifierText := (declaration.modifiers.map blankBehind).flatMap Modifier.spelled
  keyword := declaration.keyword
  name := declaration.name.toList

theorem toList_words : (" ".intercalate declaration.words).toList =
    declaration.found.modifierText ++
      (declaration.keyword.text.toList ++ ([' '] ++ declaration.name.toList)) := by
  rw [words, found]
  induction declaration.modifiers with
  | nil => simp
  | cons word modifiers ih =>
    obtain ⟨next, others, hnext⟩ : ∃ next others,
        modifiers.map (·.1) ++ [declaration.keyword.text, declaration.name] = next :: others :=
      List.exists_cons_of_ne_nil (by simp)
    rw [hnext] at ih
    rw [List.map_cons, List.cons_append, hnext, String.intercalate_cons_cons, String.toList_append, ih]
    simp [blankBehind, Modifier.spelled]

theorem toList_text : declaration.text.toList =
    declaration.found.annotationText ++ (declaration.found.modifierText ++
      (declaration.keyword.text.toList ++ ([' '] ++ (declaration.name.toList ++
        ([' '] ++ emptyBody))))) := by
  have hannotations : (String.join (declaration.annotations.map WrittenMark.text)).toList =
      declaration.found.annotationText := by
    rw [String.toList_join, found, List.flatMap_map, List.flatMap_map]
    exact List.flatMap_congr fun applied _ => applied.toList_text
  have hbody : (" \x7b\x7d\n" : String).toList = [' '] ++ emptyBody := rfl
  rw [text, String.toList_append, hannotations, String.toList_append, toList_words, hbody]
  simp only [List.append_assoc]

/-- One declaration is found in the text that is printed, and the scan goes on in the next line. -/
theorem declarationsFrom_text (start : wordMayStart before = true) (rest : List Char) :
    declarationsFrom before 0 (declaration.text.toList ++ rest) =
      declaration.found :: declarationsFrom (some '\n') 0 rest := by
  obtain ⟨front, hne, htext⟩ : ∃ front, front ≠ [] ∧
      declaration.text.toList ++ rest = front ++ ([' '] ++ (emptyBody ++ rest)) := by
    refine ⟨declaration.found.annotationText ++ (declaration.found.modifierText ++
      (declaration.keyword.text.toList ++ ([' '] ++ declaration.name.toList))), ?_, ?_⟩
    · simp
    · simp only [toList_text, List.append_assoc]
  have hfound : declaration? before (declaration.text.toList ++ rest) =
      some (declaration.found, [' '] ++ (emptyBody ++ rest)) := by
    rw [toList_text]
    simp only [List.append_assoc]
    exact declaration?_append declaration.isName isRun_blank (apart_emptyBody rest) _ _ _ isRun_blank
      start
  have hbody : ∀ before, declarationsFrom before 0 ([' '] ++ (emptyBody ++ rest)) =
      declarationsFrom (some '\n') 0 rest := by
    intro before
    have hchars : [' '] ++ (emptyBody ++ rest) = ' ' :: '\x7b' :: '\x7d' :: '\n' :: rest := rfl
    rw [hchars, declarationsFrom_plain (plain_cons (by decide) (by decide)),
      declarationsFrom_plain (plain_cons (by decide) (by decide)),
      declarationsFrom_plain (plain_cons (by decide) (by decide)),
      declarationsFrom_plain (plain_cons (by decide) (by decide))]
  rw [htext] at hfound ⊢
  obtain ⟨before', hscan⟩ := declarationsFrom_found hne hfound
  rw [hscan, hbody]

/-- The line of the words, without its end. -/
def line : List Char :=
  declaration.found.modifierText ++ (declaration.keyword.text.toList ++
    ([' '] ++ (declaration.name.toList ++ " \x7b\x7d".toList)))

theorem toList_text_line :
    declaration.text.toList = declaration.found.annotationText ++ (declaration.line ++ ['\n']) := by
  have hbody : [' '] ++ emptyBody = " \x7b\x7d".toList ++ ['\n'] := rfl
  rw [toList_text, line, hbody]
  simp only [List.append_assoc]

theorem isInLine_line : ∀ c ∈ declaration.line, isInLine c = true := by
  have hmodifiers : ∀ c ∈ declaration.found.modifierText, isInLine c = true := by
    intro c hc
    obtain ⟨modifier, hm, hc⟩ := List.mem_flatMap.1 hc
    obtain ⟨word, -, rfl⟩ := List.mem_map.1 hm
    rcases List.mem_append.1 hc with hc | hc
    · exact isInLine_of_mem_reservedWords (List.mem_append_left _ word.2) c hc
    · cases List.mem_singleton.1 hc
      decide
  have hkeyword : ∀ c ∈ declaration.keyword.text.toList, isInLine c = true := by
    cases declaration.keyword <;> exact List.all_eq_true.1 (by decide)
  have hname : ∀ c ∈ declaration.name.toList, isInLine c = true := fun c hc =>
    isInLine_of_isDotted (isDotted_of_isWord (declaration.isName.2 c hc))
  have hblank : isInLine ' ' = true := by decide
  have hbody : ∀ c ∈ " \x7b\x7d".toList, isInLine c = true := List.all_eq_true.1 (by decide)
  rw [line]
  simp only [List.forall_mem_append, List.forall_mem_singleton]
  exact ⟨hmodifiers, hkeyword, hblank, hname, hbody⟩

/-- The line starts with a modifier or the keyword. -/
theorem exists_firstWord : ∃ word : String, ∃ more,
    declaration.line = word.toList ++ more ∧ word ∈ "@interface" :: reservedWords := by
  rw [line, found]
  rcases declaration.modifiers with - | ⟨word, modifiers⟩
  · refine ⟨declaration.keyword.text, _, rfl, ?_⟩
    cases declaration.keyword <;> decide
  · have hline : ∀ text, ((word :: modifiers).map blankBehind).flatMap Modifier.spelled ++ text =
        word.1.toList ++ ([' '] ++ ((modifiers.map blankBehind).flatMap Modifier.spelled ++ text)) := by
      intro text
      simp only [List.map_cons, List.flatMap_cons, blankBehind, Modifier.spelled, List.append_assoc]
    exact ⟨word.1, _, hline _, List.mem_cons_of_mem _ (List.mem_append_left _ word.2)⟩

/-- Neither the annotations nor the line below them are a package clause. -/
theorem packageFrom_text (rest : List Char) :
    packageFrom true (declaration.text.toList ++ rest) = packageFrom true rest := by
  obtain ⟨word, more, hline, hword⟩ := declaration.exists_firstWord
  have hfeed := feed_of_isInLine declaration.isInLine_line
  rw [toList_text_line, List.append_assoc, found, packageFrom_annotations, List.append_assoc,
    List.singleton_append]
  rw [hline] at hfeed ⊢
  rw [List.append_assoc, packageFrom_word hword hfeed]

/-- No comment or literal starts in a declaration. -/
theorem isCode_text : ∀ c ∈ declaration.text.toList, isCode c = true := by
  have hcode : ∀ {c}, isInLine c = true → isCode c = true := fun h => (Bool.and_eq_true_iff.1 h).1
  rw [toList_text_line]
  simp only [List.forall_mem_append, List.forall_mem_singleton]
  refine ⟨fun c hc => ?_, fun c hc => hcode (declaration.isInLine_line c hc), by decide⟩
  obtain ⟨mark, hm, hc⟩ := List.mem_flatMap.1 hc
  obtain ⟨applied, -, rfl⟩ := List.mem_map.1 hm
  obtain ⟨line, hline, hall⟩ := applied.exists_line
  rw [hline, List.mem_cons, List.mem_append, List.mem_singleton] at hc
  rcases hc with rfl | hc | rfl
  · decide
  · exact hcode (hall c hc)
  · decide

/-- The words of the modifiers. -/
theorem words_modifierText :
    Text.words declaration.found.modifierText = (declaration.modifiers.map (·.1)).map String.toList := by
  rw [found]
  induction declaration.modifiers with
  | nil => rfl
  | cons word modifiers ih =>
    have run := isRun_of_mem_reservedWords (List.mem_append_left _ word.2)
    simp only [List.map_cons, List.flatMap_cons, blankBehind, Modifier.spelled, List.append_assoc]
    rw [List.singleton_append, words_cons run, ih]

theorem ofDeclaration_found : ElementKind.ofDeclaration declaration.found = declaration.kind := by
  have hmarked : ∀ word : String, (Text.words declaration.found.modifierText).contains word.toList =
      decide (word ∈ declaration.modifiers.map (·.1)) := by
    intro word
    rw [words_modifierText, List.contains_eq_mem, decide_eq_decide]
    exact List.mem_map_of_injective fun _ _ => String.toList_injective
  have hkeyword : declaration.found.keyword = declaration.keyword := rfl
  simp only [ElementKind.ofDeclaration, hmarked, kind, decide_eq_true_eq, hkeyword]
  cases declaration.keyword <;> rfl

/-- The element that is made of the declaration as it is found again. -/
theorem ofDeclaration_element (source : Path) (package : Option String) :
    Element.ofDeclaration source package declaration.found = declaration.element source package := by
  have hnames : namesAfterAt declaration.found.annotationText =
      declaration.annotations.map (·.name) := by
    rw [found, namesAfterAt_flatMap_spelled, List.flatMap_map, List.map_eq_flatMap]
    exact List.flatMap_congr fun applied _ => applied.names_mark
  rw [Element.ofDeclaration, hnames, ofDeclaration_found, element]
  simp only [found, String.ofList_toList]

end WrittenDeclaration

/-! ## Declarations in a file -/

/-- What stands in front of the declarations holds the clause of the package, if there is one, and
    nothing else. -/
structure Precedes (front : List Char) (package : Option String) : Prop where
  code : ∀ c ∈ front, isCode c = true
  passed : ∀ rest, ∃ before, wordMayStart before = true ∧
    declarations (front ++ rest) = declarationsFrom before 0 rest
  clause : ∀ rest, packageFrom true rest = none → package? (front ++ rest) = package

theorem precedes_nil : Precedes [] none where
  code := fun _ hm => absurd hm List.not_mem_nil
  passed := fun _ => ⟨none, rfl, rfl⟩
  clause := by
    intro rest hnone
    rw [List.nil_append, package?, hnone]
    rfl

/-- A package clause that ends in a semicolon, with empty lines behind it. -/
theorem precedes_clause {package : String} (run : IsRun isDotted package.toList) {empty : List Char}
    (feeds : ∀ c ∈ empty, c = '\n') :
    Precedes ("package".toList ++ (' ' :: package.toList) ++ (';' :: empty) ++ ['\n']) (some package) where
  code := by
    simp only [List.forall_mem_append, List.forall_mem_cons]
    refine ⟨⟨⟨List.all_eq_true.1 (by decide), by decide, fun c hc => isCode_of_isDotted (run.2 c hc)⟩,
      by decide, fun c hc => ?_⟩, by decide, fun c hc => absurd hc List.not_mem_nil⟩
    rw [feeds c hc]
    decide
  passed := by
    intro rest
    have hword : PassedOver "package".toList
        ((' ' :: package.toList) ++ ((';' :: empty) ++ ('\n' :: rest))) := by
      refine passedOver_word (List.all_eq_true.1 (by decide)) (fun part hpart => ?_)
        (stops_cons.2 (by decide))
      have hall : ∀ part ∈ "package".toList.tails, String.ofList part ∉ reservedWords := by decide
      exact hall part ((List.mem_tails _ _).2 hpart)
    have hname : PassedOver (' ' :: package.toList) ((';' :: empty) ++ ('\n' :: rest)) :=
      (passedOver_dotted run.2 (stops_cons.2 (by decide)) (stops_cons.2 (by decide))).cons
        (plain_cons (by decide) (by decide))
    have hend : PassedOver (';' :: empty) ('\n' :: rest) := by
      refine passedOver_plain (List.forall_mem_cons.2 ⟨by decide, fun c hc => ?_⟩)
      rw [feeds c hc]
      decide
    obtain ⟨before, hpassed⟩ := ((hword.append hname).append hend) none
    refine ⟨some '\n', rfl, ?_⟩
    rw [declarations, List.append_assoc, List.singleton_append, hpassed,
      declarationsFrom_plain (plain_cons (by decide) (by decide))]
  clause := by
    intro rest _
    have stops : Stops isDotted ((';' :: empty) ++ ('\n' :: rest)) := stops_cons.2 (by decide)
    have hclause := packageFrom_clause run stops
    rw [package?, List.append_assoc, List.append_assoc, List.append_assoc, List.singleton_append,
      List.cons_append, hclause, Option.map_some, String.ofList_toList]

section File

variable {front : List Char} {package : Option String} {before : Option Char}

theorem declarationsFrom_texts (start : wordMayStart before = true) (written : List WrittenDeclaration) :
    declarationsFrom before 0 (written.flatMap fun one => one.text.toList) =
      written.map WrittenDeclaration.found := by
  induction written generalizing before with
  | nil => rw [List.flatMap_nil, declarationsFrom, List.map_nil]
  | cons one written ih =>
    rw [List.flatMap_cons, one.declarationsFrom_text start, ih (by decide), List.map_cons]

theorem packageFrom_texts (written : List WrittenDeclaration) :
    packageFrom true (written.flatMap fun one => one.text.toList) = none := by
  induction written with
  | nil => rfl
  | cons one written ih => rw [List.flatMap_cons, one.packageFrom_text, ih]

/-- Behind a package clause, or none, the declarations are read that are printed, in order. -/
theorem parse_behind (precedes : Precedes front package) (written : List WrittenDeclaration)
    (source : Path) {content : String}
    (h : content.toList = front ++ written.flatMap fun one => one.text.toList) :
    Element.parse source content = written.map (·.element source package) := by
  have hcode : codeOnly content.toList = content.toList := by
    refine codeOnly_plain ?_
    rw [h, List.forall_mem_append]
    refine ⟨precedes.code, fun c hc => ?_⟩
    obtain ⟨one, -, hc⟩ := List.mem_flatMap.1 hc
    exact one.isCode_text c hc
  obtain ⟨before, start, hpassed⟩ := precedes.passed (written.flatMap fun one => one.text.toList)
  simp only [Element.parse, hcode]
  rw [h, hpassed, precedes.clause _ (packageFrom_texts written), declarationsFrom_texts start,
    List.map_map]
  exact List.map_congr_left fun one _ => one.ofDeclaration_element source package

end File

end Source

namespace Element

open Source

/-- **Parsing undoes printing**: the declarations of a file are read from its text, each with the
    package, its name, its annotations and its kind, in order. -/
theorem parse_text (source : Path) (file : WrittenFile) :
    parse source file.text = file.declarations.map (·.element source file.package) := by
  have hjoin : (String.join (file.declarations.map WrittenDeclaration.text)).toList =
      file.declarations.flatMap fun one => one.text.toList := by
    rw [String.toList_join, List.flatMap_map]
  rcases hpackage : file.package with - | package
  · refine parse_behind precedes_nil file.declarations source ?_
    rw [WrittenFile.text, hpackage, String.toList_append, hjoin]
    rfl
  · have run := file.isPackage package hpackage
    have hempty : ∀ c ∈ ([] : List Char), c = '\n' := fun _ hm => absurd hm List.not_mem_nil
    refine parse_behind (precedes_clause run hempty) file.declarations source ?_
    rw [WrittenFile.text, hpackage, String.toList_append, hjoin]
    simp [String.toList_append]

/-- Words that may be taken for something else: a modifier for a keyword, a keyword for an annotation,
    and both for a name. -/
example : parse ⟨"X.kt"⟩ ("package p.q;\n@A(x = 1)\n@b.B\nenum class enum \x7b\x7d\n" ++
      "@interface class \x7b\x7d\n") =
    [⟨.enum, some "p.q", "enum", ["A", "b.B"], ⟨"X.kt"⟩⟩,
      ⟨.annotationType, some "p.q", "class", [], ⟨"X.kt"⟩⟩] := by
  decide +kernel

end Element

end KotlinHarness
