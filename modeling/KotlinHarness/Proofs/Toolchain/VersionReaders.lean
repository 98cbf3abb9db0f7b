/-
  One version, read from different texts.

  A version stands in quotes in a `release` file and in what `java` prints, and behind the name of
  the tool in what `javac` prints.  Each reader cuts out the word that it looks for, and parsing
  takes off what is left around it (`core_quoted`, `core_named`), so all of them give what the word
  alone gives.

  A word of the scheme of today, written behind a 1, is a word of the older scheme for the same
  release: the 1 is one component more, and all others move one place (`ofWord?_behindOne`).

    * `readers_agree`   a version is the same wherever it is read
    * `schemes_agree`   a version is the same in both numbering schemes
-/
import KotlinHarness.Proofs.Toolchain.VersionText
import KotlinHarness.Toolchain.Host

namespace KotlinHarness

/-! ## What stands first in a text -/

namespace Text

variable {mark : List Char} {pieces : List (List Char)} {piece : List Char}

/-- `piece` is the first of `pieces` that starts with `mark`. -/
def IsFirstWith (mark : List Char) (pieces : List (List Char)) (piece : List Char) : Prop :=
  mark <+: piece ∧
    ∃ before after, pieces = before ++ piece :: after ∧ ∀ other ∈ before, ¬ mark <+: other

theorem isPrefixOf?_eq_none_iff {text : List Char} :
    mark.isPrefixOf? text = none ↔ ¬ mark <+: text := by
  rw [← Option.not_isSome_iff_eq_none, List.isSome_isPrefixOf?_eq_isPrefixOf,
    List.isPrefixOf_iff_prefix]

theorem IsFirstWith.find? (h : IsFirstWith mark pieces piece) :
    pieces.find? (mark.isPrefixOf ·) = some piece := by
  obtain ⟨hstarts, before, after, rfl, hbefore⟩ := h
  rw [List.find?_append, List.find?_eq_none.2, Option.none_or, List.find?_cons_of_pos]
  · exact List.isPrefixOf_iff_prefix.2 hstarts
  · intro other hm hother
    exact hbefore other hm (List.isPrefixOf_iff_prefix.1 hother)

theorem IsFirstWith.findSome? {rest : List Char} (h : IsFirstWith mark pieces (mark ++ rest)) :
    pieces.findSome? (mark.isPrefixOf? ·) = some rest := by
  obtain ⟨-, before, after, rfl, hbefore⟩ := h
  have hself : mark.isPrefixOf? (mark ++ rest) = some rest :=
    List.isPrefixOf?_eq_some_iff_append_eq.2 rfl
  rw [List.findSome?_append, List.findSome?_eq_none_iff.2, Option.none_or, List.findSome?_cons,
    hself]
  exact fun other hm => isPrefixOf?_eq_none_iff.2 (hbefore other hm)

end Text

namespace JavaVersion

open Text

variable {text word : List Char} {v : JavaVersion}

/-! ## Words that nothing is taken off -/

/-- A text without white space and quotes. -/
def IsBare (word : List Char) : Prop := ∀ c ∈ word, isSpace c = false ∧ c ≠ '"'

instance (word : List Char) : Decidable (IsBare word) :=
  decidable_of_iff (word.all fun c => !isSpace c && c != '"') (by simp [IsBare])

theorem IsBare.quote (h : IsBare word) {c : Char} (hc : c ∈ word) : (c == '"') = false :=
  beq_eq_false_iff_ne.2 (h c hc).2

theorem IsBare.dropWhile_append (h : IsBare word) (hne : word ≠ []) (rest : List Char) :
    (word ++ rest).dropWhile (· == '"') = word ++ rest := by
  obtain ⟨c, others, rfl⟩ := List.exists_cons_of_ne_nil hne
  rw [List.cons_append, List.dropWhile_cons, h.quote List.mem_cons_self]
  rfl

/-- A bare word has no room for the name of a tool and a blank. -/
theorem IsBare.not_named (h : IsBare word) (name : List Char) (hblank : ' ' ∈ name) :
    name.isPrefixOf? word = none := by
  refine isPrefixOf?_eq_none_iff.2 fun hstarts => ?_
  have hspace := (h ' ' (hstarts.mem hblank)).1
  cases hspace

theorem IsBare.firstWord_trim (h : IsBare word) : firstWord (trim word) = word := by
  rw [trim_of_none fun c hc => (h c hc).1, firstWord_of_none fun c hc => (h c hc).1]

/-- What is read from a text that is a bare word once quotes around it are taken off. -/
theorem core_of_unquote (h : IsBare word) (htext : unquote (trim text) = word) :
    core text = word := by
  rw [core, htext]
  simp only [h.not_named "javac ".toList (by decide), h.not_named "java ".toList (by decide)]
  exact h.firstWord_trim

theorem core_bare (h : IsBare word) (hne : word ≠ []) : core word = word := by
  refine core_of_unquote h ?_
  have hstart := h.dropWhile_append hne []
  rw [List.append_nil] at hstart
  rw [trim_of_none fun c hc => (h c hc).1, unquote, hstart, dropEndWhile_of_none fun _ => h.quote]

theorem core_quoted (h : IsBare word) (hne : word ≠ []) : core ('"' :: (word ++ ['"'])) = word := by
  refine core_of_unquote h ?_
  have hspace : ∀ c ∈ '"' :: (word ++ ['"']), isSpace c = false := by
    intro c hc
    simp only [List.mem_cons, List.mem_append, List.not_mem_nil, or_false] at hc
    rcases hc with rfl | hc | rfl
    · rfl
    · exact (h c hc).1
    · rfl
  have hstart : ('"' :: (word ++ ['"'])).dropWhile (· == '"') = word ++ ['"'] := by
    rw [List.dropWhile_cons_of_pos (by rfl), h.dropWhile_append hne]
  rw [trim_of_none hspace, unquote, hstart, dropEndWhile_eq_rdropWhile,
    List.rdropWhile_concat_pos _ _ _ (by rfl), ← dropEndWhile_eq_rdropWhile,
    dropEndWhile_of_none fun _ => h.quote]

theorem core_named (h : IsBare word) (hne : word ≠ []) : core ("javac ".toList ++ word) = word := by
  have hlast : ∀ c ∈ ("javac ".toList ++ word).getLast?, c ∈ word := by
    intro c hc
    rw [List.getLast?_append, List.getLast?_eq_some_getLast hne] at hc
    exact Option.some.inj hc ▸ List.getLast_mem hne
  have htrim : trim ("javac ".toList ++ word) = "javac ".toList ++ word := by
    have := @trim_append [] ("javac ".toList ++ word) [] (by simp) (by simp)
      (by rintro c ⟨⟩; rfl) (fun c hc => (h c (hlast c hc)).1)
    rwa [List.nil_append, List.append_nil] at this
  have hunquote : unquote ("javac ".toList ++ word) = "javac ".toList ++ word := by
    have hend : dropEndWhile (· == '"') ("javac ".toList ++ word) = "javac ".toList ++ word := by
      rw [dropEndWhile_eq_rdropWhile, List.rdropWhile_eq_self_iff]
      intro hne'
      simpa using h.quote (hlast _ (List.getLast?_eq_some_getLast hne'))
    exact hend
  have hnamed : "javac ".toList.isPrefixOf? ("javac ".toList ++ word) = some word :=
    List.isPrefixOf?_eq_some_iff_append_eq.2 rfl
  rw [core, htrim, hunquote]
  simp only [hnamed]
  exact h.firstWord_trim

/-! ## The places where versions are read -/

/-- The first text in quotes is found at the first mark: nothing is found at any place before it, by
    induction on what precedes it. -/
theorem quotedAfterMarker_eq {before inside after : List Char}
    (hcut : IsCutAtFirst "version \"".toList before (inside ++ '"' :: after) text)
    (hne : inside ≠ []) (hquote : '"' ∉ inside) : quotedAfterMarker text = some inside := by
  induction before generalizing text with
  | nil =>
    obtain ⟨rfl, -⟩ := hcut
    have hpart : ∀ c ∈ inside, (c != '"') = true := by
      intro c hc
      rw [bne_iff_ne]
      rintro rfl
      exact hquote hc
    have htake : (inside ++ '"' :: after).takeWhile (· != '"') = inside := by
      rw [List.takeWhile_append_of_pos hpart, List.takeWhile_cons_of_neg (by simp),
        List.append_nil]
    have hinside : inside.isEmpty = false := List.isEmpty_eq_false_iff.2 hne
    have hself : "version \"".toList.isPrefixOf? ("version \"".toList ++ (inside ++ '"' :: after)) =
        some (inside ++ '"' :: after) := List.isPrefixOf?_eq_some_iff_append_eq.2 rfl
    show quotedAfterMarker ('v' :: ("ersion \"".toList ++ (inside ++ '"' :: after))) = some inside
    rw [quotedAfterMarker]
    show (Option.bind ("version \"".toList.isPrefixOf?
      ("version \"".toList ++ (inside ++ '"' :: after))) _ <|> _) = _
    rw [hself]
    simp only [Option.bind_some, htake, hinside, List.drop_left, List.isEmpty_cons, Bool.or_false]
    rfl
  | cons c before ih =>
    obtain ⟨rest, rfl⟩ : ∃ rest, text = c :: rest := ⟨_, hcut.1⟩
    obtain ⟨htail, hnot⟩ := hcut.tail
    rw [quotedAfterMarker, isPrefixOf?_eq_none_iff.2 hnot]
    exact ih htail

theorem ofReleaseFile?_eq {content v : String} (h : IsBare v.toList) (hne : v.toList ≠ [])
    (hfirst : IsFirstWith "JAVA_VERSION=".toList (lines content.toList)
      ("JAVA_VERSION=\"" ++ v ++ "\"").toList) :
    ofReleaseFile? content = parse? v := by
  have hline : ("JAVA_VERSION=\"" ++ v ++ "\"").toList =
      "JAVA_VERSION=".toList ++ '"' :: (v.toList ++ ['"']) := by
    simp [String.toList_append]
  rw [hline] at hfirst
  rw [ofReleaseFile?, hfirst.findSome?, Option.bind_some, parse?, parse?, String.toList_ofList,
    core_quoted h hne, core_bare h hne]

theorem ofJavaOutput?_eq {output v : String} {before after : List Char} (h : IsBare v.toList)
    (hne : v.toList ≠ [])
    (hcut : IsCutAtFirst "version \"".toList before (v.toList ++ '"' :: after) output.toList) :
    ofJavaOutput? output = parse? v := by
  have hquote : '"' ∉ v.toList := fun hm => (h _ hm).2 rfl
  rw [ofJavaOutput?, quotedAfterMarker_eq hcut hne hquote, Option.bind_some, String.ofList_toList]

theorem ofJavacOutput?_eq {output v : String} (h : IsBare v.toList) (hne : v.toList ≠ [])
    (hfirst : IsFirstWith "javac ".toList ((lines output.toList).map trim) ("javac " ++ v).toList) :
    ofJavacOutput? output = parse? v := by
  rw [ofJavacOutput?, hfirst.find?, Option.bind_some, String.ofList_toList, parse?, parse?,
    String.toList_append, core_named h hne, core_bare h hne]

/-- **A version is the same wherever it is read.**  The release file of a JDK whose first line for
    the version has it in quotes, an output of `java` that first mentions it in quotes, and an output
    of `javac` whose first line with the tool's name has it alone behind the name, whatever else
    stands in these texts, are read as the version itself is, or not at all when it is none. -/
theorem readers_agree {v : String} (hne : v ≠ "") (hbare : IsBare v.toList) (env : Environment)
    (home : Path) (release java javac : String) (before after : List Char)
    (hread : env.readText (home / "release") = .ok release)
    (hrelease : IsFirstWith "JAVA_VERSION=".toList (lines release.toList)
      ("JAVA_VERSION=\"" ++ v ++ "\"").toList)
    (hjava : IsCutAtFirst "version \"".toList before (v.toList ++ '"' :: after) java.toList)
    (hjavac : IsFirstWith "javac ".toList ((lines javac.toList).map trim) ("javac " ++ v).toList) :
    Host.releaseVersion? env home = parse? v ∧ ofJavaOutput? java = parse? v ∧
      ofJavacOutput? javac = parse? v := by
  have hchars : v.toList ≠ [] := fun h => hne (String.toList_eq_nil_iff.1 h)
  refine ⟨?_, ofJavaOutput?_eq hbare hchars hjava, ofJavacOutput?_eq hbare hchars hjavac⟩
  rw [Host.releaseVersion?, hread]
  exact ofReleaseFile?_eq hbare hchars hrelease

/-- The files of a JDK of the older scheme with one more line of every kind. -/
def legacyJdk : Environment :=
  { (default : Environment) with
    files := FileTree.empty.insert ["release"]
      (.file ⟨encode "IMPLEMENTOR=\"x\"\nJAVA_VERSION=\"1.8.0_292\"\r\nJAVA_VERSION=\"9\"\n",
        .plain⟩) }

theorem legacyJdk_agrees :
    Host.releaseVersion? legacyJdk ⟨"/"⟩ = some ⟨8, 0, 292, "1.8.0_292"⟩ ∧
      ofJavaOutput? "openjdk version \"1.8.0_292\"\nOpenJDK version \"9\"" =
        some ⟨8, 0, 292, "1.8.0_292"⟩ ∧
      ofJavacOutput? "Picked up: javac\n  javac 1.8.0_292\njavac 9\n" =
        some ⟨8, 0, 292, "1.8.0_292"⟩ := by
  have hparse : parse? "1.8.0_292" = some ⟨8, 0, 292, "1.8.0_292"⟩ := by decide +kernel
  rw [← hparse]
  exact readers_agree (by decide) (by decide +kernel) legacyJdk ⟨"/"⟩
    "IMPLEMENTOR=\"x\"\nJAVA_VERSION=\"1.8.0_292\"\r\nJAVA_VERSION=\"9\"\n" _ _
    "openjdk ".toList "\nOpenJDK version \"9\"".toList (by decide +kernel)
    ⟨by decide +kernel, ["IMPLEMENTOR=\"x\"".toList], ["JAVA_VERSION=\"9\"".toList],
      by decide +kernel, by decide +kernel⟩
    (by unfold IsCutAtFirst; decide +kernel)
    ⟨by decide +kernel, ["Picked up: javac".toList], ["javac 9".toList], by decide +kernel,
      by decide +kernel⟩

/-! ## The two numbering schemes -/

/-- The digits at the start of a word are those at the start of its first piece. -/
theorem takeWhile_head {head : List Char} {pieces : List (List Char)}
    (h : splitWhere isSeparator word = head :: pieces) :
    head.takeWhile Char.isDigit = word.takeWhile Char.isDigit := by
  induction word generalizing head pieces with
  | nil =>
    cases h
    rfl
  | cons c rest ih =>
    rw [splitWhere] at h
    by_cases hsep : isSeparator c = true
    · rw [if_pos hsep] at h
      cases h
      have hdigit : ¬ c.isDigit = true := by
        intro hdigit
        rw [isSeparator_of_isDigit hdigit] at hsep
        cases hsep
      rw [List.takeWhile_cons_of_neg hdigit]
      rfl
    · rw [if_neg hsep] at h
      rcases hrest : splitWhere isSeparator rest with - | ⟨piece, others⟩
      · exact absurd hrest (splitWhere_ne_nil _ _)
      · rw [hrest] at h
        cases h
        rw [List.takeWhile_cons, List.takeWhile_cons, ih hrest]

/-- A word behind a 1 and a separator has its numbers in the places where it has them alone. -/
theorem ofWord?_behindOne {sep : Char} (hsep : isSeparator sep = true)
    (hone : leadingNumber? word ≠ some 1) (h : ofWord? word = some v) :
    ofWord? ('1' :: sep :: word) = some (v.withText ('1' :: sep :: word)) := by
  have hsplit : splitWhere isSeparator ('1' :: sep :: word) =
      ['1'] :: splitWhere isSeparator word :=
    @splitWhere_append_cons _ ['1'] sep (by simp [isSeparator]) hsep word
  have hlead : leadingNumber? ['1'] = some 1 := by decide
  rw [ofWord?] at h
  rcases hword : splitWhere isSeparator word with - | ⟨head, pieces⟩
  · exact absurd hword (splitWhere_ne_nil _ _)
  have hhead : leadingNumber? head = leadingNumber? word := by
    rw [leadingNumber?, leadingNumber?, takeWhile_head hword]
  rw [hword] at h
  rcases hfirst : leadingNumber? word with - | first
  · simp only [hhead, hfirst] at h
    cases h
  · have hne : first ≠ 1 := fun heq => hone (heq ▸ hfirst)
    simp only [hhead, hfirst] at h
    have hshift : shift first (leadingNumbers pieces) =
        (first, (leadingNumbers pieces).getD 0 0, (leadingNumbers pieces).getD 1 0) := by
      rw [shift]
      exact fun _ _ heq => absurd heq hne
    rw [hshift] at h
    cases h
    -- The 1 is the first component now, so the old first component is the one it is shifted to.
    rw [ofWord?, hsplit, hword]
    simp only [hlead, leadingNumbers, hhead, hfirst, shift]
    rfl

/-- A word that starts with a digit is read with the numbers it spells. -/
theorem ofWord?_eq_parse? {c : Char} {rest : List Char} (hdigit : c.isDigit = true)
    (hword : ∀ d ∈ c :: rest, isSpace d = false) :
    ofWord? (c :: rest) = (parse? (.ofList (c :: rest))).map (·.withText (c :: rest)) := by
  obtain ⟨dropped, heq, hdropped⟩ := exists_dropEndWhile (· == '"') (c :: rest)
  have hcore : core (c :: rest) = dropEndWhile (· == '"') (c :: rest) :=
    core_of_word hdigit hword
  have happend := ofWord?_append hdropped (dropEndWhile (· == '"') (c :: rest))
  rw [← heq] at happend
  rw [parse?, String.toList_ofList, hcore, happend]

/-- **A version is the same in both numbering schemes.**  A version of the scheme of today, written
    behind a 1 and any separator, is the same release with the same minor and patch numbers,
    whatever follows them. -/
theorem schemes_agree {text : String} {v : JavaVersion} (sep : Char)
    (hspace : ∀ c ∈ text.toList, isSpace c = false)
    (hdigit : ∃ c ∈ text.toList.head?, c.isDigit = true) (h : parse? text = some v)
    (hone : leadingNumber? text.toList ≠ some 1) (hsep : sep ∈ ['.', '_', '+', '-']) :
    ∃ again, parse? ("1" ++ sep.toString ++ text) = some again ∧ again.major = v.major ∧
      again.minor = v.minor ∧ again.patch = v.patch ∧ again.isModular = v.isModular := by
  obtain ⟨c, hc, hdigit⟩ := hdigit
  obtain ⟨rest, hword⟩ : ∃ rest, text.toList = c :: rest := List.head?_eq_some_iff.1 hc
  have hseparator : isSeparator sep = true ∧ isSpace sep = false := by
    simp only [List.mem_cons, List.not_mem_nil, or_false] at hsep
    rcases hsep with rfl | rfl | rfl | rfl <;> decide
  have hlong : ("1" ++ sep.toString ++ text).toList = '1' :: sep :: c :: rest := by
    simp [String.toList_append, hword]
  -- Quotes at the end are dropped from what is read, so whole words are compared first.
  have hread : ofWord? (c :: rest) = some (v.withText (c :: rest)) := by
    rw [ofWord?_eq_parse? hdigit (hword ▸ hspace), ← hword, String.ofList_toList, h,
      Option.map_some]
  have hbehind := ofWord?_behindOne hseparator.1 (hword ▸ hone) hread
  have hspaces : ∀ d ∈ '1' :: sep :: c :: rest, isSpace d = false := by
    intro d hd
    rcases List.mem_cons.1 hd with rfl | hd
    · rfl
    rcases List.mem_cons.1 hd with rfl | hd
    · exact hseparator.2
    · exact hspace d (hword ▸ hd)
  rw [ofWord?_eq_parse? (by rfl) hspaces, ← hlong, String.ofList_toList] at hbehind
  obtain ⟨again, hagain, hsame⟩ := Option.map_eq_some_iff.1 hbehind
  simp only [withText, JavaVersion.mk.injEq] at hsame
  obtain ⟨hmajor, hminor, hpatch, -⟩ := hsame
  exact ⟨again, hagain, hmajor, hminor, hpatch, by rw [isModular, isModular, hmajor]⟩

/-- A number beyond the bound ends the numbers in both schemes, and a quote at the end is
    dropped. -/
theorem earlyAccess_agrees :
    parse? "21.3.4294967296-ea\"" = some ⟨21, 3, 0, "21.3.4294967296-ea"⟩ ∧
      ∃ again, parse? "1_21.3.4294967296-ea\"" = some again ∧ again.major = 21 ∧
        again.minor = 3 ∧ again.patch = 0 ∧ again.isModular = true := by
  have hparse : parse? "21.3.4294967296-ea\"" = some ⟨21, 3, 0, "21.3.4294967296-ea"⟩ := by
    decide +kernel
  have htext : "1" ++ '_'.toString ++ "21.3.4294967296-ea\"" = "1_21.3.4294967296-ea\"" := by
    decide +kernel
  have hspace : "21.3.4294967296-ea\"".toList.all (!isSpace ·) = true := by decide +kernel
  simp only [List.all_eq_true, Bool.not_eq_true'] at hspace
  have hagain := schemes_agree '_' hspace ⟨'2', by decide +kernel, rfl⟩ hparse
    (by decide +kernel) (by decide)
  rw [htext] at hagain
  exact ⟨hparse, hagain⟩

end JavaVersion

end KotlinHarness
