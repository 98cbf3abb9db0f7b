/-
  The names that are read from sources.

  A scanner takes a name as a run of characters of one class, so a declaration has a name made of
  word characters, at least one, and the parts of a package between its dots have no others.  Neither
  a slash nor a dot is among them: what is written for a declaration goes into directories named by
  the parts of its package, and nowhere else.
-/
import KotlinHarness.Proofs.Files.Listing
import KotlinHarness.Source.Element

namespace KotlinHarness

namespace Text

theorem isDotted_of_isWord {c : Char} (h : isWord c = true) : isDotted c = true := by
  rw [isDotted, h, Bool.true_or]

theorem slash_of_isDotted {c : Char} (h : isDotted c = true) : c ≠ '/' := by
  rintro rfl
  revert h
  decide

end Text

namespace Source

/-- A name as a scanner takes it: at least one character, all of one class. -/
def IsRun (p : Char → Bool) (name : List Char) : Prop := name ≠ [] ∧ ∀ c ∈ name, p c = true

theorem isRun_of_run? {p : Char → Bool} {text name rest : List Char}
    (h : run? p text = some (name, rest)) : IsRun p name := by
  simp only [run?] at h
  split at h
  · cases h
  · next hempty =>
    cases h
    refine ⟨fun hnil => hempty (List.isEmpty_iff.2 hnil), fun c hc => ?_⟩
    exact List.all_eq_true.1 List.all_takeWhile c hc

theorem isRun_of_declarationHead? {mayStart : Bool} {text name rest : List Char} {keyword : Keyword}
    (h : declarationHead? mayStart text = some (keyword, name, rest)) : IsRun Text.isWord name := by
  simp only [declarationHead?] at h
  obtain ⟨candidate, -, hfound⟩ := List.exists_of_findSome?_eq_some h
  simp only [Option.bind_eq_bind, Option.bind_eq_some_iff, Option.pure_def, Option.some.injEq] at hfound
  obtain ⟨_, -, _, -, ⟨found, after⟩, hrun, hsame⟩ := hfound
  cases hsame
  exact isRun_of_run? hrun

theorem isRun_of_declaration? {before : Option Char} {text after : List Char} {found : Declaration}
    (h : declaration? before text = some (found, after)) : IsRun Text.isWord found.name := by
  obtain ⟨⟨marks, mayStart⟩, -, hmarks⟩ := List.exists_of_findSome?_eq_some h
  simp only [declarationAfter?] at hmarks
  obtain ⟨⟨mods, mayStart⟩, -, hmods⟩ := List.exists_of_findSome?_eq_some hmarks
  obtain ⟨⟨keyword, name, rest⟩, hhead, hfound⟩ := Option.map_eq_some_iff.1 hmods
  cases hfound
  exact isRun_of_declarationHead? hhead

/-- A declaration that was found is recognized somewhere in the text. -/
theorem exists_declaration_of_mem {before : Option Char} {inside : Nat} {code : List Char}
    {found : Declaration} (h : found ∈ declarationsFrom before inside code) :
    ∃ before' front text rest, code = front ++ text ∧
      declaration? before' text = some (found, rest) := by
  induction code generalizing before inside with
  | nil =>
    rw [declarationsFrom] at h
    exact absurd h List.not_mem_nil
  | cons c more ih =>
    have hmore : ∀ {inside}, found ∈ declarationsFrom (some c) inside more →
        ∃ before' front text rest, c :: more = front ++ text ∧
          declaration? before' text = some (found, rest) := by
      intro inside hm
      obtain ⟨before', front, text, rest, rfl, hfound⟩ := ih hm
      exact ⟨before', c :: front, text, rest, rfl, hfound⟩
    cases inside with
    | succ inside =>
      rw [declarationsFrom] at h
      exact hmore h
    | zero =>
      rw [declarationsFrom] at h
      split at h
      · next declared after hdeclared =>
        rcases List.mem_cons.1 h with rfl | h
        · exact ⟨before, [], c :: more, after, rfl, hdeclared⟩
        · exact hmore h
      · exact hmore h

theorem isRun_of_mem_declarationsFrom {before : Option Char} {inside : Nat} {code : List Char}
    {found : Declaration} (h : found ∈ declarationsFrom before inside code) :
    IsRun Text.isWord found.name := by
  obtain ⟨_, _, _, _, -, hfound⟩ := exists_declaration_of_mem h
  exact isRun_of_declaration? hfound

theorem isRun_of_packageFrom {atLineStart : Bool} {code name : List Char}
    (h : packageFrom atLineStart code = some name) : IsRun Text.isDotted name := by
  induction code generalizing atLineStart with
  | nil => cases h
  | cons c rest ih =>
    rw [packageFrom, Option.orElse_eq_orElse, Option.orElse_eq_or, Option.or_eq_some_iff] at h
    rcases h with h | ⟨-, h⟩
    · split at h
      · simp only [packageClause?, Option.bind_eq_bind, Option.bind_eq_some_iff, Option.pure_def,
          Option.some.injEq] at h
        obtain ⟨_, -, _, -, ⟨found, after⟩, hrun, rfl⟩ := h
        exact isRun_of_run? hrun
      · cases h
    · exact ih h

end Source

namespace Element

/-- Names of files and directories can be made from an element. -/
structure IsNamed (element : Element) : Prop where
  name : Source.IsRun Text.isWord element.name.toList
  package : ∀ package, element.package = some package → ∀ c ∈ package.toList, Text.isDotted c = true

theorem isNamed_of_mem_parse {source : Path} {content : String} {element : Element}
    (h : element ∈ parse source content) : element.IsNamed := by
  simp only [parse] at h
  obtain ⟨found, hfound, rfl⟩ := List.mem_map.1 h
  constructor
  · simp only [ofDeclaration, String.toList_ofList]
    exact Source.isRun_of_mem_declarationsFrom hfound
  · intro package hpackage c hc
    obtain ⟨name, hname, rfl⟩ := Option.map_eq_some_iff.1 hpackage
    rw [String.toList_ofList] at hc
    exact (Source.isRun_of_packageFrom hname).2 c hc

end Element

end KotlinHarness
