/-
  The names that are reported for the annotations of a declaration.

  The names of annotations are searched for once more in the text of the row that a declaration has
  in front.  So an annotation contributes its name and the names behind at signs between its
  parentheses (`Mark.names`), and the latter are names of no annotation of the declaration
  (`argument_reported`).  `names_reported` says which names there are: those of the row that the site of
  the declaration has in front, and no others, unless there are at signs between parentheses.
-/
import KotlinHarness.Proofs.Source.Sites

namespace KotlinHarness

namespace Source

open Text

variable {text rest name : List Char}

/-! ## Names behind at signs -/

/-- Where a name cannot go on, the names of both sides are found. -/
theorem namesAfterAt_append (stops : Stops isDotted rest) :
    namesAfterAt (text ++ rest) = namesAfterAt text ++ namesAfterAt rest := by
  induction text with
  | nil => rfl
  | cons c more ih =>
    rw [List.cons_append, namesAfterAt, namesAfterAt]
    have hname : (more ++ rest).takeWhile isDotted = more.takeWhile isDotted := by
      rw [List.takeWhile_append]
      split
      · next hall =>
        rw [stops.takeWhile.1, List.append_nil]
        exact (List.takeWhile_prefix isDotted).eq_of_length hall |>.symm
      · rfl
    simp only [hname, ih]
    split
    · split <;> rfl
    · rfl

theorem at_of_isDotted {c : Char} (h : isDotted c = true) : c ≠ '@' := by
  rintro rfl
  revert h
  decide

/-- A name behind an at sign is found as a whole. -/
theorem namesAfterAt_name (run : IsRun isDotted name) (stops : Stops isDotted rest) :
    namesAfterAt ('@' :: (name ++ rest)) = String.ofList name :: namesAfterAt rest := by
  have hat : '@' ∉ name := fun hm => at_of_isDotted (run.2 _ hm) rfl
  have hne : name.isEmpty = false := by simpa using run.1
  rw [namesAfterAt, if_pos rfl]
  simp only [(takeWhile_append run.2 stops).1, hne, Bool.false_eq_true, if_false]
  rw [namesAfterAt_skip hat]

/-- A name that is found stands behind an at sign. -/
theorem exists_at_of_mem_namesAfterAt {found : String} (h : found ∈ namesAfterAt text) :
    ∃ front behind, text = front ++ '@' :: (found.toList ++ behind) := by
  induction text with
  | nil => cases h
  | cons c more ih =>
    have hmore : found ∈ namesAfterAt more →
        ∃ front behind, c :: more = front ++ '@' :: (found.toList ++ behind) := by
      intro hm
      obtain ⟨front, behind, rfl⟩ := ih hm
      exact ⟨c :: front, behind, rfl⟩
    rw [namesAfterAt] at h
    split at h
    · next hc =>
      simp only at h
      split at h
      · exact hmore h
      · rcases List.mem_cons.1 h with rfl | h
        · refine ⟨[], more.dropWhile isDotted, ?_⟩
          rw [String.toList_ofList, List.takeWhile_append_dropWhile, hc]
          rfl
        · exact hmore h
    · exact hmore h

namespace Mark

/-- The name of an annotation, and the names behind at signs between its parentheses. -/
def names (mark : Mark) : List String :=
  String.ofList mark.name :: namesAfterAt (mark.arguments.getD [])

theorem namesAfterAt_behind (mark : Mark) :
    namesAfterAt mark.behind = namesAfterAt (mark.arguments.getD []) := by
  have hspace : namesAfterAt mark.space = [] := by
    have hat : '@' ∉ mark.space := by
      intro hm
      have hspace := mark.isBlank.2 _ hm
      revert hspace
      decide
    rw [← List.append_nil mark.space, namesAfterAt_skip hat]
    rfl
  rw [behind]
  rcases mark.arguments with - | inner
  · exact hspace
  · have stops : Stops isDotted (')' :: mark.space) := stops_cons.2 (by decide)
    have hclose : namesAfterAt (')' :: mark.space) = [] := hspace
    show namesAfterAt ((inner ++ [')']) ++ mark.space) = namesAfterAt inner
    rw [List.append_assoc, List.singleton_append, namesAfterAt_append stops, hclose, List.append_nil]

end Mark

theorem stops_flatMap_spelled (marks : List Mark) : Stops isDotted (marks.flatMap Mark.spelled) := by
  cases marks with
  | nil => exact fun _ hm => absurd hm (Option.not_mem_none _)
  | cons mark marks => exact stops_cons.2 (by decide)

/-- The names found in a row of annotations. -/
theorem namesAfterAt_flatMap_spelled (marks : List Mark) :
    namesAfterAt (marks.flatMap Mark.spelled) = marks.flatMap Mark.names := by
  induction marks with
  | nil => rfl
  | cons mark marks ih =>
    rw [List.flatMap_cons, List.flatMap_cons, Mark.spelled, List.cons_append, List.append_assoc,
      namesAfterAt_name mark.isName (mark.stops_behind _),
      namesAfterAt_append (stops_flatMap_spelled marks), mark.namesAfterAt_behind, ih, Mark.names,
      List.cons_append]

/-! ## What is reported -/

/-- The annotations that are reported for a site are the names in its row. -/
structure Site.Reports {code : List Char} (site : Site code) (annotations : List String) : Prop where
  /-- The annotations in front, in order, each followed by the names behind at signs between its
      parentheses. -/
  names : annotations = site.marks.flatMap Mark.names
  /-- A name that is reported is that of an annotation in front, or stands behind an at sign between
      the parentheses of one. -/
  origin : ∀ written ∈ annotations, (∃ mark ∈ site.marks, String.ofList mark.name = written) ∨
    ∃ mark ∈ site.marks, ∃ inner ∈ mark.arguments, ∃ front behind,
      inner = front ++ '@' :: (written.toList ++ behind)
  /-- Where no at sign stands between parentheses, the annotations in front are reported and nothing
      else. -/
  plain : (∀ mark ∈ site.marks, ∀ inner ∈ mark.arguments, '@' ∉ inner) →
    annotations = site.marks.map fun mark => String.ofList mark.name

theorem Site.reports {code : List Char} (source : Path) (site : Site code) :
    site.Reports (site.element source).annotations := by
  have hnames : (site.element source).annotations = site.marks.flatMap Mark.names :=
    namesAfterAt_flatMap_spelled site.marks
  refine ⟨hnames, ?_, ?_⟩
  · intro written hm
    rw [hnames] at hm
    obtain ⟨mark, hmark, hm⟩ := List.mem_flatMap.1 hm
    rcases List.mem_cons.1 hm with rfl | hm
    · exact .inl ⟨mark, hmark, rfl⟩
    · rcases harguments : mark.arguments with - | inner
      · rw [harguments] at hm
        cases hm
      · rw [harguments] at hm
        exact .inr ⟨mark, hmark, inner, harguments, exists_at_of_mem_namesAfterAt hm⟩
  · intro free
    rw [hnames, List.map_eq_flatMap]
    refine List.flatMap_congr fun mark hmark => ?_
    rw [Mark.names]
    rcases harguments : mark.arguments with - | inner
    · rfl
    · rw [Option.getD_some, ← List.append_nil inner,
        namesAfterAt_skip (free mark hmark inner harguments)]
      rfl

end Source

namespace Element

open Source

/-- **The names that are reported** for the elements of a source, whatever the text: each element is
    that of a site, and its names are those in the row of annotations that the site has in front.  No
    annotation right in front of the row is left out, unless it starts within another site. -/
theorem names_reported (source : Path) (content : String) :
    ∃ sites : List (Site (codeOnly content.toList)),
      parse source content = sites.map (Site.element source) ∧
      (sites.Pairwise fun first second => first.stop ≤ second.start) ∧
      (∀ site ∈ sites, ∀ (mark : Mark) (ahead : List Char), site.front = ahead ++ mark.spelled →
        ∃ other ∈ sites, other.start ≤ ahead.length ∧ ahead.length < other.stop) ∧
      ∀ site ∈ sites, site.Reports (site.element source).annotations := by
  obtain ⟨sites, hsites, covers⟩ := exists_covers 0 [] (codeOnly content.toList) rfl
  exact ⟨sites, parse_of_declarations source hsites, covers.apart,
    fun site _ mark ahead => covers.exists_of_mark, fun site _ => site.reports source⟩

/-- Two annotations, the first of them with an argument. -/
theorem applied_reported :
    (parse ⟨"X.java"⟩ "package p;\n@A(x = 1)\n@b.B public class X").map Element.annotations =
        [["A", "b.B"]] ∧
      ∃ sites : List (Site (codeOnly "package p;\n@A(x = 1)\n@b.B public class X".toList)),
        parse ⟨"X.java"⟩ "package p;\n@A(x = 1)\n@b.B public class X" =
          sites.map (Site.element ⟨"X.java"⟩) ∧
        (sites.Pairwise fun first second => first.stop ≤ second.start) ∧
        (∀ site ∈ sites, ∀ (mark : Mark) (ahead : List Char), site.front = ahead ++ mark.spelled →
          ∃ other ∈ sites, other.start ≤ ahead.length ∧ ahead.length < other.stop) ∧
        ∀ site ∈ sites, site.Reports (site.element ⟨"X.java"⟩).annotations :=
  ⟨by decide +kernel, names_reported ⟨"X.java"⟩ _⟩

/-- A name between parentheses is reported although no such annotation stands in front. -/
theorem argument_reported : ¬ ∀ (source : Path) (content : String),
    ∃ sites : List (Site (codeOnly content.toList)),
      parse source content = sites.map (Site.element source) ∧
      ∀ site ∈ sites, ∀ written ∈ (site.element source).annotations,
        ∃ mark ∈ site.marks, String.ofList mark.name = written := by
  intro h
  obtain ⟨sites, hsites, hall⟩ := h ⟨"X.java"⟩ "@A(@B) class X"
  have hparse : parse ⟨"X.java"⟩ "@A(@B) class X" =
      [⟨.classType, none, "X", ["A", "B"], ⟨"X.java"⟩⟩] := by decide +kernel
  rw [hparse] at hsites
  obtain ⟨site, rfl, hsite⟩ := List.map_eq_singleton_iff.1 hsites.symm
  obtain ⟨mark, hmark, hname⟩ := hall site (List.mem_singleton_self _) "B" (by rw [hsite]; simp)
  have hname : mark.name = ['B'] := by rw [← String.toList_ofList (l := mark.name), hname]; rfl
  -- The annotation would stand somewhere in the text, with a parenthesis or white space behind it.
  obtain ⟨before, after, hmarks⟩ := List.append_of_mem hmark
  obtain ⟨c, more, hmore, hc⟩ := mark.exists_behind
  obtain ⟨left, right, hsplit⟩ : ∃ left right,
      "@A(@B) class X".toList = left ++ '@' :: 'B' :: c :: right := by
    refine ⟨site.front ++ before.flatMap Mark.spelled, more ++ (after.flatMap Mark.spelled ++
      (site.modifiers.flatMap Modifier.spelled ++ (site.keyword.text.toList ++
        (site.space ++ (site.name ++ site.rest))))), ?_⟩
    have hsame : codeOnly "@A(@B) class X".toList = "@A(@B) class X".toList := by decide +kernel
    refine hsame.symm.trans (site.spelled.trans ?_)
    rw [site.behind, hmarks, List.flatMap_append, List.flatMap_cons, Mark.spelled, hname, hmore]
    simp only [List.append_assoc, List.cons_append, List.nil_append]
  have hplace : left.length < 15 := by
    have hlength := congrArg List.length hsplit
    rw [List.length_append] at hlength
    have htotal : "@A(@B) class X".toList.length = 14 := by decide +kernel
    omega
  have hbehind : ∀ n < 15, ("@A(@B) class X".toList.drop n).take 2 = ['@', 'B'] →
      ("@A(@B) class X".toList.drop (n + 2)).head? = some ')' := by decide +kernel
  have hclose := hbehind left.length hplace (by rw [hsplit, List.drop_left]; rfl)
  rw [hsplit, ← List.drop_drop, List.drop_left] at hclose
  obtain rfl : c = ')' := Option.some.inj hclose
  rcases hc with hc | hc
  · revert hc
    decide
  · revert hc
    decide

end Element

end KotlinHarness
