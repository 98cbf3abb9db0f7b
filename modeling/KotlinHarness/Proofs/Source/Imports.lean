/-
  Where imports come from.

  The pattern for import statements takes the white space in front of the keyword along, line feeds
  included, and starts at the start of a line.  So what was found starts with the blank lines above the
  statement (`ImportStatement.front` ends before them), and the line of its start is the line of the
  keyword only if there are none (`ImportStatement.keywordLine_eq`).

  The scan finds all import statements, in order: while it is in a line that has something in it, no
  statement starts (`InLine`), and where blank lines start it finds what stands behind them, or nothing
  does (`exists_gathers`).
-/
import KotlinHarness.Proofs.Source.Sites

namespace KotlinHarness

namespace Source

open Text

variable {code text rest ahead front blank gap name tail : List Char} {c : Char}

/-! ## Lines -/

/-- The last line so far has something in it besides white space. -/
def InLine (ahead : List Char) : Prop :=
  ∃ before c blank, ahead = before ++ c :: blank ∧ isSpace c = false ∧
    ∀ d ∈ blank, isSpace d = true ∧ d ≠ '\n'

/-- Nothing, or lines of which the last one has something in it besides white space. -/
def IsFront (front : List Char) : Prop := front = [] ∨ ∃ line, front = line ++ ['\n'] ∧ InLine line

theorem inLine_concat (h : isSpace c = false) : InLine (ahead ++ [c]) :=
  ⟨ahead, c, [], rfl, h, by simp⟩

theorem InLine.concat (h : InLine ahead) (hspace : isSpace c = true) (hc : c ≠ '\n') :
    InLine (ahead ++ [c]) := by
  obtain ⟨before, d, blank, rfl, hd, hblank⟩ := h
  refine ⟨before, d, blank ++ [c], by simp, hd, fun e he => ?_⟩
  rcases List.mem_append.1 he with he | he
  · exact hblank e he
  · rw [List.mem_singleton.1 he]
    exact ⟨hspace, hc⟩

/-- White space behind whole lines is not in a line that has something in it. -/
theorem IsFront.not_inLine (h : IsFront front) (isBlank : ∀ c ∈ blank, isSpace c = true) :
    ¬ InLine (front ++ blank) := by
  rintro ⟨before, c, behind, hsplit, hc, hbehind⟩
  have hnew : c ∉ blank := fun hm => by rw [isBlank c hm] at hc; cases hc
  rcases List.append_eq_append_iff.1 hsplit with ⟨between, -, hblank⟩ | ⟨between, hfront, hcut⟩
  · rw [hblank] at hnew
    exact hnew (List.mem_append_right _ List.mem_cons_self)
  · rcases between with - | ⟨d, between⟩
    · rw [List.nil_append] at hcut
      exact hnew (hcut ▸ List.mem_cons_self)
    · obtain ⟨rfl, rfl⟩ := List.cons.inj hcut
      rcases h with rfl | ⟨line, rfl, -⟩
      · simp at hfront
      · -- The line feed at the end would stand in the line.
        have hlast : '\n' ∈ c :: between := by
          have hends := congrArg List.getLast? hfront
          rw [List.getLast?_concat, List.getLast?_append_of_ne_nil _ (List.cons_ne_nil _ _)] at hends
          exact List.mem_of_getLast? hends.symm
        rcases List.mem_cons.1 hlast with rfl | hm
        · exact absurd hc (by decide)
        · exact (hbehind '\n' (List.mem_append_left _ hm)).2 rfl

/-! ## Import statements -/

theorem stops_import : Stops isSpace ("import".toList ++ text) := stops_cons.2 (by decide)

/-- The name of an import ends before the semicolon. -/
theorem stops_tail (isTail : ∀ c ∈ tail, isSpace c = true) : Stops isDotted (tail ++ ';' :: rest) := by
  rcases tail with - | ⟨c, more⟩
  · exact stops_cons.2 (by decide)
  · refine stops_cons.2 ?_
    rw [← Bool.not_eq_true]
    intro hdotted
    have hc := isTail c List.mem_cons_self
    rw [isSpace_of_isDotted hdotted] at hc
    cases hc

theorem importStatement?_blank (isBlank : ∀ c ∈ blank, isSpace c = true) (text : List Char) :
    importStatement? (blank ++ text) = importStatement? text := by
  have htrim : trimStart (blank ++ text) = trimStart text := List.dropWhile_append_of_pos isBlank
  rw [importStatement?, importStatement?, htrim]

/-- A statement is taken as it stands. -/
theorem importStatement?_append (isGap : IsRun isSpace gap) (isName : IsRun isDotted name)
    (isTail : ∀ c ∈ tail, isSpace c = true) (rest : List Char) :
    importStatement? ("import".toList ++ (gap ++ (name ++ (tail ++ ';' :: rest)))) =
      some (name, rest) := by
  have hword := List.isPrefixOf?_eq_some_iff_append_eq.2
    (Eq.refl ("import".toList ++ (gap ++ (name ++ (tail ++ ';' :: rest)))))
  have hgap := spaces?_append isGap
    (isName.stops fun _ => isSpace_of_isDotted : Stops isSpace (name ++ (tail ++ ';' :: rest)))
  have hname := run?_append isName (stops_tail isTail : Stops isDotted (tail ++ ';' :: rest))
  have htail : trimStart (tail ++ ';' :: rest) = ';' :: rest :=
    (takeWhile_append isTail (stops_cons.2 (by decide))).2
  rw [importStatement?, trimStart_stops stops_import, hword]
  simp only [Option.bind_eq_bind, Option.bind_some, hgap, hname, htail]
  rfl

theorem importStatement?_eq_some (h : importStatement? text = some (name, rest)) :
    ∃ blank gap tail, (∀ c ∈ blank, isSpace c = true) ∧ IsRun isSpace gap ∧ IsRun isDotted name ∧
      (∀ c ∈ tail, isSpace c = true) ∧
      text = blank ++ ("import".toList ++ (gap ++ (name ++ (tail ++ ';' :: rest)))) := by
  have hspaces : ∀ text : List Char, (∀ c ∈ text.takeWhile isSpace, isSpace c = true) ∧
      text = text.takeWhile isSpace ++ trimStart text := fun text =>
    ⟨List.all_eq_true.1 List.all_takeWhile, List.takeWhile_append_dropWhile.symm⟩
  simp only [importStatement?, Option.bind_eq_bind, Option.bind_eq_some_iff] at h
  obtain ⟨behindWord, hword, behindGap, hgap, ⟨found, behindName⟩, hname, behind, hsemicolon, hlast⟩ := h
  cases hlast
  have hword := List.isPrefixOf?_eq_some_iff_append_eq.1 hword
  have hsemicolon : ';' :: rest = trimStart behindName :=
    List.isPrefixOf?_eq_some_iff_append_eq.1 hsemicolon
  obtain ⟨gap, isGap, rfl⟩ := spaces?_eq_some hgap
  obtain ⟨isName, rfl⟩ := run?_eq_some hname
  refine ⟨text.takeWhile isSpace, gap, behindName.takeWhile isSpace, (hspaces text).1, isGap, isName,
    (hspaces behindName).1, ?_⟩
  rw [hsemicolon, ← (hspaces behindName).2, hword]
  exact (hspaces text).2

theorem importStatement?_semicolon (rest : List Char) : importStatement? (';' :: rest) = none := by
  rw [importStatement?, trimStart_stops (stops_cons.2 (by decide))]
  rfl

/-- The name of an import is not the keyword of another one. -/
theorem importStatement?_name (isName : IsRun isDotted name) (isTail : ∀ c ∈ tail, isSpace c = true)
    (rest : List Char) : importStatement? (name ++ (tail ++ ';' :: rest)) = none := by
  rcases h : importStatement? (name ++ (tail ++ ';' :: rest)) with - | ⟨found, behind⟩
  · rfl
  · exfalso
    obtain ⟨blank, gap, tail', isBlank, isGap, isFound, -, hsame⟩ := importStatement?_eq_some h
    have hnone : Stops isSpace (name ++ (tail ++ ';' :: rest)) :=
      isName.stops fun _ => isSpace_of_isDotted
    obtain ⟨-, hword⟩ := append_inj_of_stops (fun _ hc => absurd hc List.not_mem_nil) isBlank hnone
      stops_import ((List.nil_append _).trans hsame)
    have isWord : ∀ c ∈ "import".toList, isDotted c = true :=
      List.all_eq_true.1 (by decide : "import".toList.all isDotted = true)
    obtain ⟨-, hgap⟩ := append_inj_of_stops isName.2 isWord (stops_tail isTail)
      (isGap.stops fun c hc => Bool.not_eq_true _ ▸ fun hdotted => by
        rw [isSpace_of_isDotted hdotted] at hc
        cases hc) hword
    obtain ⟨-, hfound⟩ := append_inj_of_stops isTail isGap.2 (stops_cons.2 (by decide))
      (isFound.stops fun _ => isSpace_of_isDotted) hgap
    obtain ⟨c, more, rfl⟩ := List.exists_cons_of_ne_nil isFound.1
    obtain ⟨rfl, -⟩ := List.cons.inj hfound
    exact absurd (isFound.2 ';' List.mem_cons_self) (by decide)

/-- An import statement of a text, with the blank lines above it. -/
structure ImportStatement (code : List Char) where
  /-- What stands above the blank lines. -/
  front : List Char
  /-- The blank lines and the indentation of the keyword. -/
  blank : List Char
  gap : List Char
  name : List Char
  tail : List Char
  rest : List Char
  isFront : IsFront front
  isBlank : ∀ c ∈ blank, isSpace c = true
  isGap : IsRun isSpace gap
  isName : IsRun isDotted name
  isTail : ∀ c ∈ tail, isSpace c = true
  spelled : code = front ++ (blank ++ ("import".toList ++ (gap ++ (name ++ (tail ++ ';' :: rest)))))

namespace ImportStatement

variable {statement other : ImportStatement code}

def start (statement : ImportStatement code) : Nat := statement.front.length

/-- The number of characters up to the semicolon, which is one of them. -/
def stop (statement : ImportStatement code) : Nat :=
  statement.start + (statement.blank ++ ("import".toList ++
    (statement.gap ++ (statement.name ++ (statement.tail ++ [';']))))).length

/-- The line on which the blank lines start, or the keyword stands if there are none. -/
def firstLine (statement : ImportStatement code) : Nat := statement.front.count '\n' + 1

/-- The line of the keyword. -/
def keywordLine (statement : ImportStatement code) : Nat :=
  (statement.front ++ statement.blank).count '\n' + 1

def importedName (statement : ImportStatement code) : String := String.ofList statement.name

theorem keywordLine_eq (statement : ImportStatement code) :
    statement.keywordLine = statement.firstLine + statement.blank.count '\n' := by
  rw [keywordLine, firstLine, List.count_append, Nat.add_right_comm]

/-- What the recognizer makes of the text of a statement. -/
theorem importStatement?_eq (statement : ImportStatement code) (hcode : code = statement.front ++ text) :
    importStatement? text = some (statement.name, statement.rest) := by
  rw [List.append_cancel_left (hcode.symm.trans statement.spelled),
    importStatement?_blank statement.isBlank]
  exact importStatement?_append statement.isGap statement.isName statement.isTail statement.rest

/-- A statement is told by where it starts. -/
theorem eq_of_front (h : statement.front = other.front) : statement = other := by
  have hspelled := other.spelled
  rw [← h] at hspelled
  have htext := List.append_cancel_left (statement.spelled.symm.trans hspelled)
  obtain ⟨hblank, hword⟩ := append_inj_of_stops statement.isBlank other.isBlank stops_import stops_import
    htext
  have stops : ∀ this : ImportStatement code, Stops isSpace
      (this.name ++ (this.tail ++ ';' :: this.rest)) :=
    fun this => this.isName.stops fun _ => isSpace_of_isDotted
  obtain ⟨hgap, hname⟩ := append_inj_of_stops statement.isGap.2 other.isGap.2 (stops statement)
    (stops other) (List.append_cancel_left hword)
  obtain ⟨hname, htail⟩ := append_inj_of_stops statement.isName.2 other.isName.2
    (stops_tail statement.isTail) (stops_tail other.isTail) hname
  obtain ⟨htail, hrest⟩ := append_inj_of_stops statement.isTail other.isTail
    (stops_cons.2 (by decide)) (stops_cons.2 (by decide)) htail
  cases statement
  cases other
  simp_all

theorem eq_of_start (h : statement.start = other.start) : statement = other := by
  refine eq_of_front ?_
  have hsame := statement.spelled.symm.trans other.spelled
  exact (List.append_inj hsame h).1

/-- A character is in the first of two parts or in the second one. -/
theorem cut_cases {first second between behind : List Char} (h : first ++ second = between ++ c :: behind) :
    (∃ more, first = between ++ c :: more ∧ behind = more ++ second) ∨
      ∃ more, between = first ++ more ∧ second = more ++ c :: behind := by
  rcases List.append_eq_append_iff.1 h with ⟨more, hbetween, hsecond⟩ | ⟨more, hfirst, hbehind⟩
  · exact .inr ⟨more, hbetween, hsecond⟩
  · rcases more with - | ⟨d, more⟩
    · rw [List.append_nil] at hfirst
      exact .inr ⟨[], by rw [hfirst, List.append_nil], hbehind.symm⟩
    · obtain ⟨rfl, rfl⟩ := List.cons.inj hbehind
      exact .inl ⟨more, hfirst, rfl⟩

/-- A later statement starts behind the line feed of a line that has something in it. -/
theorem front_of_start_lt (h : statement.start < other.start) : ∃ between,
    other.front = statement.front ++ between ++ ['\n'] ∧ InLine (statement.front ++ between) := by
  obtain ⟨gone, hgone⟩ : statement.front <+: other.front :=
    List.prefix_of_prefix_length_le ⟨_, statement.spelled.symm⟩ ⟨_, other.spelled.symm⟩ h.le
  rcases gone.eq_nil_or_concat with rfl | ⟨between, last, rfl⟩
  · rw [List.append_nil] at hgone
    exact absurd h (by rw [start, start, hgone]; exact Nat.lt_irrefl _)
  · rw [List.concat_eq_append, ← List.append_assoc] at hgone
    obtain ⟨line, hline, inLine⟩ := other.isFront.resolve_left fun hnil => by
      rw [hnil] at hgone
      simp at hgone
    obtain ⟨rfl, hlast⟩ := List.append_inj' (hgone.trans hline) rfl
    exact ⟨between, by rw [← hgone, hlast], inLine⟩

/-- No statement starts within another one: behind a line feed in it there is white space, and then the
    name or the semicolon. -/
theorem stop_le_start (h : statement.start < other.start) : statement.stop ≤ other.start := by
  obtain ⟨between, hfront, inLine⟩ := front_of_start_lt h
  generalize htext : other.blank ++ ("import".toList ++ (other.gap ++
    (other.name ++ (other.tail ++ ';' :: other.rest)))) = text
  have hcode : code = other.front ++ text := htext ▸ other.spelled
  have hfound := other.importStatement?_eq hcode
  have hspelled : statement.blank ++ ("import".toList ++ (statement.gap ++
      (statement.name ++ (statement.tail ++ ';' :: statement.rest)))) = between ++ '\n' :: text := by
    rw [hfront, List.append_assoc, List.append_assoc] at hcode
    exact List.append_cancel_left (statement.spelled.symm.trans hcode)
  -- The line feed is in one of the parts of the statement, or behind all of them.
  rcases cut_cases hspelled with ⟨more, hblank, -⟩ | ⟨behind, hbetween, hword⟩
  · refine absurd inLine (statement.isFront.not_inLine fun d hd => statement.isBlank d ?_)
    rw [hblank]
    exact List.mem_append_left _ hd
  rcases cut_cases hword with ⟨more, hword, -⟩ | ⟨behindWord, rfl, hgap⟩
  · have hfeed : '\n' ∈ "import".toList := hword ▸ List.mem_append_right _ List.mem_cons_self
    exact absurd hfeed (by decide)
  rcases cut_cases hgap with ⟨more, hcut, rfl⟩ | ⟨behindGap, rfl, hname⟩
  · rw [importStatement?_blank fun d hd => statement.isGap.2 d (hcut ▸ List.mem_append_right _
      (List.mem_cons_of_mem _ hd)), importStatement?_name statement.isName statement.isTail] at hfound
    cases hfound
  rcases cut_cases hname with ⟨more, hname, -⟩ | ⟨behindName, rfl, htail⟩
  · have hfeed := statement.isName.2 '\n' (hname ▸ List.mem_append_right _ List.mem_cons_self)
    exact absurd hfeed (by decide)
  rcases cut_cases htail with ⟨more, hcut, rfl⟩ | ⟨behindTail, rfl, hsemicolon⟩
  · rw [importStatement?_blank fun d hd => statement.isTail d (hcut ▸ List.mem_append_right _
      (List.mem_cons_of_mem _ hd)), importStatement?_semicolon] at hfound
    cases hfound
  · rcases behindTail with - | ⟨d, behindTail⟩
    · cases hsemicolon
    · simp only [stop, start, hfront, hbetween, List.length_append, List.length_cons, List.length_nil]
      omega

end ImportStatement

/-! ## The scan -/

/-- Statements that account for all that start at a position or behind it: they do not overlap, and are
    in order. -/
structure Gathers (position : Nat) (statements : List (ImportStatement code)) : Prop where
  begins : ∀ statement ∈ statements, position ≤ statement.start
  apart : statements.Pairwise fun first second => first.stop ≤ second.start
  all : ∀ statement : ImportStatement code, position ≤ statement.start → statement ∈ statements

namespace Gathers

variable {position : Nat} {statements : List (ImportStatement code)}

theorem nil (h : code.length ≤ position) : Gathers position ([] : List (ImportStatement code)) := by
  refine ⟨by simp, .nil, fun statement hle => ?_⟩
  have hlength := congrArg List.length statement.spelled
  simp only [List.length_append, List.length_cons] at hlength
  simp only [ImportStatement.start] at hle
  omega

/-- Where no statement starts, the next position will do. -/
theorem skip (h : Gathers (position + 1) statements)
    (none : ∀ statement : ImportStatement code, statement.start ≠ position) :
    Gathers position statements :=
  ⟨fun statement hm => Nat.le_of_succ_le (h.begins statement hm), h.apart, fun statement hle =>
    h.all statement (Nat.lt_of_le_of_ne hle (none statement).symm)⟩

/-- Behind a statement the positions go on. -/
theorem cons {statement : ImportStatement code} (h : Gathers statement.stop statements) :
    Gathers statement.start (statement :: statements) := by
  have hstop : statement.start ≤ statement.stop := Nat.le_add_right _ _
  refine ⟨List.forall_mem_cons.2 ⟨Nat.le_refl _, fun other hm => hstop.trans (h.begins other hm)⟩,
    List.pairwise_cons.2 ⟨h.begins, h.apart⟩, fun other hle => ?_⟩
  rcases Nat.eq_or_lt_of_le hle with heq | hlt
  · rw [ImportStatement.eq_of_start heq]
    exact List.mem_cons_self
  · exact List.mem_cons_of_mem _ (h.all other (ImportStatement.stop_le_start hlt))

end Gathers

/-- Where the scan is: within a line that has something in it, or in white space behind whole lines, of
    which the start was tried before. -/
def IsAt (atLineStart : Bool) (ahead text : List Char) : Prop :=
  (atLineStart = false ∧ InLine ahead) ∨
    ∃ front blank, ahead = front ++ blank ∧ IsFront front ∧ (∀ c ∈ blank, isSpace c = true) ∧
      (blank = [] → atLineStart = true) ∧ (blank ≠ [] → importStatement? text = none)

namespace IsAt

variable {atLineStart : Bool}

/-- Where nothing is found, the scan goes on to the next character. -/
theorem step (h : IsAt atLineStart ahead (c :: text))
    (none : (if atLineStart then importStatement? (c :: text) else none) = none) :
    IsAt (c == '\n') (ahead ++ [c]) text := by
  by_cases hspace : isSpace c = true
  · rcases h with ⟨-, inLine⟩ | ⟨front, blank, rfl, isFront, isBlank, hstart, hblank⟩
    · by_cases hc : c = '\n'
      · subst hc
        exact .inr ⟨_, [], (List.append_nil _).symm, .inr ⟨ahead, rfl, inLine⟩, by simp, fun _ => rfl,
          fun hne => absurd rfl hne⟩
      · exact .inl ⟨by simpa using hc, inLine.concat hspace hc⟩
    · have isBlank' : ∀ d ∈ blank ++ [c], isSpace d = true := fun d hd =>
        (List.mem_append.1 hd).elim (isBlank d) fun hd => List.mem_singleton.1 hd ▸ hspace
      have hsame : importStatement? (c :: text) = importStatement? text :=
        importStatement?_blank (fun d hd => List.mem_singleton.1 hd ▸ hspace) text
      refine .inr ⟨front, blank ++ [c], List.append_assoc .., isFront, isBlank', by simp, fun _ => ?_⟩
      rw [← hsame]
      by_cases hnil : blank = []
      · rwa [hstart hnil, if_pos rfl] at none
      · exact hblank hnil
  · have hne : c ≠ '\n' := by
      rintro rfl
      exact hspace (by decide)
    exact .inl ⟨by simpa using hne, inLine_concat (by simpa using hspace)⟩

/-- What is found starts behind whole lines. -/
theorem isFront (h : IsAt atLineStart ahead text) (found : ∃ answer,
    (if atLineStart then importStatement? text else none) = some answer) : IsFront ahead := by
  obtain ⟨answer, hfound⟩ := found
  rcases h with ⟨hstart, -⟩ | ⟨front, blank, rfl, isFront, -, hstart, hblank⟩
  · rw [hstart] at hfound
    cases hfound
  · by_cases hnil : blank = []
    · rwa [hnil, List.append_nil]
    · rw [hblank hnil, ite_self] at hfound
      cases hfound

/-- No statement is missed. -/
theorem start_ne (h : IsAt atLineStart ahead text) (hcode : code = ahead ++ text)
    (none : (if atLineStart then importStatement? text else none) = none)
    (statement : ImportStatement code) : statement.start ≠ ahead.length := by
  intro heq
  obtain ⟨hfront, -⟩ := List.append_inj (statement.spelled.symm.trans hcode) heq
  have hfound := statement.importStatement?_eq (hfront ▸ hcode)
  rcases h with ⟨-, inLine⟩ | ⟨front, blank, hahead, -, -, hstart, hblank⟩
  · rw [← hfront, ← List.append_nil statement.front] at inLine
    exact statement.isFront.not_inLine (by simp) inLine
  · by_cases hnil : blank = []
    · rw [hstart hnil, if_pos rfl, hfound] at none
      cases none
    · rw [hblank hnil] at hfound
      cases hfound

end IsAt

/-- What belongs to the statement that was found last is skipped. -/
theorem importsFrom_skip (front rest : List Char) (position : Nat) (atLineStart : Bool) :
    importsFrom position atLineStart (front.length + 1) (front ++ c :: rest) =
      importsFrom (position + (front.length + 1)) (c == '\n') 0 rest := by
  induction front generalizing position atLineStart with
  | nil => rfl
  | cons d more ih =>
    rw [List.cons_append, List.length_cons, importsFrom, ih, Nat.add_right_comm, Nat.add_assoc]

/-- A statement that is found is one import, and the scan goes on behind its semicolon. -/
theorem importsFrom_found {body : List Char}
    (found : importStatement? (c :: (body ++ ';' :: rest)) = some (name, rest)) (position : Nat) :
    importsFrom position true 0 (c :: (body ++ ';' :: rest)) =
      (position, String.ofList name) :: importsFrom (position + (body.length + 2)) false 0 rest := by
  have hinside : (body ++ ';' :: rest).length - rest.length = body.length + 1 := by
    rw [List.length_append, List.length_cons]
    omega
  have hplace : position + 1 + (body.length + 1) = position + (body.length + 2) := by omega
  rw [importsFrom, if_pos rfl, found]
  simp only [hinside, importsFrom_skip, hplace]
  rfl

/-- What is found behind whole lines is an import statement, and goes up to its semicolon. -/
theorem exists_statement (isFront : IsFront ahead) (hcode : code = ahead ++ text)
    (found : importStatement? text = some (name, rest)) :
    ∃ (statement : ImportStatement code) (first : Char) (body : List Char),
      text = first :: (body ++ ';' :: rest) ∧ statement.start = ahead.length ∧
      statement.stop = ahead.length + (body.length + 2) ∧
      statement.importedName = String.ofList name := by
  obtain ⟨blank, gap, tail, isBlank, isGap, isName, isTail, rfl⟩ := importStatement?_eq_some found
  obtain ⟨first, body, hbody⟩ := List.exists_cons_of_ne_nil
    (show blank ++ ("import".toList ++ (gap ++ (name ++ tail))) ≠ [] by simp)
  have hlength := congrArg List.length hbody
  refine ⟨⟨ahead, blank, gap, name, tail, rest, isFront, isBlank, isGap, isName, isTail, hcode⟩, first,
    body, ?_, rfl, ?_, rfl⟩
  · rw [← List.cons_append, ← hbody]
    simp only [List.append_assoc]
  · simp only [List.length_append, List.length_cons] at hlength
    simp only [ImportStatement.stop, ImportStatement.start, List.length_append, List.length_cons,
      List.length_nil]
    omega

/-- The scan finds all import statements from a position on. -/
theorem exists_gathers (atLineStart : Bool) (ahead text : List Char) (hcode : code = ahead ++ text)
    (isAt : IsAt atLineStart ahead text) :
    ∃ statements : List (ImportStatement code),
      importsFrom ahead.length atLineStart 0 text =
        statements.map (fun statement => (statement.start, statement.importedName)) ∧
      Gathers ahead.length statements := by
  induction hlength : text.length using Nat.strongRecOn generalizing ahead text atLineStart with
  | ind length ih =>
    rcases text with - | ⟨c, more⟩
    · refine ⟨[], by rw [importsFrom]; rfl, .nil ?_⟩
      rw [hcode, List.append_nil]
    rcases hfound : (if atLineStart then importStatement? (c :: more) else none) with - | ⟨name, rest⟩
    · have hnext : code = ahead ++ [c] ++ more := by rw [hcode, List.append_assoc, List.singleton_append]
      have hless : more.length < length := by rw [← hlength, List.length_cons]; omega
      obtain ⟨statements, himports, gathers⟩ :=
        ih more.length hless (c == '\n') (ahead ++ [c]) more hnext (isAt.step hfound) rfl
      rw [List.length_append, List.length_singleton] at himports gathers
      refine ⟨statements, ?_, gathers.skip (isAt.start_ne hcode hfound)⟩
      rw [importsFrom, hfound]
      exact himports
    · have isFront := isAt.isFront ⟨_, hfound⟩
      obtain ⟨rfl, hstatement⟩ : atLineStart = true ∧ importStatement? (c :: more) = some (name, rest) := by
        split at hfound
        · exact ⟨‹_›, hfound⟩
        · cases hfound
      obtain ⟨statement, first, body, htext, hstart, hstop, hname⟩ :=
        exists_statement isFront hcode hstatement
      obtain ⟨rfl, rfl⟩ := List.cons.inj htext
      have hnext : code = ahead ++ c :: body ++ [';'] ++ rest := by rw [hcode]; simp
      have hless : rest.length < length := by
        rw [← hlength, List.length_cons, List.length_append, List.length_cons]
        omega
      have hbehind : (ahead ++ c :: body ++ [';']).length = ahead.length + (body.length + 2) := by
        simp only [List.length_append, List.length_cons, List.length_nil]
        omega
      obtain ⟨statements, himports, gathers⟩ := ih rest.length hless false (ahead ++ c :: body ++ [';'])
        rest hnext (.inl ⟨rfl, inLine_concat (by decide)⟩) rfl
      rw [hbehind] at himports gathers
      refine ⟨statement :: statements, ?_, ?_⟩
      · rw [importsFrom_found hstatement, himports, List.map_cons, hstart, hname]
      · rw [← hstart]
        rw [← hstop] at gathers
        exact gathers.cons

/-- The imports of a text are those of all its import statements, in order. -/
theorem exists_importStatements (code : List Char) : ∃ statements : List (ImportStatement code),
    imports code = statements.map (fun statement => (statement.start, statement.importedName)) ∧
    (∀ statement, statement ∈ statements) ∧
    statements.Pairwise fun first second => first.stop ≤ second.start := by
  obtain ⟨statements, himports, gathers⟩ := exists_gathers true [] code rfl
    (.inr ⟨[], [], rfl, .inl rfl, by simp, fun _ => rfl, fun hne => absurd rfl hne⟩)
  exact ⟨statements, himports, fun statement => gathers.all statement (Nat.zero_le _), gathers.apart⟩

end Source

end KotlinHarness
