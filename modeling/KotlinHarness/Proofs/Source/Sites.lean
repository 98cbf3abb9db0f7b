/-
  Where the elements of a source file come from.

  A head is a keyword with white space and a name behind it, wherever a word may start (`Head`).  The
  scan reports heads from left to right, each with the annotations and modifiers in front of it
  (`Site`), and goes on behind the name (`exists_covers`).  A word starts neither in another word nor in
  white space, so a head within a site either stands in front of the keyword, or ends in the name of the
  site, or starts with it (`Site.hasInFront`, `Head.sharesName_or_takes`).

  What precedes a keyword does not count, and the name may be a keyword itself.  That is why a class
  literal is a head when a word follows (`Head.IsLiteral`), and why a head takes the keyword of the next
  one for its name (`Head.Takes`).  Heads of `enum` do not, because `enum` is a modifier too, and
  modifiers are tried first (`declarationHead?_behindEnum`).
-/
import KotlinHarness.Proofs.Source.Rows
import KotlinHarness.Source.Element

namespace KotlinHarness

namespace Source

open Text

variable {code text rest : List Char} {before : Option Char}

/-! ## Heads -/

/-- A keyword in a text, with white space and a name behind it. -/
structure Head (code : List Char) where
  ahead : List Char
  keyword : Keyword
  space : List Char
  name : List Char
  rest : List Char
  starts : keyword ≠ .annotationType → wordMayStart ahead.getLast? = true
  isBlank : IsRun isSpace space
  isName : IsRun isWord name
  whole : Stops isWord rest
  spelled : code = ahead ++ (keyword.text.toList ++ (space ++ (name ++ rest)))

namespace Head

/-- The number of characters in front of the keyword. -/
def position (head : Head code) : Nat := head.ahead.length

/-- The number of characters up to the end of the name. -/
def stop (head : Head code) : Nat :=
  head.position + (head.keyword.text.toList ++ (head.space ++ head.name)).length

/-- The keyword belongs to the literal of a class: a dot or two colons stand right before it. -/
def IsLiteral (head : Head code) : Prop :=
  head.keyword = .classType ∧ (['.'] <:+ head.ahead ∨ [':', ':'] <:+ head.ahead)

/-- The name is a keyword of declarations. -/
def IsNamedByKeyword (head : Head code) : Prop := ∃ keyword : Keyword, head.name = keyword.text.toList

/-- Another head starts with the name. -/
def Takes (head next : Head code) : Prop :=
  next.ahead = head.ahead ++ (head.keyword.text.toList ++ head.space)

variable (head : Head code)

theorem length_code : code.length = head.stop + head.rest.length := by
  conv_lhs => rw [head.spelled]
  simp only [stop, position, List.length_append]
  omega

theorem keyword_place :
    head.ahead = code.take head.position ∧ head.keyword.text.toList <+: code.drop head.position := by
  constructor
  · exact (congrArg (List.take head.position) head.spelled).trans List.take_left |>.symm
  · exact (congrArg (List.drop head.position) head.spelled).trans List.drop_left ▸ List.prefix_append _ _

theorem position_lt : head.position < head.stop := by
  have hpos := List.length_pos_of_ne_nil head.isName.1
  simp only [stop, List.length_append]
  omega

/-- What holds wherever a keyword stands in the text holds of every head. -/
theorem forall_places {P : Nat → Keyword → Prop}
    (h : ∀ keyword : Keyword, ∀ n < code.length, keyword.text.toList <+: code.drop n → P n keyword) :
    P head.position head.keyword := by
  refine h _ _ ?_ head.keyword_place.2
  have hcode := head.length_code
  have hlt := head.position_lt
  omega

variable {head}

theorem stops_keyword (keyword : Keyword) (text : List Char) :
    Stops isSpace (keyword.text.toList ++ text) := by
  cases keyword <;> exact stops_cons.2 (by decide)

/-- A keyword and a name are recognized where a word may start. -/
theorem declarationHead?_eq {mayStart : Bool} (hstart : head.keyword ≠ .annotationType → mayStart = true) :
    declarationHead? mayStart (head.keyword.text.toList ++ (head.space ++ (head.name ++ head.rest))) =
      some (head.keyword, head.name, head.rest) := by
  have htrue := declarationHead?_keyword head.keyword head.isBlank head.isName head.whole
  by_cases hkeyword : head.keyword = .annotationType
  · cases mayStart with
    | true => exact htrue
    | false =>
      -- Only the last candidate is left, and no other keyword starts with an at sign.
      rw [hkeyword] at htrue ⊢
      exact htrue
  · rw [hstart hkeyword]
    exact htrue

/-- Where there is a head, a declaration is found. -/
theorem declaration?_ne_none (htext : code = head.ahead ++ text) :
    declaration? head.ahead.getLast? text ≠ none := by
  obtain rfl : text = _ := List.append_cancel_left (htext.symm.trans head.spelled)
  intro hnone
  rw [declaration?, List.findSome?_eq_none_iff] at hnone
  -- The keyword is tried without annotations and modifiers in front, after everything else.
  have hafter := hnone (_, wordMayStart head.ahead.getLast?) (List.mem_append_right _ (List.mem_singleton_self _))
  have hhead := declarationHead?_eq head.starts
  rcases hstart : wordMayStart head.ahead.getLast? with - | -
  · rw [hstart] at hafter hhead
    simp [declarationAfter?, hhead] at hafter
  · rw [hstart] at hafter hhead
    simp only [declarationAfter?, if_true, List.findSome?_eq_none_iff] at hafter
    have htried := hafter (_, true) (List.mem_append_right _ (List.mem_singleton_self _))
    simp only [hhead, Option.map_some] at htried
    cases htried

end Head

/-! ## Sites -/

/-- A head with annotations and modifiers right in front of it. -/
structure Site (code : List Char) extends Head code where
  front : List Char
  marks : List Mark
  modifiers : List Modifier
  behind : ahead = front ++ (marks.flatMap Mark.spelled ++ modifiers.flatMap Modifier.spelled)

namespace Site

variable {site : Site code} {head : Head code}

/-- The declaration that a site is reported as. -/
def declaration (site : Site code) : Declaration :=
  ⟨site.marks.flatMap Mark.spelled, site.modifiers.flatMap Modifier.spelled, site.keyword, site.name⟩

/-- The number of characters in front of the first annotation or modifier. -/
def start (site : Site code) : Nat := site.front.length

theorem start_le (site : Site code) : site.start ≤ site.position := by
  rw [start, Head.position, site.behind, List.length_append]
  exact Nat.le_add_right _ _

/-- The scan finds the declaration where the site starts. -/
def IsFound (site : Site code) : Prop :=
  ∃ text, code = site.front ++ text ∧
    declaration? site.front.getLast? text = some (site.declaration, site.rest)

theorem exists_of_declaration? {front : List Char} {found : Declaration} (htext : code = front ++ text)
    (h : declaration? front.getLast? text = some (found, rest)) :
    ∃ site : Site code, site.front = front ∧ site.declaration = found ∧ site.rest = rest ∧
      site.IsFound := by
  obtain ⟨marks, modifiers, space, isBlank, hmarks, hmodifiers, hparts, isName, whole, hstart⟩ :=
    declaration?_parts h
  obtain ⟨annotationText, modifierText, keyword, name⟩ := found
  obtain rfl : annotationText = _ := hmarks
  obtain rfl : modifierText = _ := hmodifiers
  have spelled : code = front ++ (marks.flatMap Mark.spelled ++ modifiers.flatMap Modifier.spelled) ++
      (keyword.text.toList ++ (space ++ (name ++ rest))) := by
    rw [htext, hparts]
    simp only [List.append_assoc]
  have starts : keyword ≠ .annotationType → wordMayStart (front ++ (marks.flatMap Mark.spelled ++
      modifiers.flatMap Modifier.spelled)).getLast? = true := by
    intro hword
    rw [List.getLast?_append, List.getLast?_append, Option.or_assoc]
    exact hstart hword
  exact ⟨⟨⟨_, keyword, space, name, rest, starts, isBlank, isName, whole, spelled⟩, front, marks,
    modifiers, rfl⟩, rfl, rfl, rfl, text, htext, h⟩

end Site

theorem declaration?_nil (before : Option Char) : declaration? before [] = none := by
  rw [declaration?]
  cases wordMayStart before <;> rfl

/-- A declaration can be found behind `ahead`. -/
def Declares (code ahead : List Char) : Prop :=
  ∃ text, code = ahead ++ text ∧ declaration? ahead.getLast? text ≠ none

theorem Head.declares (head : Head code) : Declares code head.ahead :=
  ⟨_, head.spelled, head.declaration?_ne_none head.spelled⟩

/-- With an annotation in front of a site a declaration can be found, too. -/
theorem Site.declares_mark (site : Site code) {mark : Mark} {ahead : List Char}
    (h : site.front = ahead ++ mark.spelled) : Declares code ahead := by
  let head := site.keyword.text.toList ++ (site.space ++ (site.name ++ site.rest))
  let behindMarks := site.modifiers.flatMap Modifier.spelled ++ head
  have stopsHead : Stops isSpace head := Head.stops_keyword _ _
  have stopsMarks : Stops isSpace behindMarks := stops_row taken_modifier stopsHead site.modifiers
  refine ⟨(mark :: site.marks).flatMap Mark.spelled ++ behindMarks, ?_, fun hnone => ?_⟩
  · refine site.spelled.trans ?_
    rw [site.behind, h, List.flatMap_cons]
    simp only [behindMarks, head, List.append_assoc]
  · rw [declaration?, List.findSome?_eq_none_iff] at hnone
    have hmarks := hnone _ (mem_withItems_row taken_mark stopsMarks (mark :: site.marks)
      (.inr (List.cons_ne_nil _ _)))
    simp only [declarationAfter?, if_true, List.findSome?_eq_none_iff] at hmarks
    have hhead := hmarks _ (mem_withItems_row taken_modifier stopsHead site.modifiers (.inl rfl))
    simp only [head, declarationHead?_keyword site.keyword site.isBlank site.isName site.whole,
      Option.map_some] at hhead
    cases hhead

/-- Sites that account for all declarations from a position on: they do not overlap, and wherever one
    can be found is in a site. -/
structure Covers (position : Nat) (sites : List (Site code)) : Prop where
  found : ∀ site ∈ sites, site.IsFound
  begins : ∀ site ∈ sites, position ≤ site.start
  apart : sites.Pairwise fun first second => first.stop ≤ second.start
  places : ∀ ahead, Declares code ahead → position ≤ ahead.length →
    ∃ site ∈ sites, site.start ≤ ahead.length ∧ ahead.length < site.stop

namespace Covers

variable {position : Nat} {sites : List (Site code)}

theorem nil (h : code.length ≤ position) : Covers position ([] : List (Site code)) := by
  refine ⟨by simp, by simp, .nil, fun ahead declares hle => ?_⟩
  obtain ⟨text, htext, hsome⟩ := declares
  -- Nothing is left of the text.
  obtain rfl : text = [] := by
    have hlength := congrArg List.length htext
    rw [List.length_append] at hlength
    exact List.length_eq_zero_iff.1 (by omega)
  exact absurd (declaration?_nil _) hsome

/-- Where no declaration is found, the next position will do. -/
theorem skip (h : Covers (position + 1) sites)
    (none : ∀ ahead, Declares code ahead → ahead.length ≠ position) : Covers position sites := by
  refine ⟨h.found, fun site hm => Nat.le_of_succ_le (h.begins site hm), h.apart,
    fun ahead declares hle => ?_⟩
  exact h.places ahead declares (Nat.lt_of_le_of_ne hle (none ahead declares).symm)

/-- Behind a site that was found the positions go on. -/
theorem cons {site : Site code} (h : Covers site.stop sites) (found : site.IsFound) :
    Covers site.start (site :: sites) := by
  have hstop : site.start ≤ site.stop := site.start_le.trans (Nat.le_of_lt site.position_lt)
  refine ⟨List.forall_mem_cons.2 ⟨found, h.found⟩,
    List.forall_mem_cons.2 ⟨Nat.le_refl _, fun other hm => hstop.trans (h.begins other hm)⟩,
    List.pairwise_cons.2 ⟨h.begins, h.apart⟩, fun ahead declares hle => ?_⟩
  rcases Nat.lt_or_ge ahead.length site.stop with hlt | hge
  · exact ⟨site, List.mem_cons_self, hle, hlt⟩
  · obtain ⟨other, hm, hin⟩ := h.places ahead declares hge
    exact ⟨other, List.mem_cons_of_mem _ hm, hin⟩

/-- An annotation right in front of a site that is not part of it starts within another site. -/
theorem exists_of_mark (h : Covers 0 sites) {site : Site code} {mark : Mark} {ahead : List Char}
    (hfront : site.front = ahead ++ mark.spelled) :
    ∃ other ∈ sites, other.start ≤ ahead.length ∧ ahead.length < other.stop :=
  h.places ahead (site.declares_mark hfront) (Nat.zero_le _)

end Covers

/-- The declarations that the scan finds from a position on are those of sites. -/
theorem exists_covers (inside : Nat) (ahead text : List Char) (htext : code = ahead ++ text) :
    ∃ sites : List (Site code), declarationsFrom ahead.getLast? inside text = sites.map Site.declaration ∧
      Covers (ahead.length + inside) sites := by
  induction text generalizing ahead inside with
  | nil =>
    refine ⟨[], by rw [declarationsFrom]; rfl, .nil ?_⟩
    rw [htext, List.append_nil]
    exact Nat.le_add_right _ _
  | cons c more ih =>
    have hmore : code = ahead ++ [c] ++ more := by rw [htext, List.append_assoc, List.singleton_append]
    have hlast : (ahead ++ [c]).getLast? = some c := List.getLast?_concat
    have hlength : (ahead ++ [c]).length = ahead.length + 1 := by simp
    have hnext := fun inside => ih inside (ahead ++ [c]) hmore
    simp only [hlast, hlength] at hnext
    cases inside with
    | succ inside =>
      obtain ⟨sites, hsites, covers⟩ := hnext inside
      refine ⟨sites, by rw [declarationsFrom, hsites], ?_⟩
      rwa [Nat.add_right_comm, Nat.add_assoc] at covers
    | zero =>
      rcases hfound : declaration? ahead.getLast? (c :: more) with - | ⟨found, after⟩
      · obtain ⟨sites, hsites, covers⟩ := hnext 0
        refine ⟨sites, by rw [declarationsFrom, hfound]; exact hsites, covers.skip ?_⟩
        rintro other ⟨text, hother, hsome⟩ hposition
        obtain ⟨rfl, rfl⟩ := List.append_inj (hother.symm.trans htext) hposition
        exact hsome hfound
      · obtain ⟨site, hfront, rfl, rfl, found⟩ := Site.exists_of_declaration? htext hfound
        obtain ⟨sites, hsites, covers⟩ := hnext (more.length - site.rest.length)
        have hstart : site.start = ahead.length + 0 := by rw [Site.start, hfront]; rfl
        have hstop : ahead.length + 1 + (more.length - site.rest.length) = site.stop := by
          have hcode := congrArg List.length htext
          have htotal := site.length_code
          have hle := site.start_le
          have hlt := site.position_lt
          simp only [List.length_append, List.length_cons] at hcode
          omega
        refine ⟨site :: sites, by rw [declarationsFrom, hfound]; simp only [hsites]; rfl, ?_⟩
        rw [hstop] at covers
        rw [← hstart]
        exact covers.cons found

/-! ## Heads within heads -/

theorem append_inj_of_stops {p : Char → Bool} {run run' : List Char} (hall : ∀ c ∈ run, p c = true)
    (hall' : ∀ c ∈ run', p c = true) (stops : Stops p text) (stops' : Stops p rest)
    (h : run ++ text = run' ++ rest) : run = run' ∧ text = rest := by
  have htaken := takeWhile_append hall stops
  rw [h, (takeWhile_append hall' stops').1, (takeWhile_append hall' stops').2] at htaken
  exact ⟨htaken.1.symm, htaken.2.symm⟩

theorem IsRun.not_stops {p : Char → Bool} {run : List Char} (h : IsRun p run) :
    ¬ Stops p (run ++ rest) := by
  obtain ⟨c, more, rfl⟩ := List.exists_cons_of_ne_nil h.1
  intro stops
  have hc := h.2 c List.mem_cons_self
  rw [stops_cons.1 stops] at hc
  cases hc

namespace Head

variable {head other : Head code} {tail ahead : List Char}

/-- Both heads end in the same name. -/
def SharesName (head other : Head code) : Prop := head.name = other.name ∧ head.rest = other.rest

theorem isRun_interface : IsRun isWord "interface".toList :=
  @isRun_keyword .interface (by decide)

theorem keyword_unspaced (keyword : Keyword) : ∀ c ∈ keyword.text.toList, isSpace c = false := by
  intro c hc
  by_cases hkeyword : keyword = .annotationType
  · subst hkeyword
    rcases List.mem_cons.1 hc with rfl | hc
    · decide
    · exact isSpace_of_isWord (isRun_interface.2 c hc)
  · exact isSpace_of_isWord ((isRun_keyword hkeyword).2 c hc)

/-- What stands in front of white space, where a head starts, is the keyword. -/
theorem eq_keyword {run space : List Char} (hall : ∀ c ∈ run, isSpace c = false) (blank : IsRun isSpace space)
    (h : run ++ (space ++ text) =
      head.keyword.text.toList ++ (head.space ++ (head.name ++ head.rest))) :
    run = head.keyword.text.toList ∧ space ++ text = head.space ++ (head.name ++ head.rest) := by
  have stops : ∀ {space text}, IsRun isSpace space → Stops (fun c => !isSpace c) (space ++ text) :=
    fun blank => blank.stops fun _ hc => by rw [hc]; rfl
  exact append_inj_of_stops (fun c hc => by rw [hall c hc]; rfl)
    (fun c hc => by rw [keyword_unspaced _ c hc]; rfl) (stops blank) (stops head.isBlank) h

/-- A keyword that is the end of another one has the same name behind it. -/
theorem sharesName_of_tail (hall : ∀ c ∈ tail, isSpace c = false)
    (h : tail ++ (head.space ++ (head.name ++ head.rest)) =
      other.keyword.text.toList ++ (other.space ++ (other.name ++ other.rest))) :
    head.SharesName other := by
  have stops : ∀ this : Head code, Stops isSpace (this.name ++ this.rest) :=
    fun this => this.isName.stops fun _ => isSpace_of_isWord
  have hspace := (eq_keyword hall head.isBlank h).2
  have hname := (append_inj_of_stops head.isBlank.2 other.isBlank.2 (stops head) (stops other) hspace).2
  exact append_inj_of_stops head.isName.2 other.isName.2 head.whole other.whole hname

/-- No head starts inside a word. -/
theorem starts_word {run between : List Char} (htext : code = ahead ++ (run ++ rest)) (isRun : IsRun isWord run)
    (hahead : head.ahead = ahead ++ between) : between = [] ∨ ∃ more, between = run ++ more := by
  have hsame := htext.symm.trans head.spelled
  rw [hahead, List.append_assoc, List.append_cancel_left_eq] at hsame
  rcases List.append_eq_append_iff.1 hsame with ⟨more, hmore, -⟩ | ⟨tail, rfl, htail⟩
  · exact .inr ⟨more, hmore⟩
  · by_cases hbetween : between = []
    · exact .inl hbetween
    · right
      rcases tail with - | ⟨c, tail⟩
      · exact ⟨[], by simp⟩
      · exfalso
        have hc : isWord c = true := isRun.2 c (List.mem_append_right _ List.mem_cons_self)
        have hword : head.keyword ≠ .annotationType := by
          intro hkeyword
          rw [hkeyword] at htail
          obtain rfl : '@' = c := (List.cons.inj htail).1
          revert hc
          decide
        -- The character in front of the head is one of the word.
        have before : IsRun isWord between :=
          ⟨hbetween, fun d hd => isRun.2 d (List.mem_append_left _ hd)⟩
        obtain ⟨d, hd, hlast⟩ := before.exists_getLast? ahead
        have hstart := head.starts hword
        rw [hahead, Option.mem_def.1 hd, wordMayStart, hlast] at hstart
        cases hstart

/-- No head starts with white space. -/
theorem behind_space {run between : List Char} (htext : code = ahead ++ (run ++ rest)) (blank : IsRun isSpace run)
    (hahead : head.ahead = ahead ++ between) : ∃ more, between = run ++ more := by
  have hsame := htext.symm.trans head.spelled
  rw [hahead, List.append_assoc, List.append_cancel_left_eq] at hsame
  rcases List.append_eq_append_iff.1 hsame with ⟨more, hmore, -⟩ | ⟨tail, rfl, htail⟩
  · exact ⟨more, hmore⟩
  · rcases tail with - | ⟨c, tail⟩
    · exact ⟨[], by simp⟩
    · have run : IsRun isSpace (c :: tail) :=
        ⟨List.cons_ne_nil _ _, fun d hd => blank.2 d (List.mem_append_right _ hd)⟩
      exact (run.not_stops (htail ▸ stops_keyword _ _)).elim

/-- A head that starts among modifiers starts with a modifier. -/
theorem keyword_eq_enum {modifiers : List Modifier} {between : List Char}
    (htext : code = ahead ++ (modifiers.flatMap Modifier.spelled ++ rest))
    (hahead : head.ahead = ahead ++ between)
    (hlt : between.length < (modifiers.flatMap Modifier.spelled).length) : head.keyword = .enum := by
  induction modifiers generalizing ahead between with
  | nil => exact absurd hlt (Nat.not_lt_zero _)
  | cons modifier modifiers ih =>
    rw [List.flatMap_cons, Modifier.spelled] at htext hlt
    rw [List.append_assoc, List.append_assoc] at htext
    rcases starts_word htext modifier.isRun_word hahead with rfl | ⟨more, rfl⟩
    · have hsame := htext.symm.trans head.spelled
      rw [hahead, List.append_nil, List.append_cancel_left_eq] at hsame
      have hword := (eq_keyword (fun c hc => isSpace_of_isWord (modifier.isRun_word.2 c hc))
        modifier.isBlank hsame).1
      have hm := modifier.isModifier
      rw [String.toList_inj.1 hword] at hm
      revert hm
      cases head.keyword <;> decide
    · rw [← List.append_assoc] at htext hahead
      obtain ⟨more, rfl⟩ := behind_space htext modifier.isBlank hahead
      rw [← List.append_assoc] at htext hahead
      refine ih htext hahead ?_
      simp only [List.length_append] at hlt
      omega

/-- A head that starts within the keyword of another one has its name. -/
theorem sharesName_or_behind {between : List Char} (hahead : other.ahead = head.ahead ++ between) :
    head.SharesName other ∨ ∃ more, between = head.keyword.text.toList ++ more := by
  have hsame := head.spelled.symm.trans other.spelled
  rw [hahead, List.append_assoc, List.append_cancel_left_eq] at hsame
  rcases between with - | ⟨c, between⟩
  · exact .inl (sharesName_of_tail (keyword_unspaced _) hsame)
  · by_cases hkeyword : head.keyword = .annotationType
    · -- Behind the at sign a word may start.
      rw [hkeyword] at hsame ⊢
      have hcons : '@' :: ("interface".toList ++ (head.space ++ (head.name ++ head.rest))) =
          c :: (between ++ (other.keyword.text.toList ++ (other.space ++ (other.name ++ other.rest)))) :=
        hsame
      obtain ⟨rfl, htail⟩ := List.cons.inj hcons
      have hcode : code = head.ahead ++ ['@'] ++
          ("interface".toList ++ (head.space ++ (head.name ++ head.rest))) := by
        have hspelled := head.spelled
        rw [hkeyword] at hspelled
        rw [List.append_assoc]
        exact hspelled
      rw [← List.singleton_append, ← List.append_assoc] at hahead
      rcases starts_word hcode isRun_interface hahead with rfl | ⟨more, rfl⟩
      · exact .inl (sharesName_of_tail (fun c hc => isSpace_of_isWord (isRun_interface.2 c hc)) htail)
      · exact .inr ⟨more, rfl⟩
    · exact .inr ((starts_word head.spelled (isRun_keyword hkeyword) hahead).resolve_left
        (List.cons_ne_nil _ _))

/-- A head that starts behind the keyword of another one is taken for its name. -/
theorem takes_of_behind {more : List Char} (hlt : other.position < head.stop)
    (hahead : other.ahead = head.ahead ++ (head.keyword.text.toList ++ more)) : head.Takes other := by
  have hspelled := head.spelled
  rw [← List.append_assoc] at hspelled hahead
  obtain ⟨more, rfl⟩ := behind_space hspelled head.isBlank hahead
  rw [← List.append_assoc] at hspelled hahead
  rcases starts_word hspelled head.isName hahead with rfl | ⟨more, rfl⟩
  · rw [Takes, hahead, List.append_nil, List.append_assoc]
  · exfalso
    simp only [position, stop, hahead, List.length_append] at hlt
    omega

theorem Takes.name_append (takes : head.Takes other) :
    head.name ++ head.rest = other.keyword.text.toList ++ (other.space ++ (other.name ++ other.rest)) := by
  have hcode : head.ahead ++ (head.keyword.text.toList ++ head.space) ++ (head.name ++ head.rest) = code := by
    simp only [List.append_assoc]
    exact head.spelled.symm
  rw [← takes] at hcode
  exact List.append_cancel_left (hcode.trans other.spelled)

theorem Takes.isNamedByKeyword (takes : head.Takes other) : head.IsNamedByKeyword := by
  refine ⟨other.keyword, ?_⟩
  have hname := takes.name_append
  by_cases hkeyword : other.keyword = .annotationType
  · -- No name starts with an at sign.
    exfalso
    obtain ⟨c, more, hmore⟩ := List.exists_cons_of_ne_nil head.isName.1
    have hc := head.isName.2 c (hmore ▸ List.mem_cons_self)
    rw [hkeyword, hmore] at hname
    obtain rfl : c = '@' := (List.cons.inj hname).1
    revert hc
    decide
  · have stops : Stops isWord (other.space ++ (other.name ++ other.rest)) :=
      other.isBlank.stops fun _ => isWord_of_isSpace
    exact (append_inj_of_stops head.isName.2 (isRun_keyword hkeyword).2 head.whole stops hname).1

theorem Takes.position_lt (takes : head.Takes other) : head.position < other.position := by
  have hpos := List.length_pos_of_ne_nil head.isBlank.1
  simp only [position]
  rw [takes, List.length_append, List.length_append]
  omega

/-- A head that starts within another one has its name, or is taken for its name. -/
theorem sharesName_or_takes (hle : head.position ≤ other.position) (hlt : other.position < head.stop) :
    head.SharesName other ∨ head.Takes other := by
  obtain ⟨between, hahead⟩ : head.ahead <+: other.ahead :=
    List.prefix_of_prefix_length_le ⟨_, head.spelled.symm⟩ ⟨_, other.spelled.symm⟩ hle
  refine (sharesName_or_behind hahead.symm).imp_right ?_
  rintro ⟨more, rfl⟩
  exact takes_of_behind hlt hahead.symm

end Head

/-! ## What a head may take for its name -/

/-- Where one more item could be taken, it was taken before. -/
theorem mem_of_takes {item? : List Char → Option (List Char)}
    (shrinks : ∀ {text rest}, item? text = some rest → rest.length < text.length)
    {budget here next : List Char} {first later : List (List Char)} (enough : text.length ≤ budget.length)
    (h : afterItems item? budget text ++ [text] = first ++ here :: later)
    (hitem : item? here = some next) : next ∈ first := by
  have hmem : ∀ {all later}, all = first ++ here :: later → here ∈ all := by
    rintro _ _ rfl
    exact List.mem_append_right _ List.mem_cons_self
  induction budget generalizing text later with
  | nil =>
    obtain rfl := List.mem_singleton.1 (hmem h)
    exact absurd ((shrinks hitem).trans_le enough) (Nat.not_lt_zero _)
  | cons _ budget ih =>
    rcases htext : item? text with - | behind
    · rw [afterItems_none htext] at h
      rw [List.mem_singleton.1 (hmem h), htext] at hitem
      cases hitem
    · rw [afterItems, htext] at h
      simp only at h
      rcases List.eq_nil_or_concat' later with rfl | ⟨init, last, rfl⟩
      · obtain ⟨rfl, hlast⟩ := List.append_inj' h rfl
        cases hlast
        rw [htext] at hitem
        cases hitem
        exact List.mem_append_right _ (List.mem_singleton_self _)
      · rw [← List.cons_append, ← List.append_assoc] at h
        obtain ⟨hinit, -⟩ := List.append_inj' h rfl
        have hless := shrinks htext
        refine ih ?_ hinit
        simp only [List.length_cons] at enough
        omega

theorem length_lt_of_modifierItem? (h : modifierItem? text = some rest) : rest.length < text.length := by
  obtain ⟨modifier, rfl⟩ := modifierItem?_eq_some h
  have hpos := List.length_pos_of_ne_nil modifier.isBlank.1
  simp only [Modifier.spelled, List.length_append]
  omega

/-- Behind `enum` there is no head that was tried before: it is a modifier of a keyword then. -/
theorem declarationHead?_behindEnum {found : Declaration} (h : declaration? before text = some (found, rest))
    (isEnum : found.keyword = .enum) : declarationHead? true (found.name ++ rest) = none := by
  obtain ⟨⟨behindMarks, mayStart⟩, -, hafter⟩ := List.exists_of_findSome?_eq_some h
  simp only [declarationAfter?] at hafter
  obtain ⟨first, ⟨here, flag⟩, later, hstarts, hhead, hnone⟩ := List.findSome?_eq_some_iff.1 hafter
  obtain ⟨⟨keyword, name, after⟩, hkeyword, hfound⟩ := Option.map_eq_some_iff.1 hhead
  cases hfound
  obtain rfl : keyword = .enum := isEnum
  obtain ⟨space, isBlank, isName, -, hflag, hhere⟩ := declarationHead?_eq_some hkeyword
  obtain rfl : flag = true := hflag (by decide)
  have hitem : modifierItem? here = some (name ++ after) := by
    have htaken := modifierItem?_append ⟨"enum", space, by decide, isBlank⟩
      (isName.stops fun _ => isSpace_of_isWord : Stops isSpace (name ++ after))
    rw [Modifier.spelled, List.append_assoc] at htaken
    exact (congrArg modifierItem? hhere).trans htaken
  split at hstarts
  · have hrests : (afterItems modifierItem? behindMarks behindMarks ++ [behindMarks]).map (·, true) =
        first ++ (here, true) :: later := by
      rw [List.map_append]
      exact hstarts
    obtain ⟨before, others, hsplit, rfl, hothers⟩ := List.map_eq_append_iff.1 hrests
    obtain ⟨here', later', rfl, hhere', -⟩ := List.map_eq_cons_iff.1 hothers
    cases hhere'
    have hm := mem_of_takes length_lt_of_modifierItem? (Nat.le_refl _) hsplit hitem
    exact Option.map_eq_none_iff.1 (hnone _ (List.mem_map_of_mem hm))
  · rcases first with - | ⟨one, first⟩ <;> simp at hstarts

namespace Site

variable {site : Site code} {head : Head code}

/-- The head stands in front of the keyword: in an annotation, or as an `enum` among the modifiers. -/
def HasInFront (site : Site code) (head : Head code) : Prop :=
  site.start ≤ head.position ∧ head.position < site.position ∧
    (head.position < site.start + (site.marks.flatMap Mark.spelled).length ∨ head.keyword = .enum)

theorem hasInFront (hle : site.start ≤ head.position) (hlt : head.position < site.position) :
    site.HasInFront head := by
  refine ⟨hle, hlt, ?_⟩
  by_cases hmarks : head.position < site.start + (site.marks.flatMap Mark.spelled).length
  · exact .inl hmarks
  · right
    have hcode : code = site.front ++ site.marks.flatMap Mark.spelled ++
        (site.modifiers.flatMap Modifier.spelled ++
          (site.keyword.text.toList ++ (site.space ++ (site.name ++ site.rest)))) := by
      have hspelled := site.spelled
      rw [site.behind] at hspelled
      simpa only [List.append_assoc] using hspelled
    obtain ⟨between, hahead⟩ : site.front ++ site.marks.flatMap Mark.spelled <+: head.ahead := by
      refine List.prefix_of_prefix_length_le ⟨_, hcode.symm⟩ ⟨_, head.spelled.symm⟩ ?_
      rw [List.length_append]
      exact Nat.le_of_not_lt hmarks
    refine Head.keyword_eq_enum hcode hahead.symm ?_
    have hfront : site.position = _ := congrArg List.length site.behind
    have hhead : head.position = _ := (congrArg List.length hahead).symm
    simp only [List.length_append] at hfront hhead
    omega

theorem keyword_ne_enum (found : site.IsFound) (takes : site.Takes head) : site.keyword ≠ .enum := by
  intro isEnum
  obtain ⟨text, -, hfound⟩ := found
  have hnone := declarationHead?_behindEnum hfound isEnum
  rw [declaration, takes.name_append, head.declarationHead?_eq fun _ => rfl] at hnone
  cases hnone

/-- The element that is reported for a site. -/
def element (source : Path) (site : Site code) : Element :=
  .ofDeclaration source (package? code) site.declaration

end Site

end Source

namespace Element

open Source

/-- The elements of a source are those of the sites that the scan finds. -/
theorem parse_of_declarations (source : Path) {content : String}
    {sites : List (Site (codeOnly content.toList))}
    (h : declarations (codeOnly content.toList) = sites.map Site.declaration) :
    parse source content = sites.map (Site.element source) := by
  simp only [parse, h, List.map_map]
  rfl

/-- **Where the elements come from**, whatever the text: from sites that do not overlap, in order.  A head
    is passed over only in front of the keyword of a site, or as a part of one that ends in the same name,
    or because it starts with the name of one; that name is a keyword then, and does not follow `enum`.

    So as long as no class literal has white space and a word behind it, and no head but one of `enum` has
    another head for its name: no element comes from a literal, none is named by a keyword that has a name
    itself, and every head that is not in front of the keyword of another one is reported by its name. -/
theorem parse_sites (source : Path) (content : String) :
    ∃ sites : List (Site (codeOnly content.toList)),
      parse source content = sites.map (Site.element source) ∧
      (sites.Pairwise fun first second => first.stop ≤ second.start) ∧
      (∀ head : Head (codeOnly content.toList), ∃ site ∈ sites,
        site.HasInFront head ∨ site.SharesName head ∨ site.Takes head) ∧
      (∀ site ∈ sites, ∀ next, site.Takes next → site.IsNamedByKeyword ∧ site.keyword ≠ .enum) ∧
      ((∀ head : Head (codeOnly content.toList), ¬ head.IsLiteral ∧
          ∀ next, head.Takes next → head.keyword = .enum) →
        (∀ site ∈ sites, ¬ site.IsLiteral ∧ ∀ next, ¬ site.Takes next) ∧
        (∀ head : Head (codeOnly content.toList), ∃ site ∈ sites,
          site.HasInFront head ∨ site.SharesName head) ∧
        ((∀ head : Head (codeOnly content.toList), head.IsNamedByKeyword → ∃ next, head.Takes next) →
          ∀ site ∈ sites, ¬ site.IsNamedByKeyword)) := by
  obtain ⟨sites, hsites, covers⟩ := exists_covers 0 [] (codeOnly content.toList) rfl
  have hheads : ∀ head : Head (codeOnly content.toList), ∃ site ∈ sites,
      site.HasInFront head ∨ site.SharesName head ∨ site.Takes head := by
    intro head
    obtain ⟨site, hm, hle, hlt⟩ := covers.places head.ahead head.declares (Nat.zero_le _)
    refine ⟨site, hm, ?_⟩
    rcases Nat.lt_or_ge head.position site.position with hfront | hbehind
    · exact .inl (Site.hasInFront hle hfront)
    · exact .inr (Head.sharesName_or_takes hbehind hlt)
  have henum : ∀ site ∈ sites, ∀ next, site.Takes next → site.keyword ≠ .enum :=
    fun site hm next takes => Site.keyword_ne_enum (covers.found site hm) takes
  refine ⟨sites, parse_of_declarations source hsites, covers.apart, hheads,
    fun site hm next takes => ⟨takes.isNamedByKeyword, henum site hm next takes⟩, fun ordinary => ?_⟩
  have htaken : ∀ site ∈ sites, ∀ next, ¬ site.Takes next :=
    fun site hm next takes => henum site hm next takes ((ordinary site.toHead).2 next takes)
  refine ⟨fun site hm => ⟨(ordinary site.toHead).1, htaken site hm⟩, fun head => ?_,
    fun hnamed site hm named => ?_⟩
  · obtain ⟨site, hm, hin⟩ := hheads head
    exact ⟨site, hm, hin.imp_right fun hin => hin.resolve_right (htaken site hm head)⟩
  · obtain ⟨next, takes⟩ := hnamed site.toHead named
    exact htaken site hm next takes

/-- A class that an `enum` in front of it makes an enumeration. -/
theorem enumClass_sites : ∃ sites : List (Site (codeOnly "enum class X".toList)),
    parse ⟨"X.kt"⟩ "enum class X" = sites.map (Site.element ⟨"X.kt"⟩) ∧
      (∀ head : Head (codeOnly "enum class X".toList), ¬ head.IsLiteral ∧
        ∀ next, head.Takes next → head.keyword = .enum) ∧
      (∀ site ∈ sites, ¬ site.IsLiteral ∧ ∀ next, ¬ site.Takes next) ∧
      (∀ head : Head (codeOnly "enum class X".toList), ∃ site ∈ sites,
        site.HasInFront head ∨ site.SharesName head) ∧
      (∀ head : Head (codeOnly "enum class X".toList), head.IsNamedByKeyword →
        ∃ next, head.Takes next) ∧
      ∀ site ∈ sites, ¬ site.IsNamedByKeyword := by
  have hplaces : ∀ head : Head (codeOnly "enum class X".toList),
      head.position = 0 ∧ head.keyword = .enum ∨ head.position = 5 ∧ head.keyword = .classType := by
    intro head
    refine head.forall_places (P := fun n keyword => n = 0 ∧ keyword = .enum ∨ n = 5 ∧ keyword = .classType)
      fun keyword => ?_
    cases keyword <;> decide +kernel
  have ordinary : ∀ head : Head (codeOnly "enum class X".toList), ¬ head.IsLiteral ∧
      ∀ next, head.Takes next → head.keyword = .enum := by
    intro head
    rcases hplaces head with ⟨hposition, hkeyword⟩ | ⟨hposition, hkeyword⟩
    · refine ⟨fun literal => ?_, fun _ _ => hkeyword⟩
      cases hkeyword.symm.trans literal.1
    · refine ⟨fun literal => ?_, fun next takes => ?_⟩
      · have hpoint := literal.2
        rw [head.keyword_place.1, hposition] at hpoint
        revert hpoint
        decide +kernel
      · -- The next head would start behind the fifth character.
        have hlt := takes.position_lt
        rcases hplaces next with ⟨hplace, -⟩ | ⟨hplace, -⟩ <;> omega
  have hnamed : ∀ head : Head (codeOnly "enum class X".toList), head.IsNamedByKeyword →
      ∃ next, head.Takes next := by
    obtain ⟨other, hahead, hname⟩ : ∃ other : Head (codeOnly "enum class X".toList),
        other.ahead = "enum ".toList ∧ other.name = ['X'] :=
      ⟨⟨_, .classType, [' '], _, [], by decide +kernel, isRun_singleton (by decide),
        isRun_singleton (by decide), fun _ hm => absurd hm (Option.not_mem_none _),
        by decide +kernel⟩, rfl, rfl⟩
    have hother : other.position = 5 := by rw [Head.position, hahead]; rfl
    rintro head ⟨keyword, hkeyword⟩
    have hwithin : head.position ≤ 5 ∧ 5 < head.stop := by
      have hspace := List.length_pos_of_ne_nil head.isBlank.1
      have hlong := List.length_pos_of_ne_nil head.isName.1
      rcases hplaces head with ⟨hposition, hword⟩ | ⟨hposition, -⟩
      · have hfour : head.keyword.text.toList.length = 4 := by rw [hword]; rfl
        simp only [Head.stop, List.length_append]
        omega
      · have hlt := head.position_lt
        omega
    rw [← hother] at hwithin
    rcases Head.sharesName_or_takes hwithin.1 hwithin.2 with shares | takes
    · exfalso
      have hsame := hkeyword.symm.trans (shares.1.trans hname)
      revert hsame
      cases keyword <;> decide
    · exact ⟨other, takes⟩
  obtain ⟨sites, hsites, -, -, -, hconcl⟩ := parse_sites ⟨"X.kt"⟩ "enum class X"
  obtain ⟨hsound, hcomplete, hfree⟩ := hconcl ordinary
  exact ⟨sites, hsites, ordinary, hsound, hcomplete, hnamed, hfree hnamed⟩

/-- A class literal with a word behind it is reported, and so is the keyword of an interface, as the
    name of a function. -/
theorem keyword_reported :
    (¬ ∀ (source : Path) (content : String), ∃ sites : List (Site (codeOnly content.toList)),
      parse source content = sites.map (Site.element source) ∧ ∀ site ∈ sites, ¬ site.IsLiteral) ∧
    ¬ ∀ (source : Path) (content : String), ∃ sites : List (Site (codeOnly content.toList)),
      parse source content = sites.map (Site.element source) ∧
        ∀ site ∈ sites, ¬ site.IsNamedByKeyword := by
  constructor
  · intro hall
    obtain ⟨sites, hsites, hnone⟩ := hall ⟨"A.kt"⟩ "A::class B"
    have hparse : parse ⟨"A.kt"⟩ "A::class B" = [⟨.classType, none, "B", [], ⟨"A.kt"⟩⟩] := by
      decide +kernel
    rw [hparse] at hsites
    obtain ⟨site, rfl, -⟩ := List.map_eq_singleton_iff.1 hsites.symm
    obtain ⟨hposition, hclass⟩ : site.position = 3 ∧ site.keyword = .classType := by
      refine site.forall_places (P := fun n keyword => n = 3 ∧ keyword = .classType) fun keyword => ?_
      cases keyword <;> decide +kernel
    refine hnone site (List.mem_singleton_self _) ⟨hclass, .inr ?_⟩
    rw [site.keyword_place.1, hposition]
    decide +kernel
  · intro hall
    obtain ⟨sites, hsites, hnone⟩ := hall ⟨"N.kt"⟩ "fun interface N"
    have hparse : parse ⟨"N.kt"⟩ "fun interface N" = [⟨.function, none, "interface", [], ⟨"N.kt"⟩⟩] := by
      decide +kernel
    rw [hparse] at hsites
    obtain ⟨site, rfl, hsite⟩ := List.map_eq_singleton_iff.1 hsites.symm
    refine hnone site (List.mem_singleton_self _) ⟨.interface, ?_⟩
    have hname := congrArg (fun element => element.name.toList) hsite
    rwa [Site.element, ofDeclaration, String.toList_ofList] at hname

end Element

end KotlinHarness
