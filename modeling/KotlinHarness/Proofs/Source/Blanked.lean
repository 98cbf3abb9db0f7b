/-
  What is left of a text when its comments and literals are blanked out.

  How comments and literals are spelled (`IsRegion`) is said without saying how they are looked for.
  Where several start at one place, the longest is the one that is found (`FoundAt`), and that is
  what `region?` measures (`region?_eq_some_iff`).  So every text falls into regions that are found
  and characters at which none starts, and what blanking does is told by these two steps
  (`scan_induction`).

  What is left has no comment and no literal in it (`bare_codeOnly`), so blanking it again changes
  nothing.  An opener without its closing stays, and blanks do not close it: a region that is passed
  over on one line leaves a literal around it as open as it was, and one with a line feed in it keeps
  the line feed, which ends the literal (`closes_behind`).

    * `codeOnly_blanks`   what is changed, where, and what is left
-/
import KotlinHarness.Proofs.Source.Scanned
import KotlinHarness.Proofs.Text.Split

namespace KotlinHarness.Source

open Text

variable {quote c : Char} {text part region rest body : List Char} {n : Nat}

/-! ## Comments and literals -/

/-- What starts and ends a literal. -/
def IsQuote (c : Char) : Prop := c = '"' ∨ c = '\''

/-- What a literal has between its quotes: pairs of a backslash and any character, and characters
    that are neither the quote nor a backslash nor a line feed. -/
inductive LiteralBody (quote : Char) : List Char → Prop
  | nil : LiteralBody quote []
  | escaped (c : Char) {body : List Char} :
    LiteralBody quote body → LiteralBody quote ('\\' :: c :: body)
  | plain {c : Char} {body : List Char} :
    c ≠ quote → c ≠ '\\' → c ≠ '\n' → LiteralBody quote body → LiteralBody quote (c :: body)

/-- The spelling of comments and literals. -/
inductive IsRegion : List Char → Prop
  | lineComment {body : List Char} : '\n' ∉ body → IsRegion ('/' :: '/' :: body)
  | blockComment {before body : List Char} :
    IsCutAtFirst ['*', '/'] before [] body → IsRegion ('/' :: '*' :: body)
  | rawString {before body : List Char} :
    IsCutAtFirst ['"', '"', '"'] before [] body → IsRegion ('"' :: '"' :: '"' :: body)
  | literal {quote : Char} {body : List Char} :
    IsQuote quote → LiteralBody quote body → IsRegion (quote :: (body ++ [quote]))

/-- A comment or literal starts the text. -/
def Opens (text : List Char) : Prop := ∃ region, IsRegion region ∧ region <+: text

/-- A comment or literal at the start of a text is found there when none that starts there is
    longer. -/
structure FoundAt (region rest : List Char) : Prop where
  spelled : IsRegion region
  longest : ∀ other, IsRegion other → other <+: region ++ rest → other.length ≤ region.length

/-- The comments and literals that a scan from the left finds in a text, with the place of each: it
    goes on behind what it found, and passes over a character at which nothing starts. -/
inductive Finds : List Char → Nat → List Char → Prop
  | here {region rest : List Char} : FoundAt region rest → Finds (region ++ rest) 0 region
  | behind {first rest region : List Char} {start : Nat} :
    FoundAt first rest → Finds rest start region →
      Finds (first ++ rest) (first.length + start) region
  | passed {c : Char} {rest region : List Char} {start : Nat} :
    ¬ Opens (c :: rest) → Finds rest start region → Finds (c :: rest) (start + 1) region

/-- A place lies within a comment or literal that is found. -/
def Inside (text : List Char) (place : Nat) : Prop :=
  ∃ start region, Finds text start region ∧ start ≤ place ∧ place < start + region.length

/-! ## Literals -/

theorem IsQuote.ne (h : IsQuote quote) : quote ≠ '\\' ∧ quote ≠ '\n' ∧ quote ≠ ' ' := by
  rcases h with rfl | rfl <;> decide

theorem literalLength?_escape (quote : Char) (rest : List Char) :
    literalLength? quote ('\\' :: rest) = (literalLength? quote rest.tail).map (· + 2) := by
  cases rest with
  | nil => rfl
  | cons c more => rfl

theorem literalLength?_cons (h : c ≠ '\\') (quote : Char) (rest : List Char) :
    literalLength? quote (c :: rest) =
      if c = quote then some 1 else if c = '\n' then none
      else (literalLength? quote rest).map (· + 1) := by
  rw [literalLength?]
  · exact fun _ _ hc _ => h hc
  · exact fun hc _ => h hc

theorem literalLength?_body (isQuote : IsQuote quote) (h : LiteralBody quote body)
    (rest : List Char) : literalLength? quote (body ++ quote :: rest) = some (body.length + 1) := by
  induction h with
  | nil => rw [List.nil_append, literalLength?_cons isQuote.ne.1, if_pos rfl]; rfl
  | escaped c _ ih =>
    rw [List.cons_append, literalLength?_escape, List.cons_append, List.tail_cons, ih]
    rfl
  | plain hquote hescape hfeed _ ih =>
    rw [List.cons_append, literalLength?_cons hescape, if_neg hquote, if_neg hfeed, ih]
    rfl

theorem exists_of_literalLength? (h : literalLength? quote text = some n) :
    ∃ body rest, text = body ++ quote :: rest ∧ LiteralBody quote body ∧ n = body.length + 1 := by
  fun_induction literalLength? quote text generalizing n with
  | case1 => cases h
  | case2 c rest ih =>
    obtain ⟨m, hm, rfl⟩ := Option.map_eq_some_iff.1 h
    obtain ⟨body, more, rfl, hbody, rfl⟩ := ih hm
    exact ⟨'\\' :: c :: body, more, rfl, hbody.escaped c, rfl⟩
  | case3 => cases h
  | case4 rest =>
    cases h
    exact ⟨[], rest, rfl, .nil, rfl⟩
  | case5 => cases h
  | case6 c rest hpair hlone hquote hfeed ih =>
    obtain ⟨m, hm, rfl⟩ := Option.map_eq_some_iff.1 h
    obtain ⟨body, more, rfl, hbody, rfl⟩ := ih hm
    have hescape : c ≠ '\\' := by
      rintro rfl
      rcases hrest : body ++ quote :: more with - | ⟨d, others⟩
      · exact hlone rfl hrest
      · exact hpair d others rfl hrest
    exact ⟨c :: body, more, rfl, .plain hquote hescape hfeed hbody, rfl⟩

/-! ## What is measured -/

theorem lengthThrough?_eq_some_iff {closing : List Char} :
    lengthThrough? closing text = some n ↔
      ∃ before after, IsCutAtFirst closing before after text ∧
        n = before.length + closing.length := by
  rw [lengthThrough?, Option.map_eq_some_iff]
  constructor
  · rintro ⟨before, hbefore, rfl⟩
    obtain ⟨after, hcut⟩ := before?_eq_some_iff.1 hbefore
    exact ⟨before, after, hcut, rfl⟩
  · rintro ⟨before, after, hcut, rfl⟩
    exact ⟨before, before?_eq_some_iff.2 ⟨after, hcut⟩, rfl⟩

/-- What is measured is a comment or a literal. -/
theorem exists_of_region? (h : region? text = some n) :
    ∃ region rest, text = region ++ rest ∧ IsRegion region ∧ region.length = n := by
  rw [region?.eq_def] at h
  split at h
  · next rest =>
    cases h
    refine ⟨'/' :: '/' :: rest.takeWhile (· != '\n'), rest.dropWhile (· != '\n'), ?_, ?_, ?_⟩
    · simp
    · refine .lineComment fun hm => ?_
      have hfeed := List.all_eq_true.1 (List.all_takeWhile (p := (· != '\n')) (l := rest)) _ hm
      simp at hfeed
    · simp only [List.length_cons]
      omega
  · next rest =>
    obtain ⟨m, hm, rfl⟩ := Option.map_eq_some_iff.1 h
    obtain ⟨before, after, hcut, rfl⟩ := lengthThrough?_eq_some_iff.1 hm
    refine ⟨_, after, ?_, .blockComment hcut.withoutRest, ?_⟩
    · rw [hcut.1]
      simp
    · simp only [List.length_cons, List.length_append]
      omega
  · next rest =>
    simp only at h
    split at h
    · next m hraw =>
      cases h
      obtain ⟨after, hstarts, hm⟩ := Option.bind_eq_some_iff.1 hraw
      obtain ⟨before, more, hcut, rfl⟩ := lengthThrough?_eq_some_iff.1 hm
      refine ⟨_, more, ?_, .rawString hcut.withoutRest, ?_⟩
      · rw [← List.isPrefixOf?_eq_some_iff_append_eq.1 hstarts, hcut.1]
        simp
      · simp only [List.length_cons, List.length_append]
        omega
    · obtain ⟨m, hm, rfl⟩ := Option.map_eq_some_iff.1 h
      obtain ⟨body, more, rfl, hbody, rfl⟩ := exists_of_literalLength? hm
      refine ⟨_, more, ?_, .literal (.inl rfl) hbody, ?_⟩
      · simp
      · simp only [List.length_cons, List.length_append, List.length_nil]
        omega
  · next rest =>
    obtain ⟨m, hm, rfl⟩ := Option.map_eq_some_iff.1 h
    obtain ⟨body, more, rfl, hbody, rfl⟩ := exists_of_literalLength? hm
    refine ⟨_, more, ?_, .literal (.inr rfl) hbody, ?_⟩
    · simp
    · simp only [List.length_cons, List.length_append, List.length_nil]
      omega
  · cases h

/-- A literal that goes on behind two quotes is empty. -/
theorem LiteralBody.eq_nil (h : LiteralBody quote body) (isQuote : IsQuote quote)
    (hquotes : [quote, quote] <+: body ++ quote :: rest) : body = [] := by
  cases h with
  | nil => rfl
  | escaped c _ => exact absurd (List.cons_prefix_cons.1 hquotes).1 isQuote.ne.1
  | plain hquote _ _ _ => exact absurd (List.cons_prefix_cons.1 hquotes).1.symm hquote

/-- No comment or literal is longer than what is measured. -/
theorem length_le_region? (h : IsRegion region) (rest : List Char) :
    ∃ n, region? (region ++ rest) = some n ∧ region.length ≤ n := by
  cases h with
  | @lineComment body hbody =>
    have hall : ∀ c ∈ body, (c != '\n') = true := fun c hc =>
      bne_iff_ne.2 fun heq => hbody (heq ▸ hc)
    refine ⟨_, region?.eq_1 (body ++ rest), ?_⟩
    rw [List.takeWhile_append_of_pos hall, List.length_cons, List.length_cons, List.length_append]
    omega
  | @blockComment before body hcut =>
    have hmeasured := lengthThrough?_eq_some_iff.2 ⟨before, _, hcut.withRest rest, rfl⟩
    refine ⟨_, (region?.eq_2 (body ++ rest)).trans (congrArg _ hmeasured), ?_⟩
    rw [hcut.1]
    simp only [List.length_cons, List.length_append, List.length_nil]
    omega
  | @rawString before body hcut =>
    have hmeasured := lengthThrough?_eq_some_iff.2 ⟨before, _, hcut.withRest rest, rfl⟩
    refine ⟨3 + (before.length + 3), ?_, ?_⟩
    · rw [List.cons_append, List.cons_append, List.cons_append, region?]
      simp only [List.isPrefixOf?, beq_self_eq_true, if_true, Option.bind_some, hmeasured]
      rfl
    · rw [hcut.1]
      simp only [List.length_cons, List.length_append, List.length_nil]
      omega
  | @literal quote body isQuote hbody =>
    have htext : quote :: (body ++ [quote]) ++ rest = quote :: (body ++ quote :: rest) := by simp
    have hmeasured := literalLength?_body isQuote hbody rest
    have hlength : (quote :: (body ++ [quote])).length = 1 + (body.length + 1) := by
      simp only [List.length_cons, List.length_append, List.length_nil]
      omega
    rw [htext, hlength]
    rcases isQuote with rfl | rfl
    · rw [region?.eq_3]
      rcases hraw : (['"', '"'].isPrefixOf? (body ++ '"' :: rest)).bind
          (lengthThrough? ['"', '"', '"']) with - | m
      · refine ⟨_, ?_, Nat.le_refl _⟩
        simp only [hmeasured, Option.map_some]
      · -- A raw string starts there, so the literal is the two quotes it starts with.
        obtain ⟨after, hstarts, -⟩ := Option.bind_eq_some_iff.1 hraw
        have hquotes : ['"', '"'] <+: body ++ '"' :: rest :=
          ⟨after, List.isPrefixOf?_eq_some_iff_append_eq.1 hstarts⟩
        rw [hbody.eq_nil (.inl rfl) hquotes, List.length_nil]
        exact ⟨_, rfl, by omega⟩
    · exact ⟨_, (region?.eq_4 _).trans (congrArg _ hmeasured), Nat.le_refl _⟩

/-- **What is found** at the start of a text is the longest comment or literal that starts there. -/
theorem region?_eq_some_iff :
    region? text = some n ↔
      ∃ region rest, text = region ++ rest ∧ FoundAt region rest ∧ region.length = n := by
  constructor
  · intro h
    obtain ⟨region, rest, rfl, hregion, rfl⟩ := exists_of_region? h
    refine ⟨region, rest, rfl, ⟨hregion, fun other hother hstarts => ?_⟩, rfl⟩
    obtain ⟨more, hmore⟩ := hstarts
    obtain ⟨m, hm, hle⟩ := length_le_region? hother more
    rw [hmore, h] at hm
    cases hm
    exact hle
  · rintro ⟨region, rest, rfl, found, rfl⟩
    obtain ⟨m, hm, hle⟩ := length_le_region? found.spelled rest
    obtain ⟨other, more, htext, hother, rfl⟩ := exists_of_region? hm
    have hge := found.longest other hother (htext ▸ List.prefix_append other more)
    rw [hm, Nat.le_antisymm hge hle]

theorem region?_eq_none_iff : region? text = none ↔ ¬ Opens text := by
  constructor
  · rintro h ⟨region, hregion, rest, rfl⟩
    obtain ⟨n, hn, -⟩ := length_le_region? hregion rest
    rw [h] at hn
    cases hn
  · intro h
    rcases hregion : region? text with - | n
    · rfl
    · obtain ⟨region, rest, rfl, found, -⟩ := region?_eq_some_iff.1 hregion
      exact absurd ⟨region, found.spelled, List.prefix_append _ _⟩ h

theorem FoundAt.ne_nil (h : FoundAt region rest) : region ≠ [] := by
  cases h.spelled <;> exact List.cons_ne_nil _ _

/-- A line comment that is found ends its line, and every other region ends in no backslash. -/
theorem FoundAt.ending (h : FoundAt region rest) :
    region.getLast? ≠ some '\\' ∨ Stops (· != '\n') rest := by
  cases hspelled : h.spelled with
  | @lineComment body hbody =>
    refine .inr ?_
    rcases rest with - | ⟨c, more⟩
    · exact fun d hd => by cases hd
    · -- The comment would be longer by this character.
      rw [stops_cons]
      by_contra hc
      have hlonger : IsRegion ('/' :: '/' :: (body ++ [c])) := by
        refine .lineComment fun hm => ?_
        rcases List.mem_append.1 hm with hm | hm
        · exact hbody hm
        · exact hc (by rw [← List.mem_singleton.1 hm]; rfl)
      have hle := h.longest _ hlonger ⟨more, by simp⟩
      simp only [List.length_cons, List.length_append, List.length_nil] at hle
      omega
  | @blockComment before body hcut =>
    have hend : '/' :: '*' :: body = '/' :: '*' :: (before ++ ['*']) ++ ['/'] := by
      rw [hcut.1]
      simp
    rw [hend, List.getLast?_concat]
    exact .inl (by decide)
  | @rawString before body hcut =>
    have hend : '"' :: '"' :: '"' :: body = '"' :: '"' :: '"' :: (before ++ ['"', '"']) ++ ['"'] := by
      rw [hcut.1]
      simp
    rw [hend, List.getLast?_concat]
    exact .inl (by decide)
  | @literal quote body isQuote hbody =>
    rw [← List.cons_append, List.getLast?_concat]
    exact .inl fun heq => isQuote.ne.1 (Option.some.inj heq)

/-! ## The scan -/

theorem codeFrom_blanks (part rest : List Char) :
    codeFrom part.length (part ++ rest) = part.map blankOf ++ codeOnly rest := by
  induction part with
  | nil => rfl
  | cons c more ih => rw [List.cons_append, List.length_cons, codeFrom, ih]; rfl

/-- A region that is found is blanked, and the scan goes on behind it. -/
theorem codeOnly_found (h : FoundAt region rest) :
    codeOnly (region ++ rest) = region.map blankOf ++ codeOnly rest := by
  obtain ⟨c, more, rfl⟩ := List.exists_cons_of_ne_nil h.ne_nil
  have hregion := region?_eq_some_iff.2 ⟨_, rest, rfl, h, rfl⟩
  rw [codeOnly, List.cons_append, codeFrom, ← List.cons_append, hregion, List.map_cons,
    List.cons_append]
  exact congrArg (blankOf c :: ·) (codeFrom_blanks more rest)

/-- A character at which nothing starts stays. -/
theorem codeOnly_passed (h : ¬ Opens (c :: rest)) : codeOnly (c :: rest) = c :: codeOnly rest := by
  rw [codeOnly, codeFrom, region?_eq_none_iff.2 h]
  rfl

/-- A text falls into regions that are found and characters at which none starts. -/
theorem scan_induction {motive : List Char → Prop} (nil : motive [])
    (found : ∀ region rest, FoundAt region rest → motive rest → motive (region ++ rest))
    (passed : ∀ c rest, ¬ Opens (c :: rest) → motive rest → motive (c :: rest))
    (text : List Char) : motive text := by
  induction hlength : text.length using Nat.strongRecOn generalizing text with
  | ind length ih =>
    subst hlength
    rcases hregion : region? text with - | n
    · rcases text with - | ⟨c, rest⟩
      · exact nil
      · exact passed c rest (region?_eq_none_iff.1 hregion) (ih _ (by simp) rest rfl)
    · obtain ⟨region, rest, rfl, hfound, -⟩ := region?_eq_some_iff.1 hregion
      have hpositive := List.length_pos_iff.2 hfound.ne_nil
      have hshorter : rest.length < (region ++ rest).length := by
        rw [List.length_append]
        omega
      exact found region rest hfound (ih _ hshorter rest rfl)

theorem Inside.behind {first : List Char} {place : Nat} (h : FoundAt first rest)
    (inside : Inside rest place) : Inside (first ++ rest) (first.length + place) := by
  obtain ⟨start, region, hfinds, hstart, hend⟩ := inside
  exact ⟨first.length + start, region, hfinds.behind h, by omega, by omega⟩

theorem Inside.passed {place : Nat} (h : ¬ Opens (c :: rest)) (inside : Inside rest place) :
    Inside (c :: rest) (place + 1) := by
  obtain ⟨start, region, hfinds, hstart, hend⟩ := inside
  exact ⟨start + 1, region, hfinds.passed h, by omega, by omega⟩

/-- A character stays, or it lies within a region that is found and is blanked. -/
theorem kept_or_inside (text : List Char) (place : Nat) :
    (codeOnly text)[place]? = text[place]? ∨
      Inside text place ∧ (codeOnly text)[place]? = text[place]?.map blankOf := by
  induction text using scan_induction generalizing place with
  | nil => exact .inl rfl
  | found region rest h ih =>
    rw [codeOnly_found h]
    by_cases hplace : place < region.length
    · refine .inr ⟨⟨0, region, .here h, Nat.zero_le _, by omega⟩, ?_⟩
      rw [List.getElem?_append_left hplace, List.getElem?_append_left (by simpa using hplace),
        List.getElem?_map]
    · obtain ⟨later, rfl⟩ := Nat.exists_eq_add_of_le (Nat.le_of_not_lt hplace)
      have hlength : region.length = (region.map blankOf).length := (List.length_map _).symm
      rw [List.getElem?_append_right (Nat.le_add_right _ _),
        List.getElem?_append_right (hlength ▸ Nat.le_add_right _ _), List.length_map,
        Nat.add_sub_cancel_left]
      exact (ih later).imp_right fun ⟨inside, hblank⟩ => ⟨inside.behind h, hblank⟩
  | passed c rest h ih =>
    rw [codeOnly_passed h]
    cases place with
    | zero => exact .inl rfl
    | succ later => exact (ih later).imp_right fun ⟨inside, hblank⟩ => ⟨inside.passed h, hblank⟩

/-- What is found is blanked where it stands. -/
theorem Finds.blanked {start : Nat} (h : Finds text start region) :
    IsRegion region ∧ region <+: text.drop start ∧
      region.map blankOf <+: (codeOnly text).drop start := by
  induction h with
  | here found =>
    rw [codeOnly_found found]
    exact ⟨found.spelled, List.prefix_append _ _, List.prefix_append _ _⟩
  | @behind first rest region start found _ ih =>
    have hlength : first.length = (first.map blankOf).length := (List.length_map _).symm
    rw [codeOnly_found found, List.drop_length_add_append]
    rw [hlength, List.drop_length_add_append]
    exact ih
  | passed free _ ih =>
    rw [codeOnly_passed free]
    exact ih

/-- What is left, and is no blank, was there. -/
theorem getElem?_of_codeOnly {place : Nat} (h : (codeOnly text)[place]? = some c) (hblank : c ≠ ' ') :
    text[place]? = some c := by
  rcases kept_or_inside text place with hkept | ⟨-, hblanked⟩
  · rw [← hkept, h]
  · rw [hblanked, Option.map_eq_some_iff] at h
    obtain ⟨d, hd, hc⟩ := h
    rw [blankOf] at hc
    split at hc
    · next hfeed => rw [hd, hfeed, hc]
    · exact absurd hc.symm hblank

theorem prefix_of_codeOnly (hblank : ' ' ∉ part) (h : part <+: (codeOnly text).drop n) :
    part <+: text.drop n := by
  rw [List.prefix_iff_getElem?] at h ⊢
  intro i hi
  have hleft := h i hi
  rw [List.getElem?_drop] at hleft ⊢
  exact getElem?_of_codeOnly hleft fun heq => hblank (heq ▸ List.getElem_mem hi)

/-! ## Literals that stay open -/

/-- A literal is closed in the text behind its opening quote. -/
def Closes (quote : Char) (text : List Char) : Prop := (literalLength? quote text).isSome = true

theorem not_closes_nil (quote : Char) : ¬ Closes quote [] := by
  simp [Closes, literalLength?]

theorem closes_escape : Closes quote ('\\' :: rest) ↔ Closes quote rest.tail := by
  rw [Closes, Closes, literalLength?_escape, Option.isSome_map]

theorem closes_cons (h : c ≠ '\\') :
    Closes quote (c :: rest) ↔ c = quote ∨ c ≠ '\n' ∧ Closes quote rest := by
  rw [Closes, Closes, literalLength?_cons h]
  split
  · next hquote => exact iff_of_true rfl (.inl hquote)
  · next hquote =>
    split
    · next hfeed =>
      refine iff_of_false (by simp) ?_
      rintro (heq | ⟨hne, -⟩)
      · exact hquote heq
      · exact hne hfeed
    · next hfeed =>
      rw [Option.isSome_map]
      exact ⟨fun h => .inr ⟨hfeed, h⟩, fun h => (h.resolve_left hquote).2⟩

theorem not_closes_stops (isQuote : IsQuote quote) (h : Stops (· != '\n') text) :
    ¬ Closes quote text := by
  rcases text with - | ⟨c, rest⟩
  · exact not_closes_nil quote
  · obtain rfl : c = '\n' := by simpa using stops_cons.1 h
    rw [closes_cons (by decide)]
    rintro (hquote | ⟨hfeed, -⟩)
    · exact isQuote.ne.2.1 hquote.symm
    · exact hfeed rfl

/-- What is closed behind blanks is closed without them, and the blanks are on one line. -/
theorem closes_of_blanks (isQuote : IsQuote quote)
    (h : Closes quote (part.map blankOf ++ rest)) : '\n' ∉ part ∧ Closes quote rest := by
  induction part with
  | nil => exact ⟨List.not_mem_nil, h⟩
  | cons c more ih =>
    by_cases hfeed : c = '\n'
    · subst hfeed
      refine absurd h (not_closes_stops isQuote ?_)
      exact stops_cons.2 (by decide)
    · have hblank : blankOf c = ' ' := if_neg hfeed
      rw [List.map_cons, List.cons_append, hblank, closes_cons (by decide)] at h
      rcases h with hquote | ⟨-, hmore⟩
      · exact absurd hquote.symm isQuote.ne.2.2
      · obtain ⟨hpart, hrest⟩ := ih hmore
        exact ⟨List.not_mem_cons_of_ne_of_not_mem (Ne.symm hfeed) hpart, hrest⟩

theorem getLast?_ne_of_suffix (hpart : part <:+ text) (h : text.getLast? ≠ some c) :
    part.getLast? ≠ some c := by
  intro heq
  obtain ⟨front, rfl⟩ := hpart
  rw [List.getLast?_append, heq, Option.some_or] at h
  exact h rfl

/-- On one line, a literal that is closed behind some characters is closed with them in between,
    unless the last of them takes the next one with it. -/
theorem closes_through (hfeed : '\n' ∉ part) (hlast : part.getLast? ≠ some '\\')
    (h : Closes quote rest) : Closes quote (part ++ rest) := by
  induction hlength : part.length using Nat.strongRecOn generalizing part with
  | ind length ih =>
    subst hlength
    rcases part with - | ⟨c, more⟩
    · exact h
    · have hsuffix := List.suffix_cons c more
      have hmore := List.not_mem_of_not_mem_cons hfeed
      have hshorter : more.length < (c :: more).length := Nat.lt_succ_self _
      by_cases hescape : c = '\\'
      · subst hescape
        rcases more with - | ⟨d, others⟩
        · exact absurd rfl hlast
        · rw [List.cons_append, closes_escape]
          exact ih others.length (Nat.lt_of_succ_lt hshorter) (List.not_mem_of_not_mem_cons hmore)
            (getLast?_ne_of_suffix ((List.suffix_cons d others).trans hsuffix) hlast) rfl
      · rw [List.cons_append, closes_cons hescape]
        exact .inr ⟨(List.ne_of_not_mem_cons hfeed).symm,
          ih more.length hshorter hmore (getLast?_ne_of_suffix hsuffix hlast) rfl⟩

/-- What is closed behind the end of a region that was blanked was closed behind it before. -/
theorem closes_behind (isQuote : IsQuote quote) (found : FoundAt region rest)
    (hpart : part <:+ region) (hrest : Closes quote (codeOnly rest) → Closes quote rest)
    (h : Closes quote (part.map blankOf ++ codeOnly rest)) : Closes quote (part ++ rest) := by
  obtain ⟨hfeed, hclosed⟩ := closes_of_blanks isQuote h
  rcases found.ending with hlast | hends
  · exact closes_through hfeed (getLast?_ne_of_suffix hpart hlast) (hrest hclosed)
  · -- The line ends there, and the literal with it.
    refine absurd hclosed (not_closes_stops isQuote ?_)
    rcases rest with - | ⟨c, more⟩
    · exact hends
    · obtain rfl : c = '\n' := by simpa using stops_cons.1 hends
      have hstays : codeOnly ('\n' :: more) = '\n' :: codeOnly more :=
        codeOnly_passed (region?_eq_none_iff.1 rfl)
      rw [hstays]
      exact stops_cons.2 (by decide)

/-- Blanking closes no literal.  A backslash takes the next character with it, so the same is said
    of the text behind the first character. -/
theorem closes_of_codeOnly (isQuote : IsQuote quote) (text : List Char) :
    (Closes quote (codeOnly text) → Closes quote text) ∧
      (Closes quote (codeOnly text).tail → Closes quote text.tail) := by
  induction text using scan_induction with
  | nil => exact ⟨id, id⟩
  | found region rest found ih =>
    rw [codeOnly_found found]
    refine ⟨closes_behind isQuote found (List.suffix_refl _) ih.1, ?_⟩
    obtain ⟨c, more, rfl⟩ := List.exists_cons_of_ne_nil found.ne_nil
    exact closes_behind isQuote found (List.suffix_cons c more) ih.1
  | passed c rest free ih =>
    rw [codeOnly_passed free]
    refine ⟨?_, ih.1⟩
    by_cases hescape : c = '\\'
    · subst hescape
      rw [closes_escape, closes_escape]
      exact ih.2
    · rw [closes_cons hescape, closes_cons hescape]
      exact Or.imp_right (And.imp_right ih.1)

/-! ## What is left -/

/-- No comment and no literal stands anywhere in a text. -/
def IsBare (text : List Char) : Prop := ∀ region, region <:+: text → ¬ IsRegion region

theorem isBare_cons : IsBare (c :: rest) ↔ ¬ Opens (c :: rest) ∧ IsBare rest := by
  constructor
  · intro h
    refine ⟨fun ⟨region, hregion, hstarts⟩ => h region hstarts.isInfix hregion, ?_⟩
    exact fun region hpart => h region (hpart.trans (List.suffix_cons c rest).isInfix)
  · rintro ⟨free, hrest⟩ region hpart hregion
    rcases List.infix_cons_iff.1 hpart with hstarts | hlater
    · exact free ⟨region, hregion, hstarts⟩
    · exact hrest region hlater hregion

theorem isBare_nil : IsBare [] := by
  intro region hpart hregion
  rw [List.infix_nil.1 hpart] at hregion
  cases hregion

/-- A text that is bare is left as it is. -/
theorem codeOnly_bare (h : IsBare text) : codeOnly text = text := by
  induction text with
  | nil => rfl
  | cons c rest ih =>
    obtain ⟨free, hrest⟩ := isBare_cons.1 h
    rw [codeOnly_passed free, ih hrest]

/-- What opens a comment or literal. -/
theorem head_of_opens (h : Opens (c :: rest)) : c = '/' ∨ IsQuote c := by
  obtain ⟨region, hregion, hstarts⟩ := h
  cases hregion with
  | lineComment _ => exact .inl (List.cons_prefix_cons.1 hstarts).1.symm
  | blockComment _ => exact .inl (List.cons_prefix_cons.1 hstarts).1.symm
  | rawString _ => exact .inr (.inl (List.cons_prefix_cons.1 hstarts).1.symm)
  | literal isQuote _ => exact .inr ((List.cons_prefix_cons.1 hstarts).1 ▸ isQuote)

/-- Nothing starts at a blank. -/
theorem not_opens_blank (c : Char) (rest : List Char) : ¬ Opens (blankOf c :: rest) := by
  intro h
  rw [blankOf] at h
  split at h <;> rcases head_of_opens h with hopener | hopener | hopener <;> cases hopener

/-- Blanking what follows a character starts nothing at it. -/
theorem not_opens_blanked (h : ¬ Opens (c :: rest)) : ¬ Opens (c :: codeOnly rest) := by
  rintro ⟨region, hregion, hstarts⟩
  refine h ?_
  -- What a region is told by was there before.
  have hbefore : ∀ {part : List Char}, ' ' ∉ part → part <+: codeOnly rest → part <+: rest :=
    fun hblank hpart => prefix_of_codeOnly (n := 0) hblank hpart
  cases hregion with
  | lineComment _ =>
    obtain ⟨rfl, hrest⟩ := List.cons_prefix_cons.1 hstarts
    have hslash : ['/'] <+: rest := hbefore (by decide) ((List.prefix_append ['/'] _).trans hrest)
    exact ⟨['/', '/'], .lineComment List.not_mem_nil, List.cons_prefix_cons.2 ⟨rfl, hslash⟩⟩
  | @blockComment before body hcut =>
    obtain ⟨rfl, hrest⟩ := List.cons_prefix_cons.1 hstarts
    obtain ⟨more, rfl⟩ : ['*'] <+: rest :=
      hbefore (by decide) ((List.prefix_append ['*'] _).trans hrest)
    have hcloses : ['*', '/'] <+: (codeOnly ('*' :: more)).drop (before.length + 1) := by
      refine List.IsPrefix.trans ?_ (hrest.drop (before.length + 1))
      rw [hcut.1]
      simp
    have hoccurs : ['*', '/'] <:+: more := by
      have hthere := prefix_of_codeOnly (by decide) hcloses
      exact hthere.isInfix.trans (List.drop_suffix before.length more).isInfix
    by_contra free
    have hnone := region?_eq_none_iff.2 free
    rw [List.singleton_append, region?, Option.map_eq_none_iff, lengthThrough?,
      Option.map_eq_none_iff] at hnone
    exact before?_eq_none_iff.1 hnone hoccurs
  | rawString _ =>
    obtain ⟨rfl, hrest⟩ := List.cons_prefix_cons.1 hstarts
    have hquote : ['"'] <+: rest := hbefore (by decide) ((List.prefix_append ['"'] _).trans hrest)
    exact ⟨_, .literal (.inl rfl) .nil, List.cons_prefix_cons.2 ⟨rfl, hquote⟩⟩
  | @literal quote body isQuote hbody =>
    obtain ⟨rfl, more, hrest⟩ := List.cons_prefix_cons.1 hstarts
    have hclosed : Closes quote (codeOnly rest) := by
      rw [← hrest, List.append_assoc]
      exact Option.isSome_iff_exists.2 ⟨_, literalLength?_body isQuote hbody more⟩
    obtain ⟨n, hn⟩ := Option.isSome_iff_exists.1 ((closes_of_codeOnly isQuote rest).1 hclosed)
    obtain ⟨body, after, rfl, hbody, -⟩ := exists_of_literalLength? hn
    exact ⟨_, .literal isQuote hbody, after, by simp⟩

/-- **What is left** has no comment and no literal in it. -/
theorem bare_codeOnly (text : List Char) : IsBare (codeOnly text) := by
  induction text using scan_induction with
  | nil => exact isBare_nil
  | found region rest found ih =>
    rw [codeOnly_found found]
    clear found
    induction region with
    | nil => exact ih
    | cons c more ihmore => exact isBare_cons.2 ⟨not_opens_blank c _, ihmore⟩
  | passed c rest free ih =>
    rw [codeOnly_passed free]
    exact isBare_cons.2 ⟨not_opens_blanked free, ih⟩

/-- **Blanking**: a text keeps its length and its line feeds, and what else is changed becomes a
    blank within a comment or literal that is found in a scan from the left.  All of these are
    blanked, nothing that is left reads as a comment or literal, and blanking again changes
    nothing. -/
theorem codeOnly_blanks (text : List Char) :
    (codeOnly text).length = text.length ∧
      (∀ place : Nat, (codeOnly text)[place]? = some '\n' ↔ text[place]? = some '\n') ∧
      (∀ place : Nat, (codeOnly text)[place]? ≠ text[place]? →
        (codeOnly text)[place]? = some ' ' ∧ Inside text place) ∧
      (∀ start region, Finds text start region →
        IsRegion region ∧ region <+: text.drop start ∧
          region.map blankOf <+: (codeOnly text).drop start) ∧
      IsBare (codeOnly text) ∧
      codeOnly (codeOnly text) = codeOnly text := by
  refine ⟨length_codeOnly text, fun place => ⟨fun h => ?_, fun h => ?_⟩, fun place hchanged => ?_,
    fun start region => Finds.blanked, bare_codeOnly text, codeOnly_bare (bare_codeOnly text)⟩
  · exact getElem?_of_codeOnly h (by decide)
  · rcases kept_or_inside text place with hkept | ⟨-, hblanked⟩
    · rw [hkept, h]
    · rw [hblanked, h]
      rfl
  · obtain ⟨inside, hblanked⟩ := (kept_or_inside text place).resolve_left hchanged
    refine ⟨?_, inside⟩
    rw [hblanked] at hchanged ⊢
    rcases hplace : text[place]? with - | c
    · rw [hplace] at hchanged
      exact absurd rfl hchanged
    · rw [hplace, Option.map_some, blankOf] at hchanged
      rw [Option.map_some, blankOf]
      split at hchanged
      · next hfeed => exact absurd (congrArg some hfeed.symm) hchanged
      · next hfeed => rw [if_neg hfeed]

/-- The quote in front of the comment is closed neither by the one in it nor without it. -/
example : codeOnly "\" /* x\n\" */ y // z".toList = "\"     \n     y     ".toList := by
  decide +kernel

end KotlinHarness.Source
