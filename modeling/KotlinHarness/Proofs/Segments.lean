/-
  The segments of paths that are put together.

  A path keeps its spelling, and what the system makes of it depends on the segments between its
  slashes.  Reading a name from a path adds one segment, in the place of the empty one that a slash
  at the end stands for (`segments_div`).

  Slashes that follow each other, and one at the end, leave segments empty.  `names` are the others;
  reading a relative path from another one puts the names of the two in a row (`names_join`), so
  that paths below a directory can be told apart by their names.
-/
import KotlinHarness.Path
import KotlinHarness.Proofs.Text.Split
import Mathlib.Algebra.GroupWithZero.Nat

namespace KotlinHarness.Path

/-- A segment has no slash in it. -/
def IsSegment (name : String) : Prop := '/' ∉ name.toList

theorem isEmpty_eq_false_iff {p : Path} : p.isEmpty = false ↔ p.text.toList ≠ [] := by
  rw [isEmpty, ← Bool.not_eq_true, String.isEmpty_iff, Ne, String.toList_eq_nil_iff]

theorem segments_ne_nil (p : Path) : p.segments ≠ [] :=
  fun hnil => Text.splitWhere_ne_nil _ _ (List.map_eq_nil_iff.1 hnil)

theorem exists_last_segment (p : Path) : ∃ before last, p.segments = before ++ [last] :=
  ⟨_, _, (List.dropLast_concat_getLast p.segments_ne_nil).symm⟩

/-- A path that does not end in a slash ends in a segment that is not empty. -/
theorem segments_last {p : Path} (nonempty : p.isEmpty = false) (h : p.endsWithSlash = false) :
    ∃ before name, p.segments = before ++ [name] ∧ name ≠ "" := by
  have hlast : p.text.toList.getLast? ≠ some '/' := by simpa [endsWithSlash] using h
  obtain ⟨before, piece, heq, hpiece⟩ :=
    Text.splitOn_getLast (isEmpty_eq_false_iff.1 nonempty) hlast
  refine ⟨before.map String.ofList, String.ofList piece, ?_, ?_⟩
  · rw [segments, heq, List.map_append]
    rfl
  · intro h
    exact hpiece (by simpa using congrArg String.toList h)

/-- A path whose last segment is not empty does not end in a slash. -/
theorem endsWithSlash_of_segments {p : Path} {before : List String} {name : String}
    (h : p.segments = before ++ [name]) (nonempty : name ≠ "") : p.endsWithSlash = false := by
  rw [endsWithSlash, beq_eq_false_iff_ne]
  intro hslash
  obtain ⟨front, hfront⟩ := List.getLast?_eq_some_iff.1 hslash
  rw [segments, hfront, Text.splitOn_append_cons, List.map_append] at h
  have hlast := congrArg List.getLast? h
  rw [List.getLast?_concat, show (Text.splitOn '/' []).map String.ofList = [""] from rfl,
    List.getLast?_concat] at hlast
  exact nonempty (Option.some.inj hlast).symm

theorem isAbsolute_segment {name : String} (h : IsSegment name) :
    (Path.mk name).isAbsolute = false := by
  rw [isAbsolute]
  rcases hname : name.toList with - | ⟨first, rest⟩
  · rfl
  · have hne : first ≠ '/' := fun heq => h (by rw [hname, heq]; exact List.mem_cons_self)
    simpa using hne

/-- The text of a name read from a path. -/
theorem text_div {p : Path} {name : String} (h : IsSegment name) :
    (p / name).text = if p.isEmpty || p.endsWithSlash then p.text ++ name
      else p.text ++ "/" ++ name := by
  show (p.join ⟨name⟩).text = _
  rw [join, if_neg (by simp [isAbsolute_segment h])]
  split <;> rfl

theorem segments_div {p : Path} {name : String} (h : IsSegment name) :
    ∃ base, (p / name).segments = base ++ [name] ∧
      (base = p.segments ∨ base ++ [""] = p.segments) := by
  have hname : (Text.splitOn '/' name.toList).map String.ofList = [name] := by
    rw [Text.splitOn_of_not_mem h, List.map_singleton, String.ofList_toList]
  rw [segments, text_div h]
  -- A name read from an empty path is all there is of the new one.
  by_cases hempty : p.isEmpty = true
  · have htext : p.text.toList = [] := by
      rw [isEmpty, String.isEmpty_iff] at hempty
      rw [hempty]
      rfl
    refine ⟨[], ?_, .inr ?_⟩
    · rw [if_pos (by simp [hempty]), String.toList_append, htext, List.nil_append, hname,
        List.nil_append]
    · rw [segments, htext]
      rfl
  · by_cases hslash : p.endsWithSlash = true
    · obtain ⟨before, hbefore⟩ : ∃ before, p.text.toList = before ++ ['/'] := by
        rw [endsWithSlash, beq_iff_eq] at hslash
        exact List.getLast?_eq_some_iff.1 hslash
      refine ⟨(Text.splitOn '/' before).map String.ofList, ?_, .inr ?_⟩
      · rw [if_pos (by simp [hslash]), String.toList_append, hbefore, List.append_assoc,
          List.singleton_append, Text.splitOn_append_cons, List.map_append, hname]
      · rw [segments, hbefore, Text.splitOn_append_cons, List.map_append]
        rfl
    · refine ⟨p.segments, ?_, .inl rfl⟩
      rw [if_neg (by simp [hempty, hslash]), String.toList_append, String.toList_append,
        List.append_assoc, show "/".toList = ['/'] from rfl, List.singleton_append,
        Text.splitOn_append_cons, List.map_append, hname]
      rfl

/-- Relative paths that are read from one path all follow its segments, but for an empty one at the
    end. -/
theorem base_join (p : Path) :
    ∃ base, (base = p.segments ∨ base ++ [""] = p.segments) ∧
      ∀ q : Path, q.isAbsolute = false → (p.join q).segments = base ++ q.segments := by
  by_cases hempty : p.isEmpty = true
  · have htext : p.text = "" := by rwa [isEmpty, String.isEmpty_iff] at hempty
    refine ⟨[], .inr ?_, ?_⟩
    · rw [segments, htext]
      rfl
    · intro q hq
      rw [join, if_neg (by simp [hq]), if_pos (by simp [hempty]), htext, String.empty_append]
      rfl
  · by_cases hslash : p.endsWithSlash = true
    · obtain ⟨before, hbefore⟩ : ∃ before, p.text.toList = before ++ ['/'] := by
        rw [endsWithSlash, beq_iff_eq] at hslash
        exact List.getLast?_eq_some_iff.1 hslash
      refine ⟨(Text.splitOn '/' before).map String.ofList, .inr ?_, ?_⟩
      · rw [segments, hbefore, Text.splitOn_append_cons, List.map_append]
        rfl
      · intro q hq
        rw [join, if_neg (by simp [hq]), if_pos (by simp [hslash]), segments, String.toList_append,
          hbefore, List.append_assoc, List.singleton_append, Text.splitOn_append_cons,
          List.map_append]
        rfl
    · refine ⟨p.segments, .inl rfl, ?_⟩
      intro q hq
      rw [join, if_neg (by simp [hq]), if_neg (by simp [hempty, hslash]), segments,
        String.toList_append, String.toList_append, List.append_assoc,
        show "/".toList = ['/'] from rfl, List.singleton_append, Text.splitOn_append_cons,
        List.map_append]
      rfl

theorem exists_base_join (p : Path) :
    ∃ base, ∀ q : Path, q.isAbsolute = false → (p.join q).segments = base ++ q.segments := by
  obtain ⟨base, -, hbase⟩ := base_join p
  exact ⟨base, hbase⟩

/-- A path read from another one ends in its own segments. -/
theorem segments_join (p q : Path) : ∃ base, (p.join q).segments = base ++ q.segments := by
  by_cases habsolute : q.isAbsolute = true
  · exact ⟨[], by rw [join, if_pos habsolute, List.nil_append]⟩
  · obtain ⟨base, hbase⟩ := exists_base_join p
    exact ⟨base, hbase q (by simpa using habsolute)⟩

/-- A path is absolute when nothing stands before its first slash. -/
theorem isAbsolute_iff_segments {p : Path} :
    p.isAbsolute = true ↔ ∃ next rest, p.segments = "" :: next :: rest := by
  rw [isAbsolute, beq_iff_eq, segments]
  rcases p.text.toList with - | ⟨first, rest⟩
  · simp [show Text.splitOn '/' [] = [[]] from rfl]
  · by_cases hfirst : first = '/'
    · obtain ⟨next, others, hnext⟩ :=
        List.exists_cons_of_ne_nil (Text.splitWhere_ne_nil (· == '/') rest)
      have hrest : Text.splitOn '/' rest = next :: others := hnext
      simp [hfirst, Text.splitOn_cons_self, hrest]
    · obtain ⟨piece, pieces, -, hcons⟩ := Text.splitOn_cons hfirst rest
      simp [hfirst, hcons]

/-! ## Names -/

/-- The segments between slashes that are not empty. -/
def names (p : Path) : List String := p.segments.filter (! ·.isEmpty)

/-- A segment that has a name in it. -/
structure IsEntry (name : String) : Prop where
  segment : IsSegment name
  nonempty : name ≠ ""

/-- A name that is spelled out: both conditions can be decided at once. -/
theorem isEntry_of_plain {name : String} (h : '/' ∉ name.toList ∧ name ≠ "") : IsEntry name :=
  ⟨h.1, h.2⟩

/-- A path that ends in a name does not end in a slash. -/
theorem endsWithSlash_div {p : Path} {name : String} (h : IsEntry name) :
    (p / name).endsWithSlash = false := by
  obtain ⟨before, hbefore, -⟩ := segments_div (p := p) h.segment
  exact endsWithSlash_of_segments hbefore h.nonempty

theorem names_of_append {p first second : Path}
    (h : p.text.toList = first.text.toList ++ '/' :: second.text.toList) :
    p.names = first.names ++ second.names := by
  rw [names, segments, h, Text.splitOn_append_cons, List.map_append, List.filter_append]
  rfl

/-- A relative path read from another one: the names of the two in a row. -/
theorem names_join {p q : Path} (h : q.isAbsolute = false) : (p.join q).names = p.names ++ q.names := by
  rw [join, if_neg (by simp [h])]
  by_cases hempty : p.isEmpty = true
  · have htext : p.text = "" := by rwa [isEmpty, String.isEmpty_iff] at hempty
    rw [if_pos (by simp [hempty])]
    have hp : p.names = [] := by
      rw [names, segments, htext]
      rfl
    rw [hp, htext, String.empty_append, List.nil_append]
  · by_cases hslash : p.endsWithSlash = true
    · obtain ⟨before, hbefore⟩ : ∃ before, p.text.toList = before ++ ['/'] := by
        rw [endsWithSlash, beq_iff_eq] at hslash
        exact List.getLast?_eq_some_iff.1 hslash
      have hp : p.names = (Path.mk (String.ofList before)).names := by
        have hcut := @names_of_append p ⟨String.ofList before⟩ ⟨""⟩
          (by rw [hbefore, String.toList_ofList]; rfl)
        rw [hcut]
        exact List.append_nil _
      rw [if_pos (by simp [hslash]), hp]
      refine names_of_append ?_
      rw [String.toList_append, hbefore, String.toList_ofList, List.append_assoc]
      rfl
    · rw [if_neg (by simp [hempty, hslash])]
      refine names_of_append ?_
      rw [String.toList_append, String.toList_append, List.append_assoc]
      rfl

theorem names_of_isEntry {name : String} (h : IsEntry name) : (Path.mk name).names = [name] := by
  rw [names, segments, Text.splitOn_of_not_mem h.segment, List.map_singleton,
    String.ofList_toList, List.filter_cons_of_pos (by simpa using h.nonempty), List.filter_nil]

theorem names_div {p : Path} {name : String} (h : IsEntry name) :
    (p / name).names = p.names ++ [name] := by
  show (p.join ⟨name⟩).names = _
  rw [names_join (isAbsolute_segment h.segment), names_of_isEntry h]

/-! ## Paths below a path -/

theorem extend_cons (p : Path) (name : String) (rest : List String) :
    p.extend (name :: rest) = (p / name).extend rest := rfl

theorem extend_append (p : Path) (first second : List String) :
    p.extend (first ++ second) = (p.extend first).extend second :=
  List.foldl_append

theorem extend_concat (p : Path) (before : List String) (name : String) :
    p.extend (before ++ [name]) = p.extend before / name :=
  extend_append p before [name]

theorem names_extend {p : Path} {below : List String} (h : ∀ name ∈ below, IsEntry name) :
    (p.extend below).names = p.names ++ below := by
  induction below generalizing p with
  | nil => exact (List.append_nil _).symm
  | cons name rest ih =>
    rw [extend_cons, ih fun other hm => h other (List.mem_cons_of_mem _ hm),
      names_div (h name List.mem_cons_self), List.append_assoc, List.singleton_append]

/-- An empty name adds nothing but a slash. -/
theorem div_empty_div (p : Path) {name : String} (h : IsSegment name) : p / "" / name = p / name := by
  have hempty : IsSegment "" := by
    rw [IsSegment]
    decide
  have hsame : ∀ {q q' : Path}, q.text = q'.text → q = q' := fun {q q'} htext => by
    cases q
    cases q'
    exact congrArg Path.mk htext
  have htext := text_div (p := p) hempty
  split at htext
  · rw [hsame (htext.trans String.append_empty)]
  · next hbusy =>
    have hslash : (p / "").endsWithSlash = true := by
      rw [endsWithSlash, htext]
      simp
    refine hsame ?_
    rw [text_div h, text_div h, if_pos (by rw [hslash, Bool.or_true]), if_neg hbusy, htext,
      String.append_empty]

/-- So empty names can be left out before another one. -/
theorem extend_div (p : Path) {names : List String} {name : String}
    (hnames : ∀ other ∈ names, IsSegment other) (hname : IsSegment name) :
    p.extend names / name = p.extend (names.filter (! ·.isEmpty) ++ [name]) := by
  induction names generalizing p with
  | nil => rfl
  | cons first rest ih =>
    have hrest : ∀ other ∈ rest, IsSegment other :=
      fun other hm => hnames other (List.mem_cons_of_mem _ hm)
    rw [extend_cons, ih _ hrest]
    by_cases hfirst : first = ""
    · subst hfirst
      rw [List.filter_cons_of_neg (by decide)]
      -- What follows the empty name starts with another one.
      have hnext : ∀ other ∈ rest.filter (! ·.isEmpty) ++ [name], IsSegment other := by
        intro other hm
        rcases List.mem_append.1 hm with hm | hm
        · exact hrest other (List.mem_filter.1 hm).1
        · rwa [List.mem_singleton.1 hm]
      generalize rest.filter (! ·.isEmpty) = others at hnext ⊢
      cases others with
      | nil => exact div_empty_div p hname
      | cons second others =>
        rw [List.cons_append, extend_cons, extend_cons,
          div_empty_div p (hnext second List.mem_cons_self)]
    · rw [List.filter_cons_of_pos (by simpa using hfirst)]
      rfl

/-- Different names lead to different paths. -/
theorem extend_inj {p : Path} {first second : List String} (hfirst : ∀ name ∈ first, IsEntry name)
    (hsecond : ∀ name ∈ second, IsEntry name) (h : p.extend first = p.extend second) :
    first = second := by
  have hnames := congrArg names h
  rw [names_extend hfirst, names_extend hsecond] at hnames
  exact List.append_cancel_left hnames

/-! ## Segments put back together -/

theorem toList_ofSegments (segments : List String) :
    (ofSegments segments).text.toList = Text.joinWith ['/'] (segments.map String.toList) :=
  Text.toList_intercalate "/" segments

theorem ofSegments_segments (p : Path) : ofSegments p.segments = p := by
  have htext : (ofSegments p.segments).text.toList = p.text.toList := by
    rw [toList_ofSegments, segments, List.map_map]
    simp [Function.comp_def, Text.joinWith_splitOn]
  show Path.mk (ofSegments p.segments).text = p
  rw [String.toList_inj.1 htext]

/-- Segments without a slash are found again when they are put together. -/
theorem segments_ofSegments {segments : List String} (hne : segments ≠ [])
    (h : ∀ segment ∈ segments, IsSegment segment) : (ofSegments segments).segments = segments := by
  have hpieces : ∀ piece ∈ segments.map String.toList, '/' ∉ piece := by
    intro piece hm
    obtain ⟨segment, hsegment, rfl⟩ := List.mem_map.1 hm
    exact h segment hsegment
  rw [Path.segments, toList_ofSegments,
    Text.splitOn_joinWith (by simpa using hne) hpieces, List.map_map]
  simp [Function.comp_def]

/-- What is put behind a path is put behind its last segment. -/
theorem ofSegments_concat_append (before : List String) (last more : String) :
    (⟨(ofSegments (before ++ [last])).text ++ more⟩ : Path) = ofSegments (before ++ [last ++ more]) := by
  refine congrArg Path.mk (String.toList_inj.1 ?_)
  show _ = (ofSegments (before ++ [last ++ more])).text.toList
  rw [String.toList_append, toList_ofSegments, toList_ofSegments, List.map_append, List.map_append,
    List.map_singleton, List.map_singleton]
  rcases before.eq_nil_or_concat with rfl | hbefore
  · simp [Text.joinWith, String.toList_append]
  · have hne : before.map String.toList ≠ [] := by
      obtain ⟨init, other, rfl⟩ := hbefore
      simp
    rw [Text.joinWith_append hne (List.cons_ne_nil _ _), Text.joinWith_append hne (List.cons_ne_nil _ _)]
    simp [Text.joinWith, String.toList_append]

/-- A path ends as its last segment does. -/
theorem text_of_segments {p : Path} {before : List String} {last : String}
    (h : p.segments = before ++ [last]) : last.toList <:+ p.text.toList := by
  have hpath := ofSegments_concat_append before "" last
  rw [String.empty_append, ← h, ofSegments_segments] at hpath
  rw [← hpath, String.toList_append]
  exact List.suffix_append _ _

theorem isEmpty_div {p : Path} {name : String} (h : IsEntry name) : (p / name).isEmpty = false := by
  rw [isEmpty_eq_false_iff, text_div h.segment]
  have hname : name.toList ≠ [] := fun hnil => h.nonempty (String.toList_eq_nil_iff.1 hnil)
  split <;> simp [String.toList_append, hname]

/-- Names that are read from a path stand behind it, with a slash between where one is needed. -/
theorem text_extend {p : Path} {names : List String} (hne : names ≠ [])
    (h : ∀ name ∈ names, IsEntry name) :
    (p.extend names).text =
      (if p.isEmpty || p.endsWithSlash then p.text else p.text ++ "/") ++ (ofSegments names).text := by
  induction names generalizing p with
  | nil => exact absurd rfl hne
  | cons name rest ih =>
    have hname := h name List.mem_cons_self
    have hone : (p / name).text =
        (if p.isEmpty || p.endsWithSlash then p.text else p.text ++ "/") ++ name := by
      rw [text_div hname.segment]
      split <;> rfl
    rcases rest with - | ⟨second, others⟩
    · rw [extend_cons, show (p / name).extend [] = p / name from rfl, hone, ofSegments,
        String.intercalate_singleton]
    · have hslash := endsWithSlash_div (p := p) hname
      have hnonempty := isEmpty_div (p := p) hname
      rw [extend_cons, ih (by simp) fun other hm => h other (List.mem_cons_of_mem _ hm), hslash,
        hnonempty, if_neg (by simp), hone]
      show _ = _ ++ String.intercalate "/" (name :: second :: others)
      rw [String.intercalate_cons_cons, String.append_assoc, String.append_assoc, String.append_assoc]
      rfl

theorem empty_extend {names : List String} (hne : names ≠ []) (h : ∀ name ∈ names, IsEntry name) :
    (Path.mk "").extend names = ofSegments names := by
  have htext := text_extend (p := ⟨""⟩) hne h
  rw [if_pos (by decide), String.empty_append] at htext
  exact congrArg Path.mk htext

theorem isAbsolute_ofSegments {names : List String} (h : ∀ name ∈ names, IsEntry name) :
    (ofSegments names).isAbsolute = false := by
  rw [isAbsolute, toList_ofSegments]
  rcases names with - | ⟨first, rest⟩
  · rfl
  · have hfirst := h first List.mem_cons_self
    obtain ⟨c, more, hc⟩ := List.exists_cons_of_ne_nil (l := first.toList)
      fun hnil => hfirst.nonempty (String.toList_eq_nil_iff.1 hnil)
    have hslash : c ≠ '/' := fun heq => hfirst.segment (by rw [hc, heq]; exact List.mem_cons_self)
    cases rest <;> simp [Text.joinWith, hc, hslash]

/-- Reading names in one go or one after the other. -/
theorem join_ofSegments {p : Path} {names : List String} (hne : names ≠ [])
    (h : ∀ name ∈ names, IsEntry name) : p.join (ofSegments names) = p.extend names := by
  have htext : (p.join (ofSegments names)).text = (p.extend names).text := by
    rw [text_extend hne h, join, if_neg (by simp [isAbsolute_ofSegments h])]
    split <;> rfl
  exact congrArg Path.mk htext

theorem isEmpty_extend {p : Path} {names : List String} (nonempty : p.isEmpty = false)
    (h : ∀ name ∈ names, IsEntry name) : (p.extend names).isEmpty = false := by
  induction names generalizing p with
  | nil => exact nonempty
  | cons name rest ih =>
    exact ih (isEmpty_div (h name List.mem_cons_self)) fun other hm => h other (List.mem_cons_of_mem _ hm)

/-- The octets of a path that goes on below another one. -/
theorem size_extend {base : Path} {names : List String} (nonempty : base.isEmpty = false)
    (hslash : base.endsWithSlash = false) (hnames : ∀ name ∈ names, IsEntry name) :
    (base.extend names).text.utf8ByteSize =
      base.text.utf8ByteSize + (names.map (·.utf8ByteSize + 1)).sum := by
  induction names generalizing base with
  | nil => rfl
  | cons name rest ih =>
    have hname := hnames name List.mem_cons_self
    have htext := text_div (p := base) hname.segment
    rw [nonempty, hslash, if_neg (by simp)] at htext
    rw [extend_cons, ih (isEmpty_div hname) (endsWithSlash_div hname)
      fun other hm => hnames other (List.mem_cons_of_mem _ hm), htext, String.utf8ByteSize_append,
      String.utf8ByteSize_append, List.map_cons, List.sum_cons]
    have hone : "/".utf8ByteSize = 1 := by decide
    omega

theorem mem_extend {base : Path} {names : List String} (hnames : ∀ name ∈ names, IsEntry name)
    {c : Char} (h : c ∈ (base.extend names).text.toList) :
    c ∈ base.text.toList ∨ c = '/' ∨ ∃ name ∈ names, c ∈ name.toList := by
  induction names generalizing base with
  | nil => exact .inl h
  | cons name rest ih =>
    have hname := hnames name List.mem_cons_self
    rcases ih (fun other hm => hnames other (List.mem_cons_of_mem _ hm)) h with h | h | ⟨other, hm, h⟩
    · rw [text_div hname.segment] at h
      have hpiece : c ∈ base.text.toList ∨ c = '/' ∨ c ∈ name.toList := by
        split at h
        · rw [String.toList_append, List.mem_append] at h
          exact h.imp_right .inr
        · rw [String.toList_append, String.toList_append, List.mem_append, List.mem_append] at h
          rcases h with (h | h) | h
          · exact .inl h
          · exact .inr (.inl (List.mem_singleton.1 h))
          · exact .inr (.inr h)
      exact hpiece.imp_right (Or.imp_right fun hc => ⟨name, List.mem_cons_self, hc⟩)
    · exact .inr (.inl h)
    · exact .inr (.inr ⟨other, List.mem_cons_of_mem _ hm, h⟩)

theorem isSegment_of_mem {p : Path} {segment : String} (h : segment ∈ p.segments) :
    IsSegment segment := by
  obtain ⟨piece, hm, rfl⟩ := List.mem_map.1 h
  rw [IsSegment, String.toList_ofList]
  exact Text.not_mem_of_mem_splitOn hm

/-! ## The extension -/

/-- The last segment of a path is its last component, unless it adds none. -/
theorem splitLast?_of_segments {p : Path} {before : List String} {name : String}
    (h : p.segments = before ++ [name]) (busy : isIdle name = false) :
    p.splitLast? = some (before, name) := by
  rw [splitLast?, h, List.reverse_append, List.reverse_singleton, List.singleton_append,
    List.dropWhile_cons_of_neg (by simp [busy])]
  simp

/-- The last component of a path is one of its segments, and those before it come before. -/
theorem segments_of_splitLast? {p : Path} {before : List String} {name : String}
    (h : p.splitLast? = some (before, name)) :
    isIdle name = false ∧ ∃ idle, p.segments = before ++ name :: idle := by
  rw [splitLast?] at h
  split at h
  · cases h
  · next last front hdrop =>
    cases h
    have hhead := List.head?_dropWhile_not isIdle p.segments.reverse
    rw [hdrop] at hhead
    refine ⟨by simpa using hhead, (p.segments.reverse.takeWhile isIdle).reverse, ?_⟩
    have hparts := List.takeWhile_append_dropWhile (p := isIdle) (l := p.segments.reverse)
    rw [hdrop] at hparts
    have hall := congrArg List.reverse hparts
    rw [List.reverse_reverse] at hall
    refine hall.symm.trans ?_
    rw [List.reverse_append, List.reverse_cons, List.append_assoc, List.singleton_append]

theorem extension?_of_segments {p : Path} {before : List String} {name : String}
    (h : p.segments = before ++ [name]) (busy : isIdle name = false) (hup : name ≠ "..") :
    p.extension? = (splitName name).2 := by
  rw [extension?, fileName?, splitLast?_of_segments h busy]
  simp only [if_neg hup, Option.bind_some]

/-- A name with an extension put behind it is cut there again. -/
theorem splitName_append {stem extension : String} (hstem : stem ≠ "")
    (hdot : '.' ∉ extension.toList) :
    splitName (stem ++ "." ++ extension) = (stem, some extension) := by
  have hreverse : (stem ++ "." ++ extension).toList.reverse =
      extension.toList.reverse ++ '.' :: stem.toList.reverse := by
    simp [String.toList_append, List.reverse_append]
  have hne : ∀ c ∈ extension.toList.reverse, (c != '.') = true := by
    intro c hm
    rw [bne_iff_ne]
    exact fun heq => hdot (heq ▸ List.mem_reverse.1 hm)
  obtain ⟨first, rest, hfirst⟩ : ∃ first rest, stem.toList.reverse = first :: rest := by
    refine List.exists_cons_of_ne_nil fun hnil => hstem ?_
    rwa [List.reverse_eq_nil_iff, String.toList_eq_nil_iff] at hnil
  rw [splitName, hreverse, List.dropWhile_append_of_pos hne, List.takeWhile_append_of_pos hne,
    List.dropWhile_cons_of_neg (by simp), List.takeWhile_cons_of_neg (by simp), hfirst]
  simp only
  rw [← hfirst, List.reverse_reverse, List.append_nil, List.reverse_reverse, String.ofList_toList,
    String.ofList_toList]

/-- A name with an extension is its stem, a dot and the extension. -/
theorem toList_of_splitName {name extension : String} (h : (splitName name).2 = some extension) :
    name.toList = (splitName name).1.toList ++ '.' :: extension.toList := by
  rw [splitName] at h ⊢
  split at h
  · cases h
  · cases h
  · next before further cut =>
    cases h
    have hparts := List.takeWhile_append_dropWhile (p := (· != '.')) (l := name.toList.reverse)
    have hhead := List.head?_dropWhile_not (· != '.') name.toList.reverse
    rw [cut] at hparts hhead
    obtain rfl := bne_eq_false_iff_eq.1 hhead
    have hname := congrArg List.reverse hparts
    rw [List.reverse_reverse, List.reverse_append, List.reverse_cons, List.append_assoc] at hname
    simp only [String.toList_ofList]
    exact hname.symm

/-- The extension of a name is at its end, behind a dot. -/
theorem suffix_of_splitName {name extension : String} (h : (splitName name).2 = some extension) :
    '.' :: extension.toList <:+ name.toList :=
  ⟨_, (toList_of_splitName h).symm⟩

theorem mem_of_mem_stem {name : String} {c : Char} (h : c ∈ (splitName name).1.toList) :
    c ∈ name.toList := by
  rw [splitName] at h
  split at h
  · exact h
  · exact h
  · next before further cut =>
    rw [String.toList_ofList, List.mem_reverse] at h
    refine List.mem_reverse.1 ((List.dropWhile_suffix (· != '.')).subset ?_)
    rw [cut]
    exact List.mem_cons_of_mem _ h

/-- The stem of a name is never empty. -/
theorem stem_ne_nil {name : String} (h : name ≠ "") : (splitName name).1 ≠ "" := by
  rw [splitName]
  split
  · exact h
  · exact h
  · next before further cut =>
    -- There are characters before the dot.
    intro hempty
    have hnil := congrArg String.toList hempty
    rw [String.toList_ofList] at hnil
    exact further (List.reverse_eq_nil_iff.1 hnil)

/-- The last component of a path stays the last one when the path is read from another one. -/
theorem splitLast?_append {p q : Path} {base before : List String} {name : String}
    (h : p.segments = base ++ q.segments) (hlast : q.splitLast? = some (before, name)) :
    p.splitLast? = some (base ++ before, name) := by
  rw [splitLast?] at hlast ⊢
  rw [h, List.reverse_append, List.dropWhile_append]
  rcases hdrop : q.segments.reverse.dropWhile isIdle with - | ⟨last, front⟩
  · rw [hdrop] at hlast
    cases hlast
  · rw [hdrop] at hlast
    cases hlast
    simp

/-- The new extension stands behind the stem, and nothing follows. -/
theorem segments_withExtension {p : Path} {before : List String} {name extension : String}
    (h : p.splitLast? = some (before, name)) (hup : name ≠ "..") (hextension : IsSegment extension) :
    (p.withExtension extension).segments = before ++ [(splitName name).1 ++ "." ++ extension] := by
  obtain ⟨-, idle, hsegments⟩ := segments_of_splitLast? h
  have hsegment : ∀ segment ∈ before ++ name :: idle, IsSegment segment := fun segment hm =>
    isSegment_of_mem (p := p) (hsegments ▸ hm)
  rw [withExtension, h]
  simp only [if_neg hup]
  rw [String.append_assoc, String.append_assoc, ofSegments_concat_append]
  refine segments_ofSegments (by simp) ?_
  intro segment hm
  rcases List.mem_append.1 hm with hm | hm
  · exact hsegment segment (List.mem_append_left _ hm)
  · rw [List.mem_singleton.1 hm, IsSegment, String.toList_append, String.toList_append,
      List.mem_append, List.mem_append]
    rintro (hc | hc | hc)
    · exact hsegment name (List.mem_append_right _ List.mem_cons_self) (mem_of_mem_stem hc)
    · revert hc
      decide
    · exact hextension hc

/-- The extension of a relative path can be replaced before the path is read from another one. -/
theorem withExtension_join {p q : Path} {before : List String} {name extension : String}
    (relative : q.isAbsolute = false) (h : q.splitLast? = some (before, name)) (hup : name ≠ "..")
    (hextension : IsSegment extension) :
    (q.withExtension extension).isAbsolute = false ∧
      (p.join q).withExtension extension = p.join (q.withExtension extension) := by
  obtain ⟨base, hbase⟩ := exists_base_join p
  have hsegments := segments_withExtension h hup hextension
  have hrelative : (q.withExtension extension).isAbsolute = false := by
    rw [← Bool.not_eq_true, isAbsolute_iff_segments, hsegments]
    rintro ⟨next, rest, hroot⟩
    obtain ⟨-, idle, hq⟩ := segments_of_splitLast? h
    -- The segments before the last one are the same, the empty one at the front included.
    rcases before with - | ⟨first, before⟩
    · simp at hroot
    · obtain ⟨next, others, hnext⟩ : ∃ next others, before ++ name :: idle = next :: others :=
        List.exists_cons_of_ne_nil (by simp)
      rw [List.cons_append, List.cons.injEq] at hroot
      rw [List.cons_append, hroot.1, hnext] at hq
      rw [isAbsolute_iff_segments.2 ⟨next, others, hq⟩] at relative
      cases relative
  refine ⟨hrelative, ?_⟩
  rw [← ofSegments_segments ((p.join q).withExtension extension),
    segments_withExtension (splitLast?_append (hbase q relative) h) hup hextension,
    ← ofSegments_segments (p.join (q.withExtension extension)), hbase _ hrelative, hsegments,
    List.append_assoc]

/-- A name without a dot is all stem. -/
theorem stem_of_not_mem {name : String} (hdot : '.' ∉ name.toList) : (splitName name).1 = name := by
  have hall : ∀ c ∈ name.toList.reverse, (c != '.') = true := by
    intro c hm
    rw [bne_iff_ne]
    exact fun heq => hdot (heq ▸ List.mem_reverse.1 hm)
  have hdrop := @List.dropWhile_append_of_pos Char (· != '.') name.toList.reverse [] hall
  rw [List.append_nil] at hdrop
  rw [splitName, hdrop]
  rfl

/-- A name without a dot has no extension to replace. -/
theorem withExtension_div {p : Path} {name extension : String} (entry : IsEntry name)
    (hdot : '.' ∉ name.toList) (hextension : IsSegment extension) :
    (p / name).withExtension extension = p / (name ++ "." ++ extension) := by
  have hplain : ∀ dots : String, '.' ∈ dots.toList → name ≠ dots :=
    fun dots hm heq => hdot (heq ▸ hm)
  have busy : isIdle name = false := by
    simp [isIdle, entry.nonempty, hplain "." (by decide)]
  have hname : (Path.mk name).segments = [] ++ [name] := by
    rw [segments, Text.splitOn_of_not_mem entry.segment, List.map_singleton, String.ofList_toList,
      List.nil_append]
  have hlast := splitLast?_of_segments hname busy
  have hup := hplain ".." (by decide)
  -- The name is a path of its own, which is read from the other one.
  have hwhole := segments_withExtension hlast hup hextension
  rw [List.nil_append, stem_of_not_mem hdot] at hwhole
  have hpath := ofSegments_segments ((Path.mk name).withExtension extension)
  rw [hwhole, ofSegments, String.intercalate_singleton] at hpath
  show (p.join ⟨name⟩).withExtension extension = p.join ⟨name ++ "." ++ extension⟩
  rw [(withExtension_join (isAbsolute_segment entry.segment) hlast hup hextension).2, ← hpath]

/-! ## The parent -/

theorem dropIdleEnd_append (segments : List String) :
    ∃ idle, segments = dropIdleEnd segments ++ idle ∧ ∀ segment ∈ idle, isIdle segment = true := by
  cases segments with
  | nil => exact ⟨[], rfl, fun _ hm => absurd hm List.not_mem_nil⟩
  | cons first rest =>
    refine ⟨(rest.reverse.takeWhile isIdle).reverse, ?_, ?_⟩
    · rw [dropIdleEnd, List.cons_append, ← List.reverse_append, List.takeWhile_append_dropWhile,
        List.reverse_reverse]
    · intro segment hm
      rw [List.mem_reverse] at hm
      exact List.all_eq_true.1 List.all_takeWhile segment hm

/-- What the parent of a path is, where the path ends in a component. -/
structure ParentOf (parent : Path) (before : List String) : Prop where
  nonempty : parent.isEmpty = false
  /-- Idle segments may be left out or put in at the end. -/
  segments : ∃ kept idle idle', before = kept ++ idle ∧ parent.segments = kept ++ idle' ∧
    kept ≠ [] ∧ (∀ segment ∈ idle, isIdle segment = true) ∧ ∀ segment ∈ idle', isIdle segment = true
  /-- Its text is the start of every path that starts with those segments. -/
  start : ∀ (p : Path) (rest : List String), p.isEmpty = false → p.segments = before ++ rest →
    ∃ more, p.text = parent.text ++ more

theorem parent?_of_segments {p : Path} {before : List String} {name : String}
    (h : p.segments = before ++ [name]) (busy : isIdle name = false) :
    (before = [] ∧ p.parent? = some ⟨""⟩) ∨
      ∃ parent, p.parent? = some parent ∧ ParentOf parent before := by
  rw [parent?, splitLast?_of_segments h busy]
  simp only
  obtain ⟨idle, hbefore, hidle⟩ := dropIdleEnd_append before
  have hsegment : ∀ segment ∈ before, IsSegment segment := fun segment hm =>
    isSegment_of_mem (p := p) (h ▸ List.mem_append_left _ hm)
  -- A path that goes on from what is kept goes on in its text.
  have hstart : ∀ (q : Path) (rest : List String), q.segments = before ++ rest →
      dropIdleEnd before ≠ [] → idle ++ rest ≠ [] →
      q.text.toList = Text.joinWith ['/'] ((dropIdleEnd before).map String.toList) ++
        '/' :: Text.joinWith ['/'] ((idle ++ rest).map String.toList) := by
    intro q rest hq hkept hmore
    rw [← Text.joinWith_append (by simpa using hkept) (by simpa using hmore), ← List.map_append,
      ← List.append_assoc, ← hbefore, ← hq, ← toList_ofSegments, ofSegments_segments]
  split
  · next heq =>
    -- Only the root is left.
    rw [heq] at hbefore hstart
    refine .inr ⟨⟨"/"⟩, rfl, rfl, ⟨[""], idle, [""], hbefore, rfl, by simp, hidle, by simp [isIdle]⟩, ?_⟩
    intro q rest hnonempty hq
    have hmore : idle ++ rest ≠ [] := by
      intro hnil
      rw [hbefore, List.append_assoc, hnil] at hq
      rw [← ofSegments_segments q, hq] at hnonempty
      cases hnonempty
    refine ⟨String.ofList (Text.joinWith ['/'] ((idle ++ rest).map String.toList)), ?_⟩
    rw [← String.toList_inj, hstart q rest hq (by simp) hmore, String.toList_append,
      String.toList_ofList]
    simp [Text.joinWith]
  · next hroot =>
    rcases hkept : dropIdleEnd before with - | ⟨first, others⟩
    · rw [hkept] at hbefore
      have hnil : before = [] := by
        cases before with
        | nil => rfl
        | cons first rest => cases hkept
      exact .inl ⟨hnil, by rfl⟩
    · rw [hkept] at hbefore hroot hstart
      have hkept : ∀ segment ∈ first :: others, IsSegment segment := fun segment hm =>
        hsegment segment (hbefore ▸ List.mem_append_left _ hm)
      have hlist := toList_ofSegments (first :: others)
      refine .inr ⟨ofSegments (first :: others), rfl, ?_, ⟨first :: others, idle, [], hbefore, ?_,
        by simp, hidle, by simp⟩, ?_⟩
      · rw [isEmpty_eq_false_iff, hlist]
        cases others with
        | nil =>
          intro hnil
          exact hroot (by rw [String.toList_eq_nil_iff.1 hnil])
        | cons next others => simp [Text.joinWith]
      · rw [segments_ofSegments (by simp) hkept, List.append_nil]
      · intro q rest _ hq
        by_cases hmore : idle ++ rest = []
        · refine ⟨"", ?_⟩
          rw [hbefore, List.append_assoc, hmore, List.append_nil] at hq
          rw [← hq, ofSegments_segments, String.append_empty]
        · refine ⟨String.ofList ('/' :: Text.joinWith ['/'] ((idle ++ rest).map String.toList)), ?_⟩
          rw [← String.toList_inj, hstart q rest hq (by simp) hmore, String.toList_append,
            String.toList_ofList, hlist]

/-! ## Paths among others -/

theorem isAmong_of_mem {path : Path} {paths : List Path} (h : path ∈ paths) :
    path.isAmong paths = true :=
  List.any_eq_true.2 ⟨path, h, by rw [sameAs, beq_self_eq_true]⟩

end KotlinHarness.Path
