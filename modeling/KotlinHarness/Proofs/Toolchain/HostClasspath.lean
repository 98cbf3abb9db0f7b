/-
  The class path of the host, as compile calls take it.

  De-duplication keeps the first spelling of each path where it stands (`firstPlaces`, `dedup_eq`).
  Two spellings are the same path when their components agree, which leaves the spelling open: `//a`
  and `/a/` are one path.

  An absolute spelling is one or two slashes, names with single slashes in between, and perhaps a slash
  at the end (`IsSettled`).  Making it absolute again changes nothing, wherever that is done from, since
  nothing of it is read from a directory (`absolute?_of_isSettled`).  So a host that reports what was
  made of a class path is reported the same (`absoluteClasspath_firsts`).
-/
import KotlinHarness.Proofs.Files.Aim
import KotlinHarness.Proofs.Toolchain.Homes
import KotlinHarness.Proofs.Toolchain.SwitchedOff

namespace KotlinHarness

namespace Path

variable {p q base : Path} {paths : List Path} {place names : List String}

/-! ## First occurrences -/

/-- The path at a place is no later spelling of an earlier one. -/
def isFirstAt (paths : List Path) (i : Nat) : Bool :=
  paths[i]?.any fun p => !p.isAmong (paths.take i)

/-- The places of paths that were not there before. -/
def firstPlaces (paths : List Path) : List Nat :=
  (List.range paths.length).filter (isFirstAt paths)

theorem mem_firstPlaces_iff {i : Nat} : i ∈ firstPlaces paths ↔
    ∃ p, paths[i]? = some p ∧ ∀ j < i, ∀ q, paths[j]? = some q → q.sameAs p = false := by
  have hrange : ∀ p, paths[i]? = some p → i < paths.length := fun p hp =>
    (List.getElem?_eq_some_iff.1 hp).1
  have hearlier : ∀ p : Path, (!p.isAmong (paths.take i)) = true ↔
      ∀ j < i, ∀ q, paths[j]? = some q → q.sameAs p = false := by
    intro p
    simp only [isAmong, Bool.not_eq_true', List.any_eq_false, List.mem_take_iff_getElem,
      Bool.not_eq_true]
    constructor
    · intro h j hj q hq
      obtain ⟨hlt, rfl⟩ := List.getElem?_eq_some_iff.1 hq
      exact h _ ⟨j, by omega, rfl⟩
    · rintro h _ ⟨j, hj, rfl⟩
      exact h j (by omega) _ (List.getElem?_eq_getElem _)
  rw [firstPlaces, List.mem_filter, List.mem_range, isFirstAt, Option.any_eq_true]
  constructor
  · rintro ⟨-, p, hp, hfirst⟩
    exact ⟨p, hp, (hearlier p).1 hfirst⟩
  · rintro ⟨p, hp, hfirst⟩
    exact ⟨hrange p hp, p, hp, (hearlier p).2 hfirst⟩

theorem dedup_concat (paths : List Path) (p : Path) :
    dedup (paths ++ [p]) = if p.isAmong paths then dedup paths else dedup paths ++ [p] := by
  rw [← isAmong_dedup, dedup, List.foldl_append]
  rfl

/-- A further path adds its place when it was not there before. -/
theorem firstPlaces_concat (paths : List Path) (p : Path) :
    firstPlaces (paths ++ [p]) =
      firstPlaces paths ++ if p.isAmong paths then [] else [paths.length] := by
  have hbefore : ∀ i ∈ List.range paths.length, isFirstAt (paths ++ [p]) i = isFirstAt paths i := by
    intro i hi
    have hlt := List.mem_range.1 hi
    rw [isFirstAt, isFirstAt, List.getElem?_append_left hlt, List.take_append_of_le_length hlt.le]
  have hlast : isFirstAt (paths ++ [p]) paths.length = !p.isAmong paths := by
    rw [isFirstAt, List.getElem?_concat_length, List.take_left]
    rfl
  rw [firstPlaces, List.length_append, List.length_singleton, List.range_succ, List.filter_append,
    List.filter_congr hbefore, List.filter_singleton, hlast]
  cases p.isAmong paths <;> rfl

/-- The paths at the first places stay. -/
theorem dedup_eq (paths : List Path) : dedup paths = (firstPlaces paths).filterMap (paths[·]?) := by
  induction paths using List.reverseRecOn with
  | nil => rfl
  | append_singleton paths p ih =>
    have hbefore : ∀ i ∈ firstPlaces paths, (paths ++ [p])[i]? = paths[i]? := by
      intro i hi
      exact List.getElem?_append_left (List.mem_range.1 (List.mem_filter.1 hi).1)
    rw [dedup_concat, firstPlaces_concat, List.filterMap_append, List.filterMap_congr hbefore, ← ih]
    split
    · exact (List.append_nil _).symm
    · rw [List.filterMap_cons_some (b := p) (by simp), List.filterMap_nil]

/-- Two spellings are kept only of different paths. -/
theorem pairwise_dedup (paths : List Path) :
    (dedup paths).Pairwise fun p q => p.sameAs q = false := by
  induction paths using List.reverseRecOn with
  | nil => exact .nil
  | append_singleton paths p ih =>
    rw [dedup_concat]
    split
    · exact ih
    · next hnew =>
      rw [← isAmong_dedup, Bool.not_eq_true, isAmong, List.any_eq_false] at hnew
      refine List.pairwise_append.2 ⟨ih, List.pairwise_singleton _ _, fun other hm last hlast => ?_⟩
      rw [List.mem_singleton.1 hlast]
      exact Bool.not_eq_true _ ▸ hnew other hm

/-- Nothing is left out of paths that are different already. -/
theorem dedup_of_pairwise (h : paths.Pairwise fun p q => p.sameAs q = false) : dedup paths = paths := by
  induction paths using List.reverseRecOn with
  | nil => rfl
  | append_singleton paths p ih =>
    obtain ⟨hpaths, -, hlast⟩ := List.pairwise_append.1 h
    have hnew : p.isAmong paths = false := by
      rw [isAmong, List.any_eq_false]
      exact fun other hm => by simp [hlast other hm p (List.mem_singleton_self p)]
    rw [dedup_concat, hnew, ih hpaths]
    rfl

theorem sameAs_comm (p q : Path) : p.sameAs q = q.sameAs p := by
  rw [sameAs, sameAs, Bool.beq_comm]

theorem sameAs_trans {r : Path} (h : p.sameAs q = true) (h' : q.sameAs r = true) :
    p.sameAs r = true := by
  rw [sameAs, beq_iff_eq] at *
  exact h.trans h'

/-- Of each path that was there exactly one spelling is kept. -/
theorem countP_dedup (h : p ∈ paths) : (dedup paths).countP p.sameAs = 1 := by
  have hsome : p.isAmong (dedup paths) = true := by
    rw [isAmong_dedup]
    exact isAmong_of_mem h
  obtain ⟨kept, hkept, same⟩ := List.any_eq_true.1 hsome
  obtain ⟨before, after, hcut⟩ := List.append_of_mem hkept
  have hpairs := pairwise_dedup paths
  rw [hcut, List.pairwise_append, List.pairwise_cons] at hpairs
  obtain ⟨-, ⟨hafter, -⟩, hbefore⟩ := hpairs
  -- Any other spelling of the path would be one of the path that was kept.
  have hother : ∀ other, kept.sameAs other = false → ¬ p.sameAs other = true := by
    intro other hne hsame
    rw [sameAs_trans same hsame] at hne
    cases hne
  have hzero : before.countP p.sameAs = 0 := List.countP_eq_zero.2 fun other hm =>
    hother other (sameAs_comm _ _ ▸ hbefore other hm kept List.mem_cons_self)
  have hzero' : after.countP p.sameAs = 0 := List.countP_eq_zero.2 fun other hm =>
    hother other (hafter other hm)
  rw [hcut, List.countP_append, hzero, List.countP_cons_of_pos (sameAs_comm _ _ ▸ same), hzero']

/-! ## Absolute spelling -/

/-- A name that stays when a path is made absolute. -/
def IsStep (name : String) : Prop := IsEntry name ∧ name ≠ "."

/-- A path spelled as one or two slashes and names, with single slashes in between and perhaps one at
    the end. -/
def IsSettled (q : Path) : Prop :=
  ∃ start ∈ ["/", "//"], ∃ names, (∀ name ∈ names, IsStep name) ∧
    (q = (Path.mk start).extend names ∨ q = (Path.mk start).extend names / "")

theorem steps_eq_names (p : Path) : p.steps = p.names.filter (· != ".") := by
  rw [steps, names, List.filter_filter]
  refine List.filter_congr fun segment _ => Bool.eq_iff_iff.2 ?_
  simp [isIdle, and_comm]

theorem isStep_of_mem_steps : ∀ name ∈ p.steps, IsStep name := by
  intro name hm
  rw [steps_eq_names] at hm
  obtain ⟨hname, hdot⟩ := List.mem_filter.1 hm
  obtain ⟨hsegment, hempty⟩ := List.mem_filter.1 hname
  exact ⟨⟨isSegment_of_mem hsegment, by simpa using hempty⟩, by simpa using hdot⟩

/-- What stays of a path when it is made absolute. -/
theorem map_text_eq (p : Path) :
    (p.segments.filterMap Component.ofSegment?).map Component.text = p.steps := by
  rw [steps]
  induction p.segments with
  | nil => rfl
  | cons segment rest ih =>
    by_cases idle : isIdle segment = true
    · have hnone : Component.ofSegment? segment = none := if_pos (by simpa [isIdle] using idle)
      rw [List.filterMap_cons_none hnone, List.filter_cons_of_neg (by simp [idle]), ih]
    · have hsome : ∃ component, Component.ofSegment? segment = some component ∧
          component.text = segment := by
        rw [Component.ofSegment?, if_neg (by simpa [isIdle] using idle)]
        by_cases hup : segment = ".."
        · exact ⟨.parent, if_pos hup, hup.symm⟩
        · exact ⟨.normal segment, if_neg hup, rfl⟩
      obtain ⟨component, hcomponent, htext⟩ := hsome
      rw [List.filterMap_cons_some hcomponent, List.map_cons, ih, htext,
        List.filter_cons_of_pos (by simpa using idle)]

/-- Where the absolute spelling of a path starts. -/
def startFrom (base p : Path) : Path :=
  match p.text.toList with
  | '/' :: '/' :: '/' :: _ => ⟨"/"⟩
  | '/' :: '/' :: _ => ⟨"//"⟩
  | '/' :: _ => ⟨"/"⟩
  | _ => base

theorem absolute?_eq (nonempty : p.isEmpty = false) (base : Path) : p.absolute? base =
    some (if p.endsWithSlash then (startFrom base p).extend p.steps / ""
      else (startFrom base p).extend p.steps) := by
  rw [absolute?, if_neg (by simp [nonempty]), ← map_text_eq]
  rfl

theorem startFrom_cases (base p : Path) :
    (∃ start ∈ ["/", "//"], startFrom base p = ⟨start⟩) ∨ startFrom base p = base := by
  rw [startFrom]
  split <;> simp

theorem startFrom_of_slashes {start : String} (hstart : start ∈ ["/", "//"]) {tail : List Char}
    (htext : p.text.toList = start.toList ++ tail) (hsingle : tail.head? ≠ some '/') :
    startFrom base p = ⟨start⟩ := by
  rw [startFrom, htext]
  simp only [List.mem_cons, List.not_mem_nil, or_false] at hstart
  rcases tail with - | ⟨c, tail⟩
  · rcases hstart with rfl | rfl <;> rfl
  · have hc : c ≠ '/' := by simpa using hsingle
    rcases hstart with rfl | rfl
    · simp [hc]
    · simp [hc]

/-- An absolute spelling is settled, when that of the directory is that it is seen from. -/
theorem isSettled_of_absolute? (hplace : ∀ name ∈ place, IsStep name)
    (h : p.absolute? ((Path.mk "/").extend place) = some q) : q.IsSettled := by
  rcases hempty : p.isEmpty with - | -
  · rw [absolute?_eq hempty, Option.some.injEq] at h
    obtain ⟨start, hstart, names, hnames, heq⟩ : ∃ start ∈ ["/", "//"], ∃ names,
        (∀ name ∈ names, IsStep name) ∧
        (startFrom ((Path.mk "/").extend place) p).extend p.steps = (Path.mk start).extend names := by
      rcases startFrom_cases ((Path.mk "/").extend place) p with ⟨start, hm, heq⟩ | heq
      · exact ⟨start, hm, p.steps, isStep_of_mem_steps, by rw [heq]⟩
      · refine ⟨"/", List.mem_cons_self, place ++ p.steps, fun name hm => ?_, ?_⟩
        · exact (List.mem_append.1 hm).elim (hplace name) (isStep_of_mem_steps name)
        · rw [heq, extend_append]
    refine ⟨start, hstart, names, hnames, ?_⟩
    rw [← h, heq]
    split
    · exact .inr rfl
    · exact .inl rfl
  · rw [absolute?, if_pos hempty] at h
    cases h

theorem steps_settled {start : String} (hstart : start ∈ ["/", "//"]) (hnames : ∀ name ∈ names, IsStep name) :
    ((Path.mk start).extend names).steps = names ∧ ((Path.mk start).extend names / "").steps = names := by
  have hbare : (Path.mk start).names = [] := by
    simp only [List.mem_cons, List.not_mem_nil, or_false] at hstart
    rcases hstart with rfl | rfl <;> decide
  have hall : names.filter (· != ".") = names :=
    List.filter_eq_self.2 fun name hm => by simpa using (hnames name hm).2
  have hextend : ((Path.mk start).extend names).names = names := by
    rw [names_extend fun name hm => (hnames name hm).1, hbare, List.nil_append]
  have hslash : ((Path.mk start).extend names / "").names = names := by
    show (((Path.mk start).extend names).join ⟨""⟩).names = names
    rw [names_join (by decide), hextend]
    exact List.append_nil _
  exact ⟨by rw [steps_eq_names, hextend, hall], by rw [steps_eq_names, hslash, hall]⟩

theorem slashes_told {start : String} (hstart : start ∈ ["/", "//"]) :
    (Path.mk start).endsWithSlash = true ∧ (Path.mk start).isEmpty = false := by
  simp only [List.mem_cons, List.not_mem_nil, or_false] at hstart
  rcases hstart with rfl | rfl <;> decide

theorem text_div_slash (nonempty : p.isEmpty = false) (unslashed : p.endsWithSlash = false) :
    (p / "").text = p.text ++ "/" := by
  have hsegment : IsSegment "" := by
    rw [IsSegment]
    decide
  rw [text_div hsegment, nonempty, unslashed, if_neg (by simp), String.append_empty]

/-- Slashes with names behind them: no further slash follows the first ones, nor stands at the end. -/
theorem extend_told {start : String} (hstart : start ∈ ["/", "//"]) (hnames : ∀ name ∈ names, IsEntry name)
    (nonempty : names ≠ []) : ∃ tail, ((Path.mk start).extend names).text.toList = start.toList ++ tail ∧
      tail ≠ [] ∧ tail.head? ≠ some '/' ∧ ((Path.mk start).extend names).endsWithSlash = false ∧
      ((Path.mk start).extend names).isEmpty = false := by
  obtain ⟨hslash, hempty⟩ := slashes_told hstart
  have htext : ((Path.mk start).extend names).text.toList =
      start.toList ++ (ofSegments names).text.toList := by
    rw [text_extend nonempty hnames, if_pos (by simp [hslash]), String.toList_append]
  have hends : ((Path.mk start).extend names).endsWithSlash = false := by
    obtain ⟨init, last, rfl⟩ := names.eq_nil_or_concat.resolve_left nonempty
    rw [List.concat_eq_append, extend_concat]
    exact endsWithSlash_div (hnames last (by simp))
  refine ⟨(ofSegments names).text.toList, htext, fun hnil => ?_, ?_, hends, isEmpty_extend hempty hnames⟩
  · -- Otherwise the slashes at the start would be those at the end.
    rw [hnil, List.append_nil] at htext
    rw [endsWithSlash, htext] at hends
    rw [endsWithSlash] at hslash
    exact absurd hslash (by simp [hends])
  · have hrelative := isAbsolute_ofSegments hnames
    rw [isAbsolute] at hrelative
    simpa using hrelative

/-- What is settled is its own absolute spelling, from everywhere. -/
theorem absolute?_of_isSettled (h : q.IsSettled) (base : Path) : q.absolute? base = some q := by
  obtain ⟨start, hstart, names, hnames, hq⟩ := h
  obtain ⟨hsteps, hsteps'⟩ := steps_settled hstart hnames
  by_cases hnil : names = []
  · obtain ⟨hslash, hempty⟩ := slashes_told hstart
    subst hnil
    -- Slashes alone end in a slash already.
    have hbare : (Path.mk start).extend [] / "" = (Path.mk start).extend [] := by
      refine congrArg Path.mk ?_
      show ((Path.mk start) / "").text = _
      rw [text_div (by rw [IsSegment]; decide), if_pos (by simp [hslash])]
      exact String.append_empty
    obtain rfl : q = ⟨start⟩ := hq.elim id fun h => h.trans hbare
    have hfrom : startFrom base ⟨start⟩ = ⟨start⟩ :=
      startFrom_of_slashes hstart (List.append_nil _).symm (by simp)
    rw [absolute?_eq hempty, if_pos hslash, hfrom, show (Path.mk start).steps = [] from hsteps, hbare]
    rfl
  · obtain ⟨tail, htext, hne, hsingle, hlast, hempty⟩ :=
      extend_told hstart (fun name hm => (hnames name hm).1) hnil
    generalize hfull : (Path.mk start).extend names = full at *
    rcases hq with rfl | rfl
    · rw [absolute?_eq hempty, hlast, if_neg (by simp), startFrom_of_slashes hstart htext hsingle, hsteps,
        hfull]
    · have htext' := text_div_slash hempty hlast
      have hends : (full / "").endsWithSlash = true := by
        rw [endsWithSlash, htext']
        simp
      have hempty' : (full / "").isEmpty = false := by
        rw [isEmpty_eq_false_iff, htext']
        simp [String.toList_append]
      have hspelled : (full / "").text.toList = start.toList ++ (tail ++ ['/']) := by
        rw [htext', String.toList_append, htext, List.append_assoc]
        rfl
      have hsingle' : (tail ++ ['/']).head? ≠ some '/' := by
        rw [List.head?_append_of_ne_nil _ hne]
        exact hsingle
      rw [absolute?_eq hempty', hends, if_pos rfl, hsteps',
        startFrom_of_slashes hstart hspelled hsingle', hfull]

end Path

namespace Host

variable {host : Host} {env : Environment}

/-- The absolute spelling of an entry; the empty entry has none and stays. -/
def spelled (env : Environment) (entry : Path) : Path :=
  (entry.absolute? env.currentDirectory).getD entry

theorem absoluteClasspath_eq (host : Host) (env : Environment) :
    host.absoluteClasspath env = Path.dedup ((host.classpath env).map (spelled env)) := rfl

/-- What was spelled once is spelled so again. -/
theorem spelled_spelled (named : ∀ name ∈ env.workingDirectory, Environment.IsFileName name)
    (other : Environment) (entry : Path) : spelled other (spelled env entry) = spelled env entry := by
  have hcurrent : env.currentDirectory = (Path.mk "/").extend env.workingDirectory :=
    Environment.spelling_eq fun name hm => (named name hm).entry
  have hplace : ∀ name ∈ env.workingDirectory, Path.IsStep name := by
    intro name hm
    refine ⟨(named name hm).entry, ?_⟩
    rintro rfl
    exact absurd (named _ hm).isName.1 (by decide)
  rcases habsolute : entry.absolute? env.currentDirectory with - | q
  · have hempty : entry.isEmpty = true := by
      rw [Path.absolute?] at habsolute
      split at habsolute
      · next hempty => exact hempty
      · cases habsolute
    have hagain : entry.absolute? other.currentDirectory = none := by
      rw [Path.absolute?, if_pos hempty]
    rw [spelled, spelled, habsolute, Option.getD_none, hagain, Option.getD_none]
  · rw [hcurrent] at habsolute
    have hagain := Path.absolute?_of_isSettled (Path.isSettled_of_absolute? hplace habsolute)
      other.currentDirectory
    rw [spelled, spelled, hcurrent, habsolute, Option.getD_some, hagain, Option.getD_some]

theorem spelled_cases (env : Environment) (entry : Path) :
    if entry.isEmpty then spelled env entry = entry
      else entry.absolute? env.currentDirectory = some (spelled env entry) := by
  split
  · next hempty => rw [spelled, Path.absolute?, if_pos hempty, Option.getD_none]
  · next hnonempty =>
    rw [spelled, Path.absolute?_eq (Bool.not_eq_true _ ▸ hnonempty), Option.getD_some]

/-- What is spelled already and without repetitions is taken as it is. -/
theorem absoluteClasspath_of_spelled (named : ∀ name ∈ env.workingDirectory, Environment.IsFileName name)
    {reporting : Host} {other : Environment}
    (reports : reporting.classpath other = host.absoluteClasspath env) :
    reporting.absoluteClasspath other = host.absoluteClasspath env := by
  have hspelled : ∀ entry ∈ host.absoluteClasspath env, spelled other entry = id entry := by
    intro entry hm
    rw [absoluteClasspath_eq] at hm
    obtain ⟨reported, -, rfl⟩ := List.mem_map.1 (Path.mem_of_mem_dedup hm)
    exact spelled_spelled named other reported
  rw [absoluteClasspath_eq reporting, reports, List.map_congr_left hspelled, List.map_id]
  exact Path.dedup_of_pairwise (Path.pairwise_dedup _)

/-- **Which entries a compile call takes from the host.**  No two are the same path, and the absolute
    spelling of every reported entry is one of them.  They are the absolute spellings of the entries
    that are no later spelling of an earlier one, in that order, where the empty entry is spelled as it
    is.  A host that reports them is asked for the same again, wherever that is. -/
theorem absoluteClasspath_firsts (host : Host) (env : Environment) :
    ((host.absoluteClasspath env).Pairwise fun p q => p.sameAs q = false) ∧
    (∀ entry ∈ host.classpath env,
      (host.absoluteClasspath env).countP (spelled env entry).sameAs = 1) ∧
    (∃ places : List Nat, places.Pairwise (· < ·) ∧
      (∀ i, i ∈ places ↔ ∃ entry, (host.classpath env)[i]? = some entry ∧
        ∀ j < i, ∀ earlier, (host.classpath env)[j]? = some earlier →
          (spelled env earlier).sameAs (spelled env entry) = false) ∧
      host.absoluteClasspath env =
        places.filterMap fun i => ((host.classpath env)[i]?).map (spelled env)) ∧
    (∀ entry, if entry.isEmpty then spelled env entry = entry
      else entry.absolute? env.currentDirectory = some (spelled env entry)) ∧
    ((∀ name ∈ env.workingDirectory, Environment.IsFileName name) →
      ∀ (reporting : Host) (other : Environment),
        reporting.classpath other = host.absoluteClasspath env →
        reporting.absoluteClasspath other = host.absoluteClasspath env) := by
  refine ⟨Path.pairwise_dedup _, fun entry hm => Path.countP_dedup (List.mem_map_of_mem hm), ?_,
    spelled_cases env, fun named _ _ reports => absoluteClasspath_of_spelled named reports⟩
  refine ⟨Path.firstPlaces ((host.classpath env).map (spelled env)),
    List.pairwise_lt_range.filter _, fun i => ?_, ?_⟩
  · rw [Path.mem_firstPlaces_iff]
    constructor
    · rintro ⟨p, hp, hearlier⟩
      rw [List.getElem?_map, Option.map_eq_some_iff] at hp
      obtain ⟨entry, hentry, rfl⟩ := hp
      exact ⟨entry, hentry, fun j hj earlier hat =>
        hearlier j hj _ (by rw [List.getElem?_map, hat]; rfl)⟩
    · rintro ⟨entry, hentry, hearlier⟩
      refine ⟨spelled env entry, by rw [List.getElem?_map, hentry]; rfl, fun j hj q hq => ?_⟩
      rw [List.getElem?_map, Option.map_eq_some_iff] at hq
      obtain ⟨earlier, hat, rfl⟩ := hq
      exact hearlier j hj earlier hat
  · rw [absoluteClasspath_eq, Path.dedup_eq]
    exact List.filterMap_congr fun i _ => List.getElem?_map

/-- A host with two spellings of two archives, and the empty entry. -/
def twiceSpelled : Host :=
  fixed [⟨"libs/a.jar"⟩, ⟨"//opt/b.jar/"⟩, ⟨"/h/w/libs/./a.jar"⟩, ⟨""⟩, ⟨"/opt//b.jar"⟩] none []

/-- A harness in a directory of its own. -/
def inOwnDirectory : Environment where
  files := FileTree.empty.withDirectories ["h", "w"]
  workingDirectory := ["h", "w"]
  vars := []
  temporaries := 0

theorem absoluteClasspath_twiceSpelled :
    twiceSpelled.absoluteClasspath inOwnDirectory =
      [⟨"/h/w/libs/a.jar"⟩, ⟨"//opt/b.jar/"⟩, ⟨""⟩] ∧
    (fixed (twiceSpelled.absoluteClasspath inOwnDirectory) none []).absoluteClasspath default =
      twiceSpelled.absoluteClasspath inOwnDirectory :=
  ⟨by decide +kernel,
    (absoluteClasspath_firsts twiceSpelled inOwnDirectory).2.2.2.2 (by decide) _ _ rfl⟩

end Host

end KotlinHarness
