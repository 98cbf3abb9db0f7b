/-
  The first round of annotation processing over stubs.

  The rehearsed front end writes the stub of every type below the directory for stubs, and the first
  round is built from the Java sources there and then the Kotlin sources.  When the directory was
  empty, what is found there are the stubs, each at the place that the qualified name of its type
  tells.  From each stub its type is read, and the type in the Kotlin source, which comes later under
  the same name, is left out.  So the round offers every type once, as its stub has it, and the
  functions as the Kotlin sources have them (`firstRound_offers`).

    * `forTypes_stubs`          reading sources in between makes no difference to what is written
    * `forEach_writeStub`       what is below the directory when the stubs are written
    * `findSources_stubs`       what is found there
-/
import Mathlib.Data.List.Perm.Basic
import KotlinHarness.Proofs.Files.Copied
import KotlinHarness.Proofs.Processing.Offered
import KotlinHarness.Proofs.Rehearsal.Output
import KotlinHarness.Proofs.Rehearsal.Stub
import KotlinHarness.Processing.Plugins

namespace KotlinHarness

namespace Rehearsal

open Environment

variable {old new env after : Environment} {stubs p : Path} {there : Location} {children : Forest}
  {element other : Element} {types done elements : List Element} {text : String}

/-! ## Places of stubs -/

/-- Where the stub of an element stands below the directory for stubs. -/
def stubPlace (element : Element) : Location :=
  packageNames element ++ [element.name ++ "." ++ "java"]

/-- The file with the stub of an element. -/
def stubFile (element : Element) : Location × FileData :=
  (stubPlace element, ⟨Text.encode (stub element), .plain⟩)

/-- The stub of an element stands at a path that the system takes. -/
def Takes (stubs : Path) (element : Element) : Prop :=
  Fits (stubPlace element) ∧ pathFault? (elementPath stubs element "java") = none

instance (stubs : Path) (element : Element) : Decidable (Takes stubs element) :=
  inferInstanceAs (Decidable (_ ∧ _))

theorem stubPath_eq (named : element.IsNamed) (stubs : Path) :
    elementPath stubs element "java" = stubs.extend (stubPlace element) ∧
      ∀ name ∈ stubPlace element, IsFileName name :=
  elementPath_eq named (Path.isEntry_of_plain (by decide))

theorem stubPlace_ne_nil (element : Element) : stubPlace element ≠ [] :=
  List.append_ne_nil_of_right_ne_nil _ (List.cons_ne_nil _ _)

/-- The places of stubs do not stand above each other: only the file's name has a dot. -/
theorem stubPlace_eq_of_onway (honway : stubPlace element <+: stubPlace other) :
    stubPlace element = stubPlace other := by
  rw [stubPlace, stubPlace, List.prefix_concat_iff] at honway
  rcases honway with heq | honway
  · exact heq
  · have hlast := honway.subset (List.mem_append_right _ List.mem_cons_self)
    refine absurd ?_ (dot_of_mem_packageParts (List.mem_filter.1 hlast).1)
    simp [String.toList_append]

/-- The parts of a package tell the package. -/
theorem package_eq_of_parts (h : packageParts element = packageParts other) :
    element.package = other.package := by
  have hne : ∀ text : List Char, (Text.splitOn '.' text).map String.ofList ≠ [] := fun text hnil =>
    Text.splitWhere_ne_nil _ _ (List.map_eq_nil_iff.1 hnil)
  rw [packageParts, packageParts] at h
  rcases hfirst : element.package with - | first <;> rcases hsecond : other.package with - | second <;>
    simp only [hfirst, hsecond] at h
  · rfl
  · exact absurd h.symm (hne _)
  · exact absurd h (hne _)
  · have hsplit := List.map_injective_iff.2 (fun _ _ => String.ofList_injective) h
    have hjoin := congrArg (Text.joinWith ['.']) hsplit
    rw [Text.joinWith_splitOn, Text.joinWith_splitOn] at hjoin
    rw [String.toList_inj.1 hjoin]

/-- Elements with stubs at the same place have the same qualified name. -/
theorem qualifiedName_eq_of_place (full : "" ∉ packageParts element) (full' : "" ∉ packageParts other)
    (h : stubPlace element = stubPlace other) : element.qualifiedName = other.qualifiedName := by
  have hall : ∀ {element : Element}, "" ∉ packageParts element →
      packageNames element = packageParts element := by
    intro element full
    refine List.filter_eq_self.2 fun part hm => ?_
    have hne : part ≠ "" := fun hempty => full (hempty ▸ hm)
    simpa using hne
  obtain ⟨hnames, hlast⟩ := List.append_inj' h rfl
  rw [hall full, hall full'] at hnames
  have hname : element.name = other.name := by
    have htext := congrArg String.toList (List.singleton_inj.1 hlast)
    simp only [String.toList_append] at htext
    exact String.toList_inj.1 (List.append_cancel_right (List.append_cancel_right htext))
  rw [Element.qualifiedName, Element.qualifiedName, package_eq_of_parts hnames, hname]

theorem nodup_places (full : ∀ element ∈ types, "" ∉ packageParts element)
    (distinct : (types.map Element.qualifiedName).Nodup) : (types.map stubPlace).Nodup := by
  rw [List.Nodup, List.pairwise_map] at distinct ⊢
  refine distinct.imp_of_mem fun hfirst hsecond hne heq => ?_
  exact hne (qualifiedName_eq_of_place (full _ hfirst) (full _ hsecond) heq)

/-! ## Below the directory for stubs -/

/-- Only files below a directory were written. -/
def WritesBelow (dir : Path) (there : Location) (old new : Environment) : Prop :=
  ∀ children, old.locate dir = .ok (there, .directory children) →
    Grows (fun location _ => there <+: location) old new

theorem writesBelow_composes : Composes (WritesBelow stubs there) := by
  refine ⟨fun env _ _ => .refl env, fun h h' children hlocate => ?_⟩
  have grows := h children hlocate
  obtain ⟨children', hlocate'⟩ := grows.locate_directory hlocate
  exact grows.trans (h' children' hlocate')

theorem writesBelow_writeStub (named : element.IsNamed) :
    Keeps (WritesBelow stubs there) (writeStub stubs element) := by
  intro env children hlocate
  obtain ⟨hpath, hnames⟩ := stubPath_eq named stubs
  rw [writeStub, bind_eq]
  rcases h : deposit .always (elementPath stubs element "java") (stub element) env with
    ⟨done, after⟩ | ⟨cause, after⟩
  · have deposited := deposit_ok h
    obtain ⟨children', hlocate'⟩ := deposited.grows.locate_directory hlocate
    refine deposited.grows.mono fun location data hmay => ?_
    rw [hpath] at hmay
    have nonempty := LeadsTo.nonempty ⟨_, hlocate⟩
    obtain ⟨here, hhere, rfl⟩ := leadsTo_extend nonempty hnames hmay.1
    rw [hhere.unique ⟨_, hlocate'⟩]
    exact List.prefix_append _ _
  · exact (deposit_error h).mono fun _ _ => False.elim

/-- What is written below an empty directory changes no file. -/
theorem readText_writesBelow (h : WritesBelow stubs there old new)
    (empty : old.locate stubs = .ok (there, .directory .nil)) (hread : old.Readable p) :
    new.readText p = old.readText p := by
  have grows := h _ empty
  obtain ⟨location, data, text, hlocate, -⟩ := readable_iff.1 hread
  obtain ⟨data', hlocate', rfl | ⟨below, rfl⟩⟩ := grows.locate_file hlocate
  · rw [readText, readText, Environment.read, Environment.read, hlocate, hlocate']
  · -- There was no file below the directory.
    have hlook := (locate_file_iff.1 hlocate).2
    rw [look_append (get?_of_locate empty)] at hlook
    cases below with
    | nil => cases hlook
    | cons name rest => cases hlook

/-! ## Writing -/

theorem forEach_append {α : Type} (action : α → EnvironmentAction Unit) (first second : List α)
    (env : Environment) :
    forEach action (first ++ second) env =
      (forEach action first >>= fun _ => forEach action second) env := by
  induction first generalizing env with
  | nil => rfl
  | cons item rest ih =>
    rw [List.cons_append, forEach, forEach, bind_eq, bind_eq, bind_eq]
    rcases action item env with ⟨⟨⟩, middle⟩ | ⟨cause, middle⟩
    · simp only
      rw [ih, bind_eq]
    · rfl

/-- The stubs of the types in sources are written as if the sources had been read before. -/
theorem forTypes_stubs {sources : List Path} (empty : old.locate stubs = .ok (there, .directory .nil))
    (hread : Round.elementsOfAll old sources = .ok elements) (h : WritesBelow stubs there old env) :
    forTypes (writeStub stubs) sources env =
      forEach (writeStub stubs) (elements.filter (·.kind.isType)) env := by
  induction sources generalizing elements env with
  | nil =>
    cases hread
    rfl
  | cons source rest ih =>
    obtain ⟨content, others, htext, hothers, rfl⟩ := Round.elementsOfAll_cons hread
    have hnow : readSource source env = .ok content env := by
      rw [readSource, readText_writesBelow h empty ⟨content, htext⟩, htext]
    have keeps : Keeps (WritesBelow stubs there)
        (forEach (writeStub stubs) (typesOf source content)) :=
      keeps_forEach writesBelow_composes
        fun element hm => writesBelow_writeStub (isNamed_of_mem_typesOf hm)
    rw [List.filter_append, forEach_append, forTypes, forEach, bind_eq, bind_eq, bind_eq, hnow]
    simp only
    rw [show (Element.parse source content).filter (·.kind.isType) = typesOf source content from rfl]
    rcases hfirst : forEach (writeStub stubs) (typesOf source content) env with
      ⟨⟨⟩, middle⟩ | ⟨cause, middle⟩
    · exact ih hothers (writesBelow_composes.trans h (keeps.of_ok hfirst))
    · rfl

theorem apart_of_nodup (h : ((done ++ element :: types).map stubPlace).Nodup) :
    Apart (done.map stubFile) (stubPlace element) := by
  rw [List.map_append, List.nodup_append] at h
  intro _ hm
  obtain ⟨other, hother, rfl⟩ := List.mem_map.1 hm
  have hne : stubPlace other ≠ stubPlace element :=
    h.2.2 _ (List.mem_map_of_mem hother) _ (List.mem_map_of_mem List.mem_cons_self)
  exact ⟨fun honway => hne (stubPlace_eq_of_onway honway),
    fun honway => hne (stubPlace_eq_of_onway honway).symm⟩

/-- One stub is written where the system takes its path. -/
theorem writeStub_copied (h : Copied stubs there (done.map stubFile) env) (named : element.IsNamed)
    (apart : Apart (done.map stubFile) (stubPlace element)) (takes : Takes stubs element) :
    ∃ after, writeStub stubs element env = .ok () after ∧
      Copied stubs there ((done ++ [element]).map stubFile) after := by
  obtain ⟨hpath, -⟩ : elementPath stubs element "java" = stubs.extend (stubFile element).1 ∧ _ :=
    stubPath_eq named stubs
  have hne : (stubFile element).1 ≠ [] := stubPlace_ne_nil element
  have bytes : Text.encode (stub element) = (stubFile element).2.bytes := rfl
  obtain ⟨fits, fine⟩ : Fits (stubFile element).1 ∧ _ := takes
  rw [hpath] at fine
  obtain ⟨after, hdeposit, copied, -⟩ := h.deposit hne fits fine apart bytes .always
  refine ⟨after, ?_, ?_⟩
  · rw [writeStub, bind_eq, hpath, hdeposit]
    rfl
  · rwa [List.map_append]

/-- Only there it can be written. -/
theorem takes_of_writeStub (hlocate : env.locate stubs = .ok (there, .directory children))
    (named : element.IsNamed) (h : writeStub stubs element env = .ok () after) :
    Takes stubs element := by
  obtain ⟨hpath, hnames⟩ := stubPath_eq named stubs
  obtain ⟨_, middle, hdeposit, hdone⟩ := of_bind_ok h
  cases hdone
  have deposited := deposit_ok hdeposit
  obtain ⟨children', hlocate'⟩ := deposited.grows.locate_directory hlocate
  obtain ⟨location, data, -, hfile, -⟩ := readable_iff.1 ⟨_, deposited.readText⟩
  have fine := (follow_of_locate hfile).1
  refine ⟨?_, fine⟩
  rw [hpath] at hfile fine
  rw [locate_extend hlocate' hnames fine] at hfile
  exact fits_of_follow hnames hfile

/-- All stubs are written where the system takes their paths. -/
theorem forEach_writeStub (h : Copied stubs there (done.map stubFile) env)
    (named : ∀ element ∈ types, element.IsNamed)
    (distinct : ((done ++ types).map stubPlace).Nodup)
    (takes : ∀ element ∈ types, Takes stubs element) :
    ∃ after, forEach (writeStub stubs) types env = .ok () after ∧
      Copied stubs there ((done ++ types).map stubFile) after := by
  induction types generalizing done env with
  | nil => exact ⟨env, rfl, by rwa [List.append_nil]⟩
  | cons element rest ih =>
    obtain ⟨middle, hfirst, hmiddle⟩ := writeStub_copied h (named element List.mem_cons_self)
      (apart_of_nodup distinct) (takes element List.mem_cons_self)
    rw [← List.singleton_append, ← List.append_assoc] at distinct ⊢
    obtain ⟨after, hrest, hafter⟩ := ih hmiddle
      (fun other hm => named other (List.mem_cons_of_mem _ hm)) distinct
      fun other hm => takes other (List.mem_cons_of_mem _ hm)
    refine ⟨after, ?_, hafter⟩
    rw [List.singleton_append, forEach, bind_eq, hfirst]
    exact hrest

theorem takes_of_forEach (hlocate : env.locate stubs = .ok (there, .directory children))
    (named : ∀ element ∈ types, element.IsNamed)
    (h : forEach (writeStub stubs) types env = .ok () after) :
    ∀ element ∈ types, Takes stubs element := by
  induction types generalizing env children with
  | nil => exact fun _ hm => absurd hm List.not_mem_nil
  | cons element rest ih =>
    obtain ⟨⟨⟩, middle, hfirst, hrest⟩ := of_bind_ok h
    have hnamed := List.forall_mem_cons.1 named
    obtain ⟨children', hlocate'⟩ :=
      ((keeps_writeStub stubs element).of_ok hfirst).grows.locate_directory hlocate
    exact List.forall_mem_cons.2
      ⟨takes_of_writeStub hlocate hnamed.1 hfirst, ih hlocate' hnamed.2 hrest⟩

/-- What is below the directory when all stubs are written. -/
theorem copied_of_forEach (empty : env.locate stubs = .ok (there, .directory .nil))
    (named : ∀ element ∈ types, element.IsNamed) (distinct : (types.map stubPlace).Nodup)
    (h : forEach (writeStub stubs) types env = .ok () after) :
    Copied stubs there (types.map stubFile) after := by
  have start : Copied stubs there (([] : List Element).map stubFile) env := copied_nil empty
  obtain ⟨other, hother, copied⟩ :=
    forEach_writeStub start named distinct (takes_of_forEach empty named h)
  rw [h] at hother
  cases hother
  exact copied

/-! ## Reading -/

/-- The stubs are found, in some order. -/
theorem findSources_stubs (h : Copied stubs there (types.map stubFile) after)
    (named : ∀ element ∈ types, element.IsNamed) (distinct : (types.map stubPlace).Nodup)
    (takes : ∀ element ∈ types, Takes stubs element) :
    ∃ found : List Element, found.Perm types ∧
      findSources after stubs .java = found.map (elementPath stubs · "java") := by
  obtain ⟨children, hlocate⟩ := h.base
  have hordered : children.Ordered :=
    Forest.ordered_of_get? after.files.ordered (get?_of_locate hlocate)
  have hplaces : (types.map stubFile).map (·.1) = types.map stubPlace := List.map_map
  have hperm : (children.files.map (·.1)).Perm (types.map stubPlace) := by
    refine (List.perm_ext_iff_of_nodup ?_ distinct).2 fun below => ?_
    · exact List.pairwise_map.2 (Forest.nodup_files hordered)
    · rw [h.mem_places_iff hlocate, hplaces]
  -- The places listed are those of the types in another order.
  obtain ⟨found, hfound, hsame⟩ :
      Relation.Comp (· = List.map stubPlace ·) List.Perm (children.files.map (·.1)) types := by
    rw [List.eq_map_comp_perm]
    exact hperm
  have hpaths : found.map (elementPath stubs · "java") =
      (children.files.map (·.1)).map stubs.extend := by
    rw [hfound, List.map_map]
    exact List.map_congr_left fun element hm => (stubPath_eq (named element (hsame.subset hm)) stubs).1
  have opened : ∀ below ∈ children.files.map (·.1), opens stubs below.dropLast = true := by
    intro below hm
    rw [hfound] at hm
    obtain ⟨element, helement, rfl⟩ := List.mem_map.1 hm
    have hm := hsame.subset helement
    obtain ⟨hpath, hnames⟩ := stubPath_eq (named element hm) stubs
    exact opens_dropLast (LeadsTo.nonempty ⟨_, hlocate⟩) hnames
      (hpath ▸ (takes element hm).2)
  refine ⟨found, hsame, ?_⟩
  rw [findSources, listFiles_of_opens hlocate opened, ← hpaths, List.filter_eq_self.2]
  intro path hm
  obtain ⟨element, helement, rfl⟩ := List.mem_map.1 hm
  obtain ⟨hpath, hnames⟩ := stubPath_eq (named element (hsame.subset helement)) stubs
  have hlast := hnames _ (List.mem_append_right _ List.mem_cons_self)
  have hname := isEntry_name (named element (hsame.subset helement))
  rw [decide_eq_true_iff, hpath, stubPlace, ofPath?_extend hlast,
    Path.splitName_append hname.nonempty (by decide)]
  rfl

/-- The element read from the stub of an element, in the file where the stub is written. -/
def fromStub (stubs : Path) (element : Element) : Element :=
  asStub (elementPath stubs element "java") element

/-- From the stubs, their types are read. -/
theorem elementsOfAll_stubs (h : Copied stubs there (types.map stubFile) after)
    (read : ∀ element ∈ types, element.IsRead ∧ element.kind.isType = true)
    (takes : ∀ element ∈ types, Takes stubs element) {found : List Element}
    (hfound : ∀ element ∈ found, element ∈ types) :
    Round.elementsOfAll after (found.map (elementPath stubs · "java")) =
      .ok (found.map (fromStub stubs)) := by
  induction found with
  | nil => rfl
  | cons element rest ih =>
    obtain ⟨hmember, hothers⟩ := List.forall_mem_cons.1 hfound
    obtain ⟨hread, isType⟩ := read element hmember
    obtain ⟨hpath, -⟩ : elementPath stubs element "java" = stubs.extend (stubFile element).1 ∧ _ :=
      stubPath_eq hread.isNamed stubs
    obtain ⟨fits, fine⟩ : Fits (stubFile element).1 ∧ _ := takes element hmember
    have bytes : Text.encode (stub element) = (stubFile element).2.bytes := rfl
    rw [hpath] at fine
    have htext : after.readText (elementPath stubs element "java") = .ok (stub element) := by
      rw [hpath]
      exact h.readText (List.mem_map_of_mem hmember) fits fine bytes
    rw [List.map_cons, List.map_cons, Round.elementsOfAll, Round.elementsOf, htext, ih hothers]
    simp only [parse_stub hread isType, List.singleton_append, fromStub]

/-! ## Offering -/

theorem isRead_of_elementsOfAll {sources : List Path}
    (read : Round.elementsOfAll env sources = .ok elements) :
    ∀ element ∈ elements.filter (·.kind.isType), element.IsRead ∧ element.kind.isType = true := by
  intro element hm
  obtain ⟨hm, isType⟩ := List.mem_filter.1 hm
  obtain ⟨path, text, hparse⟩ := Round.mem_elementsOfAll read hm
  exact ⟨Element.isRead_of_mem_parse hparse, isType⟩

/-- When the stubs come first, the types behind them are left out. -/
theorem elements_stubsFirst (hsame : types.Perm (elements.filter (·.kind.isType)))
    (distinct : ((elements.filter (·.kind.isType)).map Element.qualifiedName).Nodup) :
    (Round.ofElements (types.map (fromStub stubs) ++ elements)).elements =
      types.map (fromStub stubs) ++
        firstOfEach Element.qualifiedName (elements.filter (! ·.kind.isType)) := by
  have hnames : (types.map (fromStub stubs)).map Element.qualifiedName =
      types.map Element.qualifiedName := List.map_map
  have hperm := hsame.map Element.qualifiedName
  refine Round.elements_typesFirst ?_ ?_ ?_
  · intro element hm
    obtain ⟨origin, horigin, rfl⟩ := List.mem_map.1 hm
    exact isType_stubKind (List.mem_filter.1 (hsame.subset horigin)).2
  · rw [hnames]
    exact hperm.nodup_iff.2 distinct
  · intro element hm isType
    rw [hnames, hperm.mem_iff]
    exact List.mem_map_of_mem (List.mem_filter.2 ⟨hm, isType⟩)

end Rehearsal

open Rehearsal in
/-- **Stubs and sources agree**: let different types in Kotlin sources have different qualified names,
    and packages no empty parts.  Then their stubs are written below an empty directory just when the
    system takes the paths of all of them, and after that the first round, without Java sources,
    offers every type once, read from its stub with the package, the name and the annotations of the
    type, and the first function of each qualified name. -/
theorem firstRound_offers {σ : Type} {registration : Registration σ} {args : FrontendArguments}
    {env : Environment} {there : Location} {elements : List Element}
    (java : args.javaSources = [])
    (option : (args.pluginOption kaptPluginId "stubs").head? =
      some registration.directories.stubs.text)
    (empty : env.locate registration.directories.stubs = .ok (there, .directory .nil))
    (read : Round.elementsOfAll env args.sources = .ok elements)
    (full : ∀ element ∈ elements, "" ∉ packageParts element)
    (distinct : ((elements.filter (·.kind.isType)).map Element.qualifiedName).Nodup) :
    ((∃ after, writeStubs args env = .ok () after) ↔
      ∀ element ∈ elements.filter (·.kind.isType),
        Takes registration.directories.stubs element) ∧
    ∀ after, writeStubs args env = .ok () after → ∃ round types,
      Round.ofFiles after (Processing.inputs after args registration) = .ok round ∧
      round.isOver = false ∧
      List.Perm types (elements.filter (·.kind.isType)) ∧
      round.elements = types.map (fromStub registration.directories.stubs) ++
        firstOfEach Element.qualifiedName (elements.filter (! ·.kind.isType)) := by
  generalize hdir : registration.directories.stubs = stubs at *
  obtain ⟨rest, hoption⟩ : ∃ rest, args.pluginOption kaptPluginId "stubs" = stubs.text :: rest :=
    List.head?_eq_some_iff.1 option
  have hwrite : writeStubs args env =
      forEach (writeStub stubs) (elements.filter (·.kind.isType)) env := by
    rw [writeStubs_eq, hoption]
    exact forTypes_stubs empty read (writesBelow_composes.refl env)
  have htypes := isRead_of_elementsOfAll read
  have named : ∀ element ∈ elements.filter (·.kind.isType), element.IsNamed :=
    fun element hm => (htypes element hm).1.isNamed
  have places := nodup_places (fun element hm => full element (List.mem_filter.1 hm).1) distinct
  rw [hwrite]
  refine ⟨⟨fun ⟨after, h⟩ => takes_of_forEach empty named h, fun takes => ?_⟩, fun after h => ?_⟩
  · have start : Copied stubs there (([] : List Element).map stubFile) env := copied_nil empty
    obtain ⟨after, hafter, -⟩ := forEach_writeStub start named places takes
    exact ⟨after, hafter⟩
  · have copied := copied_of_forEach empty named places h
    have takes := takes_of_forEach empty named h
    obtain ⟨types, hsame, hfound⟩ := findSources_stubs copied named places takes
    -- The types are read from their stubs, and the Kotlin sources are as they were.
    have hstubs := elementsOfAll_stubs copied htypes takes fun element hm => hsame.subset hm
    have keeps : Keeps (WritesBelow stubs there)
        (forEach (writeStub stubs) (elements.filter (·.kind.isType))) :=
      keeps_forEach writesBelow_composes fun element hm => writesBelow_writeStub (named element hm)
    have hsources : Round.elementsOfAll after args.sources = .ok elements := by
      rw [← read]
      exact Round.elementsOfAll_congr fun path hm => readText_writesBelow (keeps.of_ok h) empty
        (Round.readable_of_elementsOfAll read path hm)
    refine ⟨.ofElements (types.map (fromStub stubs) ++ elements), types, ?_, rfl, hsame,
      elements_stubsFirst hsame distinct⟩
    rw [Round.ofFiles, Processing.inputs, java, hdir, List.nil_append, hfound,
      Round.elementsOfAll_append, hstubs, hsources]
    rfl

/-- Processing with a directory for stubs, of no processors. -/
def stubsOnly : Registration Unit where
  processors := []
  options := []
  directories := ⟨⟨"java"⟩, ⟨"kotlin"⟩, ⟨"stubs"⟩, ⟨"data"⟩, ⟨"classes"⟩⟩
  correctErrorTypes := false

/-- Two Kotlin sources beside the empty directory for stubs.  One names an object by a keyword, the
    other has two functions of one name. -/
def besideStubs : Environment :=
  let file (text : String) : Leaf := .file ⟨Text.encode text, .plain⟩
  { (default : Environment) with
    files := FileTree.empty.insert ["stubs"] .directory
      |>.insert ["A.kt"] (file "package a.b\n\n@Inject @x.Y(1)\nobject enum\n\nfun run() = 0")
      |>.insert ["B.kt"] (file "data class P(val x: Int)\nfun run() = 1\nfun run(n: Int) = n") }

/-- The arguments for the stubs of the two sources. -/
def stubsArguments : FrontendArguments where
  mode := .stubs
  sources := [⟨"A.kt"⟩, ⟨"B.kt"⟩]
  pluginOptions := stubsOnly.pluginOptions false

theorem firstRound_twoSources :
    ∃ after round, Rehearsal.writeStubs stubsArguments besideStubs = .ok () after ∧
      Round.ofFiles after (Processing.inputs after stubsArguments stubsOnly) = .ok round ∧
      List.Perm round.elements
        [⟨.classType, some "a.b", "enum", ["Inject", "x.Y"], ⟨"stubs/a/b/enum.java"⟩⟩,
          ⟨.classType, none, "P", [], ⟨"stubs/P.java"⟩⟩,
          ⟨.function, some "a.b", "run", [], ⟨"A.kt"⟩⟩, ⟨.function, none, "run", [], ⟨"B.kt"⟩⟩] := by
  have read : Round.elementsOfAll besideStubs stubsArguments.sources =
      .ok [⟨.object, some "a.b", "enum", ["Inject", "x.Y"], ⟨"A.kt"⟩⟩,
        ⟨.function, some "a.b", "run", [], ⟨"A.kt"⟩⟩, ⟨.classType, none, "P", [], ⟨"B.kt"⟩⟩,
        ⟨.function, none, "run", [], ⟨"B.kt"⟩⟩, ⟨.function, none, "run", [], ⟨"B.kt"⟩⟩] := by
    decide +kernel
  obtain ⟨possible, offered⟩ := @firstRound_offers Unit stubsOnly stubsArguments besideStubs ["stubs"] _
    rfl (by decide +kernel) rfl read (by decide +kernel) (by decide +kernel)
  obtain ⟨after, written⟩ := possible.2 (by decide +kernel)
  obtain ⟨round, types, hround, -, hsame, helements⟩ := offered after written
  refine ⟨after, round, written, hround, ?_⟩
  rw [helements]
  refine ((hsame.map _).append_right _).trans (.of_eq ?_)
  decide +kernel

end KotlinHarness
