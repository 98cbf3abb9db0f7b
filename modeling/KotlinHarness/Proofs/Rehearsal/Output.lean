/-
  What the rehearsed compilers write, and that they write it again.

  For each type declared in a source, one file is written, below a root and in one directory for each
  part of the type's package (`elementPath_eq`).  As the names come from a scanner, the file is below
  the root and has the extension asked for.

  A second call that finds the sources as the first one did writes the same files again, or fails for
  the same reason (`repeats_writeClasses`, `repeats_writeStubs`).
-/
import KotlinHarness.Proofs.Files.Footprint
import KotlinHarness.Proofs.Source.Names
import KotlinHarness.Rehearsal.Frontend

namespace KotlinHarness

namespace Rehearsal

open Environment

variable {final old new env : Environment} {root destination stubs : Path} {element : Element}
  {extension : String} {sources : List Path}

/-! ## Places -/

/-- The directories for the package of an element. -/
def packageNames (element : Element) : List String :=
  (packageParts element).filter (! ·.isEmpty)

theorem isEntry_name (named : element.IsNamed) : Path.IsEntry element.name := by
  refine ⟨fun hm => ?_, fun hempty => named.name.1 (by rw [hempty]; rfl)⟩
  exact Text.slash_of_isDotted (Text.isDotted_of_isWord (named.name.2 _ hm)) rfl

theorem isSegment_of_mem_packageParts (named : element.IsNamed) {part : String}
    (h : part ∈ packageParts element) : Path.IsSegment part := by
  rw [packageParts] at h
  split at h
  · next package hpackage =>
    obtain ⟨piece, hpiece, rfl⟩ := List.mem_map.1 h
    rw [Path.IsSegment, String.toList_ofList]
    intro hslash
    have hm := Text.mem_of_mem_splitOn hpiece hslash
    exact Text.slash_of_isDotted (named.package package hpackage _ hm) rfl
  · exact absurd h List.not_mem_nil

theorem dot_of_mem_packageParts {part : String} (h : part ∈ packageParts element) :
    '.' ∉ part.toList := by
  rw [packageParts] at h
  split at h
  · obtain ⟨piece, hpiece, rfl⟩ := List.mem_map.1 h
    rw [String.toList_ofList]
    exact Text.not_mem_of_mem_splitOn hpiece
  · exact absurd h List.not_mem_nil

theorem isFileName_of_mem_packageNames (named : element.IsNamed) {part : String}
    (h : part ∈ packageNames element) : IsFileName part := by
  obtain ⟨hm, hfull⟩ := List.mem_filter.1 h
  have hempty : part ≠ "" := by simpa using hfull
  exact isFileName_of_dot ⟨isSegment_of_mem_packageParts named hm, hempty⟩ (dot_of_mem_packageParts hm)

/-- The file for an element is below the root, at the end of names that go down. -/
theorem elementPath_eq (named : element.IsNamed) (entry : Path.IsEntry extension) :
    elementPath root element extension =
        root.extend (packageNames element ++ [element.name ++ "." ++ extension]) ∧
      ∀ name ∈ packageNames element ++ [element.name ++ "." ++ extension], IsFileName name := by
  have hname := isFileName_extension (isEntry_name named) entry
  refine ⟨Path.extend_div root (fun _ => isSegment_of_mem_packageParts named) hname.entry.segment, ?_⟩
  intro name hm
  rcases List.mem_append.1 hm with hm | hm
  · exact isFileName_of_mem_packageNames named hm
  · rwa [List.mem_singleton.1 hm]

theorem hasExtension_of_leadsTo (named : element.IsNamed) (entry : Path.IsEntry extension)
    {location : Location} (h : env.LeadsTo (elementPath root element extension) location) :
    HasExtension extension location := by
  obtain ⟨before, rfl⟩ :=
    last_of_leadsTo_div (isFileName_extension (isEntry_name named) entry) h
  exact ⟨before, element.name, isEntry_name named, rfl⟩

/-! ## For all types declared in sources -/

theorem keeps_forEach {α : Type} {R : Environment → Environment → Prop} (composes : Composes R)
    {action : α → EnvironmentAction Unit} {items : List α}
    (each : ∀ item ∈ items, Keeps R (action item)) : Keeps R (forEach action items) := by
  induction items with
  | nil => exact composes.keeps_pure ()
  | cons item rest ih =>
    exact composes.keeps_bind (each item List.mem_cons_self)
      fun _ => ih fun other hm => each other (List.mem_cons_of_mem _ hm)

theorem repeats_forEach {α : Type} {action : α → EnvironmentAction Unit} {items : List α}
    (h : Retraces final old new)
    (keeps : ∀ item ∈ items, Keeps (Grows fun _ _ => True) (action item))
    (each : ∀ item ∈ items, ∀ {old' new'}, Moves final old new old' new' →
      Repeats final (action item) old' new') : Repeats final (forEach action items) old new := by
  induction items generalizing old new with
  | nil => exact .pure h ()
  | cons item rest ih =>
    have hrest : ∀ other ∈ rest, other ∈ item :: rest := fun _ => List.mem_cons_of_mem _
    refine (each item List.mem_cons_self (.refl h)).bind
      (fun _ => keeps_forEach grows_composes fun other hm => keeps other (hrest other hm)) ?_
    intro _ old' new' _ moves
    exact ih moves.retraces (fun other hm => keeps other (hrest other hm))
      fun other hm _ _ moves' => each other (hrest other hm) (moves.trans moves')

/-- Does something for each type declared in sources. -/
def forTypes (action : Element → EnvironmentAction Unit) (sources : List Path) :
    EnvironmentAction Unit :=
  forEach (fun source => do
    let content ← readSource source
    forEach action (typesOf source content)) sources

theorem isNamed_of_mem_typesOf {source : Path} {content : String}
    (h : element ∈ typesOf source content) : element.IsNamed :=
  Element.isNamed_of_mem_parse (List.mem_filter.1 h).1

theorem readSource_state (source : Path) (env : Environment) :
    finalState (readSource source env) = env := by
  rw [readSource]
  split <;> rfl

theorem keeps_forTypes {R : Environment → Environment → Prop} (composes : Composes R)
    {action : Element → EnvironmentAction Unit}
    (each : ∀ element : Element, element.IsNamed → Keeps R (action element)) (sources : List Path) :
    Keeps R (forTypes action sources) := by
  refine keeps_forEach composes fun source _ => composes.keeps_bind (fun env => ?_) fun content => ?_
  · rw [readSource_state]
    exact composes.refl env
  · exact keeps_forEach composes fun element hm => each element (isNamed_of_mem_typesOf hm)

theorem repeats_readSource (h : Retraces final old new) {source : Path}
    (settled : Settled old new source) : Repeats final (readSource source) old new := by
  intro _
  rw [readSource, readSource, h.readText_eq settled]
  split
  · exact .ok (.refl h)
  · exact .error (.refl h)

theorem repeats_forTypes {action : Element → EnvironmentAction Unit} (h : Retraces final old new)
    (settled : ∀ source ∈ sources, Settled old new source)
    (keeps : ∀ element : Element, element.IsNamed → Keeps (Grows fun _ _ => True) (action element))
    (each : ∀ element : Element, element.IsNamed → ∀ {old' new'}, Moves final old new old' new' →
      Repeats final (action element) old' new') : Repeats final (forTypes action sources) old new := by
  have types : ∀ (source : Path) (content : String),
      Keeps (Grows fun _ _ => True) (forEach action (typesOf source content)) :=
    fun source content => keeps_forEach grows_composes
      fun element hm => keeps element (isNamed_of_mem_typesOf hm)
  refine repeats_forEach h (fun source _ => ?_) fun source hm old' new' moves => ?_
  · refine grows_composes.keeps_bind (fun env => ?_) (types source)
    rw [readSource_state]
    exact .refl env
  · refine (repeats_readSource moves.retraces (moves.settled source (settled source hm))).bind
      (types source) ?_
    intro content last last' _ moves'
    refine repeats_forEach moves'.retraces
      (fun element hm => keeps element (isNamed_of_mem_typesOf hm)) ?_
    intro element hm _ _ moves''
    exact each element (isNamed_of_mem_typesOf hm) ((moves.trans moves').trans moves'')

/-! ## Class files -/

theorem plainly_eq {α : Type} (action : FileAction α) (env : Environment) :
    plainly action env =
      match action env with
      | .ok value after => .ok value after
      | .error cause after => .error (.io cause) after := rfl

/-- A class file is written below the directories for its package. -/
theorem writeClass_eq (destination : Path) (element : Element) :
    writeClass destination element = (do
      plainly (makeAbove (elementPath destination element "class"))
      plainly (Environment.write (elementPath destination element "class")
        (ClassFile.header writtenMajor))) := by
  unfold writeClass makeAbove
  generalize elementPath destination element "class" = path
  cases h : path.parent? with
  | none =>
    simp only [h]
    rfl
  | some parent => simp only [h]

theorem keeps_plainly {R : Environment → Environment → Prop} {α : Type} {action : FileAction α}
    (h : Keeps R action) : Keeps R (plainly action) := by
  intro env
  have henv := h env
  rw [plainly_eq]
  rcases hresult : action env with ⟨value, after⟩ | ⟨cause, after⟩ <;> rwa [hresult] at henv

theorem keeps_makeAbove (may : Location → FileData → Prop) (p : Path) :
    Keeps (Grows may) (makeAbove p) := by
  rw [makeAbove]
  split
  · exact keeps_makeDirectories may _
  · exact grows_composes.keeps_pure ()

/-- A class file of the version that is written. -/
def IsWritten (location : Location) (data : FileData) : Prop :=
  IsClassFile location ∧ data.bytes = ClassFile.header writtenMajor

theorem writes_writeClass (named : element.IsNamed) :
    Keeps (Grows IsWritten) (writeClass destination element) := by
  rw [writeClass_eq]
  refine grows_composes.keeps_bind (keeps_plainly (keeps_makeAbove _ _)) fun _ =>
    keeps_plainly fun env => ?_
  rcases h : Environment.write (elementPath destination element "class")
    (ClassFile.header writtenMajor) env with ⟨_, after⟩ | ⟨cause, after⟩
  · refine (write_ok h).grows.mono ?_
    rintro location data ⟨hleads, hbytes⟩
    exact ⟨hasExtension_of_leadsTo named (Path.isEntry_of_plain (by decide)) hleads, hbytes⟩
  · rw [write_error h]
    exact .refl env

theorem repeats_writeClass (h : Retraces final old new) (named : element.IsNamed)
    (hdir : old.isDirectory destination = true) :
    Repeats final (writeClass destination element) old new := by
  have entry : Path.IsEntry "class" := Path.isEntry_of_plain (by decide)
  obtain ⟨hpath, hnames⟩ : elementPath destination element "class" = _ ∧ _ :=
    elementPath_eq named entry
  have above := makeAbove_below hdir hnames
  rw [writeClass_eq, hpath]
  refine Repeats.bind (fun below => ?_) (fun _ => keeps_plainly fun env => ?_) ?_
  · have grows := above.grows
    rw [plainly_eq] at below
    rw [plainly_eq, plainly_eq]
    rcases hmade : makeAbove _ old with ⟨_, middle⟩ | ⟨cause, middle⟩
    · rw [hmade] at below grows
      rw [(above.made hmade (below.trans h.onto)).2]
      exact .ok (h.directories grows below)
    · rw [hmade] at below grows
      rw [above.stuck hmade (below.trans h.onto)]
      exact .error (h.directories grows below)
  · rcases hwritten : Environment.write _ _ env with ⟨_, after⟩ | ⟨cause, after⟩
    · exact (write_ok hwritten).grows.mono fun _ _ _ => trivial
    · rw [write_error hwritten]
      exact .refl env
  · intro _ old' new' hmade moves below
    -- The directories above are there now.
    have hthere : old'.isDirectory (destination.extend (packageNames element)) = true := by
      rw [plainly_eq] at hmade
      split at hmade
      · next hmade' =>
        cases hmade
        exact (above.made hmade' (.refl _)).1
      · cases hmade
    have hname := hnames _ (List.mem_append_right _ List.mem_cons_self)
    rw [plainly_eq] at below
    rw [plainly_eq, plainly_eq]
    rcases hwritten : Environment.write _ _ old' with ⟨_, last⟩ | ⟨cause, last⟩
    · rw [hwritten] at below
      obtain ⟨last', hagain, moves'⟩ := moves.retraces.write hwritten below
      rw [hagain]
      exact .ok moves'
    · rw [write_error_mono moves.retraces.grows (moves.grows.isDirectory hdir) hnames
        (write_directly hthere hname hwritten) hwritten]
      rw [write_error hwritten]
      exact .error (.refl moves.retraces)

theorem writeClasses_eq (destination : Path) (sources : List Path) :
    writeClasses destination sources = forTypes (writeClass destination) sources := rfl

theorem writes_writeClasses (destination : Path) (sources : List Path) :
    Keeps (Grows IsWritten) (writeClasses destination sources) := by
  rw [writeClasses_eq]
  exact keeps_forTypes grows_composes (fun _ => writes_writeClass) sources

theorem keeps_writeClasses (destination : Path) (sources : List Path) :
    Keeps (Grows fun location _ => IsClassFile location) (writeClasses destination sources) :=
  fun env => (writes_writeClasses destination sources env).mono fun _ _ hwritten => hwritten.1

/-- Class files are written again, or fail to be written again. -/
theorem repeats_writeClasses (h : Retraces final old new)
    (settled : ∀ source ∈ sources, Settled old new source)
    (hdir : old.isDirectory destination = true) :
    Repeats final (writeClasses destination sources) old new := by
  rw [writeClasses_eq]
  refine repeats_forTypes h settled (fun element named env => ?_) ?_
  · exact (writes_writeClass named env).mono fun _ _ _ => trivial
  · intro element named old' new' moves
    exact repeats_writeClass moves.retraces named (moves.grows.isDirectory hdir)

/-! ## Stubs -/

theorem keeps_writeStub (stubs : Path) (element : Element) :
    Keeps Reaches (writeStub stubs element) :=
  reaches_composes.keeps_bind (keeps_deposit _ _ _) fun _ => reaches_composes.keeps_pure ()

theorem repeats_writeStub (h : Retraces final old new) (named : element.IsNamed)
    (hdir : old.isDirectory stubs = true) : Repeats final (writeStub stubs element) old new := by
  have entry : Path.IsEntry "java" := Path.isEntry_of_plain (by decide)
  obtain ⟨hpath, hnames⟩ : elementPath stubs element "java" = _ ∧ _ := elementPath_eq named entry
  rw [writeStub, hpath]
  exact (h.repeats_deposit hdir hnames _).bind (fun _ => grows_composes.keeps_pure ())
    fun _ moves => .pure moves.retraces ()

theorem writeStubs_eq (args : FrontendArguments) :
    writeStubs args =
      match args.pluginOption kaptPluginId "stubs" with
      | [] => pure ()
      | stubs :: _ => forTypes (writeStub ⟨stubs⟩) args.sources := rfl

theorem keeps_writeStubs (args : FrontendArguments) : Keeps Reaches (writeStubs args) := by
  rw [writeStubs_eq]
  split
  · exact reaches_composes.keeps_pure ()
  · exact keeps_forTypes reaches_composes (fun element _ => keeps_writeStub _ element) _

/-- Stubs are written again. -/
theorem repeats_writeStubs {args : FrontendArguments} (h : Retraces final old new)
    (settled : ∀ source ∈ args.sources, Settled old new source)
    (hoption : args.pluginOption kaptPluginId "stubs" = [stubs.text])
    (hdir : old.isDirectory stubs = true) : Repeats final (writeStubs args) old new := by
  rw [writeStubs_eq, hoption]
  refine repeats_forTypes h settled (fun element _ env => ?_) ?_
  · exact (keeps_writeStub _ element env).grows
  · intro element named old' new' moves
    exact repeats_writeStub moves.retraces named (moves.grows.isDirectory hdir)

end Rehearsal

end KotlinHarness
