/-
  The rehearsed Java compiler service, called again.

  It reads its sources, looks for what they import among the class files on the class path, and
  complains or writes class files.  A second call, over what the first one left, finds every class
  file that the first one found, and perhaps more.  So it has to be told from the outcome why more
  makes no difference:

    * when the first call complained, it wrote nothing, and if nothing else was written afterwards
      the second one finds no more than the first one
    * when the first call did not complain, every import was satisfied, and still is

  Both cases are in `compileJava_again`, and `embedded_again` is the same for the way of compiling
  Java that calls the service.
-/
import KotlinHarness.JavaCompiler.Strategy
import KotlinHarness.Proofs.Processing.Replayed
import KotlinHarness.Proofs.Rehearsal.Output
import KotlinHarness.Rehearsal.JavaService

namespace KotlinHarness

namespace Rehearsal

open Environment Machine

variable {σ : Type} {env final old new : Environment} {installed : Option (Registration σ)}
  {may : Location → FileData → Prop} {first second : Machine σ} {args : List String}
  {classpath sources : List Path} {source : Path} {content : String} {found : List Diagnostic}

/-! ## Sources -/

/-- No class file is named where a Java source is. -/
theorem not_isClassFile_of_mem_sourcesAmong (h : source ∈ sourcesAmong args) {location : Location}
    {data : FileData} (hlocate : env.locate source = .ok (location, .file data)) :
    ¬ IsClassFile location := by
  rintro ⟨above, stem, -, rfl⟩
  obtain ⟨arg, harg, rfl⟩ := List.mem_map.1 h
  obtain ⟨front, hfront⟩ := List.isSuffixOf_iff_suffix.1 (List.mem_filter.1 harg).2
  obtain ⟨before, last, hsegments⟩ := (Path.mk arg).exists_last_segment
  have hwalk := (follow_of_locate hlocate).2
  rw [hsegments] at hwalk
  obtain ⟨hname, middle, heq⟩ := FileTree.name_of_follow_file hwalk
  obtain ⟨-, hlast⟩ := List.append_inj' heq rfl
  obtain rfl := (List.singleton_inj.1 hlast).symm
  obtain ⟨front', hfront'⟩ := Path.text_of_segments hsegments
  have hends := congrArg List.getLast? (hfront'.trans hfront.symm)
  simp at hends

/-- Every source of a call that compiles can be read. -/
theorem readable_of_check (h : check env classpath sources = (none, found)) :
    ∀ source ∈ sources, env.Readable source := by
  induction sources generalizing found with
  | nil => exact fun _ hm => absurd hm List.not_mem_nil
  | cons source rest ih =>
    rw [check] at h
    rcases hread : env.readText source with cause | content
    · simp only [hread] at h
      cases h
    · rcases hrest : check env classpath rest with ⟨cause, others⟩
      simp only [hread, hrest] at h
      cases h
      exact List.forall_mem_cons.2 ⟨⟨content, hread⟩, ih hrest⟩

/-! ## Complaints -/

/-- Imports that are satisfied stay so. -/
theorem resolves_mono (grows : Grows may old new) {name : String}
    (h : resolves old classpath name = true) : resolves new classpath name = true := by
  rw [resolves, Bool.or_eq_true, List.any_eq_true] at h ⊢
  refine h.imp id ?_
  rintro ⟨entry, hentry, hfile⟩
  exact ⟨entry, hentry, grows.isFile hfile⟩

/-- There are the same complaints where the same imports are satisfied. -/
theorem importErrors_congr
    (h : ∀ name, resolves new classpath name = resolves old classpath name) (source : Path)
    (content : String) :
    importErrors new classpath source content = importErrors old classpath source content := by
  rw [importErrors, importErrors]
  simp only [h]

/-- Without complaint about imports there will be none. -/
theorem importErrors_mono (grows : Grows may old new)
    (h : importErrors old classpath source content = []) :
    importErrors new classpath source content = [] := by
  rw [importErrors, List.map_eq_nil_iff, List.filter_eq_nil_iff] at h ⊢
  intro found hm
  have hold := h found hm
  simp only [Bool.not_eq_true, Bool.not_eq_false'] at hold ⊢
  exact resolves_mono grows hold

theorem importErrors_of_check (h : check env classpath sources = (none, found))
    (hm : source ∈ sources) (hread : env.readText source = .ok content) :
    ∀ diagnostic ∈ importErrors env classpath source content, diagnostic ∈ found := by
  induction sources generalizing found with
  | nil => exact absurd hm List.not_mem_nil
  | cons other rest ih =>
    rw [check] at h
    rcases hother : env.readText other with cause | text
    · simp only [hother] at h
      cases h
    · rcases hrest : check env classpath rest with ⟨cause, others⟩
      simp only [hother, hrest] at h
      cases h
      intro diagnostic hdiagnostic
      rcases List.mem_cons.1 hm with rfl | hm
      · rw [hread] at hother
        cases hother
        exact List.mem_append_left _ (List.mem_append_right _ hdiagnostic)
      · exact List.mem_append_right _ (ih hrest hm diagnostic hdiagnostic)

/-- All complaints are errors. -/
theorem isError_of_check {cause : Option IoError} (h : check env classpath sources = (cause, found)) :
    ∀ diagnostic ∈ found, diagnostic.severity.isError = true := by
  induction sources generalizing cause found with
  | nil =>
    cases h
    exact fun _ hm => absurd hm List.not_mem_nil
  | cons source rest ih =>
    rw [check] at h
    rcases hread : env.readText source with fault | content
    · simp only [hread] at h
      cases h
      exact fun _ hm => absurd hm List.not_mem_nil
    · rcases hrest : check env classpath rest with ⟨later, others⟩
      simp only [hread, hrest] at h
      cases h
      intro diagnostic hm
      rcases List.mem_append.1 hm with hm | hm
      · rcases List.mem_append.1 hm with hm | hm
        · rw [braceErrors] at hm
          split at hm
          · exact absurd hm List.not_mem_nil
          · rw [List.mem_singleton.1 hm]
            rfl
        · rw [importErrors] at hm
          obtain ⟨⟨position, name⟩, -, rfl⟩ := List.mem_map.1 hm
          rfl
      · exact ih hrest diagnostic hm

/-- The same complaints are made again, if those about imports are. -/
theorem check_again (h : Retraces final old new)
    (settled : ∀ source ∈ sources, old.Readable source → Settled old new source)
    (imports : ∀ source ∈ sources, ∀ content, old.readText source = .ok content →
      importErrors new classpath source content = importErrors old classpath source content)
    (hcheck : check old classpath sources = (none, found)) :
    check new classpath sources = (none, found) := by
  induction sources generalizing found with
  | nil => exact hcheck
  | cons source rest ih =>
    rw [check] at hcheck ⊢
    rcases hread : old.readText source with cause | content
    · simp only [hread] at hcheck
      cases hcheck
    · have hsettled := settled source List.mem_cons_self ⟨content, hread⟩
      rcases hrest : check old classpath rest with ⟨cause, others⟩
      simp only [hread, hrest] at hcheck
      cases hcheck
      rw [h.readText_eq hsettled, hread]
      simp only
      rw [ih (fun other hm => settled other (List.mem_cons_of_mem _ hm))
        (fun other hm => imports other (List.mem_cons_of_mem _ hm)) hrest,
        imports source List.mem_cons_self content hread]

/-- Where the same files are there, the same imports are missing. -/
theorem check_again_unchanged (h : Retraces final old new) (back : Grows (fun _ _ => True) new old)
    (settled : ∀ source ∈ sources, old.Readable source → Settled old new source)
    (hcheck : check old classpath sources = (none, found)) :
    check new classpath sources = (none, found) :=
  check_again h settled (fun source _ content _ => importErrors_congr (fun _ => Bool.eq_iff_iff.2
    ⟨resolves_mono back, resolves_mono h.grows⟩) source content) hcheck

/-- Where no import was missing none is, whatever else is there by now. -/
theorem check_again_passed (h : Retraces final old new)
    (settled : ∀ source ∈ sources, old.Readable source → Settled old new source)
    (hcheck : check old classpath sources = (none, [])) :
    check new classpath sources = (none, []) := by
  refine check_again h settled (fun source hm content hread => ?_) hcheck
  have hold : importErrors old classpath source content = [] :=
    List.eq_nil_iff_forall_not_mem.2 fun diagnostic hd =>
      absurd (importErrors_of_check hcheck hm hread diagnostic hd) List.not_mem_nil
  rw [hold, importErrors_mono h.grows hold]

/-! ## Calls -/

theorem writeAnswer_grows (destination : Path) (sources : List Path) (diagnostics : Collector)
    (machine : Machine σ) :
    GrowsBy (fun location _ => IsClassFile location) machine
      (writeAnswer destination sources diagnostics machine).2 := by
  have keeps := keeps_writeClasses destination sources machine.environment
  rw [writeAnswer]
  rcases hresult : writeClasses destination sources machine.environment with
    ⟨_, after⟩ | ⟨cause, after⟩ <;> rw [hresult] at keeps <;> exact ⟨keeps, rfl⟩

/-- A call writes class files alone. -/
theorem compileJava_grows (args : List String) (machine : Machine σ) :
    GrowsBy (fun location _ => IsClassFile location) machine (compileJava args machine).2 := by
  rw [compileJava]
  split
  · exact (growsBy_composes _).refl machine
  · simp only
    split
    · exact (growsBy_composes _).refl machine
    · split
      · exact (growsBy_composes _).refl machine
      · exact writeAnswer_grows _ _ _ _

theorem writeAnswer_again (h : Abreast final installed first second) {destination : Path}
    (settled : ∀ source ∈ sources, Settled first.environment second.environment source)
    (hdir : first.environment.isDirectory destination = true) {diagnostics : Collector}
    {answer : ServiceAnswer} {last : Machine σ}
    (hcall : writeAnswer destination sources diagnostics first = (answer, last))
    (hend : Grows (fun _ _ => True) last.environment final) :
    ∃ last', writeAnswer destination sources diagnostics second = (answer, last') ∧
      Proceeds final installed first second last last' := by
  have repeats := repeats_writeClasses h.retraces settled hdir
  rw [writeAnswer] at hcall ⊢
  rcases hfirst : writeClasses destination sources first.environment with
    ⟨_, old'⟩ | ⟨cause, old'⟩
  all_goals
    simp only [hfirst] at hcall
    cases hcall
    have alike := repeats (by rw [hfirst]; exact hend)
    rw [hfirst] at alike
    rcases hsecond : writeClasses destination sources second.environment with
      ⟨_, new'⟩ | ⟨cause', new'⟩ <;> rw [hsecond] at alike <;> cases alike
    next moves =>
      exact ⟨{ second with environment := new' }, rfl,
        ⟨moves.retraces, h.messages, h.steady, h.roundLimit, h.registration⟩, moves⟩

/-- A call that was answered is answered so again, if nothing came after it. -/
theorem compileJava_again (h : Abreast final installed first second) {destination : Path}
    (hdestination : flagValue? "-d" args = some destination.text)
    (hdir : first.environment.isDirectory destination = true) {answer : ServiceAnswer}
    {last : Machine σ} (hcall : compileJava args first = (answer, last))
    (answered : ∀ cause, answer.outcome ≠ .error (.io cause)) (hend : last.environment = final) :
    ∃ last', compileJava args second = (answer, last') ∧
      Proceeds final installed first second last last' := by
  have grows : Grows (fun location _ => IsClassFile location) first.environment final := by
    have hgrows := compileJava_grows args first
    rw [hcall] at hgrows
    exact hend ▸ hgrows.grows
  have settled : ∀ source ∈ sourcesAmong args, first.environment.Readable source →
      Settled first.environment second.environment source := by
    intro source hm hread
    obtain ⟨location, data, _, hlocate, -⟩ := readable_iff.1 hread
    exact ⟨location, (locate_file_iff.1 hlocate).1, h.retraces.agreed grows fun _ =>
      not_isClassFile_of_mem_sourcesAmong hm hlocate⟩
  rw [compileJava, hdestination] at hcall ⊢
  simp only at hcall ⊢
  rcases hcheck : check first.environment (classpathAmong args) (sourcesAmong args) with
    ⟨- | cause, found⟩
  · simp only [hcheck] at hcall
    by_cases herrors : Collector.hasErrors ⟨found⟩ = true
    · -- Nothing was written, so both calls see the same files.
      rw [if_pos herrors] at hcall
      cases hcall
      have back : Grows (fun _ _ => True) second.environment first.environment :=
        hend ▸ h.retraces.into
      rw [check_again_unchanged h.retraces back settled hcheck]
      simp only [if_pos herrors]
      exact ⟨second, rfl, h.proceeds⟩
    · -- Every import was satisfied.
      rw [if_neg herrors] at hcall
      obtain rfl : found = [] := by
        refine List.eq_nil_iff_forall_not_mem.2 fun diagnostic hm => herrors ?_
        exact List.any_eq_true.2 ⟨diagnostic, hm, isError_of_check hcheck diagnostic hm⟩
      rw [check_again_passed h.retraces settled hcheck]
      simp only [if_neg herrors]
      exact writeAnswer_again h
        (fun source hm => settled source hm (readable_of_check hcheck source hm)) hdir hcall
        (hend ▸ .refl _)
  · simp only [hcheck] at hcall
    cases hcall
    exact absurd rfl (answered _)

/-! ## The way of compiling Java -/

theorem keeps_exitCodeOf (outcome : Except ServiceError Bool) :
    Keeps (@OnlyPrints σ) (JavaStrategy.exitCodeOf outcome) := by
  match outcome with
  | .ok true => exact onlyPrints_composes.keeps_pure _
  | .ok false => exact onlyPrints_composes.keeps_pure _
  | .error error =>
    rw [JavaStrategy.exitCodeOf]
    split
    · exact onlyPrints_composes.keeps_bind (keeps_printLine _) fun _ =>
        onlyPrints_composes.keeps_pure _
    · exact onlyPrints_composes.refl

theorem recurs_exitCodeOf (h : Abreast final installed first second)
    (outcome : Except ServiceError Bool) :
    Recurs final installed may (JavaStrategy.exitCodeOf outcome) first second := by
  match outcome with
  | .ok true => exact .pure h _
  | .ok false => exact .pure h _
  | .error error =>
    rw [JavaStrategy.exitCodeOf]
    split
    · exact (h.recurs_printLine _).bind (fun _ => (growsBy_composes may).refl _)
        fun _ proceeds => .pure proceeds.abreast _
    · exact fun _ _ hfirst => by cases hfirst

/-- The destination is the first thing that a call is told. -/
theorem destination_of_embeddedArguments (isModular : Bool) (resolution : Resolution)
    (sources : List Path) :
    flagValue? "-d" (JavaStrategy.embeddedArguments isModular resolution sources) =
      some resolution.classesDir.text := by
  generalize hdir : resolution.classesDir = directory
  rw [JavaStrategy.embeddedArguments, JavaCompiler.baseArguments, hdir]
  generalize JavaCompiler.erasePlatform isModular = erased
  generalize Path.joinList resolution.classpathWithOutput = classpath
  cases resolution.config.verbose <;> cases isModular <;> rfl

theorem callService_eq (service : JavaService σ) (args : List String) (machine : Machine σ) :
    JavaStrategy.callService service args machine =
      .ok (service.compile args machine).1 (service.compile args machine).2 := rfl

/-- Compiling Java writes class files alone. -/
theorem keeps_embedded (isModular : Bool) (resolution : Resolution) (sources : List Path) :
    Keeps (@GrowsBy σ fun location _ => IsClassFile location)
      ((JavaStrategy.embedded (javaService none) isModular).compile resolution sources) := by
  refine (growsBy_composes _).keeps_bind (fun machine => ?_) fun answer =>
    (growsBy_composes _).keeps_bind (growsBy_of_onlyPrints (keeps_printDiagnostics _)) fun _ =>
      growsBy_of_onlyPrints (keeps_exitCodeOf _)
  rw [callService_eq]
  generalize JavaStrategy.embeddedArguments isModular resolution sources = args
  have hgrows := compileJava_grows args { machine with calls := machine.calls ++ [.service args] }
  exact ⟨hgrows.grows, hgrows.roundLimit⟩

/-- Java sources that were compiled are compiled again, if nothing came after it. -/
theorem embedded_again (h : Abreast final installed first second) {isModular : Bool}
    {resolution : Resolution} (hdir : first.environment.isDirectory resolution.classesDir = true)
    {code : ExitCode} {last : Machine σ}
    (hfirst : (JavaStrategy.embedded (javaService none) isModular).compile resolution sources first =
      .ok code last) (hend : last.environment = final) :
    ∃ last', (JavaStrategy.embedded (javaService none) isModular).compile resolution sources second =
      .ok code last' ∧ Proceeds final installed first second last last' := by
  have hdestination := destination_of_embeddedArguments isModular resolution sources
  simp only [JavaStrategy.embedded] at hfirst ⊢
  generalize JavaStrategy.embeddedArguments isModular resolution sources = args at hfirst hdestination ⊢
  have hservice : ∀ machine : Machine σ, JavaStrategy.callService (javaService none) args machine =
      .ok (compileJava args { machine with calls := machine.calls ++ [.service args] }).1
        (compileJava args { machine with calls := machine.calls ++ [.service args] }).2 :=
    callService_eq _ _
  obtain ⟨answer, middle, hanswer, hrest⟩ := of_bind_ok hfirst
  rw [hservice] at hanswer
  obtain ⟨_, printed, hprint, hcode⟩ := of_bind_ok hrest
  have hkept := (keeps_printDiagnostics answer.diagnostics.all).of_ok hprint
  have hkept' := (keeps_exitCodeOf answer.outcome).of_ok hcode
  have hmiddle : middle.environment = final :=
    (hkept'.environment.trans hkept.environment).symm.trans hend
  have answered : ∀ cause, answer.outcome ≠ .error (.io cause) := by
    intro cause heq
    rw [heq] at hcode
    cases hcode
  have noted := h.withCalls (first.calls ++ [.service args]) (second.calls ++ [.service args])
  rcases hcall : compileJava args { first with calls := first.calls ++ [.service args] } with
    ⟨given, after⟩
  rw [hcall] at hanswer
  cases hanswer
  obtain ⟨middle', hagain, proceeds⟩ :=
    compileJava_again noted hdestination hdir hcall answered hmiddle
  have hsame : ∀ {machine : Machine σ}, machine.environment = final →
      Grows (fun _ _ => False) machine.environment final := by
    intro machine heq
    rw [heq]
    exact .refl _
  obtain ⟨printed', hprint', proceeds'⟩ := proceeds.abreast.recurs_printDiagnostics
    given.diagnostics.all () printed hprint
    (hsame (hkept.environment.trans hmiddle))
  obtain ⟨last', hcode', proceeds''⟩ := recurs_exitCodeOf proceeds'.abreast given.outcome code last
    hcode (hsame hend)
  refine ⟨last', ?_, ?_⟩
  · rw [bind_eq, hservice, hagain]
    simp only
    rw [bind_eq, hprint']
    exact hcode'
  · have all := (proceeds.trans proceeds').trans proceeds''
    exact ⟨all.abreast, all.moves⟩

end Rehearsal

end KotlinHarness
