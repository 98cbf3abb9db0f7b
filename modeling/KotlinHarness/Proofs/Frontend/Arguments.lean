/-
  Options of compiler plugins, looked up again.

  An option is one text, `plugin:<id>:<key>=<value>`, and is found by its start.  A key without an
  equals sign ends where the text says, so the value that was put in is the one that is found, and
  an option of another key is passed over (`lookup_kaptOption`).  A registration is written as pairs
  of a key and a value, and looking a key up gives the values of its pairs
  (`pluginOption_eq_values`).

  An option of processors is a value of the key `apOption`, in which its own key and value are
  joined by an equals sign once more.  That is read back as the option exactly when the option's key
  has no equals sign in it (`keyAndValue?_eq_some_iff`).

    * `processorOptions_readBack`   what of a registration comes back from its plugin options
    * `equalsSign_moves`            two registrations that are written alike
-/
import KotlinHarness.Pipeline.Stages
import Mathlib.Data.List.Infix

namespace KotlinHarness

/-- A key that ends at the first equals sign. -/
def IsOptionKey (key : String) : Prop := '=' ∉ key.toList

instance (key : String) : Decidable (IsOptionKey key) :=
  inferInstanceAs (Decidable ('=' ∉ key.toList))

/-- Where a text is cut at its first separator is told by the text. -/
theorem append_cons_inj {separator : Char} {first second rest rest' : List Char}
    (hfirst : separator ∉ first) (hsecond : separator ∉ second)
    (h : first ++ separator :: rest = second ++ separator :: rest') :
    first = second ∧ rest = rest' := by
  induction first generalizing second with
  | nil =>
    cases second with
    | nil =>
      cases h
      exact ⟨rfl, rfl⟩
    | cons c others =>
      cases h
      exact absurd List.mem_cons_self hsecond
  | cons c others ih =>
    cases second with
    | nil =>
      cases h
      exact absurd List.mem_cons_self hfirst
    | cons c' others' =>
      rw [List.cons_append, List.cons_append] at h
      obtain ⟨rfl, hothers⟩ := List.cons.inj h
      obtain ⟨rfl, rfl⟩ := ih (fun hm => hfirst (List.mem_cons_of_mem _ hm))
        (fun hm => hsecond (List.mem_cons_of_mem _ hm)) hothers
      exact ⟨rfl, rfl⟩

/-- An option is found under its own key alone. -/
theorem lookup_kaptOption {key other : String} (hkey : IsOptionKey key) (hother : IsOptionKey other)
    (value : String) :
    ((pluginOptionHead kaptPluginId key).toList.isPrefixOf? (kaptOption other value).toList).map
      String.ofList = if other = key then some value else none := by
  have hhead : ∀ name : String, (pluginOptionHead kaptPluginId name).toList =
      "plugin:org.jetbrains.kotlin.kapt3:".toList ++ (name.toList ++ ['=']) := by
    intro name
    simp [pluginOptionHead, kaptPluginId, String.toList_append]
  have hoption : (kaptOption other value).toList =
      "plugin:org.jetbrains.kotlin.kapt3:".toList ++ (other.toList ++ '=' :: value.toList) := by
    rw [kaptOption, String.toList_append, hhead]
    simp
  rcases hfound : (pluginOptionHead kaptPluginId key).toList.isPrefixOf?
      (kaptOption other value).toList with - | rest
  · split
    · next heq =>
      subst heq
      have hself : (pluginOptionHead kaptPluginId other).toList.isPrefixOf?
          (kaptOption other value).toList = some value.toList := by
        rw [List.isPrefixOf?_eq_some_iff_append_eq, kaptOption, String.toList_append]
      rw [hself] at hfound
      cases hfound
    · rfl
  · rw [List.isPrefixOf?_eq_some_iff_append_eq, hhead, hoption, List.append_assoc] at hfound
    have hrest := (List.append_cancel_left hfound).symm
    rw [List.append_assoc, List.singleton_append] at hrest
    obtain ⟨hname, rfl⟩ := append_cons_inj hother hkey hrest
    rw [if_pos (String.toList_inj.1 hname), Option.map_some, String.ofList_toList]

/-! ## Keys and values of processor options -/

/-- A text cut at its first equals sign; none when it has none. -/
def keyAndValue? (text : String) : Option (String × String) :=
  match text.toList.dropWhile (· != '=') with
  | [] => none
  | _ :: value => some (String.ofList (text.toList.takeWhile (· != '=')), String.ofList value)

/-- The key that a text is cut into has no equals sign. -/
theorem isOptionKey_of_keyAndValue? {text : String} {option : String × String}
    (h : keyAndValue? text = some option) : IsOptionKey option.1 := by
  rw [keyAndValue?] at h
  split at h
  · cases h
  · cases h
    intro hm
    rw [String.toList_ofList] at hm
    have := List.all_eq_true.1 List.all_takeWhile _ hm
    simp at this

/-- A key and a value that are joined by an equals sign are the two parts again exactly when the key
    has no equals sign of its own. -/
theorem keyAndValue?_eq_some_iff (option : String × String) :
    keyAndValue? (option.1 ++ "=" ++ option.2) = some option ↔ IsOptionKey option.1 := by
  refine ⟨isOptionKey_of_keyAndValue?, fun hkey => ?_⟩
  have htext : (option.1 ++ "=" ++ option.2).toList =
      option.1.toList ++ '=' :: option.2.toList := by
    simp [String.toList_append]
  have hpart : ∀ c ∈ option.1.toList, (c != '=') = true := by
    intro c hc
    rw [bne_iff_ne]
    rintro rfl
    exact hkey hc
  have hdrop : (option.1.toList ++ '=' :: option.2.toList).dropWhile (· != '=') =
      '=' :: option.2.toList := by
    rw [List.dropWhile_append_of_pos hpart, List.dropWhile_cons_of_neg (by simp)]
  have htake : (option.1.toList ++ '=' :: option.2.toList).takeWhile (· != '=') =
      option.1.toList := by
    rw [List.takeWhile_append_of_pos hpart, List.takeWhile_cons_of_neg (by simp), List.append_nil]
  rw [keyAndValue?, htext, hdrop, htake]
  simp only [String.ofList_toList]

namespace Registration

variable {σ τ : Type}

/-- The keys of the plugin with the values that a compile call gives them. -/
abbrev ownPairs (registration : Registration σ) (verbose : Bool) : List (String × String) :=
  [("sources", registration.directories.generatedJava.text),
    ("classes", registration.directories.classes.text),
    ("stubs", registration.directories.stubs.text),
    ("incrementalData", registration.directories.incrementalData.text),
    ("aptMode", "stubs"),
    ("correctErrorTypes", flagText registration.correctErrorTypes),
    ("verbose", flagText verbose)]

/-- What a registration is written as: these keys, and one key for all options of processors. -/
def pluginPairs (registration : Registration σ) (verbose : Bool) : List (String × String) :=
  registration.ownPairs verbose
    ++ registration.options.map fun option => ("apOption", option.1 ++ "=" ++ option.2)

theorem pluginOptions_eq (registration : Registration σ) (verbose : Bool) :
    registration.pluginOptions verbose =
      (registration.pluginPairs verbose).map fun pair => kaptOption pair.1 pair.2 := by
  rw [pluginPairs, List.map_append, List.map_map]
  rfl

theorem isOptionKey_of_mem_pluginPairs {registration : Registration σ} {verbose : Bool}
    {pair : String × String} (h : pair ∈ registration.pluginPairs verbose) :
    IsOptionKey pair.1 := by
  have hfixed : ∀ key ∈ ["sources", "classes", "stubs", "incrementalData", "aptMode",
      "correctErrorTypes", "verbose", "apOption"], IsOptionKey key := by decide
  apply hfixed
  rw [pluginPairs, List.mem_append, List.mem_map] at h
  rcases h with h | ⟨option, -, rfl⟩
  · have := List.mem_map_of_mem (f := Prod.fst) h
    simp only [List.map_cons, List.map_nil] at this
    exact List.mem_append_left ["apOption"] this
  · show "apOption" ∈ _
    decide

/-- Looking a key up gives the values of its pairs, in order. -/
theorem pluginOption_eq_values (registration : Registration σ) (args : FrontendArguments)
    (verbose : Bool) (hoptions : args.pluginOptions = registration.pluginOptions verbose)
    {key : String} (hkey : IsOptionKey key) :
    args.pluginOption kaptPluginId key =
      ((registration.pluginPairs verbose).filter (·.1 = key)).map (·.2) := by
  have hpairs : ∀ pair ∈ registration.pluginPairs verbose, IsOptionKey pair.1 :=
    fun _ => isOptionKey_of_mem_pluginPairs
  rw [FrontendArguments.pluginOption, hoptions, pluginOptions_eq]
  generalize registration.pluginPairs verbose = pairs at hpairs
  induction pairs with
  | nil => rfl
  | cons pair rest ih =>
    have hrest := ih fun other hm => hpairs other (List.mem_cons_of_mem _ hm)
    rw [List.map_cons, List.filterMap_cons,
      lookup_kaptOption hkey (hpairs pair List.mem_cons_self), List.filter_cons]
    by_cases heq : pair.1 = key
    · simp [heq, hrest]
    · simp [heq, hrest]

/-- What an option of the plugin is set to that is no option of processors. -/
theorem pluginOption_eq (registration : Registration σ) (args : FrontendArguments) (verbose : Bool)
    (hoptions : args.pluginOptions = registration.pluginOptions verbose) {key : String}
    (hkey : IsOptionKey key) (user : key ≠ "apOption") :
    args.pluginOption kaptPluginId key =
      ((registration.ownPairs verbose).filter (·.1 = key)).map (·.2) := by
  have huser : (registration.options.map fun option =>
      ("apOption", option.1 ++ "=" ++ option.2)).filter (·.1 = key) = [] := by
    rw [List.filter_eq_nil_iff]
    intro pair hm
    obtain ⟨option, -, rfl⟩ := List.mem_map.1 hm
    simpa using Ne.symm user
  rw [pluginOption_eq_values registration args verbose hoptions hkey, pluginPairs,
    List.filter_append, huser, List.append_nil]

/-- The values of the key for processor options are those options, each as one text. -/
theorem pluginOption_user (registration : Registration σ) (args : FrontendArguments)
    (verbose : Bool) (hoptions : args.pluginOptions = registration.pluginOptions verbose) :
    args.pluginOption kaptPluginId "apOption" =
      registration.options.map fun option => option.1 ++ "=" ++ option.2 := by
  have huser : (registration.options.map fun option =>
      ("apOption", option.1 ++ "=" ++ option.2)).filter (·.1 = "apOption") =
        registration.options.map fun option => ("apOption", option.1 ++ "=" ++ option.2) := by
    rw [List.filter_eq_self]
    intro pair hm
    obtain ⟨option, -, rfl⟩ := List.mem_map.1 hm
    rfl
  rw [pluginOption_eq_values registration args verbose hoptions (by decide),
    pluginPairs, List.filter_append, huser, List.map_append, List.map_map]
  rfl

/-- Processor options are read back exactly when no key of theirs has an equals sign. -/
theorem map_keyAndValue?_iff (options : Options) :
    (options.map fun option => keyAndValue? (option.1 ++ "=" ++ option.2)) = options.map some ↔
      ∀ option ∈ options, IsOptionKey option.1 := by
  rw [List.map_inj_left]
  exact forall₂_congr fun option _ => keyAndValue?_eq_some_iff option

/-! ## What comes back -/

/-- **Processor options are read back from the plugin options.**  Cut at their first equals signs,
    the values for processor options are the options in their order, exactly when no option's key has
    an equals sign; each directory is found alone.  So registrations with different options, none of
    whose keys has an equals sign, are never written alike. -/
theorem processorOptions_readBack (registration : Registration σ) (other : Registration τ)
    (verbose verbose' : Bool) (args : FrontendArguments)
    (hoptions : args.pluginOptions = registration.pluginOptions verbose) :
    ((args.pluginOption kaptPluginId "apOption").map keyAndValue? = registration.options.map some ↔
        ∀ option ∈ registration.options, IsOptionKey option.1) ∧
      args.pluginOption kaptPluginId "sources" = [registration.directories.generatedJava.text] ∧
      args.pluginOption kaptPluginId "classes" = [registration.directories.classes.text] ∧
      args.pluginOption kaptPluginId "stubs" = [registration.directories.stubs.text] ∧
      args.pluginOption kaptPluginId "incrementalData" =
        [registration.directories.incrementalData.text] ∧
      ((∀ option ∈ registration.options ++ other.options, IsOptionKey option.1) →
        registration.options ≠ other.options →
          registration.pluginOptions verbose ≠ other.pluginOptions verbose') := by
  have hdirectory : ∀ {key : String}, IsOptionKey key → key ≠ "apOption" → _ :=
    fun hkey user => registration.pluginOption_eq args verbose hoptions hkey user
  have huser := registration.pluginOption_user args verbose hoptions
  refine ⟨?_, ?_, ?_, ?_, ?_, ?_⟩
  · rw [huser, List.map_map]
    exact map_keyAndValue?_iff registration.options
  · rw [hdirectory (by decide) (by decide)]
    rfl
  · rw [hdirectory (by decide) (by decide)]
    rfl
  · rw [hdirectory (by decide) (by decide)]
    rfl
  · rw [hdirectory (by decide) (by decide)]
    rfl
  · intro hkeys hne halike
    -- Written alike, the two are read back as the same options.
    have hother := other.pluginOption_user args verbose' (hoptions.trans halike)
    rw [huser] at hother
    have hread := congrArg (List.map keyAndValue?) hother
    rw [List.map_map, List.map_map] at hread
    have hfirst := (map_keyAndValue?_iff registration.options).2 fun option hm =>
      hkeys option (List.mem_append_left _ hm)
    have hsecond := (map_keyAndValue?_iff other.options).2 fun option hm =>
      hkeys option (List.mem_append_right _ hm)
    have hsame : registration.options.map some = other.options.map some :=
      hfirst.symm.trans (hread.trans hsecond)
    exact hne (List.map_inj_right (fun _ _ => Option.some.inj) |>.1 hsame)

/-- The registration of a compile call without processors, with options given for them. -/
def withOptions (options : Options) : Registration Unit :=
  .ofResolution [] { (default : Resolution) with
    config := { kaptArgs := options }
    workspace := ⟨⟨"/ws"⟩⟩
    generatedKotlinDir := ⟨"/ws/kapt/kotlinGenerated"⟩ }

/-- Arguments with the plugin options of a registration and nothing else. -/
def plainArguments (registration : Registration σ) (verbose : Bool) : FrontendArguments where
  pluginOptions := registration.pluginOptions verbose

/-- A registration with one option of a key without equals sign. -/
def schemaAt (location : String) : Registration Unit :=
  withOptions [("room.schemaLocation", location)]

/-- An equals sign and the start of another option do no harm in a value. -/
theorem schemaAt_readBack :
    (∀ option ∈ (schemaAt "a=b").options ++ (schemaAt "plugin:c:stubs=").options,
        IsOptionKey option.1) ∧
      (schemaAt "a=b").options ≠ (schemaAt "plugin:c:stubs=").options ∧
      ((plainArguments (schemaAt "a=b") true).pluginOption kaptPluginId "apOption").map
          keyAndValue? =
        [some ("kapt.kotlin.generated", "/ws/kapt/kotlinGenerated"),
          some ("room.schemaLocation", "a=b")] ∧
      (schemaAt "a=b").pluginOptions true ≠ (schemaAt "plugin:c:stubs=").pluginOptions false := by
  have hkeys : ∀ option ∈ (schemaAt "a=b").options ++ (schemaAt "plugin:c:stubs=").options,
      IsOptionKey option.1 := by decide +kernel
  have hne : (schemaAt "a=b").options ≠ (schemaAt "plugin:c:stubs=").options := by decide +kernel
  obtain ⟨hread, -, -, -, -, hapart⟩ :=
    processorOptions_readBack (schemaAt "a=b") (schemaAt "plugin:c:stubs=") true false
      (plainArguments (schemaAt "a=b") true) rfl
  refine ⟨hkeys, hne, ?_, hapart hkeys hne⟩
  rw [hread.2 fun option hm => hkeys option (List.mem_append_left _ hm)]
  decide +kernel

/-- An equals sign in the key of an option is taken for the one behind a shorter key. -/
theorem equalsSign_moves :
    (withOptions [("a=b", "c")]).options ≠ (withOptions [("a", "b=c")]).options ∧
      (withOptions [("a=b", "c")]).pluginOptions false =
        (withOptions [("a", "b=c")]).pluginOptions false ∧
      ((plainArguments (withOptions [("a=b", "c")]) false).pluginOption kaptPluginId
          "apOption").map keyAndValue? =
        [some ("a", "b=c"), some ("kapt.kotlin.generated", "/ws/kapt/kotlinGenerated")] := by
  decide +kernel

end Registration

end KotlinHarness
