/-
  New files below a directory.

  Where no file stands in the way and the names are not too long, directories below one that is there
  are created (`makeDirectories_clear`), and a text is put at a new place (`deposit_new`).  What is
  there afterwards is told exactly: the file, directories at the names that lead to it, and
  everything else as it was (`Planted`).

    * `follow_clear`   a walk along names with no file in the way
    * `Dug`            new directories stand on the way only
-/
import KotlinHarness.Proofs.Files.Retracing

namespace KotlinHarness.Environment

variable {env middle after : Environment} {base : Path} {here location : Location}
  {children : Forest} {names init : List String} {name content : String}

/-! ## Names -/

/-- Names that a file system takes. -/
def Fits (names : List String) : Prop :=
  ∀ name ∈ names, IsFileName name ∧ name.utf8ByteSize ≤ maxNameOctets

instance (names : List String) : Decidable (Fits names) :=
  inferInstanceAs (Decidable (∀ name ∈ names, IsFileName name ∧ name.utf8ByteSize ≤ maxNameOctets))

theorem Fits.isFileName (h : Fits names) : ∀ name ∈ names, IsFileName name :=
  fun name hm => (h name hm).1

theorem Fits.left {more : List String} (h : Fits (names ++ more)) : Fits names :=
  fun name hm => h name (List.mem_append_left _ hm)

theorem Fits.of_cons (h : Fits (name :: names)) :
    IsFileName name ∧ name.utf8ByteSize ≤ maxNameOctets ∧ Fits names :=
  ⟨(h name List.mem_cons_self).1, (h name List.mem_cons_self).2,
    fun other hm => h other (List.mem_cons_of_mem _ hm)⟩

/-- One step down along such a name. -/
theorem follow_fits (hdirectory : env.look here = some .directory) (fits : Fits (name :: names)) :
    env.files.follow here (name :: names) =
      if env.look (here ++ [name]) = none then .error .notFound
      else env.files.follow (here ++ [name]) names := by
  obtain ⟨hname, hshort, -⟩ := fits.of_cons
  rw [FileTree.follow_cons hdirectory, if_neg (by simp [hname.isName.1]), if_neg hname.isName.2,
    if_neg (Nat.not_lt.2 hshort)]
  rfl

/-- Names lead to what stands below a directory. -/
theorem follow_there {node : Node} (fits : Fits names)
    (h : env.files.get? (here ++ names) = some node) :
    env.files.follow here names = .ok (here ++ names, node) := by
  induction names generalizing here with
  | nil =>
    rw [List.append_nil] at h
    rw [FileTree.follow_nil, h, List.append_nil]
  | cons name rest ih =>
    have hsplit : here ++ name :: rest = (here ++ [name]) ++ rest := by
      rw [List.append_assoc, List.singleton_append]
    have hthere : env.files.look (here ++ name :: rest) ≠ none := by
      rw [Ne, FileTree.look_eq_none_iff, h]
      simp
    have hdirectory : env.look here = some .directory :=
      FileTree.look_of_look_append (by simp) hthere
    rw [hsplit] at h hthere
    have hnext : env.look (here ++ [name]) ≠ none := FileTree.present_back hthere
    rw [follow_fits hdirectory fits, if_neg hnext, hsplit]
    exact ih fits.of_cons.2.2 h

/-- Names along which a walk succeeds are taken. -/
theorem fits_of_follow {found : Location × Node} (hnames : ∀ name ∈ names, IsFileName name)
    (h : env.files.follow here names = .ok found) : Fits names := by
  obtain ⟨location, node⟩ := found
  have walk := FileTree.walk_of_follow h
  clear h
  induction walk with
  | nil => exact fun _ hm => absurd hm List.not_mem_nil
  | cons _ step _ ih =>
    obtain ⟨hname, hrest⟩ := List.forall_mem_cons.1 hnames
    refine List.forall_mem_cons.2 ⟨⟨hname, ?_⟩, ih hrest⟩
    cases step with
    | stay idle => simp [hname.isName.1] at idle
    | up _ dots => exact absurd dots hname.isName.2
    | down _ short => exact short

/-! ## The length of paths -/

/-- A path below another one gets too long, or it has no fault. -/
theorem pathFault_extend (fine : pathFault? base = none) (hslash : base.endsWithSlash = false)
    (hnames : ∀ name ∈ names, IsFileName name) (hnul : ∀ name ∈ names, Char.ofNat 0 ∉ name.toList) :
    pathFault? (base.extend names) =
      if maxPathOctets < base.text.utf8ByteSize + (names.map (·.utf8ByteSize + 1)).sum
      then some .nameTooLong else none := by
  have hentries : ∀ name ∈ names, Path.IsEntry name := fun name hm => (hnames name hm).entry
  have nonempty := nonempty_of_pathFault fine
  have hplain : ¬ (base.extend names).text.toList.contains (Char.ofNat 0) = true := by
    rw [List.contains_iff_mem]
    intro h
    rcases Path.mem_extend hentries h with h | h | ⟨name, hm, h⟩
    · rw [pathFault?, if_pos (List.contains_iff_mem.2 h)] at fine
      cases fine
    · revert h
      decide
    · exact hnul name hm h
  rw [pathFault?, if_neg hplain, Path.isEmpty_extend nonempty hentries, if_neg (by simp),
    Path.size_extend nonempty hslash hentries]

/-! ## Ways that are clear -/

/-- No file stands on the way down to a place, nor at it. -/
def Clear (env : Environment) (here : Location) (names : List String) : Prop :=
  ∀ above, above <+: names → ∀ data, env.look (here ++ above) ≠ some (.file data)

theorem Clear.left {more : List String} (h : env.Clear here (names ++ more)) :
    env.Clear here names :=
  fun above honway => h above (honway.trans (List.prefix_append _ _))

theorem Clear.next (h : env.Clear here (name :: names)) : env.Clear (here ++ [name]) names := by
  intro above honway
  have hlonger : name :: above <+: name :: names := (List.prefix_cons_inj name).2 honway
  rw [List.append_assoc, List.singleton_append]
  exact h _ hlonger

/-- A walk along a clear way ends in a directory, or where something is missing. -/
theorem follow_clear (hdirectory : env.look here = some .directory) (fits : Fits names)
    (clear : env.Clear here names) :
    env.files.follow here names = .error .notFound ∨
      ∃ children, env.files.follow here names = .ok (here ++ names, .directory children) := by
  induction names generalizing here with
  | nil =>
    obtain ⟨children, hget⟩ := FileTree.look_directory_iff.1 hdirectory
    exact .inr ⟨children, by rw [FileTree.follow_nil, hget, List.append_nil]⟩
  | cons name rest ih =>
    rw [follow_fits hdirectory fits]
    split
    · exact .inl rfl
    · next hthere =>
      have hnext : env.look (here ++ [name]) = some .directory := by
        rcases hlook : env.look (here ++ [name]) with - | (data | _)
        · exact absurd hlook hthere
        · exact absurd hlook (clear [name] (List.prefix_append [name] rest) data)
        · rfl
      have hrest := ih hnext fits.of_cons.2.2 clear.next
      rwa [List.append_assoc, List.singleton_append] at hrest

/-- Creating directories adds no file, so a way that is clear stays so. -/
theorem Clear.grows (h : env.Clear here names) (grows : Grows (fun _ _ => False) env after) :
    after.Clear here names :=
  fun above honway data hfile =>
    h above honway data ((grows.changed hfile).resolve_right id)

/-- **Directories** are created where the way is clear. -/
theorem makeDirectories_clear (hbase : env.locate base = .ok (here, .directory children))
    (fits : Fits names) (fine : pathFault? (base.extend names) = none)
    (clear : env.Clear here names) :
    ∃ after, makeDirectories (base.extend names) env = .ok () after := by
  have hdirectory : env.isDirectory base = true := isDirectory_iff.2 ⟨here, children, hbase⟩
  rcases List.eq_nil_or_concat names with rfl | ⟨init, name, rfl⟩
  · exact ⟨env, makeDirectories_of_isDirectory hdirectory⟩
  · rw [List.concat_eq_append] at fits fine clear ⊢
    rcases hmade : makeDirectories (base.extend (init ++ [name])) env with ⟨⟨⟩, after⟩ | ⟨cause, after⟩
    · exact ⟨after, rfl⟩
    · -- There would have to be an obstacle, and there is none.
      have hgrows := (keeps_makeDirectories (fun _ _ => False) (base.extend (init ++ [name]))).of_error hmade
      have hstuck : Stuck (base.extend (init ++ [name])) cause after :=
        makeDirectoriesUpTo_extend hdirectory fits.isFileName _ (depth_extend _ fits.isFileName) hmade
      obtain ⟨children', hafter⟩ := hgrows.locate_directory hbase
      have hhere : after.look here = some .directory :=
        FileTree.look_directory_iff.2 ⟨_, get?_of_locate hafter⟩
      have hclear := clear.grows hgrows
      have hwalk := follow_clear hhere fits.left hclear.left
      cases (stuck_iff hafter fits.isFileName fine).1 hstuck with
      | walk there h =>
        rcases hwalk with hmissing | ⟨inner, hfound⟩
        · rw [hmissing] at h
          cases h
          exact absurd rfl there
        · rw [hfound] at h
          cases h
      | above h =>
        rcases hwalk with hmissing | ⟨inner, hfound⟩
        · rw [hmissing] at h
          cases h
        · rw [hfound] at h
          cases h
      | long _ hlong =>
        have hshort := (fits name (List.mem_append_right _ List.mem_cons_self)).2
        omega
      | @file middle inner data h _ there =>
        obtain rfl : middle = here ++ init := FileTree.location_of_follow
          (fun other hm => (fits.left.isFileName other hm).isName) h
        rw [List.append_assoc] at there
        exact absurd there (hclear _ (List.prefix_refl _) data)

/-! ## What is new -/

/-- Only directories on the way down to a place are new. -/
def Dug (here : Location) (names : List String) (old new : Environment) : Prop :=
  ∀ location, new.look location = old.look location ∨
    new.look location = some .directory ∧ ∃ above, above <+: names ∧ location = here ++ above

theorem Dug.refl (env : Environment) : Dug here names env env := fun _ => .inl rfl

theorem Dug.trans (h : Dug here names env middle) (h' : Dug here names middle after) :
    Dug here names env after := by
  intro location
  rcases h' location with hsame | hnew
  · rw [hsame]
    exact h location
  · exact .inr hnew

theorem Dug.mono {more : List String} (h : Dug here names env after) :
    Dug here (names ++ more) env after := by
  intro location
  refine (h location).imp id ?_
  rintro ⟨hdirectory, above, honway, hlocation⟩
  exact ⟨hdirectory, above, honway.trans (List.prefix_append _ _), hlocation⟩

theorem dug_makeDirectory (hbase : env.locate base = .ok (here, .directory children))
    (hnames : ∀ name ∈ names, IsFileName name) :
    Dug here names env (finalState (makeDirectory (base.extend names) env)) := by
  rcases List.eq_nil_or_concat names with rfl | ⟨init, name, rfl⟩
  · rw [show base.extend [] = base from rfl, makeDirectory_of_leads hbase]
    exact .refl env
  · rw [List.concat_eq_append] at hnames ⊢
    rcases fine : pathFault? (base.extend (init ++ [name])) with - | fault
    · rw [makeDirectory_extend hbase hnames fine]
      rcases hwalk : env.files.follow here init with cause | ⟨middle, data | inner⟩
      · exact .refl env
      · exact .refl env
      · obtain rfl : middle = here ++ init := FileTree.location_of_follow
          (fun other hm => (hnames other (List.mem_append_left _ hm)).isName) hwalk
        simp only
        split
        · exact .refl env
        · split
          · next hmissing =>
            have hparent : env.look (here ++ init) = some .directory :=
              FileTree.look_directory_iff.2 ⟨inner, FileTree.get?_of_follow hwalk⟩
            have hfree : env.look (here ++ init ++ [name]) ≠ some .directory := by
              rw [hmissing]
              simp
            intro location
            rw [finalState, look_put .directory hparent hfree]
            split
            · next heq =>
              rw [List.append_assoc] at heq
              exact .inr ⟨rfl, _, List.prefix_refl _, heq⟩
            · exact .inl rfl
          · exact .refl env
    · rw [(makeDirectory_fault fine).1]
      exact .refl env

theorem dug_attempt {result : EStateM.Result IoError Environment Unit}
    (hbase : env.locate base = .ok (here, .directory children))
    (hnames : ∀ name ∈ names, IsFileName name) (h : Attempt (base.extend names) env result) :
    Dug here names env (finalState result) := by
  cases h with
  | made h =>
    have hdug := dug_makeDirectory hbase hnames
    rwa [h] at hdug
  | there | failed => exact .refl env

theorem dug_makeDirectoriesUpTo (hbase : env.locate base = .ok (here, .directory children))
    (hnames : ∀ name ∈ names, IsFileName name) (depth : Nat) :
    Dug here names env (finalState (makeDirectoriesUpTo depth (base.extend names) env)) := by
  induction depth generalizing names with
  | zero => exact .refl env
  | succ depth ih =>
    generalize hresult : makeDirectoriesUpTo (depth + 1) (base.extend names) env = result
    have hclimb := hresult ▸ climb_makeDirectoriesUpTo depth (base.extend names) env
    -- Something above is missing only below `base`, and what was created there is above `names`.
    have above : ∀ {parent}, makeDirectory (base.extend names) env = .error .notFound env →
        (base.extend names).parent? = some parent →
        Dug here names env (finalState (makeDirectoriesUpTo depth parent env)) := by
      intro parent hmissing hup
      obtain ⟨before, last, name, rfl, hparent⟩ := parent?_of_notFound hbase hnames hmissing
      obtain rfl := Option.some.inj (hparent.symm.trans hup)
      exact (ih fun other hm => hnames other (List.mem_append_left _ hm)).mono
    cases hclimb with
    | unnamed | noParent => exact .refl env
    | directly _ _ h => exact dug_attempt hbase hnames h
    | parentFailed missing hup h =>
      have hdug := above missing hup
      rwa [h] at hdug
    | belowParent _ missing hup hparent h =>
      have hdug := above missing hup
      rw [hparent] at hdug
      have hgrows : Grows (fun _ _ => False) env _ :=
        (keeps_makeDirectoriesUpTo _ depth _).of_ok hparent
      obtain ⟨children', hmiddle⟩ := hgrows.locate_directory hbase
      exact Dug.trans hdug (dug_attempt hmiddle hnames h)

/-! ## A new file -/

/-- A file was put at a new place, and nothing else happened but that directories were created on the
    way to it. -/
structure Planted (here : Location) (names : List String) (content : String)
    (old new : Environment) : Prop where
  file : new.look (here ++ names) = some (.file ⟨Text.encode content, .plain⟩)
  others : ∀ location, (∀ above, above <+: names → location ≠ here ++ above) →
    new.look location = old.look location
  grows : Grows (fun location _ => location = here ++ names) old new

/-- The directories above the new file. -/
theorem Planted.directory (h : Planted here names content env after) {above : List String}
    (honway : above <+: names) (hne : above ≠ names) :
    after.look (here ++ above) = some .directory := by
  obtain ⟨below, rfl⟩ := honway
  have hbelow : below ≠ [] := fun hnil => hne (by rw [hnil, List.append_nil])
  have hfile := h.file
  rw [← List.append_assoc] at hfile
  exact FileTree.look_of_look_append hbelow (by
    rw [show after.files.look (here ++ above ++ below) = _ from hfile]
    simp)

/-- The directories above a new place can be created. -/
theorem makeAbove_clear (hbase : env.locate base = .ok (here, .directory children))
    (fits : Fits (init ++ [name])) (fine : pathFault? (base.extend (init ++ [name])) = none)
    (clear : env.Clear here init) :
    ∃ middle, makeAbove (base.extend (init ++ [name])) env = .ok () middle ∧
      Dug here init env middle := by
  have hdirectory : env.isDirectory base = true := isDirectory_iff.2 ⟨here, children, hbase⟩
  have hname := fits.isFileName name (List.mem_append_right _ List.mem_cons_self)
  rcases List.eq_nil_or_concat init with rfl | ⟨before, last, rfl⟩
  · obtain ⟨parent, hparent, hthere⟩ := parent_of_div hdirectory hname
    refine ⟨env, ?_, .refl env⟩
    rw [makeAbove, Path.extend_concat base [] name, show base.extend [] = base from rfl, hparent]
    exact hthere.elim makeDirectories_of_isEmpty makeDirectories_of_isDirectory
  · rw [List.concat_eq_append] at fits fine clear ⊢
    have hinit := fits.left
    have hlast := hinit.isFileName last (List.mem_append_right _ List.mem_cons_self)
    have hfine : pathFault? (base.extend (before ++ [last])) = none := by
      rw [Path.extend_concat] at fine
      exact pathFault_of_div (isEmpty_extend hinit.isFileName) hname.entry.segment fine
    obtain ⟨middle, hmade⟩ := makeDirectories_clear hbase hinit hfine clear
    refine ⟨middle, ?_, ?_⟩
    · rw [makeAbove, parent?_extend hlast hname]
      exact hmade
    · have hdug := dug_makeDirectoriesUpTo hbase hinit.isFileName
        ((base.extend (before ++ [last])).components.length + 1)
      rw [show makeDirectoriesUpTo _ (base.extend (before ++ [last])) env = _ from hmade] at hdug
      exact hdug

/-- New directories on the way leave the place at its end free. -/
theorem Dug.free (h : Dug here init env middle) (free : env.look (here ++ (init ++ [name])) = none) :
    middle.look (here ++ init ++ [name]) = none := by
  rw [← List.append_assoc] at free
  rcases h (here ++ init ++ [name]) with hsame | ⟨-, above, honway, heq⟩
  · rw [hsame, free]
  · rw [List.append_assoc] at heq
    have hlength := honway.length_le
    rw [← List.append_cancel_left heq, List.length_append, List.length_singleton] at hlength
    omega

/-- Where the way is clear, there is no file that could hold a text already. -/
theorem holds_clear (hbase : env.locate base = .ok (here, .directory children)) (fits : Fits names)
    (fine : pathFault? (base.extend names) = none) (clear : env.Clear here names) (content : String) :
    env.holds (base.extend names) content = false := by
  have hhere : env.look here = some .directory :=
    FileTree.look_directory_iff.2 ⟨_, get?_of_locate hbase⟩
  rw [holds, readText, read, locate_extend hbase fits.isFileName fine]
  rcases follow_clear hhere fits clear with hmissing | ⟨inner, hfound⟩
  · rw [hmissing]
  · rw [hfound]

/-- Names lead to the directory above a new place once it was created. -/
theorem follow_above (hbase : env.locate base = .ok (here, .directory children))
    (hnames : ∀ other ∈ init ++ [name], IsFileName other)
    (hmade : makeAbove (base.extend (init ++ [name])) env = .ok () middle) :
    Grows (fun _ _ => False) env middle ∧
      ∃ inner, middle.files.follow here init = .ok (here ++ init, .directory inner) := by
  have hinit : ∀ other ∈ init, IsFileName other :=
    fun other hm => hnames other (List.mem_append_left _ hm)
  have habove := makeAbove_below (isDirectory_iff.2 ⟨here, children, hbase⟩) hnames
  have hgrows : Grows (fun _ _ => False) env middle := by
    have hgrows := habove.grows
    rwa [hmade] at hgrows
  obtain ⟨children', hmiddle⟩ := hgrows.locate_directory hbase
  obtain ⟨place, inner, hlocate⟩ := isDirectory_iff.1 (habove.made hmade (.refl middle)).1
  rw [locate_extend hmiddle hinit (follow_of_locate hlocate).1] at hlocate
  obtain rfl : place = here ++ init :=
    FileTree.location_of_follow (fun other hm => (hinit other hm).isName) hlocate
  exact ⟨hgrows, inner, hlocate⟩

/-- **A new file**: a text is put at a new place below a directory. -/
theorem deposit_new (hbase : env.locate base = .ok (here, .directory children))
    (fits : Fits (init ++ [name])) (fine : pathFault? (base.extend (init ++ [name])) = none)
    (clear : env.Clear here (init ++ [name])) (free : env.look (here ++ (init ++ [name])) = none)
    (overwrite : Overwrite) (content : String) :
    ∃ after, deposit overwrite (base.extend (init ++ [name])) content env = .ok .written after ∧
      Planted here (init ++ [name]) content env after := by
  have hdirectory : env.isDirectory base = true := isDirectory_iff.2 ⟨here, children, hbase⟩
  have hholds := holds_clear hbase fits fine clear content
  -- The file goes into a directory that is there by then.
  obtain ⟨middle, hmade, hdug⟩ := makeAbove_clear hbase fits fine clear.left
  obtain ⟨hgrows, inner, hwalk⟩ := follow_above hbase fits.isFileName hmade
  obtain ⟨children', hmiddle⟩ := hgrows.locate_directory hbase
  have hparent : middle.look (here ++ init) = some .directory :=
    FileTree.look_directory_iff.2 ⟨inner, FileTree.get?_of_follow hwalk⟩
  have hfree := hdug.free free
  have hwrite : Environment.write (base.extend (init ++ [name])) (Text.encode content) middle =
      .ok () (middle.put (here ++ init ++ [name]) (.file ⟨Text.encode content, .plain⟩)) := by
    have hshort := (fits name (List.mem_append_right _ List.mem_cons_self)).2
    rw [write_extend hmiddle fits.isFileName fine, hwalk]
    simp only
    rw [if_neg (Nat.not_lt.2 hshort), hfree]
  have hnew : middle.look (here ++ init ++ [name]) ≠ some .directory := by
    rw [hfree]
    simp
  have hput := look_put (.file ⟨Text.encode content, .plain⟩) hparent hnew
  refine ⟨middle.put (here ++ init ++ [name]) (.file ⟨Text.encode content, .plain⟩), ?_, ?_, ?_, ?_⟩
  · obtain ⟨parent, hparent⟩ := parent?_below hdirectory fits.isFileName
    rw [deposit, hholds, if_neg (by simp), bind_eq, writeText_made hparent hmade, during_eq, hwrite]
    rfl
  · rw [← List.append_assoc, hput, if_pos rfl]
  · intro location hother
    rw [hput, if_neg]
    · refine (hdug location).resolve_right ?_
      rintro ⟨-, above, honway, heq⟩
      exact hother above (honway.trans (List.prefix_append _ _)) heq
    · rw [List.append_assoc]
      exact hother _ (List.prefix_refl _)
  · exact (hgrows.mono fun _ _ => False.elim).trans
      (grows_putFile hparent hnew (List.append_assoc here init [name]))

end KotlinHarness.Environment
