/-
  Staging the same units twice.

  A unit may be staged at the file of another one: two units can have one path, or paths that are
  spelled differently and lead to one file.  The later one wins then, so what can be said of the
  files of a list of units is what the last unit at each file makes of it (`stageAll_content`).

  `Lodged` is what staging establishes unit by unit.  Staging the same units again starts from there
  and only rewrites files for which there are units of different contents (`Kept`); at its end each
  of them holds what it held before, so that the whole run changes nothing.

    * `stageAll_again`   what the files hold after staging, and what staging again does
-/
import KotlinHarness.Proofs.Files.Rewriting
import KotlinHarness.Proofs.Workspace.Prepared

namespace KotlinHarness

namespace Environment

variable {env after : Environment}

theorem environmentDuring_ok {α : Type} {undertaking : Undertaking} {action : EnvironmentAction α}
    {value : α} (h : action.during undertaking env = .ok value after) :
    action env = .ok value after := by
  rw [EnvironmentAction.during] at h
  split at h
  · next heq => exact heq.trans h
  · cases h

end Environment

namespace SourceUnit

variable {root : Path} {unit : SourceUnit} {units done : List SourceUnit}
  {staged : List StagedSource} {source : StagedSource} {env middle after : Environment}
  {location : Location} {data : FileData}

/-- Where a unit is staged. -/
def LeadsTo (env : Environment) (root : Path) (unit : SourceUnit) (location : Location) : Prop :=
  env.LeadsTo (root.join unit.path) location

/-- Two units are staged at one file. -/
def ShareFile (env : Environment) (root : Path) (unit other : SourceUnit) : Prop :=
  ∃ location, unit.LeadsTo env root location ∧ other.LeadsTo env root location

/-- Units that are staged at the same file as `unit` have its content. -/
def Unrivalled (env : Environment) (root : Path) (units : List SourceUnit) (unit : SourceUnit) :
    Prop :=
  ∀ other ∈ units, unit.ShareFile env root other → other.content = unit.content

/-! ## What a file holds in the end -/

/-- What staging a unit does. -/
theorem stage_file (h : unit.stage root env = .ok source after) :
    ∃ location data, after.locate (root.join unit.path) = .ok (location, .file data) ∧
      data.bytes = Text.encode unit.content ∧
      Environment.Grows (fun other _ => other = location) env after ∧
      (after = env ∨ data.mode.overwritten = data.mode) := by
  rw [stage] at h
  obtain ⟨done, middle, hdeposit, hsource⟩ := of_bind_ok h
  cases hsource
  exact Environment.deposit_file (Environment.environmentDuring_ok hdeposit)

theorem stage_grows (h : unit.stage root env = .ok source after) :
    Environment.Grows (fun _ _ => True) env after := by
  obtain ⟨_, _, _, _, hgrows, _⟩ := stage_file h
  exact hgrows.mono fun _ _ _ => trivial

theorem stageAll_cons (h : stageAll root (unit :: units) env = .ok staged after) :
    ∃ source others middle, staged = source :: others ∧ unit.stage root env = .ok source middle ∧
      stageAll root units middle = .ok others after := by
  rw [stageAll] at h
  obtain ⟨source, middle, hstage, h⟩ := of_bind_ok h
  obtain ⟨others, last, hothers, hstaged⟩ := of_bind_ok h
  cases hstaged
  exact ⟨source, others, middle, rfl, hstage, hothers⟩

theorem stageAll_grows (h : stageAll root units env = .ok staged after) :
    Environment.Grows (fun _ _ => True) env after := by
  induction units generalizing staged env with
  | nil =>
    cases h
    exact .refl _
  | cons unit rest ih =>
    obtain ⟨_, _, _, -, hstage, hothers⟩ := stageAll_cons h
    exact (stage_grows hstage).trans (ih hothers)

/-- A file keeps its text when only units of that content are staged at it. -/
theorem stageAll_keeps {content : String} (h : stageAll root units env = .ok staged after)
    (hfile : env.look location = some (.file data)) (hbytes : data.bytes = Text.encode content)
    (same : ∀ unit ∈ units, unit.LeadsTo after root location → unit.content = content) :
    ∃ data, after.look location = some (.file data) ∧ data.bytes = Text.encode content := by
  induction units generalizing staged env data with
  | nil =>
    cases h
    exact ⟨data, hfile, hbytes⟩
  | cons unit rest ih =>
    obtain ⟨_, others, middle, -, hstage, hothers⟩ := stageAll_cons h
    have hrest : ∀ unit ∈ rest, unit.LeadsTo after root location → unit.content = content :=
      fun other hm => same other (List.mem_cons_of_mem _ hm)
    obtain ⟨there, written, hlocate, hwritten, hgrows, -⟩ := stage_file hstage
    obtain ⟨hleads, hlook⟩ := Environment.locate_file_iff.1 hlocate
    by_cases hthere : location = there
    · subst hthere
      have hcontent := same unit List.mem_cons_self ((stageAll_grows hothers).leadsTo hleads)
      exact ih hothers hlook (hwritten.trans (by rw [hcontent])) hrest
    · exact ih hothers (hgrows.kept (fun _ => hthere) hfile) hbytes hrest

/-- **Contents**: after staging, a file holds the content of a unit that is staged at it, unless a
    later unit with another content is staged there, too. -/
theorem stageAll_content {before rest : List SourceUnit}
    (h : stageAll root (before ++ unit :: rest) env = .ok staged after)
    (last : Unrivalled after root rest unit) :
    ∃ location data, after.locate (root.join unit.path) = .ok (location, .file data) ∧
      data.bytes = Text.encode unit.content := by
  induction before generalizing staged env with
  | nil =>
    obtain ⟨_, others, middle, -, hstage, hothers⟩ := stageAll_cons h
    obtain ⟨location, data, hlocate, hbytes, -, -⟩ := stage_file hstage
    obtain ⟨hleads, hlook⟩ := Environment.locate_file_iff.1 hlocate
    have hafter := (stageAll_grows hothers).leadsTo hleads
    obtain ⟨data', hlook', hbytes'⟩ := stageAll_keeps hothers hlook hbytes
      fun other hm hother => last other hm ⟨location, hafter, hother⟩
    exact ⟨location, data', Environment.locate_file_iff.2 ⟨hafter, hlook'⟩, hbytes'⟩
  | cons first others ih =>
    obtain ⟨_, _, middle, -, -, hothers⟩ := stageAll_cons h
    exact ih hothers

/-! ## What staging leaves -/

/-- What holds once units were staged, whatever was staged in between. -/
structure Lodged (root : Path) (done : List SourceUnit) (env : Environment) : Prop where
  /-- Every unit has its file, which holds the content of one of the units staged at it. -/
  held : ∀ unit ∈ done, ∃ location data, env.locate (root.join unit.path) =
    .ok (location, .file data) ∧ ∃ other ∈ done, other.LeadsTo env root location ∧
      data.bytes = Text.encode other.content
  /-- A file that was not overwritten holds the content of every unit staged at it. -/
  agreed : ∀ {location data}, env.look location = some (.file data) →
    data.mode.overwritten = data.mode ∨
      ∀ unit ∈ done, unit.LeadsTo env root location → data.bytes = Text.encode unit.content

theorem lodged_nil (root : Path) (env : Environment) : Lodged root [] env :=
  ⟨fun _ hm => absurd hm List.not_mem_nil, fun _ => .inr fun _ hm => absurd hm List.not_mem_nil⟩

/-- Staging one more unit. -/
theorem Lodged.stage (lodged : Lodged root done env) (h : unit.stage root env = .ok source after) :
    Lodged root (done ++ [unit]) after := by
  obtain ⟨there, written, hlocate, hwritten, hgrows, hmode⟩ := stage_file h
  obtain ⟨hleads, hlook⟩ := Environment.locate_file_iff.1 hlocate
  -- Units that were staged before lead where they led.
  have back : ∀ {other : SourceUnit} {location : Location}, other ∈ done →
      other.LeadsTo after root location → other.LeadsTo env root location := by
    intro other location hm hother
    obtain ⟨before, _, hbefore, -⟩ := lodged.held other hm
    have hold : env.LeadsTo (root.join other.path) before := ⟨_, hbefore⟩
    obtain rfl := (hgrows.leadsTo hold).unique hother
    exact hold
  constructor
  · intro other hm
    rcases List.mem_append.1 hm with hm | hm
    · obtain ⟨location, data, hbefore, holder, hholder, hholds, hbytes⟩ := lodged.held other hm
      obtain ⟨data', hnew, hdata⟩ := hgrows.locate_file hbefore
      refine ⟨location, data', hnew, ?_⟩
      rcases hdata with rfl | rfl
      · exact ⟨holder, List.mem_append_left _ hholder, hgrows.leadsTo hholds, hbytes⟩
      · -- The file is the one of the unit.
        have hnow := (Environment.locate_file_iff.1 hnew).2
        rw [hlook] at hnow
        cases hnow
        exact ⟨unit, List.mem_append_right _ List.mem_cons_self, hleads, hwritten⟩
    · rw [List.mem_singleton.1 hm]
      exact ⟨there, written, hlocate, unit, List.mem_append_right _ List.mem_cons_self, hleads,
        hwritten⟩
  · intro location data hfile
    by_cases hthere : location = there
    · subst hthere
      rw [hlook] at hfile
      cases hfile
      rcases hmode with rfl | hmode
      · -- The file was left alone.
        refine (lodged.agreed hlook).imp id fun hall other hm hother => ?_
        rcases List.mem_append.1 hm with hm | hm
        · exact hall other hm hother
        · rw [List.mem_singleton.1 hm]
          exact hwritten
      · exact .inl hmode
    · have hsame := (hgrows.changed hfile).resolve_right hthere
      refine (lodged.agreed hsame).imp id fun hall other hm hother => ?_
      rcases List.mem_append.1 hm with hm | hm
      · exact hall other hm (back hm hother)
      · rw [List.mem_singleton.1 hm] at hother
        exact absurd (hother.unique hleads) hthere

theorem Lodged.stageAll (lodged : Lodged root done env)
    (h : stageAll root units env = .ok staged after) : Lodged root (done ++ units) after := by
  induction units generalizing staged env done with
  | nil =>
    cases h
    rwa [List.append_nil]
  | cons unit rest ih =>
    obtain ⟨_, _, middle, -, hstage, hothers⟩ := stageAll_cons h
    have hrest := ih (lodged.stage hstage) hothers
    rwa [List.append_assoc, List.singleton_append] at hrest

/-! ## Staging again -/

/-- What may be different while units are staged once more: files at which units of different
    contents are staged. -/
structure Kept (root : Path) (units : List SourceUnit) (old new : Environment) : Prop where
  rest : new = { old with files := new.files }
  files : ∀ location, new.look location = old.look location ∨
    ∃ data bytes, old.look location = some (.file data) ∧
      new.look location = some (.file ⟨bytes, data.mode⟩) ∧ data.mode.overwritten = data.mode ∧
      ∃ unit ∈ units, ∃ other ∈ units, unit.LeadsTo old root location ∧
        other.LeadsTo old root location ∧ other.content ≠ unit.content

theorem Kept.refl (root : Path) (units : List SourceUnit) (env : Environment) :
    Kept root units env env :=
  ⟨rfl, fun _ => .inl rfl⟩

theorem Kept.grows {old new : Environment} (kept : Kept root units old new) :
    Environment.Grows (fun _ _ => True) old new := by
  refine ⟨?_, ?_, ?_, fun _ => .inr trivial⟩
  · rw [kept.rest]
  · intro location hold
    rcases kept.files location with hsame | ⟨data, _, hfile, -⟩
    · rw [hsame, hold]
    · rw [hold] at hfile
      cases hfile
  · intro location data hold
    rcases kept.files location with hsame | ⟨_, bytes, -, hnew, -⟩
    · exact ⟨data, by rw [hsame, hold]⟩
    · exact ⟨_, hnew⟩

/-- Staging one of the units again. -/
theorem Kept.stage {old new : Environment} (kept : Kept root units old new)
    (lodged : Lodged root units old) (hm : unit ∈ units) :
    ∃ source again, unit.stage root new = .ok source again ∧ Kept root units old again ∧
      (Unrivalled old root units unit → source.deposit = .unchanged) := by
  obtain ⟨location, data, hlocate, holder, hholder, hholds, hbytes⟩ := lodged.held unit hm
  obtain ⟨hleads, hfile⟩ := Environment.locate_file_iff.1 hlocate
  -- A unit without rivals finds its text, as nothing else was written there.
  have finds : Unrivalled old root units unit → new.look location = some (.file data) ∧
      data.bytes = Text.encode unit.content := by
    intro unrivalled
    refine ⟨?_, ?_⟩
    · rcases kept.files location with hsame | ⟨_, _, -, -, -, first, hfirst, second, hsecond,
        hleads₁, hleads₂, hne⟩
      · rw [hsame, hfile]
      · refine absurd ?_ hne
        rw [unrivalled first hfirst ⟨location, hleads, hleads₁⟩,
          unrivalled second hsecond ⟨location, hleads, hleads₂⟩]
    · rw [hbytes, unrivalled holder hholder ⟨location, hleads, hholds⟩]
  obtain ⟨present, hpresent⟩ := kept.grows.files hfile
  have hthere : new.locate (root.join unit.path) = .ok (location, .file present) :=
    Environment.locate_file_iff.2 ⟨kept.grows.leadsTo hleads, hpresent⟩
  rw [SourceUnit.stage, bind_eq, EnvironmentAction.during, Environment.deposit_at_file hthere]
  by_cases hheld : present.bytes = Text.encode unit.content
  · rw [if_pos ⟨rfl, hheld⟩]
    exact ⟨_, new, rfl, kept, fun _ => rfl⟩
  · rw [if_neg fun hboth => hheld hboth.2]
    refine ⟨_, _, rfl, ⟨by rw [kept.rest]; rfl, ?_⟩, ?_⟩
    · intro other
      rw [Environment.look_put_file hpresent]
      split
      · next heq =>
        subst heq
        right
        rcases kept.files other with hsame | ⟨before, bytes, hbefore, hnew, hmode, rivals⟩
        · -- The file held the content of another unit, so it had been overwritten.
          rw [hsame, hfile] at hpresent
          cases hpresent
          have hmode : data.mode.overwritten = data.mode :=
            (lodged.agreed hfile).resolve_right fun hall => hheld (hall unit hm hleads)
          refine ⟨data, _, hfile, by rw [hmode], hmode, unit, hm, holder, hholder, hleads, hholds, ?_⟩
          intro hcontent
          rw [hcontent] at hbytes
          exact hheld hbytes
        · rw [hnew] at hpresent
          cases hpresent
          rw [hfile] at hbefore
          cases hbefore
          exact ⟨data, _, hfile, by rw [hmode], hmode, rivals⟩
      · exact kept.files other
    · intro unrivalled
      obtain ⟨hnew, hcontent⟩ := finds unrivalled
      rw [hnew] at hpresent
      cases hpresent
      exact absurd hcontent hheld

theorem Kept.stageAll {old new : Environment} {rest : List SourceUnit}
    (kept : Kept root units old new) (lodged : Lodged root units old)
    (sub : ∀ unit ∈ rest, unit ∈ units) :
    ∃ again last, stageAll root rest new = .ok again last ∧ Kept root units old last ∧
      again.length = rest.length ∧
      ∀ unit source, (unit, source) ∈ rest.zip again → Unrivalled old root units unit →
        source.deposit = .unchanged := by
  induction rest generalizing new with
  | nil => exact ⟨[], new, rfl, kept, rfl, fun _ _ hm => absurd hm List.not_mem_nil⟩
  | cons unit rest ih =>
    obtain ⟨source, middle, hstage, hmiddle, hunchanged⟩ :=
      kept.stage lodged (sub unit List.mem_cons_self)
    obtain ⟨others, last, hothers, hlast, hlength, hall⟩ :=
      ih hmiddle fun other hm => sub other (List.mem_cons_of_mem _ hm)
    refine ⟨source :: others, last, ?_, hlast, by simp [hlength], ?_⟩
    · rw [SourceUnit.stageAll, bind_eq, hstage]
      simp only
      rw [bind_eq, hothers]
      rfl
    · intro other result hm
      rw [List.zip_cons_cons] at hm
      rcases List.mem_cons.1 hm with heq | hm
      · cases heq
        exact hunchanged
      · exact hall other result hm

/-- The last member of a list with a property. -/
theorem exists_last {α : Type} (holds : α → Prop) {items : List α}
    (h : ∃ item ∈ items, holds item) :
    ∃ before item rest, items = before ++ item :: rest ∧ holds item ∧
      ∀ other ∈ rest, ¬ holds other := by
  induction items with
  | nil =>
    obtain ⟨_, hm, -⟩ := h
    exact absurd hm List.not_mem_nil
  | cons first rest ih =>
    by_cases hrest : ∃ item ∈ rest, holds item
    · obtain ⟨before, item, after, rfl, hitem, hafter⟩ := ih hrest
      exact ⟨first :: before, item, after, rfl, hitem, hafter⟩
    · obtain ⟨item, hm, hitem⟩ := h
      have hnone : ∀ other ∈ rest, ¬ holds other := fun other hm hother => hrest ⟨other, hm, hother⟩
      rcases List.mem_cons.1 hm with rfl | hm
      · exact ⟨[], item, rest, rfl, hitem, hnone⟩
      · exact absurd hitem (hnone item hm)

/-- Where units were staged twice, the files hold what they held before. -/
theorem Kept.eq_of_stageAll {old new : Environment} {again : List StagedSource}
    (kept : Kept root units old new) (lodged : Lodged root units old)
    (first : SourceUnit.stageAll root units env = .ok staged old)
    (second : SourceUnit.stageAll root units old = .ok again new) : new = old := by
  refine Environment.ext_of_look kept.rest fun location => ?_
  rcases kept.files location with hsame | ⟨data, bytes, hold, hnew, -, unit, hunit, _, -, hleads, -, -⟩
  · exact hsame
  · -- The last unit staged at the file decides both times what it holds.
    obtain ⟨before, last, rest, rfl, hlast, hlater⟩ :=
      exists_last (fun unit => unit.LeadsTo old root location) ⟨unit, hunit, hleads⟩
    have alone : ∀ {env : Environment}, Environment.Grows (fun _ _ => True) old env →
        Unrivalled env root rest last := by
      intro env hgrows other hm hshare
      obtain ⟨shared, hlast', hother⟩ := hshare
      obtain ⟨place, _, hplace, -⟩ :=
        lodged.held other (List.mem_append_right _ (List.mem_cons_of_mem _ hm))
      have hplaced : other.LeadsTo old root place := ⟨_, hplace⟩
      obtain rfl := (hgrows.leadsTo hlast).unique hlast'
      obtain rfl := (hgrows.leadsTo hplaced).unique hother
      exact absurd hplaced (hlater other hm)
    have holds : ∀ {env : Environment} {found : FileData},
        Environment.Grows (fun _ _ => True) old env →
        env.look location = some (.file found) →
        (∃ place data, env.locate (root.join last.path) = .ok (place, .file data) ∧
          data.bytes = Text.encode last.content) → found.bytes = Text.encode last.content := by
      rintro env found hgrows hfound ⟨place, data, hplace, hbytes⟩
      obtain ⟨hleads, hlook⟩ := Environment.locate_file_iff.1 hplace
      obtain rfl := (hgrows.leadsTo hlast).unique hleads
      rw [hfound] at hlook
      cases hlook
      exact hbytes
    have hbytes := holds (.refl old) hold (stageAll_content first (alone (.refl old)))
    have hbytes' : bytes = Text.encode last.content :=
      holds kept.grows hnew (stageAll_content second (alone kept.grows))
    rw [hold, hnew, hbytes', ← hbytes]

/-- What can be relied on after units were staged. -/
structure Staged (root : Path) (units : List SourceUnit) (env : Environment) : Prop where
  /-- A unit's file holds its content, unless a later unit with another content has the same
      file. -/
  content : ∀ before unit rest, units = before ++ unit :: rest → Unrivalled env root rest unit →
    env.read (root.join unit.path) = .ok (Text.encode unit.content)
  /-- Staging the units again succeeds and changes nothing; a unit that shares its file with none
      of another content is found unchanged. -/
  again : ∃ again, stageAll root units env = .ok again env ∧ again.length = units.length ∧
    ∀ unit source, (unit, source) ∈ units.zip again → Unrivalled env root units unit →
      source.deposit = .unchanged

/-- **Staging**: whatever the units and the files that were there, staging that succeeds puts every
    unit in its file, and doing it again leaves everything as it is. -/
theorem stageAll_staged (h : stageAll root units env = .ok staged after) :
    Staged root units after := by
  have lodged : Lodged root units after := (lodged_nil root env).stageAll h
  constructor
  · rintro before unit rest rfl last
    obtain ⟨location, data, hlocate, hbytes⟩ := stageAll_content h last
    rw [Environment.read, hlocate, ← hbytes]
  · obtain ⟨again, last, hagain, hkept, hlength, hall⟩ :=
      (Kept.refl root units after).stageAll lodged fun _ hm => hm
    obtain rfl := hkept.eq_of_stageAll lodged h hagain
    exact ⟨again, hagain, hlength, hall⟩

/-- Two spellings of one path, with different contents. -/
def rivals : List SourceUnit :=
  [⟨⟨"A.kt"⟩, "class A", some .kotlin⟩, ⟨⟨"./A.kt"⟩, "class B", some .kotlin⟩]

theorem rivals_staged :
    ∃ staged after, stageAll ⟨"/s"⟩ rivals default = .ok staged after ∧
      Staged ⟨"/s"⟩ rivals after := by
  have succeeds : succeedsWith (fun _ _ => true) (stageAll ⟨"/s"⟩ rivals default) = true := by
    decide +kernel
  obtain ⟨staged, after, h, -⟩ := of_succeedsWith succeeds
  exact ⟨staged, after, h, stageAll_staged h⟩

/-- Of two units with one file the first is not there afterwards, and both are written again. -/
theorem rivals_rewritten :
    ∃ staged after, stageAll ⟨"/s"⟩ rivals default = .ok staged after ∧
      after.readText ⟨"/s/A.kt"⟩ = .ok "class B" ∧
      ∃ again last, stageAll ⟨"/s"⟩ rivals after = .ok again last ∧
        again.map (·.deposit) = [.written, .written] := by
  have rewrites : succeedsWith (fun _ after =>
      decide (after.readText ⟨"/s/A.kt"⟩ = .ok "class B") &&
        succeedsWith (fun again _ => decide (again.map (·.deposit) = [.written, .written]))
          (stageAll ⟨"/s"⟩ rivals after)) (stageAll ⟨"/s"⟩ rivals default) = true := by
    decide +kernel
  obtain ⟨staged, after, h, hchecked⟩ := of_succeedsWith rewrites
  obtain ⟨hread, hrewrites⟩ := Bool.and_eq_true_iff.1 hchecked
  obtain ⟨again, last, hagain, hdeposits⟩ := of_succeedsWith hrewrites
  exact ⟨staged, after, h, of_decide_eq_true hread, again, last, hagain,
    of_decide_eq_true hdeposits⟩

end SourceUnit

end KotlinHarness
