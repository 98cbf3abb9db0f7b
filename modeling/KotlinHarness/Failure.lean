/-
  Failures that abort what the harness is doing.

  A failure is a cause together with what was being done when it arose, innermost cause last.
  Compiler errors are no failures: they end a stage with an exit code.

    * `chain`     the wording, from the outermost undertaking to the cause
    * `config?`   the configuration error that a failure carries, if that is its cause
-/
import KotlinHarness.JavaCompiler.ServiceError
import KotlinHarness.Manifest.Error

namespace KotlinHarness

/-- What was being done when a failure arose. -/
inductive Undertaking where
  | creating (path : Path)
  | writing (path : Path)
  | reading (path : Path)
  | staging (path : Path)
  | hookBefore (hook stage : String)
  | hookAfter (hook stage : String)
  | runningStage (stage : String)
  | endingMessages
  | runningService
  | registeringPlugin
  deriving DecidableEq, Inhabited

namespace Undertaking

def message : Undertaking → String
  | creating path => "failed to create " ++ path.text
  | writing path => "failed to write " ++ path.text
  | reading path => "failed to read " ++ path.text
  | staging path => "failed to stage " ++ path.text
  | hookBefore hook stage => "hook " ++ hook ++ " failed before " ++ stage
  | hookAfter hook stage => "hook " ++ hook ++ " failed after " ++ stage
  | runningStage stage => stage ++ " stage failed"
  | endingMessages => "failed to write compiler messages"
  | runningService => "embedded javac failed"
  | registeringPlugin => "failed to write the kapt registrar service file"

end Undertaking

/-- A failure with its causes. -/
inductive Failure where
  | config (error : ConfigError)
  | io (cause : IoError)
  | source (fault : SourceFault)
  | service (error : ServiceError)
  /-- A file was to be created a second time in one run of annotation processing. -/
  | recreation (path : Path)
  /-- A generated file was to be named by something that is no dotted name. -/
  | invalidTypeName (name : String)
  /-- Annotation processing did not end within the rounds it was given. -/
  | roundsExhausted
  /-- Raised by a processor, hook, stage or front end, in its own words. -/
  | raised (text : String)
  | during (undertaking : Undertaking) (cause : Failure)
  deriving DecidableEq, Inhabited

namespace Failure

/-- The wording of a failure and its causes, outermost first. -/
def chain : Failure → List String
  | config error => [error.message]
  | io cause => [cause.message]
  | source fault => [fault.message]
  | service error => [error.message]
  | recreation path => ["attempt to recreate " ++ path.text]
  | invalidTypeName name => ["invalid type name \x60" ++ name ++ "\x60"]
  | roundsExhausted => ["annotation processing does not end"]
  | raised text => [text]
  | during undertaking cause => undertaking.message :: cause.chain

/-- The wording of the outermost part. -/
def message (failure : Failure) : String := failure.chain.headD ""

/-- The whole wording on one line. -/
def line (failure : Failure) : String := String.intercalate ": " failure.chain

/-- The configuration error at the end of the chain, when there is one. -/
def config? : Failure → Option ConfigError
  | config error => some error
  | during _ cause => cause.config?
  | _ => none

theorem chain_ne_nil (failure : Failure) : failure.chain ≠ [] := by
  cases failure <;> simp [chain]

end Failure

end KotlinHarness
