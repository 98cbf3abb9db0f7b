import KotlinHarness.Main
import KotlinHarness.Rehearsal.Frontend
import KotlinHarness.Rehearsal.JavaService
import KotlinHarness.Proofs.Pipeline.Records
import KotlinHarness.Proofs.Files.Growth
import KotlinHarness.Proofs.Pipeline.FrontendScope
import KotlinHarness.Proofs.Processing.Filing
import KotlinHarness.Proofs.Processing.Protocol
import KotlinHarness.Proofs.Files.Listing
import KotlinHarness.Proofs.Pipeline.Generation
import KotlinHarness.Proofs.Pipeline.HandedSources
import KotlinHarness.Proofs.Files.Rewriting
import KotlinHarness.Proofs.Workspace.Refused
import KotlinHarness.Proofs.Workspace.Restaged
import KotlinHarness.Proofs.Frontend.Arguments
import KotlinHarness.Proofs.Toolchain.ChildPaths
import KotlinHarness.Proofs.Files.Digging
import KotlinHarness.Proofs.Files.Retracing
import KotlinHarness.Proofs.Files.Relisting
import KotlinHarness.Proofs.Source.Names
import KotlinHarness.Proofs.Files.Footprint
import KotlinHarness.Proofs.Rehearsal.Output
import KotlinHarness.Proofs.Processing.Script
import KotlinHarness.Proofs.Machine
import KotlinHarness.Proofs.Processing.Replayed
import KotlinHarness.Proofs.Rehearsal.Frontend
import KotlinHarness.Proofs.Rehearsal.JavaService
import KotlinHarness.Proofs.Workspace.Recreated
import KotlinHarness.Proofs.Pipeline.Alongside
import KotlinHarness.Proofs.Pipeline.Reported
import KotlinHarness.Proofs.Scope.Interleaving
import KotlinHarness.Proofs.JavaCompiler.Told
import KotlinHarness.Proofs.Pipeline.CompilerCalls
import KotlinHarness.Proofs.Pipeline.Reprocessed
import KotlinHarness.Proofs.Pipeline.Recompiled
import KotlinHarness.Proofs.Scope.Handover
import KotlinHarness.Proofs.Pipeline.SideBySide
import KotlinHarness.Proofs.Manifest.Elsewhere
import KotlinHarness.Proofs.Workspace.Transplanted
import KotlinHarness.Proofs.Rehearsal.FirstRound
import KotlinHarness.Proofs.Processing.Indifferent
import KotlinHarness.Proofs.Messages.Captured
import KotlinHarness.Proofs.Toolchain.VersionReaders
import KotlinHarness.Proofs.ClassLoader.Search
import KotlinHarness.Proofs.ClassLoader.Declared
import KotlinHarness.Proofs.Source.Units
import KotlinHarness.Proofs.Rehearsal.Classes
import KotlinHarness.Proofs.Pipeline.ClassesLoaded
import KotlinHarness.Proofs.CommandLine.Probed
import KotlinHarness.Proofs.Processing.Confined
import KotlinHarness.Proofs.Processing.Logged
import KotlinHarness.Proofs.Processing.Verdict
import KotlinHarness.Proofs.Processing.Ending
import KotlinHarness.Proofs.Processing.Represented
import KotlinHarness.Proofs.Source.Written
import KotlinHarness.Proofs.JavaCompiler.Reports
import KotlinHarness.Proofs.Processing.Namesakes
import KotlinHarness.Proofs.Source.Sites
import KotlinHarness.Proofs.Toolchain.SwitchedOff
import KotlinHarness.Proofs.Source.Extensions
import KotlinHarness.Proofs.Pipeline.Reentered
import KotlinHarness.Proofs.Workspace.Framed
import KotlinHarness.Proofs.Toolchain.Homes
import KotlinHarness.Proofs.JavaCompiler.Erased
import KotlinHarness.Proofs.JavaCompiler.ClassPathText
import KotlinHarness.Proofs.Toolchain.Archives
import KotlinHarness.Proofs.Toolchain.HostClasspath
import KotlinHarness.Proofs.Pipeline.Launched
import KotlinHarness.Proofs.Source.Imports
import KotlinHarness.Proofs.Rehearsal.Imports
import KotlinHarness.Proofs.Source.Blanked
import KotlinHarness.Proofs.Workspace.FoundSources
