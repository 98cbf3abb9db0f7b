/-
  Message streams: everything the stages print, forwarded to a sink and kept.

  A sink may take any part of a write, refuse it, and keep state of its own.  The stream remembers
  the octets the sink took, no others.  Ending the stream gives back their text; advice on known
  problems goes to the sink alone.
-/
import KotlinHarness.Files.IoError
import KotlinHarness.Messages.KnownProblem
import KotlinHarness.Text.Utf8

namespace KotlinHarness

/-- Where messages go, with a state of type `σ`.

    A write that is interrupted has taken nothing, and whoever made it makes it again until something
    else comes of it, as `writeAll` would.  Only this last answer is seen here, so there is no cause for
    an interruption among those of `IoError`, and no sink that is interrupted for ever. -/
structure Sink (σ : Type) where
  /-- Takes a number of octets from the front of a write, or refuses. -/
  write : Bytes → σ → Except IoError Nat × σ
  flush : σ → Except IoError Unit × σ

namespace Sink

/-- A sink that takes everything and keeps nothing. -/
def discarding {σ : Type} : Sink σ where
  write bytes state := (.ok bytes.length, state)
  flush state := (.ok (), state)

/-- A sink that takes everything and keeps it. -/
def collecting : Sink Bytes where
  write bytes state := (.ok bytes.length, state ++ bytes)
  flush state := (.ok (), state)

end Sink

/-- A sink and the octets it took so far. -/
structure MessageStream (σ : Type) where
  sink : Sink σ
  captured : Bytes

namespace MessageStream

variable {σ : Type}

/-- A stream to `sink` that has captured nothing. -/
def ofSink (sink : Sink σ) : MessageStream σ := ⟨sink, []⟩

/-- Offers octets to the sink once; what it takes is captured. -/
def write (stream : MessageStream σ) (bytes : Bytes) (state : σ) :
    Except IoError Nat × MessageStream σ × σ :=
  match stream.sink.write bytes state with
  | (.error cause, state) => (.error cause, stream, state)
  | (.ok taken, state) =>
    (.ok taken, { stream with captured := stream.captured ++ bytes.take taken }, state)

/-- Offers octets again and again until all are taken, at most `limit` times; a refusal ends it, since
    interruptions are none (see `Sink`). -/
def writeAllUpTo : Nat → MessageStream σ → Bytes → σ → Except IoError Unit × MessageStream σ × σ
  | 0, stream, _, state => (.ok (), stream, state)
  | limit + 1, stream, bytes, state =>
    if bytes.isEmpty then (.ok (), stream, state)
    else
      match stream.write bytes state with
      | (.error cause, stream, state) => (.error cause, stream, state)
      | (.ok 0, stream, state) => (.error .writeZero, stream, state)
      | (.ok taken, stream, state) => writeAllUpTo limit stream (bytes.drop taken) state

/-- Writes all octets; each offer that succeeds takes at least one, so their number bounds the
    offers. -/
def writeAll (stream : MessageStream σ) (bytes : Bytes) (state : σ) :
    Except IoError Unit × MessageStream σ × σ :=
  writeAllUpTo bytes.length stream bytes state

def flush (stream : MessageStream σ) (state : σ) : Except IoError Unit × σ :=
  stream.sink.flush state

/-- The text captured so far. -/
def text (stream : MessageStream σ) : String := Text.decodeLossy stream.captured

/-- The stream with another buffer, to write past it. -/
def adviseOn (stream : MessageStream σ) : List KnownProblem → σ → Except IoError Unit × σ
  | [], state => stream.flush state
  | problem :: rest, state =>
    match stream.writeAll (Text.encode problem.warning) state with
    | (.error cause, _, state) => (.error cause, state)
    | (.ok (), _, state) => adviseOn stream rest state

/-- Ends the stream: advice on every known problem in the text goes to the sink, which is then
    flushed; the captured text is the result. -/
def finish (stream : MessageStream σ) (state : σ) : Except IoError String × σ :=
  match stream.adviseOn (KnownProblem.inText stream.text) state with
  | (.error cause, state) => (.error cause, state)
  | (.ok (), state) => (.ok stream.text, state)

end MessageStream

end KotlinHarness
