/-
  What a message stream captures.

  A sink may take any part of what it is offered and may refuse at any point.  To say what it took, it
  is given an account of its own (`Sink.accounted`), which it keeps beside its state and of which it
  knows nothing.  The stream never sees that account; still, at every moment, what it has captured is
  what stands in the account (`requests_accounted`).

  The end of a stream adds to the account, and not to the text, one line of advice for each known
  problem (`finish_accounted`).  With a sink that never fails, all of this is told by the octets that
  were written, in whatever pieces they came (`writeEach_flatten`).
-/
import KotlinHarness.Messages.Stream
import KotlinHarness.Proofs.Text.Split

namespace KotlinHarness

variable {σ α : Type}

namespace Sink

/-- The sink with an account of the octets that it took. -/
def accounted (sink : Sink σ) : Sink (σ × Bytes) where
  write bytes state :=
    match sink.write bytes state.1 with
    | (.ok taken, after) => (.ok taken, after, state.2 ++ bytes.take taken)
    | (.error cause, after) => (.error cause, after, state.2)
  flush state := ((sink.flush state.1).1, (sink.flush state.1).2, state.2)

/-- A sink that takes some of every write that is not empty, and can always be flushed. -/
structure NeverFails (sink : Sink σ) : Prop where
  write : ∀ bytes state, bytes ≠ [] →
    ∃ taken after, sink.write bytes state = (.ok taken, after) ∧ taken ≠ 0
  flush : ∀ state, (sink.flush state).1 = .ok ()

end Sink

namespace MessageStream

/-! ## Requests -/

/-- The stream with an account at its sink. -/
def accounted (stream : MessageStream σ) : MessageStream (σ × Bytes) :=
  ⟨stream.sink.accounted, stream.captured⟩

/-- What can be asked of a stream. -/
inductive Request where
  | write (bytes : Bytes)
  | flush

/-- Stream and sink after a request, however it was answered. -/
def ask : MessageStream σ × σ → Request → MessageStream σ × σ
  | (stream, state), .write bytes => (stream.write bytes state).2
  | (stream, state), .flush => (stream, (stream.flush state).2)

/-- Stream and sink after requests, one after the other. -/
def askAll (start : MessageStream σ × σ) (requests : List Request) : MessageStream σ × σ :=
  requests.foldl ask start

/-- What the sink took while it was asked for something: the stream has captured it, and with an
    account at the sink all goes on alike, and that is what is added to the account. -/
structure Took (stream : MessageStream σ) (log taken : Bytes)
    (plain : Except IoError α × MessageStream σ × σ)
    (full : Except IoError α × MessageStream (σ × Bytes) × σ × Bytes) : Prop where
  sink : plain.2.1.sink = stream.sink
  captured : plain.2.1.captured = stream.captured ++ taken
  full : full = (plain.1, plain.2.1.accounted, plain.2.2, log ++ taken)

/-- Of one offer the sink takes the front, or nothing. -/
theorem took_write (stream : MessageStream σ) (bytes : Bytes) (state : σ) (log : Bytes) :
    ∃ taken, taken <+: bytes ∧
      Took stream log taken (stream.write bytes state) (stream.accounted.write bytes (state, log)) := by
  rcases h : stream.sink.write bytes state with ⟨cause | taken, after⟩
  · exact ⟨[], List.nil_prefix, by simp [write, h], by simp [write, h],
      by simp [write, accounted, Sink.accounted, h]⟩
  · exact ⟨bytes.take taken, List.take_prefix _ _, by simp [write, h], by simp [write, h],
      by simp [write, accounted, Sink.accounted, h]⟩

/-- **A request** leaves captured octets and account alike. -/
theorem ask_accounted (sink : Sink σ) (captured : Bytes) (state : σ) (request : Request) :
    ∃ captured' state',
      ask (⟨sink, captured⟩, state) request = (⟨sink, captured'⟩, state') ∧
      ask (⟨sink.accounted, captured⟩, state, captured) request =
        (⟨sink.accounted, captured'⟩, state', captured') := by
  cases request with
  | flush => exact ⟨captured, _, rfl, rfl⟩
  | write bytes =>
    obtain ⟨taken, -, took⟩ := took_write ⟨sink, captured⟩ bytes state captured
    rcases h : (⟨sink, captured⟩ : MessageStream σ).write bytes state with ⟨answer, after, state'⟩
    rw [h] at took
    obtain ⟨rfl, hcaptured, hfull⟩ := took
    refine ⟨captured ++ taken, state', ?_, ?_⟩
    · rw [ask, h, ← hcaptured]
    · rw [ask]
      rw [accounted] at hfull
      rw [hfull, accounted, hcaptured]

/-- **At every moment** the captured octets are those in the account. -/
theorem requests_accounted {sink : Sink σ} {captured : Bytes} (state : σ) (requests : List Request) :
    ∃ captured' state',
      askAll (⟨sink, captured⟩, state) requests = (⟨sink, captured'⟩, state') ∧
      askAll (⟨sink.accounted, captured⟩, state, captured) requests =
        (⟨sink.accounted, captured'⟩, state', captured') := by
  induction requests generalizing captured state with
  | nil => exact ⟨captured, state, rfl, rfl⟩
  | cons request rest ih =>
    obtain ⟨captured', state', hplain, hfull⟩ := ask_accounted sink captured state request
    rw [askAll, askAll, List.foldl_cons, List.foldl_cons, hplain, hfull]
    exact ih state'

/-! ## Writing all -/

/-- Writing all is a row of offers, each of what was not taken yet. -/
theorem writeAllUpTo_requests (limit : Nat) (stream : MessageStream σ) (bytes : Bytes) (state : σ) :
    ∃ offers : List Bytes, (∀ offer ∈ offers, offer <:+ bytes) ∧
      (stream.writeAllUpTo limit bytes state).2 = askAll (stream, state) (offers.map .write) := by
  induction limit generalizing stream bytes state with
  | zero => exact ⟨[], fun _ hm => absurd hm List.not_mem_nil, rfl⟩
  | succ limit ih =>
    rw [writeAllUpTo]
    split
    · exact ⟨[], fun _ hm => absurd hm List.not_mem_nil, rfl⟩
    · have one : ∀ answer after last, stream.write bytes state = (answer, after, last) →
          askAll (stream, state) [.write bytes] = (after, last) := by
        intro answer after last hwrite
        rw [askAll, List.foldl_cons, List.foldl_nil, ask, hwrite]
      have whole : ∀ offer ∈ [bytes], offer <:+ bytes := by
        intro offer hm
        rw [List.mem_singleton.1 hm]
      split
      · next hwrite => exact ⟨[bytes], whole, (one _ _ _ hwrite).symm⟩
      · next hwrite => exact ⟨[bytes], whole, (one _ _ _ hwrite).symm⟩
      · next taken after last _ hwrite =>
        obtain ⟨offers, hoffers, hrest⟩ := ih after (bytes.drop taken) last
        refine ⟨bytes :: offers, List.forall_mem_cons.2 ⟨List.suffix_refl bytes, ?_⟩, ?_⟩
        · exact fun offer hm => (hoffers offer hm).trans (List.drop_suffix _ _)
        · rw [hrest, List.map_cons, askAll, askAll, List.foldl_cons, ask, hwrite]

/-- Writing all, the sink takes the front of it, and all of it when that succeeds. -/
theorem took_writeAllUpTo (limit : Nat) (stream : MessageStream σ) (bytes : Bytes) (state : σ)
    (log : Bytes) :
    ∃ taken, taken <+: bytes ∧
      Took stream log taken (stream.writeAllUpTo limit bytes state)
        (stream.accounted.writeAllUpTo limit bytes (state, log)) ∧
      (bytes.length ≤ limit → (stream.writeAllUpTo limit bytes state).1 = .ok () → taken = bytes) := by
  induction limit generalizing stream bytes state log with
  | zero =>
    refine ⟨[], List.nil_prefix, ⟨rfl, (List.append_nil _).symm, ?_⟩, fun hnone _ => ?_⟩
    · simp [writeAllUpTo]
    · exact (List.eq_nil_of_length_eq_zero (Nat.le_zero.1 hnone)).symm
  | succ limit ih =>
    rw [writeAllUpTo, writeAllUpTo]
    by_cases hempty : bytes.isEmpty = true
    · rw [if_pos hempty, if_pos hempty]
      refine ⟨[], List.nil_prefix, ⟨rfl, (List.append_nil _).symm, by simp⟩, fun _ _ => ?_⟩
      exact (List.isEmpty_iff.1 hempty).symm
    · rw [if_neg hempty, if_neg hempty]
      obtain ⟨first, hfirst, took⟩ := took_write stream bytes state log
      have hwhole : ∀ taken after last, stream.write bytes state = (.ok taken, after, last) →
          first = bytes.take taken := by
        intro taken after last h
        have hcaptured := took.captured
        rw [write] at h hcaptured
        split at h
        · cases h
        · next heq =>
          cases h
          rw [heq] at hcaptured
          exact (List.append_cancel_left hcaptured).symm
      rcases h : stream.write bytes state with ⟨cause | taken, after, last⟩ <;> rw [h] at took <;>
        rw [took.full]
      · exact ⟨first, hfirst, ⟨took.sink, took.captured, rfl⟩, fun _ hok => by cases hok⟩
      · rcases taken with - | taken
        · exact ⟨first, hfirst, ⟨took.sink, took.captured, rfl⟩, fun _ hok => by cases hok⟩
        · obtain rfl := hwhole _ _ _ h
          obtain ⟨rest, hrest, took', hall⟩ :=
            ih after (bytes.drop (taken + 1)) last (log ++ bytes.take (taken + 1))
          refine ⟨bytes.take (taken + 1) ++ rest, ?_, ⟨?_, ?_, ?_⟩, fun hlimit hok => ?_⟩
          · obtain ⟨left, hleft⟩ := hrest
            exact ⟨left, by rw [List.append_assoc, hleft, List.take_append_drop]⟩
          · exact took'.sink.trans took.sink
          · exact took'.captured.trans (by rw [took.captured, List.append_assoc])
          · rw [← List.append_assoc]
            exact took'.full
          · have hshorter : (bytes.drop (taken + 1)).length ≤ limit := by
              rw [List.length_drop]
              omega
            rw [hall hshorter hok, List.take_append_drop]

theorem took_writeAll (stream : MessageStream σ) (bytes : Bytes) (state : σ) (log : Bytes) :
    ∃ taken, taken <+: bytes ∧
      Took stream log taken (stream.writeAll bytes state)
        (stream.accounted.writeAll bytes (state, log)) ∧
      ((stream.writeAll bytes state).1 = .ok () → taken = bytes) := by
  obtain ⟨taken, hprefix, took, hall⟩ := took_writeAllUpTo bytes.length stream bytes state log
  exact ⟨taken, hprefix, took, hall (Nat.le_refl _)⟩

theorem captured_writeAll {stream after : MessageStream σ} {bytes : Bytes} {state last : σ}
    (h : stream.writeAll bytes state = (.ok (), after, last)) :
    after.captured = stream.captured ++ bytes := by
  obtain ⟨taken, -, took, hall⟩ := took_writeAll stream bytes state []
  have hcaptured := took.captured
  rw [h] at hcaptured hall
  rw [hcaptured, hall rfl]

/-! ## The end of a stream -/

/-- The lines of advice on a text: one for each known problem whose marker is in it. -/
def adviceOn (text : String) : Bytes :=
  (KnownProblem.all.filter fun problem => problem.marker.toList <:+: text.toList).flatMap
    fun problem => Text.encode ("warning: " ++ problem.advice ++ "\n")

theorem adviceOn_eq (text : String) :
    adviceOn text = (KnownProblem.inText text).flatMap fun problem => Text.encode problem.warning := by
  have hsame : (fun problem : KnownProblem => Text.occursIn problem.marker.toList text.toList) =
      fun problem => decide (problem.marker.toList <:+: text.toList) := by
    funext problem
    rw [Bool.eq_iff_iff, Text.occursIn_iff, decide_eq_true_iff]
  rw [adviceOn, KnownProblem.inText, hsame]
  rfl

theorem adviseOn_accounted (stream : MessageStream σ) (problems : List KnownProblem) (state : σ)
    (log : Bytes) :
    ∃ taken, taken <+: (problems.flatMap fun problem => Text.encode problem.warning) ∧
      stream.accounted.adviseOn problems (state, log) =
        ((stream.adviseOn problems state).1, (stream.adviseOn problems state).2, log ++ taken) ∧
      ((stream.adviseOn problems state).1 = .ok () →
        taken = problems.flatMap fun problem => Text.encode problem.warning) := by
  induction problems generalizing state log with
  | nil =>
    refine ⟨[], List.nil_prefix, ?_, fun _ => rfl⟩
    rw [List.append_nil]
    rfl
  | cons problem rest ih =>
    obtain ⟨first, hfirst, took, hwhole⟩ :=
      took_writeAll stream (Text.encode problem.warning) state log
    rw [List.flatMap_cons, adviseOn, adviseOn, took.full]
    rcases h : stream.writeAll (Text.encode problem.warning) state with ⟨cause | _, after, last⟩
    · refine ⟨first, hfirst.trans (List.prefix_append _ _), rfl, fun hok => by cases hok⟩
    · rw [h] at hwhole
      obtain rfl := hwhole rfl
      obtain ⟨others, hothers, hrest, hall⟩ := ih last (log ++ Text.encode problem.warning)
      refine ⟨Text.encode problem.warning ++ others, ?_, ?_, fun hok => ?_⟩
      · exact (List.prefix_append_right_inj _).2 hothers
      · rw [← List.append_assoc]
        exact hrest
      · rw [hall hok]

/-- **The end of a stream** gives back the text of what was captured, and adds advice to the account:
    all of it when the end succeeds, and never anything else. -/
theorem finish_accounted (stream : MessageStream σ) (state : σ) (log : Bytes) :
    ∃ taken, taken <+: adviceOn stream.text ∧
      stream.accounted.finish (state, log) =
        ((stream.finish state).1, (stream.finish state).2, log ++ taken) ∧
      ∀ text, (stream.finish state).1 = .ok text →
        text = Text.decodeLossy stream.captured ∧ taken = adviceOn text := by
  obtain ⟨taken, hprefix, hfull, hall⟩ :=
    adviseOn_accounted stream (KnownProblem.inText stream.text) state log
  have htext : stream.accounted.text = stream.text := rfl
  rw [adviceOn_eq]
  refine ⟨taken, hprefix, ?_⟩
  rw [finish, finish, htext, hfull]
  rcases h : stream.adviseOn (KnownProblem.inText stream.text) state with ⟨cause | _, after⟩
  · exact ⟨rfl, fun _ hok => by cases hok⟩
  · refine ⟨rfl, fun text hok => ?_⟩
    cases hok
    rw [h] at hall
    exact ⟨rfl, by rw [adviceOn_eq, hall rfl]⟩

/-! ## A sink that never fails -/

theorem writeAllUpTo_of_neverFails {limit : Nat} {stream : MessageStream σ} {bytes : Bytes}
    (never : stream.sink.NeverFails) (enough : bytes.length ≤ limit) (state : σ) :
    (stream.writeAllUpTo limit bytes state).1 = .ok () := by
  induction limit generalizing stream bytes state with
  | zero => rfl
  | succ limit ih =>
    rw [writeAllUpTo]
    split
    · rfl
    · next hfull =>
      obtain ⟨taken, after, hwrite, htaken⟩ :=
        never.write bytes state fun hempty => hfull (List.isEmpty_iff.2 hempty)
      obtain ⟨taken, rfl⟩ := Nat.exists_eq_succ_of_ne_zero htaken
      obtain ⟨longer, hlonger⟩ : ∃ longer : MessageStream σ,
          longer = ⟨stream.sink, stream.captured ++ bytes.take taken.succ⟩ := ⟨_, rfl⟩
      have hstream : stream.write bytes state = (.ok taken.succ, longer, after) := by
        rw [write, hwrite, hlonger]
      have shorter : (bytes.drop taken.succ).length ≤ limit := by
        rw [List.length_drop]
        omega
      have never' : longer.sink.NeverFails := by
        rw [hlonger]
        exact never
      rw [hstream]
      exact ih never' shorter after

/-- Pieces written one after the other, up to the first that could not be written. -/
def writeEach (stream : MessageStream σ) : List Bytes → σ → Except IoError Unit × MessageStream σ × σ
  | [], state => (.ok (), stream, state)
  | piece :: rest, state =>
    match stream.writeAll piece state with
    | (.error cause, stream, state) => (.error cause, stream, state)
    | (.ok (), stream, state) => stream.writeEach rest state

/-- **However octets are cut** into pieces, a sink that never fails takes all of them. -/
theorem writeEach_flatten {sink : Sink σ} (never : sink.NeverFails) (captured : Bytes)
    (pieces : List Bytes) (state : σ) (log : Bytes) :
    ∃ after,
      (⟨sink.accounted, captured⟩ : MessageStream (σ × Bytes)).writeEach pieces (state, log) =
        (.ok (), ⟨sink.accounted, captured ++ pieces.flatten⟩, after, log ++ pieces.flatten) := by
  induction pieces generalizing captured state log with
  | nil => exact ⟨state, by simp [writeEach]⟩
  | cons piece rest ih =>
    obtain ⟨taken, -, took, hall⟩ := took_writeAll ⟨sink, captured⟩ piece state log
    have hok : ((⟨sink, captured⟩ : MessageStream σ).writeAll piece state).1 = .ok () :=
      writeAllUpTo_of_neverFails never (Nat.le_refl _) state
    obtain rfl := hall hok
    rcases h : (⟨sink, captured⟩ : MessageStream σ).writeAll taken state with ⟨answer, stream, last⟩
    rw [h] at hok took
    obtain ⟨rfl, hcaptured, hfull⟩ := took
    obtain ⟨after, hrest⟩ := ih (captured ++ taken) last (log ++ taken)
    refine ⟨after, ?_⟩
    rw [accounted] at hfull
    rw [writeEach, hfull, hok, accounted, hcaptured]
    simp only [hrest, List.flatten_cons, List.append_assoc]

theorem adviseOn_of_neverFails {stream : MessageStream σ} (never : stream.sink.NeverFails)
    (problems : List KnownProblem) (state : σ) : (stream.adviseOn problems state).1 = .ok () := by
  induction problems generalizing state with
  | nil => exact never.flush state
  | cons problem rest ih =>
    have hok : (stream.writeAll (Text.encode problem.warning) state).1 = .ok () :=
      writeAllUpTo_of_neverFails never (Nat.le_refl _) state
    rw [adviseOn]
    rcases h : stream.writeAll (Text.encode problem.warning) state with ⟨answer, after, last⟩
    rw [h] at hok
    cases hok
    exact ih last

theorem finish_of_neverFails {stream : MessageStream σ} (never : stream.sink.NeverFails) (state : σ) :
    (stream.finish state).1 = .ok stream.text := by
  have hok := adviseOn_of_neverFails never (KnownProblem.inText stream.text) state
  rw [finish]
  rcases h : stream.adviseOn (KnownProblem.inText stream.text) state with ⟨cause | _, after⟩
  · rw [h] at hok
    cases hok
  · rfl

/-! ## The whole of it -/

/-- **What a stream captures is what its sink took.**

    It is so after any requests, and writing all is nothing but requests.  The end gives back the text
    of that, and nothing but advice on it goes to the sink.  With a sink that never fails everything
    can be written and ended, and text and account are told by the octets alone, not by the pieces in
    which they came. -/
theorem captured_accepted (sink : Sink σ) (state : σ) :
    (∀ requests, ∃ captured after,
      askAll (ofSink sink, state) requests = (⟨sink, captured⟩, after) ∧
      askAll (ofSink sink.accounted, state, []) requests =
        (⟨sink.accounted, captured⟩, after, captured)) ∧
    (∀ (stream : MessageStream σ) (bytes : Bytes) (state : σ), ∃ offers : List Bytes,
      (∀ offer ∈ offers, offer <:+ bytes) ∧
      (stream.writeAll bytes state).2 = askAll (stream, state) (offers.map .write)) ∧
    (∀ (captured : Bytes) (state : σ) (log : Bytes), ∃ answer after taken,
      (⟨sink, captured⟩ : MessageStream σ).finish state = (answer, after) ∧
      (⟨sink.accounted, captured⟩ : MessageStream (σ × Bytes)).finish (state, log) =
        (answer, after, log ++ taken) ∧
      taken <+: adviceOn (Text.decodeLossy captured) ∧
      ∀ text, answer = .ok text →
        text = Text.decodeLossy captured ∧ taken = adviceOn (Text.decodeLossy captured)) ∧
    (sink.NeverFails → ∀ pieces : List Bytes, ∃ after ended,
      (ofSink sink.accounted).writeEach pieces (state, []) =
        (.ok (), ⟨sink.accounted, pieces.flatten⟩, after, pieces.flatten) ∧
      (⟨sink.accounted, pieces.flatten⟩ : MessageStream (σ × Bytes)).finish (after, pieces.flatten) =
        (.ok (Text.decodeLossy pieces.flatten), ended,
          pieces.flatten ++ adviceOn (Text.decodeLossy pieces.flatten))) := by
  refine ⟨requests_accounted state, fun stream bytes state => ?_, fun captured state log => ?_,
    fun never pieces => ?_⟩
  · exact writeAllUpTo_requests bytes.length stream bytes state
  · obtain ⟨taken, hprefix, hfull, hall⟩ := finish_accounted ⟨sink, captured⟩ state log
    refine ⟨_, _, taken, rfl, hfull, hprefix, fun text hok => ?_⟩
    obtain ⟨rfl, htaken⟩ := hall text hok
    exact ⟨rfl, htaken⟩
  · obtain ⟨after, hwritten⟩ := writeEach_flatten never [] pieces state []
    obtain ⟨taken, -, hfull, hall⟩ := finish_accounted ⟨sink, pieces.flatten⟩ after pieces.flatten
    have hok : ((⟨sink, pieces.flatten⟩ : MessageStream σ).finish after).1 =
        .ok (Text.decodeLossy pieces.flatten) := finish_of_neverFails never after
    obtain ⟨-, rfl⟩ := hall _ hok
    rw [hok] at hfull
    exact ⟨after, _, hwritten, hfull⟩

/-- A sink that takes one octet at a time. -/
def trickling : Sink Unit where
  write bytes state := (.ok (min 1 bytes.length), state)
  flush state := (.ok (), state)

/-- An accented letter and a marker, cut in two. -/
def cutPieces : List Bytes :=
  [[0xC3], 0xA9 :: Text.encode ": Unable to find package java.",
    Text.encode "lang in classpath or bootclasspath\n"]

theorem trickling_accepted :
    trickling.NeverFails ∧ ∃ after ended,
      (ofSink trickling.accounted).writeEach cutPieces ((), []) =
        (.ok (), ⟨trickling.accounted, cutPieces.flatten⟩, after, cutPieces.flatten) ∧
      (⟨trickling.accounted, cutPieces.flatten⟩ : MessageStream (Unit × Bytes)).finish
          (after, cutPieces.flatten) =
        (.ok "é: Unable to find package java.lang in classpath or bootclasspath\n", ended,
          cutPieces.flatten ++ Text.encode KnownProblem.missingPlatformClasses.warning) := by
  have never : trickling.NeverFails := by
    refine ⟨fun bytes state hne => ⟨_, _, rfl, ?_⟩, fun _ => rfl⟩
    have := List.length_pos_iff.2 hne
    omega
  obtain ⟨after, ended, hwritten, hended⟩ := (captured_accepted trickling ()).2.2.2 never cutPieces
  have htext : Text.decodeLossy cutPieces.flatten =
      "é: Unable to find package java.lang in classpath or bootclasspath\n" := by decide +kernel
  have hadvice : adviceOn "é: Unable to find package java.lang in classpath or bootclasspath\n" =
      Text.encode KnownProblem.missingPlatformClasses.warning := by
    rw [adviceOn_eq]
    decide +kernel
  rw [htext, hadvice] at hended
  exact ⟨never, after, ended, hwritten, hended⟩

end MessageStream

end KotlinHarness
