/-
`ProcessEvaluationClient`: one NanoVMS process for one evaluation, and how much of its output is kept.

- `read_bounded_exact`: what is captured of a stream depends on its bytes alone, not on how they arrive.
- `executed_whole`: hence an answer that the client accepts was read whole.
-/
import PhenoCompose.Core.Stream
import PhenoCompose.Store

namespace PhenoCompose

open Core.Json Core.Stream Core.Text

/-! ## Bounded capture -/

structure BoundedBytes where
  bytes : Bytes
  truncated : Bool
deriving DecidableEq

/-- the room in the buffer of `read_bounded` -/
def readBuffer : ℕ := 8192

section
variable {ρ : Type} [Read IoError ρ]

/-- the loop of `read_bounded`, for at most so many reads -/
def readBoundedLoop (limit : ℕ) : ℕ → ρ → BoundedBytes → Option (Except IoError BoundedBytes × ρ)
  | 0, _, _ => none
  | reads + 1, reader, captured =>
    match Read.read reader readBuffer with
    | (.error error, reader) => some (.error error, reader)
    | (.ok buffer, reader) =>
      let count := buffer.length
      if count = 0 then some (.ok captured, reader)
      else
        let remaining := limit - captured.bytes.length
        readBoundedLoop limit reads reader
          { bytes := captured.bytes ++ buffer.take (min count remaining)
            truncated := captured.truncated || decide (remaining < count) }

def readBoundedWithin (reads : ℕ) (reader : ρ) (limit : ℕ) : Option (Except IoError BoundedBytes × ρ) :=
  readBoundedLoop limit reads reader { bytes := [], truncated := false }

/-- the first bytes of a stream, up to the limit, and whether there are more -/
def capture (limit : ℕ) (stream : Bytes) : BoundedBytes :=
  { bytes := stream.take limit, truncated := decide (limit < stream.length) }

theorem capture_nil (limit : ℕ) : capture limit [] = { bytes := [], truncated := false } := by
  rw [capture, List.take_nil, List.length_nil, decide_eq_false (Nat.not_lt_zero limit)]

/-- one piece more, wherever the limit is in it -/
theorem capture_append (limit : ℕ) (stream piece : Bytes) :
    ({ bytes := (capture limit stream).bytes ++ piece.take (min piece.length (limit - (capture limit stream).bytes.length))
       truncated := (capture limit stream).truncated ||
         decide (limit - (capture limit stream).bytes.length < piece.length) } : BoundedBytes) =
      capture limit (stream ++ piece) := by
  have hkept : (capture limit stream).bytes.length = min limit stream.length := List.length_take
  have hremaining : limit - min limit stream.length = limit - stream.length := by omega
  rw [hkept, hremaining, capture, capture, BoundedBytes.mk.injEq]
  refine ⟨?_, ?_⟩
  · rw [List.take_append, Nat.min_comm, ← List.take_take, List.take_length]
  · rw [← Bool.decide_or, List.length_append]
    exact decide_eq_decide.2 (by omega)

/-- the loop, from what was captured of the stream so far: it ends when it may read each piece and find the end -/
theorem readBoundedLoop_delivers (limit : ℕ) {reader rest : ρ} {pieces : List Bytes}
    (h : Delivers readBuffer reader pieces rest) (reads : ℕ) (stream : Bytes) :
    readBoundedLoop limit reads reader (capture limit stream) =
      if pieces.length < reads then some (.ok (capture limit (stream ++ pieces.flatten)), rest) else none := by
  induction h generalizing reads stream with
  | ended ended =>
    cases reads with
    | zero => rfl
    | succ reads =>
      rw [readBoundedLoop, ended, if_pos (show ([] : List Bytes).length < _ from Nat.succ_pos reads),
        List.flatten_nil, List.append_nil]
      rfl
  | piece handed nonempty later ih =>
    cases reads with
    | zero => rfl
    | succ reads =>
      rw [readBoundedLoop, handed]
      dsimp only
      rw [if_neg (mt List.length_eq_zero_iff.1 nonempty), capture_append, ih, List.flatten_cons, List.append_assoc,
        List.length_cons]
      simp only [Nat.add_lt_add_iff_right]

theorem read_bounded_delivers (limit : ℕ) {reader rest : ρ} {pieces : List Bytes}
    (h : Delivers readBuffer reader pieces rest) (reads : ℕ) :
    readBoundedWithin reads reader limit =
      if pieces.length < reads then some (.ok (capture limit pieces.flatten), rest) else none := by
  rw [readBoundedWithin, ← capture_nil limit, readBoundedLoop_delivers limit h, List.nil_append]

end

/-- **Bounded capture is independent of chunking.** From any reader that hands over a stream in pieces and then its end, the
first bytes up to the limit are captured, with the flag exactly when there are more, and the stream is read to its end;
any other reader that hands over the same bytes, in whatever pieces, gives the same. -/
theorem read_bounded_exact {ρ : Type} [Read IoError ρ] (limit : ℕ) {reader rest : ρ} {pieces : List Bytes}
    (h : Delivers readBuffer reader pieces rest) :
    (∀ reads, pieces.length < reads → readBoundedWithin reads reader limit =
        some (.ok { bytes := pieces.flatten.take (min limit pieces.flatten.length)
                    truncated := decide (limit < pieces.flatten.length) }, rest)) ∧
      ∀ {ρ' : Type} [Read IoError ρ'] {reader' rest' : ρ'} {pieces' : List Bytes},
        Delivers readBuffer reader' pieces' rest' → pieces'.flatten = pieces.flatten →
          ∀ reads reads', pieces.length < reads → pieces'.length < reads' →
            (readBoundedWithin reads reader limit).map Prod.fst =
              (readBoundedWithin reads' reader' limit).map Prod.fst := by
  refine ⟨fun reads hreads => ?_, fun h' hsame reads reads' hreads hreads' => ?_⟩
  · rw [read_bounded_delivers limit h, if_pos hreads, capture, ← List.take_eq_take_min]
  · rw [read_bounded_delivers limit h, read_bounded_delivers limit h', if_pos hreads, if_pos hreads', hsame]
    rfl

/-- five bytes in two pieces, the limit inside the second -/
theorem read_bounded_example :
    readBoundedWithin 3 (⟨[.ok [104, 101], .ok [108, 108, 111]]⟩ : Pipe IoError) 3 =
      some (.ok { bytes := [104, 101, 108], truncated := true }, ⟨[]⟩) := by
  have hdelivers : Delivers readBuffer (⟨[.ok [104, 101], .ok [108, 108, 111]]⟩ : Pipe IoError)
      [[104, 101], [108, 108, 111]] ⟨[]⟩ :=
    Pipe.delivers [[104, 101], [108, 108, 111]] (by decide)
  exact (read_bounded_exact 3 hdelivers).1 3 (by decide)

/-! ## The process -/

def stderrLimit : ℕ := 64 * 1024

def responseLimit : ℕ := 34 * 1024 * 1024

def EvaluationProvenance.codec : Codec EvaluationProvenance :=
  record ((required "manifest_sha256" .string (·.manifestSha256)).and <|
    (required "effective_engine" .string (·.effectiveEngine)).and <|
    (required "resolved_provider" .string (·.resolvedProvider)).and <|
    (required "execution_plane" .string (·.executionPlane)).and <|
    (required "podman_pipe" .string (·.podmanPipe)).and <|
    (required "gpu_uuids" (.vec .string) (·.gpuUuids)).and <|
    (defaulted "job_directory" .string "" (·.jobDirectory)).and <|
    (defaulted "output_root_created" .bool false (·.outputRootCreated)).and <|
    (defaulted "output_root_available_bytes" (.option .u64 Codec.u64_ne_null) none
      (·.outputRootAvailableBytes)).and <|
    (skippedNone "toolkit_version" optionString (·.toolkitVersion)).and <|
    (skippedNone "toolkit_root" optionString (·.toolkitRoot)).and
    (skippedNone "toolkit_executable" optionString (·.toolkitExecutable)))
    (fun (manifestSha256, effectiveEngine, resolvedProvider, executionPlane, podmanPipe, gpuUuids, jobDirectory,
        outputRootCreated, outputRootAvailableBytes, toolkitVersion, toolkitRoot, toolkitExecutable) =>
      { manifestSha256, effectiveEngine, resolvedProvider, executionPlane, podmanPipe, gpuUuids, jobDirectory,
        outputRootCreated, outputRootAvailableBytes, toolkitVersion, toolkitRoot, toolkitExecutable })
    (fun _ => rfl) (by decide)

def EvaluationResult.codec : Codec EvaluationResult :=
  record ((required "version" .string (·.version)).and <|
    (required "success" .bool (·.success)).and <|
    (defaulted "error_code" .string "" (·.errorCode)).and <|
    (defaulted "error_message" .string "" (·.errorMessage)).and <|
    (required "lifecycle" Lifecycle.codec (·.lifecycle)).and <|
    (required "provenance" EvaluationProvenance.codec (·.provenance)).and
    (required "released" .bool (·.released)))
    (fun (version, success, errorCode, errorMessage, lifecycle, provenance, released) =>
      { version, success, errorCode, errorMessage, lifecycle, provenance, released })
    (fun _ => rfl) (by decide)

/-- a NanoVMS process: what became of writing the request to it, its outputs, and its exit status if it ended in time -/
structure Child (ρ : Type) where
  stdin : Option (Except IoError Unit)
  stdout : Option ρ
  stderr : Option ρ
  waited : Except IoError (Option (Option Int32))

def renderStderr (stderr : BoundedBytes) : String :=
  trim (fromUtf8Lossy stderr.bytes) ++ if stderr.truncated then "…[truncated]" else ""

def exitError (code : String) (status : Option Int32) (stderr : BoundedBytes) : CliError :=
  .backend code ("NanoVMS exited with code " ++ (status.elim "unknown" fun value => toString value.toInt) ++ "; stderr=" ++
    renderStderr stderr)

def resultFailure (error : CliError) (result : EvaluationResult) : EvaluationFailure :=
  { error := error, lifecycle := result.lifecycle }

/-- `match status.code()` -/
def exitResult (status : Option Int32) (stderr : BoundedBytes) (result : EvaluationResult) :
    Except EvaluationFailure EvaluationResult :=
  if status = some 0 ∨ status = some 4 then .ok result
  else if status = some 2 then .error (resultFailure (exitError "nvms_usage" status stderr) result)
  else if status = some 3 then .error (resultFailure (exitError "nvms_request_rejected" status stderr) result)
  else if status = some 5 then .error (resultFailure (exitError "nvms_encode_failed" status stderr) result)
  else .error (resultFailure (exitError "nvms_process_failed" status stderr) result)

variable (lib : Externals) (contentsOf : Bytes → Contents)

def joinReader (code : String) : Except IoError BoundedBytes → Except EvaluationFailure BoundedBytes
  | .ok captured => .ok captured
  | .error error => .error (.new lib (.io code error) [] [])

/-- `serde_json::from_slice`; `contentsOf` is what the crate makes of a text -/
def fromSlice (input : Bytes) : Except String EvaluationResult :=
  match contentsOf input with
  | .json value => match EvaluationResult.codec.decode value with
    | some result => .ok result
    | none => .error (lib.serdeError "EvaluationResult" (.json value))
  | .text text => .error (lib.serdeError "EvaluationResult" (.text text))

/-- the end of `execute`, from what was captured of both outputs -/
def finishExecute (waited : Except IoError (Option (Option Int32))) (stdout stderr : Except IoError BoundedBytes) :
    Except EvaluationFailure EvaluationResult := do
  let stdout ← joinReader lib "nvms_stdout_read" stdout
  let stderr ← joinReader lib "nvms_stderr_read" stderr
  match waited with
  | .error error => .error (.new lib (.io "nvms_wait" error) stdout.bytes stderr.bytes)
  | .ok none =>
    let failure := EvaluationFailure.new lib
      (.backend "nvms_timeout" ("NanoVMS exceeded outer timeout; stderr=" ++ renderStderr stderr)) stdout.bytes stderr.bytes
    .error { failure with
      lifecycle := { failure.lifecycle with timedOut := true, truncated := stdout.truncated || stderr.truncated } }
  | .ok (some status) =>
    if stdout.truncated then
      let failure := EvaluationFailure.new lib
        (.backend "nvms_response_too_large" "NanoVMS response exceeded the bounded response size") stdout.bytes stderr.bytes
      .error { failure with lifecycle := { failure.lifecycle with truncated := true } }
    else
      match fromSlice lib contentsOf stdout.bytes with
      | .error error =>
        .error (.new lib (.backend "nvms_malformed_response" (error ++ "; stderr=" ++ renderStderr stderr)) stdout.bytes
          stderr.bytes)
      | .ok result => exitResult status stderr result

/-- `execute`, for at most so many reads from each output -/
def ProcessEvaluationClient.executeWithin {ρ : Type} [Read IoError ρ] (reads : ℕ) (spawned : Except IoError (Child ρ)) :
    Option (Except EvaluationFailure EvaluationResult) :=
  match spawned with
  | .error error => some (.error (.new lib (.io "nvms_spawn" error) [] []))
  | .ok child =>
    match child.stdin, child.stdout, child.stderr with
    | none, _, _ => some (.error (.new lib (.backend "nvms_stdin" "NanoVMS stdin was unavailable") [] []))
    | some (.error error), _, _ => some (.error (.new lib (.io "nvms_request_write" error) [] []))
    | some (.ok _), none, _ => some (.error (.new lib (.backend "nvms_stdout" "NanoVMS stdout was unavailable") [] []))
    | some (.ok _), some _, none =>
      some (.error (.new lib (.backend "nvms_stderr" "NanoVMS stderr was unavailable") [] []))
    | some (.ok _), some stdout, some stderr => do
      let (stdout, _) ← readBoundedWithin reads stdout responseLimit
      let (stderr, _) ← readBoundedWithin reads stderr stderrLimit
      some (finishExecute lib contentsOf child.waited stdout stderr)

section
variable {lib contentsOf}

theorem exitResult_ok {status : Option Int32} {stderr : BoundedBytes} {parsed result : EvaluationResult}
    (h : exitResult status stderr parsed = .ok result) : (status = some 0 ∨ status = some 4) ∧ parsed = result := by
  unfold exitResult at h
  split_ifs at h with hstatus
  exact ⟨hstatus, Except.ok.inj h⟩

/-- what is accepted was read whole, from a process that ended in time -/
theorem finishExecute_ok {waited : Except IoError (Option (Option Int32))} {stream : Bytes}
    {stderr : Except IoError BoundedBytes} {result : EvaluationResult}
    (h : finishExecute lib contentsOf waited (.ok (capture responseLimit stream)) stderr = .ok result) :
    stream.length ≤ responseLimit ∧ fromSlice lib contentsOf stream = .ok result ∧
      ∃ status, waited = .ok (some status) ∧ (status = some 0 ∨ status = some 4) := by
  cases stderr with
  | error error => cases h
  | ok stderr =>
    rcases waited with error | _ | status
    · cases h
    · cases h
    · change (if (capture responseLimit stream).truncated then _ else _) = Except.ok result at h
      by_cases hcut : (capture responseLimit stream).truncated = true
      · rw [if_pos hcut] at h
        cases h
      · have hwhole : stream.length ≤ responseLimit := by simpa [capture] using hcut
        rw [if_neg hcut, capture, List.take_of_length_le hwhole] at h
        cases hparse : fromSlice lib contentsOf stream with
        | error error =>
          rw [hparse] at h
          cases h
        | ok parsed =>
          rw [hparse] at h
          obtain ⟨hstatus, rfl⟩ := exitResult_ok h
          exact ⟨hwhole, rfl, status, rfl, hstatus⟩

/-- a response over the limit is refused as such once the process has ended, and its evidence is marked as cut -/
theorem finishExecute_too_large {status : Option Int32} {stream : Bytes} (h : responseLimit < stream.length)
    (stderr : BoundedBytes) :
    ∃ failure, finishExecute lib contentsOf (.ok (some status)) (.ok (capture responseLimit stream)) (.ok stderr) =
        .error failure ∧
      failure.error.code = "nvms_response_too_large" ∧ failure.lifecycle.truncated = true := by
  have hcut : (capture responseLimit stream).truncated = true := decide_eq_true h
  exact ⟨_, if_pos hcut, rfl, rfl⟩

/-- **No answer is made of a cut response.** What the client accepts, it read from the whole of the output. -/
theorem executed_whole {ρ : Type} [Read IoError ρ] {child : Child ρ} {stdout rest : ρ} {pieces : List Bytes}
    (hstdout : child.stdout = some stdout) (h : Delivers readBuffer stdout pieces rest) {reads : ℕ}
    {result : EvaluationResult}
    (hexecute : ProcessEvaluationClient.executeWithin lib contentsOf reads (.ok child) = some (.ok result)) :
    pieces.flatten.length ≤ responseLimit ∧ fromSlice lib contentsOf pieces.flatten = .ok result := by
  obtain ⟨stdin, _, stderr, waited⟩ := child
  cases hstdout
  rcases stdin with _ | _ | ⟨⟨⟩⟩
  · cases hexecute
  · cases hexecute
  · cases stderr with
    | none => cases hexecute
    | some stderr =>
      obtain ⟨⟨captured, _⟩, hcaptured, hrest⟩ := Option.bind_eq_some_iff.1 hexecute
      obtain ⟨⟨captured', _⟩, -, hfinish⟩ := Option.bind_eq_some_iff.1 hrest
      rw [read_bounded_delivers responseLimit h] at hcaptured
      split_ifs at hcaptured with hreads
      cases hcaptured
      obtain ⟨hwhole, hparse, -⟩ := finishExecute_ok (Option.some.inj hfinish)
      exact ⟨hwhole, hparse⟩

end

end PhenoCompose
