/-
Where the output of an action goes, and what is checked of the directory a result names.

- `resolve_output_root_confined`: from an absolute workspace, a declared root that is accepted is a clean absolute path: the
  declared names below the workspace, or the declared path itself; resolving it again changes nothing, and ".." is refused
  wherever it stands.
- `job_directory_below_iff`: of the job directories that pass the check, exactly those that end in ".." do not lead strictly
  below the output root. The check compares the parent of the directory, which is what is left without the last component,
  ".." included.
-/
import PhenoCompose.ActionResults
import PhenoCompose.Core.Lexical
import PhenoCompose.Core.Split
import PhenoCompose.Core.Utf8

namespace PhenoCompose

open Core.Path Core.Process Core.Split Core.Text

/-! ## Normalizing -/

def traversalError : CliError :=
  .validation "action_output_root_traversal" "action output_root must not contain parent traversal"

theorem foldlM_pushComponent (cs : List Component) (normalized : PathBuf) :
    cs.foldlM pushComponent normalized =
      if .parentDir ∈ cs then Err traversalError else .ok ((cs.filter (· ≠ .curDir)).foldl PathBuf.push normalized) := by
  induction cs generalizing normalized with
  | nil => rfl
  | cons c cs ih =>
    rw [List.foldlM_cons]
    cases c with
    | parentDir =>
      rw [if_pos List.mem_cons_self]
      rfl
    | curDir => simpa [pushComponent] using ih normalized
    | rootDir => simpa [pushComponent, PathBuf.push] using ih (normalized.push .rootDir)
    | normal name => simpa [pushComponent, PathBuf.push] using ih (normalized.push (.normal name))

/-- an absolute path is normalized unless it contains ".." -/
theorem normalizeOutputRoot_eq {path : PathBuf} (h : path.isAbsolute = true) :
    normalizeOutputRoot path = if .parentDir ∈ path.components then Err traversalError else .ok path.rebuild := by
  rw [normalizeOutputRoot, foldlM_pushComponent]
  split_ifs with hdots
  · rfl
  · have habs : path.rebuild.isAbsolute = true := (rebuild_spec h hdots).1.absolute
    rw [ok_bind, ← PathBuf.rebuild, habs]
    rfl

/-! ## Resolving -/

/-- the path that is normalized: the declared root, below the workspace if it is relative -/
def joinedRoot (workspaceBase : PathBuf) (declared : String) : PathBuf :=
  if (PathBuf.ofStr declared).isAbsolute then PathBuf.ofStr declared else workspaceBase.join (.ofStr declared)

theorem joinedRoot_absolute {base : PathBuf} (hbase : base.isAbsolute = true) (declared : String) :
    (joinedRoot base declared).isAbsolute = true := by
  unfold joinedRoot
  split_ifs with h
  · exact h
  · exact (components_join hbase (by simpa using h)).1

/-- from an absolute workspace nothing is asked of the environment -/
theorem resolveOutputRoot_eq {base : PathBuf} (hbase : base.isAbsolute = true) (declared : String) :
    resolveOutputRoot base declared =
      if trim declared = "" then fail (.validation "action_output_root_empty" "action output_root must not be empty")
      else if .parentDir ∈ (joinedRoot base declared).components then fail traversalError
      else pure (joinedRoot base declared).rebuild := by
  have hroot : ¬((PathBuf.ofStr declared).hasRoot = true ∧ (PathBuf.ofStr declared).isAbsolute = false) := by
    rintro ⟨hroot, habs⟩
    rw [PathBuf.isAbsolute, hroot] at habs
    cases habs
  have hnormalize := normalizeOutputRoot_eq (joinedRoot_absolute hbase declared)
  unfold joinedRoot at hnormalize ⊢
  simp only [resolveOutputRoot, refuseIf, if_neg hroot, absolutePath, if_pos hbase]
  by_cases hblank : trim declared = ""
  · rw [if_pos hblank, if_pos hblank]
    rfl
  · rw [if_neg hblank, if_neg hblank]
    refine (congrArg (fun x : Result PathBuf => (liftM x : Proc CliError PathBuf)) hnormalize).trans ?_
    split_ifs <;> rfl

/-- what is known of an accepted root -/
structure Confined (base : PathBuf) (declared : String) (p : PathBuf) : Prop where
  clean : Clean p
  relative : (PathBuf.ofStr declared).isAbsolute = false →
    p.components = base.components ++ (PathBuf.ofStr declared).components.filter Component.isNormal
  absolute : (PathBuf.ofStr declared).isAbsolute = true → p.components = (PathBuf.ofStr declared).components ∧
    ∀ other : PathBuf, other.isAbsolute = true → resolveOutputRoot other declared = pure p
  again : normalizeOutputRoot p = .ok p ∧ ∀ (other : PathBuf) (text : String), other.isAbsolute = true →
    p.toStr = some text → resolveOutputRoot other text = pure p

/-- a text that names a clean path in its own normal form resolves to it -/
theorem resolve_clean {p other : PathBuf} {text : String} (hclean : Clean p) (hrebuild : p.rebuild = p)
    (hother : other.isAbsolute = true) (htext : p.toStr = some text) : resolveOutputRoot other text = pure p := by
  have hof := ofStr_toStr htext
  have hdots : .parentDir ∉ p.components := fun h => (hclean.no_dots _ h).2 rfl
  obtain ⟨rest, hrest⟩ : ∃ rest, bytes text = sep :: rest := by
    have habs : (PathBuf.ofStr text).inner.head? = some sep := beq_iff_eq.1 (hof ▸ hclean.absolute)
    exact List.head?_eq_some_iff.1 habs
  have hblank : trim text ≠ "" := by
    obtain ⟨cs, hcs⟩ := ascii_head hrest (by decide)
    exact trim_ne_empty (hcs ▸ List.mem_cons_self) (by decide)
  have hjoined : joinedRoot other text = p := by
    rw [joinedRoot, hof, if_pos hclean.absolute]
  rw [resolveOutputRoot_eq hother, hjoined, if_neg hblank, if_neg hdots, hrebuild]

/-- where ".." stands in the path that is normalized -/
theorem parent_dir_mem_joined {base : PathBuf} (hbase : base.isAbsolute = true) (declared : String) :
    .parentDir ∈ (joinedRoot base declared).components ↔ .parentDir ∈ (PathBuf.ofStr declared).components ∨
      (PathBuf.ofStr declared).isAbsolute = false ∧ .parentDir ∈ base.components := by
  unfold joinedRoot
  split_ifs with h
  · simp [h]
  · have hrel : (PathBuf.ofStr declared).isAbsolute = false := by simpa using h
    rw [(components_join hbase hrel).2, List.mem_append, List.mem_filter]
    simp [hrel, or_comm]

theorem filter_normal {p : PathBuf} (habs : p.isAbsolute = false) (hdots : .parentDir ∉ p.components) :
    p.components.filter (· ≠ .curDir) = p.components.filter Component.isNormal := by
  apply List.filter_congr
  intro c hc
  cases c with
  | normal name => rfl
  | curDir => rfl
  | parentDir => exact absurd hc hdots
  | rootDir => exact absurd hc (root_not_mem_relative habs)

theorem confined_rebuild {base : PathBuf} (hbase : base.isAbsolute = true) {declared : String} (hblank : trim declared ≠ "")
    (hdots : .parentDir ∉ (joinedRoot base declared).components) :
    Confined base declared (joinedRoot base declared).rebuild := by
  have habs := joinedRoot_absolute hbase declared
  obtain ⟨hclean, hsame, hagain⟩ := rebuild_spec habs hdots
  refine ⟨hclean, ?_, ?_, ?_, fun other text hother => resolve_clean hclean hagain hother⟩
  · intro hrel
    rw [parent_dir_mem_joined hbase, not_or] at hdots
    have hjoined : joinedRoot base declared = base.join (.ofStr declared) := if_neg (by simp [hrel])
    rw [hsame, hjoined, (components_join hbase hrel).2, filter_normal hrel hdots.1]
  · intro habs'
    have hjoined : ∀ other, joinedRoot other declared = .ofStr declared := fun _ => if_pos habs'
    rw [hjoined] at hsame hdots ⊢
    refine ⟨hsame, ?_⟩
    intro other hother
    rw [resolveOutputRoot_eq hother, hjoined, if_neg hblank, if_neg hdots]
  · rw [normalizeOutputRoot_eq hclean.absolute, if_neg fun h => (hclean.no_dots _ h).2 rfl, hagain]

/-- **An output root cannot escape the workspace.** From an absolute workspace a declared root is accepted unless it is blank
or there is ".." in it, or in the workspace it is relative to; and what is accepted is confined. -/
theorem resolve_output_root_confined {base : PathBuf} (hbase : base.isAbsolute = true) (declared : String) :
    (∀ p, resolveOutputRoot base declared = pure p → Confined base declared p) ∧
      ((∃ p, resolveOutputRoot base declared = pure p) ↔
        trim declared ≠ "" ∧ .parentDir ∉ (PathBuf.ofStr declared).components ∧
          ((PathBuf.ofStr declared).isAbsolute = false → .parentDir ∉ base.components)) ∧
      ((¬∃ p, resolveOutputRoot base declared = pure p) →
        ∃ error, resolveOutputRoot base declared = fail error) := by
  have hdots : (.parentDir ∉ (PathBuf.ofStr declared).components ∧
      ((PathBuf.ofStr declared).isAbsolute = false → .parentDir ∉ base.components)) ↔
      .parentDir ∉ (joinedRoot base declared).components := by
    rw [parent_dir_mem_joined hbase, not_or, not_and]
  have hfail : ∀ (error : CliError) (p : PathBuf), (fail error : Proc CliError PathBuf) ≠ pure p := nofun
  rw [hdots, resolveOutputRoot_eq hbase]
  split_ifs with hblank hparent
  · refine ⟨fun p h => absurd h (hfail _ p), ?_, fun _ => ⟨_, rfl⟩⟩
    exact iff_of_false (fun ⟨p, h⟩ => hfail _ p h) fun h => h.1 hblank
  · refine ⟨fun p h => absurd h (hfail _ p), ?_, fun _ => ⟨_, rfl⟩⟩
    exact iff_of_false (fun ⟨p, h⟩ => hfail _ p h) fun h => h.2 hparent
  · refine ⟨?_, iff_of_true ⟨_, rfl⟩ ⟨hblank, hparent⟩, fun h => absurd ⟨_, rfl⟩ h⟩
    intro p hp
    cases hp
    exact confined_rebuild hbase hblank hparent

theorem resolve_output_root_example : ∃ p, resolveOutputRoot (.ofStr "/work") "runs//./out/" = pure p ∧ Clean p ∧
    p.components = [.rootDir, .normal (bytes "work"), .normal (bytes "runs"), .normal (bytes "out")] := by
  have hbase : (PathBuf.ofStr "/work").isAbsolute = true := by decide
  obtain ⟨hconfined, haccepted, -⟩ := resolve_output_root_confined hbase "runs//./out/"
  obtain ⟨p, hp⟩ := haccepted.2 ⟨by decide, by decide, by decide⟩
  exact ⟨p, hp, (hconfined p hp).clean, (hconfined p hp).relative (by decide)⟩

/-! ## Job directories -/

variable (lib : Externals)

/-- **An attested job directory is below the output root unless it ends in "..".** This holds for every request, so for those
whose output root was resolved. -/
theorem job_directory_below_iff {request : EvaluationRequest} {result : EvaluationResult}
    (hvalid : validateEvaluationResult lib request result = .ok ()) (hdirectory : result.provenance.jobDirectory ≠ "") :
    StrictlyBelow (.ofStr request.outputRoot) (.ofStr result.provenance.jobDirectory) ↔
      (PathBuf.ofStr result.provenance.jobDirectory).components.getLast? ≠ some .parentDir := by
  obtain ⟨habsolute, hparent⟩ := ((validateEvaluationResult_ok_iff lib).1 hvalid).jobDirectory hdirectory
  exact below_iff habsolute hparent

/-- a request with this output root, and otherwise for the result `cleanResult` -/
def requestBelow (outputRoot : String) : EvaluationRequest where
  version := actionVersion
  backend := "podman"
  fallbackBackends := []
  manifestSha256 := cleanResult.provenance.manifestSha256
  executable := "python"
  argv := []
  environment := ∅
  externalEngineToken := "docker"
  podmanPipe := defaultPodmanPipe
  wslDistribution := ""
  outputRoot := outputRoot
  reservationPath := "/work/nanovms-gpu-reservations.json"
  lockInvocation := ["python"]
  resourceManifest :=
    { version := resourceVersion
      gpus := []
      artifact := { cudaToolkit := "12.4", compiledKernels := true } }
  gpuBindings := [{ uuid := uuidA, cdiDevice := "nvidia.com/gpu=" ++ uuidA, cudaToolkit := "12.4" }]
  timeoutMillis := 300000
  maxOutputBytes := 1048576

/-- `cleanResult` with this job directory -/
def resultIn (jobDirectory : String) : EvaluationResult :=
  { cleanResult with provenance := { cleanResult.provenance with jobDirectory := jobDirectory } }

/-- of such a result only the job directory is left to check -/
theorem attested_in {outputRoot jobDirectory : String}
    (h : jobDirectory ≠ "" → jobDirectoryMatches outputRoot jobDirectory) :
    validateEvaluationResult .standard (requestBelow outputRoot) (resultIn jobDirectory) = .ok () := by
  have hstdout : validateEvidenceHash .standard "stdout" (bytes cleanResult.lifecycle.stdout)
      cleanResult.lifecycle.stdoutSha256 = .ok () := by decide +kernel
  have hstderr : validateEvidenceHash .standard "stderr" (bytes cleanResult.lifecycle.stderr)
      cleanResult.lifecycle.stderrSha256 = .ok () := by decide +kernel
  refine (validateEvaluationResult_ok_iff .standard).2 ?_
  exact {
    version := rfl
    manifestSha256 := eqIgnoreAsciiCase_refl _
    effectiveEngine := rfl
    resolvedProvider := rfl
    executionPlane := rfl
    podmanPipe := rfl
    jobDirectory := h
    gpuUuids := fun _ => Iff.rfl
    gpuUuids_nodup := List.nodup_singleton uuidA
    duration_nonneg := show (0 : Int64) ≤ 1200 by decide
    duration_le := show (1200 : Int64) ≤ 300000 by decide
    stdout_le := show cleanResult.lifecycle.stdout.utf8ByteSize ≤ 1048576 by decide
    stderr_le := show cleanResult.lifecycle.stderr.utf8ByteSize ≤ 1048576 by decide
    stdoutSha256 := hstdout
    stderrSha256 := hstderr
    success := fun _ => ⟨rfl, rfl, rfl, rfl, rfl, rfl⟩ }

theorem job_directory_example :
    StrictlyBelow (.ofStr (requestBelow "/work/out").outputRoot)
      (.ofStr (resultIn "/work/out/job-1").provenance.jobDirectory) := by
  have hvalid : validateEvaluationResult .standard (requestBelow "/work/out") (resultIn "/work/out/job-1") = .ok () :=
    attested_in fun _ => by decide
  exact (job_directory_below_iff .standard hvalid (by decide)).2 (by decide)

/-- the job directory "/work/out/.." is accepted, and is not below "/work/out" -/
theorem parent_directory_accepted :
    ∃ p, resolveOutputRoot (.ofStr "/work") "out" = pure p ∧ pathString p = .ok (requestBelow "/work/out").outputRoot ∧
      validateEvaluationResult .standard (requestBelow "/work/out") (resultIn "/work/out/..") = .ok () ∧
      ¬StrictlyBelow (.ofStr "/work/out") (.ofStr (resultIn "/work/out/..").provenance.jobDirectory) := by
  have hresolved : resolveOutputRoot (.ofStr "/work") "out" = pure (.ofStr "/work/out") := by
    rw [resolveOutputRoot_eq (by decide), if_neg (by decide), if_neg (by decide)]
    exact congrArg pure (by decide)
  have htext : pathString (.ofStr "/work/out") = .ok "/work/out" := by
    have hstr : (PathBuf.ofStr "/work/out").toStr = some "/work/out" := toStr_bytes "/work/out"
    rw [pathString, hstr]
  refine ⟨_, hresolved, htext, attested_in fun _ => by decide, ?_⟩
  rw [below_iff (by decide) (by decide)]
  decide

end PhenoCompose
