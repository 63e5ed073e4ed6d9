/-
What the digest of a plan identifies.

- `canonicalize_canonical_form`: the value that is hashed tells values apart exactly up to the order of the members of their
  objects.
- `plan_identifies_manifest`: the hashed text of two manifests is the same exactly when they agree after every GPU selector
  is replaced by its canonical form, where the JSON writer maps different values to different texts; and planning the
  normalized manifest gives the same plan again.

Nothing is dropped, defaulted or merged on the way: the codec of a manifest reads back what it wrote, and so does every
codec below it.
-/
import PhenoCompose.Plan
import PhenoCompose.GpuSelector
import PhenoCompose.Core.JsonText
import PhenoCompose.Core.JsonOrder

namespace PhenoCompose

open Core.Collections Core.Json Core.Process Core.Text

/-! ## No floating-point numbers -/

section
open Codec Fields

theorem optionString_integral : optionString.Integral := integral_option integral_string

theorem Metadata.integral : Metadata.codec.Integral :=
  integral_record <| integral_and (integral_field integral_string) (integral_field (integral_btreeMap integral_string))

theorem Toolkit.integral : Toolkit.codec.Integral :=
  integral_record <| integral_and (integral_field integral_string) (integral_field integral_string)

theorem Environment.integral : Environment.codec.Integral :=
  integral_record <| integral_and (integral_field integral_variants) <| integral_and (integral_field Toolkit.integral)
    (integral_field (integral_btreeMap integral_string))

theorem PortageCompatibility.integral : PortageCompatibility.codec.Integral :=
  integral_record <| integral_and (integral_field integral_variants) (integral_field integral_variants)

theorem RuntimeSpec.integral : RuntimeSpec.codec.Integral :=
  integral_record <| integral_and (integral_field integral_variants) <| integral_and (integral_field integral_string) <|
    integral_and (integral_field optionString_integral) (integral_field (integral_option PortageCompatibility.integral))

theorem ProviderDeclaration.integral : ProviderDeclaration.codec.Integral :=
  integral_record <| integral_and (integral_field integral_string) <| integral_and (integral_field integral_variants)
    (integral_field optionString_integral)

theorem GpuRequirements.integral : GpuRequirements.codec.Integral :=
  integral_record <| integral_and (integral_field integral_variants) (integral_field (integral_vec integral_string))

theorem ResourceRequirements.integral : ResourceRequirements.codec.Integral :=
  integral_record <| integral_and (integral_field (integral_option integral_integer)) <|
    integral_and (integral_field (integral_option integral_integer))
      (integral_field (integral_option GpuRequirements.integral))

theorem HealthCheck.integral : HealthCheck.codec.Integral :=
  integral_record <| integral_and (integral_field (integral_vec integral_string)) <|
    integral_and (integral_field integral_integer) <| integral_and (integral_field integral_integer)
      (integral_field integral_integer)

theorem Service.integral : Service.codec.Integral :=
  integral_record <| integral_and (integral_field integral_string) <|
    integral_and (integral_field (integral_vec integral_string)) <|
    integral_and (integral_field (integral_vec integral_string)) <|
    integral_and (integral_field (integral_btreeMap integral_string)) <|
    integral_and (integral_field (integral_option ResourceRequirements.integral))
      (integral_field (integral_option HealthCheck.integral))

theorem Action.integral : Action.codec.Integral :=
  integral_record <| integral_and (integral_field integral_string) <|
    integral_and (integral_field (integral_vec integral_string)) (integral_field optionString_integral)

theorem Artifact.integral : Artifact.codec.Integral :=
  integral_record <| integral_and (integral_field integral_string) <| integral_and (integral_field integral_variants) <|
    integral_and (integral_field integral_string) (integral_field integral_string)

theorem Teardown.integral : Teardown.codec.Integral :=
  integral_record <| integral_and (integral_field (integral_vec integral_string)) (integral_field integral_bool)

theorem ProvenanceRequirements.integral : ProvenanceRequirements.codec.Integral :=
  integral_record <| integral_and (integral_field integral_bool) <| integral_and (integral_field integral_variants)
    (integral_field integral_btreeSet)

theorem CompositionManifest.integral : CompositionManifest.codec.Integral :=
  integral_record <| integral_and (integral_field integral_string) <| integral_and (integral_field integral_variants) <|
    integral_and (integral_field Metadata.integral) <| integral_and (integral_field Environment.integral) <|
    integral_and (integral_field RuntimeSpec.integral) <|
    integral_and (integral_field (integral_btreeMap ProviderDeclaration.integral)) <|
    integral_and (integral_field (integral_btreeMap Service.integral)) <|
    integral_and (integral_field (integral_btreeMap Action.integral)) <|
    integral_and (integral_field (integral_vec Artifact.integral)) <|
    integral_and (integral_field Teardown.integral) (integral_field ProvenanceRequirements.integral)

end

/-! ## The canonical form of a selector -/

theorem canonical_selectors {manifest : CompositionManifest} (h : manifest.Selectors (canonicalGpuUuid · ≠ none)) :
    manifest.canonical.Selectors fun uuid => canonicalGpuUuid uuid = some uuid := by
  intro name service hservice uuid huuid
  rw [CompositionManifest.canonical, Std.ExtTreeMap.getElem?_map] at hservice
  obtain ⟨original, horiginal, rfl⟩ := Option.map_eq_some_iff.1 hservice
  have hmap : (original.mapUuids canonicalOrSelf).gpuUuids = original.gpuUuids.map canonicalOrSelf := by
    obtain ⟨image, dependsOn, command, environment, resources, healthCheck⟩ := original
    rcases resources with _ | ⟨cpu, memory, _ | ⟨vendor, uuids⟩⟩ <;> rfl
  rw [hmap] at huuid
  obtain ⟨selector, hselector, rfl⟩ := List.mem_map.1 huuid
  obtain ⟨canonical, hcanonical⟩ := Option.ne_none_iff_exists'.1 (h name original horiginal selector hselector)
  rw [canonicalOrSelf, hcanonical]
  exact canonical_idempotent hcanonical

/-! ## Canonical JSON -/

/-- **The canonical form of a value is one.** Values have the same one exactly when they differ in the order of members,
at any depth, only; it is one of those orders, is its own canonical form, and leaves scalars and the order of arrays. -/
theorem canonicalize_canonical_form {v w : Value} (hv : Distinct v) (hw : Distinct w) :
    (canonicalize v = canonicalize w ↔ Reordered v w) ∧ Reordered v (canonicalize v) ∧
      canonicalize (canonicalize v) = canonicalize v ∧ (∀ u : Value, u.isScalar = true → canonicalize u = u) ∧
      ∀ values, canonicalize (.array values) = .array (values.map canonicalize) :=
  ⟨canonicalize_eq_iff hv hw, reordered_canonicalize hv, canonicalize_idem hv, fun _ => canonicalize_scalar,
    canonicalize_array⟩

/-- an object below an array -/
def listed (members : List (String × Value)) : Value := .object [("list", .array [.object members])]

theorem listed_distinct {members : List (String × Value)} (hkeys : (members.map Prod.fst).Nodup)
    (h : ∀ m ∈ members, m.2.isScalar = true) : Distinct (listed members) := by
  refine .object (List.nodup_singleton _) (List.forall_mem_singleton.2 ?_)
  refine .array (List.forall_mem_singleton.2 ?_)
  exact .object hkeys fun m hm => .scalar (h m hm)

theorem canonical_form_example :
    canonicalize (listed [("b", .number 1), ("a", .null)]) = canonicalize (listed [("a", .null), ("b", .number 1)]) ∧
      canonicalize (canonicalize (listed [("b", .number 1), ("a", .null)])) =
        canonicalize (listed [("b", .number 1), ("a", .null)]) := by
  obtain ⟨hiff, -, hidem, -⟩ := canonicalize_canonical_form
    (@listed_distinct [("b", .number 1), ("a", .null)] (by decide) (by simp [Value.isScalar]))
    (@listed_distinct [("a", .null), ("b", .number 1)] (by decide) (by simp [Value.isScalar]))
  refine ⟨hiff.2 ?_, hidem⟩
  have hmembers : Reordered (.object [("b", .number 1), ("a", .null)]) (.object [("a", .null), ("b", .number 1)]) := by
    refine @Reordered.object [("b", .number 1, .number 1), ("a", .null, .null)] _ ?_ (List.Perm.swap _ _ _)
    rw [List.forall_mem_cons, List.forall_mem_singleton]
    exact ⟨.scalar rfl, .scalar rfl⟩
  refine @Reordered.object [("list", _, _)] _ ?_ (List.Perm.refl _)
  rw [List.forall_mem_singleton]
  exact @Reordered.array [(_, _)] (List.forall_mem_singleton.2 hmembers)

/-! ## The digest -/

variable (lib : Externals)

/-- **The digest of a plan identifies the manifest.** -/
theorem plan_identifies_manifest
    (hjson : ∀ {v w : Value}, Integral v → Integral w → lib.toVec v = lib.toVec w → v = w)
    {m₁ m₂ : CompositionManifest} {p₁ p₂ : Plan} (h₁ : m₁.plan lib = .ok p₁) (h₂ : m₂.plan lib = .ok p₂) :
    p₁.manifestSha256 = lib.sha256Hex (m₁.canonicalBytes lib) ∧
      p₂.manifestSha256 = lib.sha256Hex (m₂.canonicalBytes lib) ∧
      (m₁.canonicalBytes lib = m₂.canonicalBytes lib ↔ m₁.canonical = m₂.canonical) ∧
      p₁.normalized.plan lib = .ok p₁ := by
  obtain ⟨hs₁, rfl⟩ := (plan_ok_iff lib).1 h₁
  obtain ⟨hs₂, rfl⟩ := (plan_ok_iff lib).1 h₂
  refine ⟨rfl, rfl, ⟨?_, ?_⟩, ?_⟩
  · intro hbytes
    exact Codec.canonical_text_inj CompositionManifest.integral hjson hbytes
  · intro hcanonical
    rw [CompositionManifest.canonicalBytes, hcanonical, CompositionManifest.canonicalBytes]
  · have hselectors := canonical_selectors hs₁
    have hself := canonical_eq_self hselectors
    refine (plan_ok_iff lib).2 ⟨fun name service hs uuid hu => ?_, ?_⟩
    · intro hnone
      exact Option.some_ne_none uuid ((hselectors name service hs uuid hu).symm.trans hnone)
    · rw [hself, CompositionManifest.canonicalBytes, CompositionManifest.canonicalBytes, hself]

theorem plan_identifies_example : ∃ p₁ p₂, demo.plan .standard = .ok p₁ ∧
    (twoServices "demo" uuidA [] "db").plan .standard = .ok p₂ ∧
    p₁.manifestSha256 = Externals.standard.sha256Hex (demo.canonicalBytes .standard) ∧
    demo.canonicalBytes .standard ≠ (twoServices "demo" uuidA [] "db").canonicalBytes .standard ∧
    p₁.normalized.plan .standard = .ok p₁ := by
  have hv₁ := (validate_ok_iff .standard).1 demo_valid
  have hv₂ := (validate_ok_iff .standard).1 (rfl : (twoServices "demo" uuidA [] "db").validate .standard = .ok ())
  obtain ⟨hsha, -, hiff, hagain⟩ := plan_identifies_manifest .standard (fun hv hw h => toVec_injective hv hw h)
    (hv₁.plan_eq .standard) (hv₂.plan_eq .standard)
  refine ⟨_, _, hv₁.plan_eq .standard, hv₂.plan_eq .standard, hsha, fun hbytes => ?_, hagain⟩
  have haction := congrArg (fun m : CompositionManifest => m.actions["evaluate"]?) (hiff.1 hbytes)
  exact absurd haction (by decide)

end PhenoCompose
