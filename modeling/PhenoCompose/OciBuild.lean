/-
`oci.rs`: `with_tag` and `with_digest`, and what `parse` makes of what they build.

- `parse_toString`: a reference that the three cuts leave alone is read back from its text.
- `constructors_read_back`: the parts handed to the constructors come back, unless the registry is the empty text.
-/
import PhenoCompose.Oci

namespace PhenoCompose.Oci

open Core.Process Core.Split Core.Text

/-! ## Model -/

def withTag (registry : Option String) (repository tag : String) : String :=
  let s := match registry with
    | some reg => reg ++ "/"
    | none => ""
  s ++ repository ++ ":" ++ tag

def withDigest (registry : Option String) (repository digest : String) : String :=
  let s := match registry with
    | some reg => reg ++ "/"
    | none => ""
  s ++ repository ++ "@" ++ digest

theorem withTag_eq (registry : Option String) (repository tag : String) :
    withTag registry repository tag = Reference.toString ⟨registry, repository, some tag, none⟩ := by
  cases registry <;> rfl

theorem withDigest_eq (registry : Option String) (repository digest : String) :
    withDigest registry repository digest = Reference.toString ⟨registry, repository, none, some digest⟩ := by
  cases registry <;> rfl

/-! ## Reading a printed reference back -/

/-- the text of a reference before its digest -/
def Reference.name (r : Reference) : List Char := registryText r.registry ++ r.repository.toList ++ tagText r.tag

/-- a reference that is cut where it was put together -/
structure Reference.Printable (r : Reference) : Prop where
  trimmed : trim r.toString = r.toString
  nonempty : r.repository ≠ ""
  name : '@' ∉ r.name
  digest : ∀ d ∈ r.digest, HasAlgorithm d
  tag : ∀ t ∈ r.tag, t ≠ "" ∧ ':' ∉ t.toList ∧ '/' ∉ t.toList
  untagged : r.tag = none → ¬EndsInTag r.name
  registry : ∀ reg ∈ r.registry, '/' ∉ reg.toList ∧ ('.' ∈ reg.toList ∨ ':' ∈ reg.toList)
  unregistered : r.registry = none → ¬BeginsWithRegistry r.repository.toList

theorem parse_toString {r : Reference} (h : r.Printable) : parse r.toString = .ok r := by
  obtain ⟨he, hnot⟩ := parts_eq r.toString
  rw [h.trimmed, toString_toList] at he
  have hname : r.name = (String.ofList r.name).toList := String.toList_ofList.symm
  obtain ⟨hn, hd⟩ := digest_unique (a := String.ofList r.name) (d := r.digest)
    (by rw [← hname]; exact he) (by rw [← hname]; exact h.name) hnot
  rw [parse_eq, ← hn, ← hd]
  refine ⟨h.digest, rfl, String.ofList (registryText r.registry ++ r.repository.toList), ?_, ?_⟩
  · rw [splitTag_eq, ← hname, String.toList_ofList]
    refine ⟨?_, rfl, h.tag, h.untagged⟩
    intro hempty
    have hnil := ofList_eq_empty.1 hempty
    rw [Reference.name, List.append_eq_nil_iff, List.append_eq_nil_iff] at hnil
    exact h.nonempty (toList_eq_nil.1 hnil.1.2)
  · rw [splitRegistry_eq, String.toList_ofList]
    refine ⟨rfl, h.registry, ?_⟩
    intro hnone
    rw [hnone]
    exact h.unregistered hnone

/-! ## The constructors -/

/-- `.` or `:` in it, which is how `parse` tells a registry -/
def LooksLikeHost (segment : List Char) : Prop := '.' ∈ segment ∨ ':' ∈ segment

/-- the parts a caller may hand to a constructor; an empty registry stands for none -/
structure Constructible (registry : Option String) (repository : String) : Prop where
  nonempty : repository ≠ ""
  characters : ∀ c ∈ repository.toList, isWhitespace c = false ∧ c ≠ ':' ∧ c ≠ '@'
  segments : [] ∉ repository.toList.splitOn '/'
  host : ∀ reg ∈ registry, reg ≠ "" →
    LooksLikeHost reg.toList ∧ ∀ c ∈ reg.toList, c ≠ '/' ∧ c ≠ '@' ∧ isWhitespace c = false
  unlike_host : (∀ reg ∈ registry, reg = "") →
    ∀ first ∈ (repository.toList.splitOn '/').head?, ¬LooksLikeHost first

/-- a usable tag -/
structure IsTag (tag : String) : Prop where
  nonempty : tag ≠ ""
  characters : ∀ c ∈ tag.toList, c ≠ '/' ∧ c ≠ ':' ∧ c ≠ '@' ∧ isWhitespace c = false

/-- both constructors are undone by `parse` -/
def ReadsBack (registry : Option String) (repository tag digest : String) : Prop :=
  parse (withTag registry repository tag) = .ok ⟨registry.filter (· ≠ ""), repository, some tag, none⟩ ∧
    parse (withDigest registry repository digest) = .ok ⟨registry.filter (· ≠ ""), repository, none, some digest⟩

section
variable {registry : Option String} {repository tag digest : String}

/-- a constructible repository on its own does not begin with a registry -/
theorem Constructible.unregistered (h : Constructible registry repository) (hnone : registry = none) :
    ¬BeginsWithRegistry repository.toList := by
  intro hb
  obtain ⟨host, rest, he, hnot, hmarked⟩ := hb
  have hfirst : (repository.toList.splitOn '/').head? = some host := by
    rw [he, List.splitOn_append_cons_self, List.splitOn_eq_singleton hnot]
    rfl
  exact h.unlike_host (by simp [hnone]) host (by rw [hfirst]; rfl) hmarked

/-- the last colon of a name without a tag is the port of its registry, before the last slash -/
theorem Constructible.untagged (h : Constructible registry repository) :
    ¬EndsInTag (registryText registry ++ repository.toList) := by
  have hcolon : ':' ∉ repository.toList := fun hm => (h.characters ':' hm).2.1 rfl
  intro he
  obtain ⟨front, t, he, -, -, hslash⟩ := he
  rcases List.append_eq_append_iff.1 he with ⟨middle, hfront, hrest⟩ | ⟨middle, hfront, hrest⟩
  · exact hcolon (hrest ▸ by simp)
  · cases registry with
    | none =>
      obtain ⟨-, rfl⟩ := List.append_eq_nil_iff.1 hfront.symm
      exact hcolon (by rw [← List.nil_append repository.toList, ← hrest]; exact List.mem_cons_self)
    | some reg =>
      rcases List.eq_nil_or_concat middle with rfl | ⟨middle, c, rfl⟩
      · exact hcolon (by rw [← List.nil_append repository.toList, ← hrest]; exact List.mem_cons_self)
      · -- what is before the repository ends in a slash, and so does what is before it of the tag
        have hlast : '/' = c := by
          rw [registryText, Option.elim_some, List.concat_eq_append, ← List.append_assoc] at hfront
          exact List.singleton_inj.1 (List.append_inj_right' hfront rfl)
        have hmem : '/' ∈ ':' :: t := by
          rw [hrest, hlast]
          simp
        exact hslash ((List.mem_cons.1 hmem).resolve_left (by decide))

/-- no character of the name of a constructible reference is white space or `@` -/
theorem Constructible.name (h : Constructible registry repository) {tag : Option String} (ht : ∀ t ∈ tag, IsTag t) :
    ∀ c ∈ registryText registry ++ repository.toList ++ tagText tag, isWhitespace c = false ∧ c ≠ '@' := by
  intro c hc
  rw [List.mem_append, List.mem_append] at hc
  rcases hc with (hc | hc) | hc
  · cases registry with
    | none => cases hc
    | some reg =>
      rw [registryText, Option.elim_some, List.mem_append, List.mem_singleton] at hc
      rcases hc with hc | rfl
      · have hne : reg ≠ "" := by
          rintro rfl
          cases hc
        obtain ⟨-, hat, hws⟩ := (h.host reg rfl hne).2 c hc
        exact ⟨hws, hat⟩
      · decide
  · exact ⟨(h.characters c hc).1, (h.characters c hc).2.2⟩
  · cases tag with
    | none => cases hc
    | some t =>
      rw [tagText, Option.elim_some, List.mem_cons] at hc
      rcases hc with rfl | hc
      · decide
      · obtain ⟨-, -, hat, hws⟩ := (ht t rfl).characters c hc
        exact ⟨hws, hat⟩

/-- a digest ends in a hexadecimal digit -/
theorem digestText_last {d : Option String} (hd : ∀ x ∈ d, IsHexDigest x) {c : Char}
    (hc : c ∈ (digestText d).getLast?) : isWhitespace c = false := by
  cases d with
  | none => cases hc
  | some d =>
    obtain ⟨algorithm, hex, he, -, -, hne, hall⟩ := hd d rfl
    rw [digestText, Option.elim_some, he, ← List.cons_append, List.getLast?_append_of_ne_nil _ (List.cons_ne_nil _ _),
      List.getLast?_cons_of_ne_nil hne] at hc
    exact hexdigit_not_whitespace (hall c (List.mem_of_getLast? hc))

/-- there is no white space around a constructed reference -/
theorem Constructible.trimmed (h : Constructible registry repository) {tag digest : Option String}
    (ht : ∀ t ∈ tag, IsTag t) (hd : ∀ d ∈ digest, IsHexDigest d) :
    trim (Reference.toString ⟨registry, repository, tag, digest⟩) =
      Reference.toString ⟨registry, repository, tag, digest⟩ := by
  have hname := h.name ht
  have hne : registryText registry ++ repository.toList ++ tagText tag ≠ [] := by
    intro hnil
    rw [List.append_eq_nil_iff, List.append_eq_nil_iff] at hnil
    exact h.nonempty (toList_eq_nil.1 hnil.1.2)
  apply trim_eq_self
  · intro c hc
    rw [toString_toList, List.head?_append_of_ne_nil _ hne] at hc
    exact (hname c (List.mem_of_head? hc)).1
  · intro c hc
    rw [toString_toList, List.getLast?_append, Option.mem_def, Option.or_eq_some_iff] at hc
    rcases hc with hc | ⟨-, hc⟩
    · exact digestText_last hd hc
    · exact (hname c (List.mem_of_getLast? hc)).1

/-- what a constructor is given, with a tag or with a digest -/
theorem Constructible.printable (h : Constructible registry repository) (hreg : registry ≠ some "")
    {tag digest : Option String} (ht : ∀ t ∈ tag, IsTag t) (hd : ∀ d ∈ digest, IsHexDigest d) :
    Reference.Printable ⟨registry, repository, tag, digest⟩ where
  trimmed := h.trimmed ht hd
  nonempty := h.nonempty
  name hat := (h.name ht '@' hat).2 rfl
  digest d hmem := by
    obtain ⟨algorithm, hex, he, hnot, hne, -⟩ := hd d hmem
    exact ⟨algorithm, hex, he, hnot, hne⟩
  tag t hmem :=
    ⟨(ht t hmem).nonempty, fun hc => ((ht t hmem).characters ':' hc).2.1 rfl,
      fun hc => ((ht t hmem).characters '/' hc).1 rfl⟩
  untagged hnone := by
    obtain rfl : tag = none := hnone
    rw [Reference.name, tagText, Option.elim_none, List.append_nil]
    exact h.untagged
  registry reg hmem := by
    obtain ⟨hhost, hall⟩ := h.host reg hmem fun he => hreg (by rw [← he]; exact hmem)
    exact ⟨fun hc => (hall '/' hc).1 rfl, hhost⟩
  unregistered := h.unregistered

/-- an empty registry leaves its slash in the text, which the parts alone do not print -/
theorem Constructible.empty_registry (h : Constructible (some "") repository) {tag digest : Option String}
    (ht : ∀ t ∈ tag, IsTag t) (hd : ∀ d ∈ digest, IsHexDigest d) :
    parse (Reference.toString ⟨some "", repository, tag, digest⟩) ≠ .ok ⟨none, repository, tag, digest⟩ := by
  intro hparse
  obtain ⟨hprinted, -⟩ := parse_lossless _ _ hparse
  rw [h.trimmed ht hd, ← String.toList_inj, toString_toList, toString_toList] at hprinted
  have hlength := congrArg List.length hprinted
  simp [registryText] at hlength

/-- **Where the parser undoes the constructors.** The parts come back exactly when the registry is not the empty text, which
is documented to stand for none. -/
theorem constructors_read_back (h : Constructible registry repository) (ht : IsTag tag) (hd : IsHexDigest digest) :
    ReadsBack registry repository tag digest ↔ registry ≠ some "" := by
  have htag : ∀ t ∈ some tag, IsTag t := by simpa using ht
  have hdigest : ∀ d ∈ some digest, IsHexDigest d := by simpa using hd
  have hnotag : ∀ t ∈ (none : Option String), IsTag t := nofun
  have hnodigest : ∀ d ∈ (none : Option String), IsHexDigest d := nofun
  rw [ReadsBack, withTag_eq, withDigest_eq]
  refine ⟨?_, ?_⟩
  · rintro ⟨hback, -⟩ rfl
    exact h.empty_registry htag hnodigest hback
  · intro hreg
    have hfilter : registry.filter (· ≠ "") = registry := by
      cases registry with
      | none => rfl
      | some reg => simpa using hreg
    rw [hfilter]
    exact ⟨parse_toString (h.printable hreg htag hnodigest), parse_toString (h.printable hreg hnotag hdigest)⟩

end

theorem my_app_constructible (registry : Option String) (h : registry = some "" ∨ registry = some "localhost:5000") :
    Constructible registry "team/my-app" where
  nonempty := by decide
  characters := by simp [isWhitespace]
  segments := by decide +kernel
  host := by
    rcases h with rfl | rfl
    · exact fun _ hm hne => absurd (Option.mem_some_iff.1 hm).symm hne
    · intro reg hm _
      obtain rfl := Option.mem_some_iff.1 hm
      exact ⟨.inr (by simp), by simp [isWhitespace]⟩
  unlike_host := by
    intro _ first hm
    have hfirst : ("team/my-app".toList.splitOn '/').head? = some "team".toList := by decide +kernel
    rw [hfirst, Option.mem_some_iff] at hm
    rw [← hm, LooksLikeHost]
    simp

theorem latest_tag : IsTag "latest" where
  nonempty := by decide
  characters := by simp [isWhitespace]

theorem abc_digest : IsHexDigest "sha256:abc" := ⟨"sha256".toList, "abc".toList, by simp [isAsciiHexdigit]⟩

theorem read_back_example : ReadsBack (some "localhost:5000") "team/my-app" "latest" "sha256:abc" :=
  (constructors_read_back (my_app_constructible _ (.inr rfl)) latest_tag abc_digest).2 (by decide)

/-- `/team/my-app:latest` is what an empty registry makes of a repository, and it is read as another repository -/
theorem empty_registry_misread : Constructible (some "") "team/my-app" ∧ IsTag "latest" ∧ IsHexDigest "sha256:abc" ∧
    parse (withTag (some "") "team/my-app" "latest") = .ok ⟨none, "/team/my-app", some "latest", none⟩ ∧
    ¬ReadsBack (some "") "team/my-app" "latest" "sha256:abc" := by
  have hparse : parse (withTag (some "") "team/my-app" "latest") = .ok ⟨none, "/team/my-app", some "latest", none⟩ := by
    decide +kernel
  refine ⟨my_app_constructible _ (.inl rfl), latest_tag, abc_digest, hparse, ?_⟩
  intro hback
  have hsame := hback.1
  rw [hparse] at hsame
  exact absurd (congrArg Reference.repository (Except.ok.inj hsame)) (by decide)

end PhenoCompose.Oci
