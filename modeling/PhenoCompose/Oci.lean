/-
`oci.rs`: image references `[registry/]repository[:tag][@digest]`, taken apart and put together again.

A reference is cut three times: at the first `@`, at the last `:` after the last `/`, and at the first `/`.

- `splitTag_eq`, `splitRegistry_eq`: what each cut makes of a text, with nothing lost.
- `parse_lossless`: what is accepted prints as it was written, up to white space around it, and is accepted again.
- `well_formed_iff`: an accepted text makes a well-formed reference exactly when it names a repository and the digest, if
  there is one, is hexadecimal.
-/
import PhenoCompose.Core.Process
import PhenoCompose.Core.Split

namespace PhenoCompose.Oci

open Core.Process Core.Split Core.Text

/-! ## References -/

structure Reference where
  registry : Option String
  repository : String
  tag : Option String
  digest : Option String
deriving DecidableEq, Repr

def Reference.isValid (r : Reference) : Bool := r.tag.isSome || r.digest.isSome

def Reference.toString (r : Reference) : String :=
  let s := match r.registry with
    | some reg => reg ++ "/"
    | none => ""
  let s := s ++ r.repository
  let s := match r.tag with
    | some t => s ++ ":" ++ t
    | none => s
  match r.digest with
  | some d => s ++ "@" ++ d
  | none => s

/-- the result of a parse: errors are texts -/
abbrev Parsed (α : Type) := Except (Stop String) α

/-- `Err(message)` -/
def refuse {α : Type} (message : String) : Parsed α := .error (.err message)

def splitDigest (s : String) : Parsed (String × Option String) :=
  match splitOnce s '@' with
  | some (left, right) =>
    if right = "" then refuse "OCI reference has empty digest"
    else
      let algPrefix := ((splitOnce right ':').map Prod.fst).getD ""
      if algPrefix = "" then refuse ("OCI digest must be in <algorithm>:<hex> form, got: \"" ++ right ++ "\"")
      else .ok (left, some right)
  | none => .ok (s, none)

/-- `&input[..end]`: panics unless `end` is in range and between two characters -/
def sliceBefore (input : String) (end_ : ℕ) : Parsed String :=
  if isCharBoundary input.toList end_ then .ok (String.ofList (truncate input.toList end_))
  else .error (.panic "byte index is not a char boundary")

def splitTag (input : String) : Parsed (String × Option String) :=
  if input = "" then refuse "OCI reference has empty repository portion"
  else
    let afterSlash := ((rsplitOnce input '/').map Prod.snd).getD input
    match rsplitOnce afterSlash ':' with
    | some (_, after) =>
      if after ≠ "" ∧ '/' ∉ after.toList then do
        let beforeColon ← sliceBefore input (input.utf8ByteSize - after.utf8ByteSize - 1)
        .ok (beforeColon, some after)
      else .ok (input, none)
    | none => .ok (input, none)

def splitRegistry (input : String) : Option String × String :=
  match splitOnce input '/' with
  | some (potentialHost, rest) =>
    if '.' ∈ potentialHost.toList ∨ ':' ∈ potentialHost.toList then (some potentialHost, rest) else (none, input)
  | none => (none, input)

def parse (reference : String) : Parsed Reference := do
  let s := trim reference
  if s = "" then refuse "OCI reference is empty"
  else
    let (withoutDigest, digest) ← splitDigest s
    let (repoPart, tag) ← splitTag withoutDigest
    let (registry, repository) := splitRegistry repoPart
    .ok { registry, repository, tag, digest }

def isValid (reference : String) : Bool :=
  match parse reference with
  | .ok r => r.isValid
  | .error _ => false

/-! ## The three cuts -/

/-- `@digest`, if there is one -/
def digestText (digest : Option String) : List Char := digest.elim [] fun d => '@' :: d.toList

/-- `:tag`, if there is one -/
def tagText (tag : Option String) : List Char := tag.elim [] fun t => ':' :: t.toList

/-- `registry/`, if there is one -/
def registryText (registry : Option String) : List Char := registry.elim [] fun reg => reg.toList ++ ['/']

theorem toString_toList (r : Reference) :
    r.toString.toList = registryText r.registry ++ r.repository.toList ++ tagText r.tag ++ digestText r.digest := by
  obtain ⟨_ | reg, repository, _ | t, _ | d⟩ := r <;>
    simp [Reference.toString, registryText, tagText, digestText]

/-- the algorithm of a digest is what stands before its first colon -/
def HasAlgorithm (digest : String) : Prop :=
  ∃ algorithm rest : List Char, digest.toList = algorithm ++ ':' :: rest ∧ ':' ∉ algorithm ∧ algorithm ≠ []

theorem ofList_eq_empty {l : List Char} : String.ofList l = "" ↔ l = [] := by
  rw [← String.toList_inj, String.toList_ofList, String.toList_empty]

theorem toList_eq_nil {s : String} : s.toList = [] ↔ s = "" := by rw [← String.toList_inj, String.toList_empty]

theorem has_algorithm_iff {digest : String} :
    HasAlgorithm digest ↔ ((splitOnce digest ':').map Prod.fst).getD "" ≠ "" := by
  cases hcut : splitOnce digest ':' with
  | none =>
    rw [splitOnce_eq_none] at hcut
    simp only [Option.map_none, Option.getD_none, ne_eq, not_true_eq_false, iff_false]
    intro h
    obtain ⟨algorithm, rest, he, -⟩ := h
    exact hcut (he ▸ by simp)
  | some parts =>
    obtain ⟨a, b⟩ := parts
    obtain ⟨he, hnot⟩ := splitOnce_eq_some.1 hcut
    simp only [Option.map_some, Option.getD_some]
    refine ⟨?_, ?_⟩
    · intro h
      obtain ⟨algorithm, rest, he', hnot', hne⟩ := h
      rw [he] at he'
      obtain ⟨rfl, -⟩ := first_unique he' hnot hnot'
      exact fun h => hne (toList_eq_nil.2 h)
    · intro h
      exact ⟨a.toList, b.toList, he, hnot, fun hnil => h (toList_eq_nil.1 hnil)⟩

theorem splitDigest_eq {s left : String} {digest : Option String} :
    splitDigest s = .ok (left, digest) ↔
      s.toList = left.toList ++ digestText digest ∧ '@' ∉ left.toList ∧ ∀ d ∈ digest, HasAlgorithm d := by
  cases hcut : splitOnce s '@' with
  | none =>
    have hnone := splitOnce_eq_none.1 hcut
    rw [splitDigest, hcut]
    refine ⟨?_, ?_⟩
    · intro h
      cases h
      exact ⟨by simp [digestText], hnone, by simp⟩
    · intro h
      obtain ⟨he, -, -⟩ := h
      cases digest with
      | none =>
        obtain rfl : s = left := String.toList_inj.1 (by simpa [digestText] using he)
        rfl
      | some d => exact absurd (he ▸ by simp [digestText]) hnone
  | some parts =>
    obtain ⟨a, b⟩ := parts
    obtain ⟨he, hnot⟩ := splitOnce_eq_some.1 hcut
    have hb : b = "" → ¬HasAlgorithm b := by
      intro h hb
      rw [h] at hb
      exact has_algorithm_iff.1 hb rfl
    rw [splitDigest, hcut]
    refine ⟨?_, ?_⟩
    · intro h
      dsimp only at h
      split_ifs at h with hempty halgorithm
      · cases h
      · cases h
      · cases h
        exact ⟨he, hnot, by simpa using has_algorithm_iff.2 halgorithm⟩
    · intro h
      obtain ⟨he', hnot', hd⟩ := h
      rw [he] at he'
      cases digest with
      | none =>
        rw [digestText, Option.elim_none, List.append_nil] at he'
        exact absurd (he' ▸ by simp) hnot'
      | some d =>
        obtain ⟨hleft, hright⟩ := first_unique he' hnot hnot'
        obtain rfl := String.toList_inj.1 hleft
        obtain rfl := String.toList_inj.1 hright
        have halgorithm := hd b rfl
        dsimp only
        rw [if_neg fun h => hb h halgorithm, if_neg (has_algorithm_iff.1 halgorithm)]

/-- a text that ends in a tag: a colon, and a name without `:` and `/` -/
def EndsInTag (input : List Char) : Prop :=
  ∃ front t : List Char, input = front ++ ':' :: t ∧ t ≠ [] ∧ ':' ∉ t ∧ '/' ∉ t

/-- what stands after the last slash -/
def afterSlash (input : String) : String := ((rsplitOnce input '/').map Prod.snd).getD input

theorem afterSlash_suffix (input : String) :
    ∃ front, input.toList = front ++ (afterSlash input).toList ∧ '/' ∉ (afterSlash input).toList := by
  unfold afterSlash
  cases hcut : rsplitOnce input '/' with
  | none => exact ⟨[], rfl, rsplitOnce_eq_none.1 hcut⟩
  | some parts =>
    obtain ⟨a, b⟩ := parts
    obtain ⟨he, hnot⟩ := rsplitOnce_eq_some.1 hcut
    exact ⟨a.toList ++ ['/'], by simpa using he, hnot⟩

/-- a colon with no slash after it stands after the last slash -/
theorem afterSlash_colon {input : String} {front t : List Char} (h : input.toList = front ++ ':' :: t) (ht : '/' ∉ t) :
    ∃ g, (afterSlash input).toList = g ++ ':' :: t := by
  by_cases hf : '/' ∈ front
  · obtain ⟨⟨f, g⟩, hcut⟩ := Option.ne_none_iff_exists'.1 fun hnone => rcut_eq_none.1 hnone hf
    obtain ⟨rfl, hg⟩ := rcut_eq_some.1 hcut
    have hlast : rsplitOnce input '/' = some (String.ofList f, String.ofList (g ++ ':' :: t)) := by
      rw [rsplitOnce_eq_some, String.toList_ofList, String.toList_ofList, h]
      refine ⟨by simp, ?_⟩
      simp [hg, ht]
    exact ⟨g, by rw [afterSlash, hlast]; exact String.toList_ofList⟩
  · have hnone : rsplitOnce input '/' = none := by
      rw [rsplitOnce_eq_none, h]
      simp [hf, ht]
    exact ⟨front, by rw [afterSlash, hnone]; exact h⟩

theorem splitTag_some {input t : String} {front : List Char} (h : input.toList = front ++ ':' :: t.toList)
    (ht : t ≠ "") (hcolon : ':' ∉ t.toList) (hslash : '/' ∉ t.toList) :
    splitTag input = .ok (String.ofList front, some t) := by
  obtain ⟨g, hg⟩ := afterSlash_colon h hslash
  have hcut : rsplitOnce (afterSlash input) ':' = some (String.ofList g, t) :=
    rsplitOnce_eq_some.2 ⟨by rw [hg, String.toList_ofList], hcolon⟩
  have hinput : input ≠ "" := by
    intro he
    rw [he] at h
    simp at h
  have hsize : input.utf8ByteSize - t.utf8ByteSize - 1 = (String.ofList front).utf8ByteSize := by
    have hconcat : input = String.ofList front ++ (":" ++ t) := by
      rw [← String.toList_inj, h]
      simp
    rw [hconcat, String.utf8ByteSize_append, String.utf8ByteSize_append]
    have hone : (":" : String).utf8ByteSize = 1 := rfl
    omega
  obtain ⟨hboundary, htruncate⟩ := slice_append front (':' :: t.toList)
  rw [← h] at hboundary htruncate
  rw [splitTag, if_neg hinput]
  show (match rsplitOnce (afterSlash input) ':' with
    | some (_, after) => _
    | none => _) = _
  rw [hcut]
  dsimp only
  rw [if_pos ⟨ht, hslash⟩, hsize, sliceBefore, if_pos hboundary, htruncate]
  rfl

theorem splitTag_none {input : String} (h : input ≠ "") (ht : ¬EndsInTag input.toList) :
    splitTag input = .ok (input, none) := by
  rw [splitTag, if_neg h]
  show (match rsplitOnce (afterSlash input) ':' with
    | some (_, after) => _
    | none => _) = _
  cases hcut : rsplitOnce (afterSlash input) ':' with
  | none => rfl
  | some parts =>
    obtain ⟨c, after⟩ := parts
    obtain ⟨he, hnot⟩ := rsplitOnce_eq_some.1 hcut
    obtain ⟨front, hfront, hslash⟩ := afterSlash_suffix input
    refine if_neg ?_
    intro hafter
    refine ht ⟨front ++ c.toList, after.toList, ?_, fun hnil => hafter.1 (toList_eq_nil.1 hnil), hnot, hafter.2⟩
    rw [hfront, he, List.append_assoc]

theorem splitTag_eq {input rest : String} {tag : Option String} :
    splitTag input = .ok (rest, tag) ↔
      input ≠ "" ∧ input.toList = rest.toList ++ tagText tag ∧
        (∀ t ∈ tag, t ≠ "" ∧ ':' ∉ t.toList ∧ '/' ∉ t.toList) ∧ (tag = none → ¬EndsInTag input.toList) := by
  refine ⟨?_, ?_⟩
  · intro h
    have hne : input ≠ "" := by
      rintro rfl
      cases h
    by_cases ht : EndsInTag input.toList
    · obtain ⟨front, t, he, hnil, hcolon, hslash⟩ := ht
      have he' : input.toList = front ++ ':' :: (String.ofList t).toList := by rw [he, String.toList_ofList]
      rw [splitTag_some he' (fun h => hnil (ofList_eq_empty.1 h)) (by simpa using hcolon) (by simpa using hslash)] at h
      cases h
      refine ⟨hne, by simpa [tagText] using he, ?_, by simp⟩
      simp [hnil, hcolon, hslash]
    · rw [splitTag_none hne ht] at h
      cases h
      exact ⟨hne, by simp [tagText], by simp, fun _ => ht⟩
  · intro h
    obtain ⟨hne, he, htag, hnone⟩ := h
    cases tag with
    | none =>
      obtain rfl : input = rest := String.toList_inj.1 (by simpa [tagText] using he)
      exact splitTag_none hne (hnone rfl)
    | some t =>
      obtain ⟨ht, hcolon, hslash⟩ := htag t rfl
      rw [splitTag_some he ht hcolon hslash, String.ofList_toList]

/-- a text that begins with the name of a registry: up to the first `/`, with a `.` or a `:` in it -/
def BeginsWithRegistry (input : List Char) : Prop :=
  ∃ host rest : List Char, input = host ++ '/' :: rest ∧ '/' ∉ host ∧ ('.' ∈ host ∨ ':' ∈ host)

theorem splitRegistry_eq {input repository : String} {registry : Option String} :
    splitRegistry input = (registry, repository) ↔
      input.toList = registryText registry ++ repository.toList ∧
        (∀ reg ∈ registry, '/' ∉ reg.toList ∧ ('.' ∈ reg.toList ∨ ':' ∈ reg.toList)) ∧
        (registry = none → ¬BeginsWithRegistry input.toList) := by
  have hnone : ¬BeginsWithRegistry input.toList → splitRegistry input = (none, input) := by
    intro h
    rw [splitRegistry]
    cases hcut : splitOnce input '/' with
    | none => rfl
    | some parts =>
      obtain ⟨host, rest⟩ := parts
      obtain ⟨he, hnot⟩ := splitOnce_eq_some.1 hcut
      exact if_neg fun hmarked => h ⟨host.toList, rest.toList, he, hnot, hmarked⟩
  have hsome : ∀ host rest : String, input.toList = host.toList ++ '/' :: rest.toList → '/' ∉ host.toList →
      '.' ∈ host.toList ∨ ':' ∈ host.toList → splitRegistry input = (some host, rest) := by
    intro host rest he hnot hmarked
    rw [splitRegistry, splitOnce_eq_some.2 ⟨he, hnot⟩]
    exact if_pos hmarked
  refine ⟨?_, ?_⟩
  · intro h
    by_cases hb : BeginsWithRegistry input.toList
    · obtain ⟨host, rest, he, hnot, hmarked⟩ := hb
      rw [hsome (String.ofList host) (String.ofList rest) (by simpa using he) (by simpa using hnot)
        (by simpa using hmarked)] at h
      cases h
      exact ⟨by simpa [registryText] using he, by simpa using ⟨hnot, hmarked⟩, by simp⟩
    · rw [hnone hb] at h
      cases h
      exact ⟨by simp [registryText], by simp, fun _ => hb⟩
  · intro h
    obtain ⟨he, hreg, hno⟩ := h
    cases registry with
    | none =>
      obtain rfl : input = repository := String.toList_inj.1 (by simpa [registryText] using he)
      exact hnone (hno rfl)
    | some reg =>
      obtain ⟨hnot, hmarked⟩ := hreg reg rfl
      exact hsome reg repository (by simpa [registryText] using he) hnot hmarked

/-! ## What is accepted -/

/-- the text before the first `@` -/
def namePart (s : String) : String := ((splitOnce (trim s) '@').map Prod.fst).getD (trim s)

/-- the text after the first `@` -/
def digestPart (s : String) : Option String := (splitOnce (trim s) '@').map Prod.snd

theorem parts_eq (s : String) :
    (trim s).toList = (namePart s).toList ++ digestText (digestPart s) ∧ '@' ∉ (namePart s).toList := by
  unfold namePart digestPart
  cases hcut : splitOnce (trim s) '@' with
  | none => exact ⟨by simp [digestText], splitOnce_eq_none.1 hcut⟩
  | some parts => exact splitOnce_eq_some.1 hcut

/-- there is one way to cut a text before its first `@` -/
theorem digest_unique {a b : String} {d e : Option String} (h : a.toList ++ digestText d = b.toList ++ digestText e)
    (ha : '@' ∉ a.toList) (hb : '@' ∉ b.toList) : a = b ∧ d = e := by
  cases d with
  | none =>
    rw [digestText, Option.elim_none, List.append_nil] at h
    cases e with
    | none => exact ⟨String.toList_inj.1 (by simpa [digestText] using h), rfl⟩
    | some e => exact absurd (h ▸ by simp [digestText]) ha
  | some d =>
    cases e with
    | none =>
      rw [digestText, digestText, Option.elim_none, List.append_nil] at h
      exact absurd (h ▸ by simp) hb
    | some e =>
      obtain ⟨hname, hdigest⟩ := first_unique h ha hb
      exact ⟨String.toList_inj.1 hname, congrArg some (String.toList_inj.1 hdigest)⟩

theorem splitDigest_parts {s left : String} {digest : Option String} :
    splitDigest (trim s) = .ok (left, digest) ↔
      left = namePart s ∧ digest = digestPart s ∧ ∀ d ∈ digestPart s, HasAlgorithm d := by
  obtain ⟨he, hnot⟩ := parts_eq s
  rw [splitDigest_eq]
  refine ⟨?_, ?_⟩
  · intro h
    obtain ⟨he', hnot', hd⟩ := h
    obtain ⟨hleft, hdigest⟩ := digest_unique (he'.symm.trans he) hnot' hnot
    rw [hdigest] at hd
    exact ⟨hleft, hdigest, hd⟩
  · intro h
    obtain ⟨hleft, hdigest, hd⟩ := h
    rw [hleft, hdigest]
    exact ⟨he, hnot, hd⟩

theorem parse_eq {s : String} {r : Reference} :
    parse s = .ok r ↔ (∀ d ∈ digestPart s, HasAlgorithm d) ∧ r.digest = digestPart s ∧
      ∃ repoPart, splitTag (namePart s) = .ok (repoPart, r.tag) ∧
        splitRegistry repoPart = (r.registry, r.repository) := by
  have hempty : trim s = "" → ∀ x, splitTag (namePart s) ≠ .ok x := by
    intro h x
    have hname : namePart s = "" := by rw [namePart, h]; rfl
    rw [hname]
    exact nofun
  rw [parse]
  by_cases hs : trim s = ""
  · rw [if_pos hs]
    refine ⟨nofun, ?_⟩
    intro h
    obtain ⟨-, -, repoPart, htag, -⟩ := h
    exact absurd htag (hempty hs _)
  · rw [if_neg hs]
    refine ⟨?_, ?_⟩
    · intro h
      obtain ⟨⟨left, digest⟩, hdigest, h⟩ := bind_eq_ok.1 h
      obtain ⟨⟨repoPart, tag⟩, htag, h⟩ := bind_eq_ok.1 h
      rcases hregistry : splitRegistry repoPart with ⟨registry, repository⟩
      dsimp only at hdigest htag h
      rw [hregistry] at h
      obtain ⟨hleft, hd, halgorithm⟩ := splitDigest_parts.1 hdigest
      rw [hleft] at htag
      obtain rfl := Except.ok.inj h
      exact ⟨halgorithm, hd, repoPart, htag, hregistry⟩
    · intro h
      obtain ⟨hd, hr, repoPart, htag, hregistry⟩ := h
      have hdigest := splitDigest_parts.2 ⟨rfl, rfl, hd⟩
      rw [hdigest, ok_bind]
      dsimp only
      rw [htag, ok_bind]
      dsimp only
      rw [hregistry, ← hr]

/-- **Parsing loses nothing.** What is accepted prints as it was written, without the white space around it, and is
accepted again as the same reference. -/
theorem parse_lossless (s : String) (r : Reference) (h : parse s = .ok r) :
    r.toString = trim s ∧ parse r.toString = .ok r := by
  obtain ⟨-, hdigest, repoPart, htag, hregistry⟩ := parse_eq.1 h
  have hprinted : r.toString = trim s := by
    rw [← String.toList_inj, toString_toList, (parts_eq s).1, (splitTag_eq.1 htag).2.1, (splitRegistry_eq.1 hregistry).1,
      hdigest]
  refine ⟨hprinted, ?_⟩
  rw [hprinted, parse, trim_trim]
  exact h

/-- a reference with a port, which is no tag -/
def withPort : Reference where
  registry := some "registry.example.org:5000"
  repository := "my-app"
  tag := some "latest"
  digest := none

theorem parse_withPort : parse " registry.example.org:5000/my-app:latest" = .ok withPort := by decide +kernel

theorem parse_lossless_example :
    withPort.toString = trim " registry.example.org:5000/my-app:latest" ∧ parse withPort.toString = .ok withPort :=
  parse_lossless " registry.example.org:5000/my-app:latest" withPort parse_withPort

/-! ## What is well formed -/

/-- `<algorithm>:<hex>`, with something on both sides -/
def IsHexDigest (digest : String) : Prop :=
  ∃ algorithm hex : List Char, digest.toList = algorithm ++ ':' :: hex ∧ ':' ∉ algorithm ∧ algorithm ≠ [] ∧ hex ≠ [] ∧
    ∀ c ∈ hex, isAsciiHexdigit c = true

/-- what the documentation promises of a reference -/
structure WellFormed (r : Reference) : Prop where
  repository : r.repository ≠ ""
  registry : ∀ reg ∈ r.registry, reg ≠ ""
  tag : ∀ t ∈ r.tag, t ≠ "" ∧ '/' ∉ t.toList ∧ ':' ∉ t.toList ∧ '@' ∉ t.toList
  digest : ∀ d ∈ r.digest, IsHexDigest d

/-- whatever reference a text is parsed as is well formed, and a valid one has a usable tag or digest -/
def AcceptsWellFormed (s : String) : Prop :=
  (∀ r, parse s = .ok r → WellFormed r) ∧
    (isValid s = true → ∃ r, parse s = .ok r ∧ WellFormed r ∧ (r.tag ≠ none ∨ r.digest ≠ none))

/-- a registry, a tag, or both, and no repository between them -/
def Nameless (name : List Char) : Prop :=
  ∃ front tag : List Char, name = front ++ tag ∧
    (front = [] ∨ ∃ host, front = host ++ ['/'] ∧ '/' ∉ host ∧ ('.' ∈ host ∨ ':' ∈ host)) ∧
    (tag = [] ∨ ∃ t, tag = ':' :: t ∧ t ≠ [] ∧ ':' ∉ t ∧ '/' ∉ t)

/-- with nothing but a registry before it, there is no repository -/
theorem registry_only {front : List Char}
    (h : front = [] ∨ ∃ host, front = host ++ ['/'] ∧ '/' ∉ host ∧ ('.' ∈ host ∨ ':' ∈ host))
    {repository : String} {registry : Option String}
    (hregistry : splitRegistry (String.ofList front) = (registry, repository)) : repository = "" := by
  obtain ⟨he, hreg, hnone⟩ := splitRegistry_eq.1 hregistry
  rw [String.toList_ofList] at he hnone
  rcases h with rfl | ⟨host, rfl, hnot, hmarked⟩
  · exact toList_eq_nil.1 (List.append_eq_nil_iff.1 he.symm).2
  · cases registry with
    | none => exact absurd ⟨host, [], rfl, hnot, hmarked⟩ (hnone rfl)
    | some reg =>
      have he' : host ++ '/' :: [] = reg.toList ++ '/' :: repository.toList := by simpa [registryText] using he
      exact toList_eq_nil.1 (first_unique he' hnot (hreg reg rfl).1).2.symm

theorem nameless_iff {name repoPart repository : String} {tag registry : Option String}
    (htag : splitTag name = .ok (repoPart, tag)) (hregistry : splitRegistry repoPart = (registry, repository)) :
    repository = "" ↔ Nameless name.toList := by
  obtain ⟨hne, he, ht, hnone⟩ := splitTag_eq.1 htag
  refine ⟨?_, ?_⟩
  · rintro rfl
    obtain ⟨hfront, hreg, -⟩ := splitRegistry_eq.1 hregistry
    refine ⟨repoPart.toList, tagText tag, he, ?_, ?_⟩
    · cases registry with
      | none => exact .inl (by simpa [registryText] using hfront)
      | some reg =>
        obtain ⟨hnot, hmarked⟩ := hreg reg rfl
        exact .inr ⟨reg.toList, by simpa [registryText] using hfront, hnot, hmarked⟩
    · cases tag with
      | none => exact .inl rfl
      | some t =>
        obtain ⟨hnil, hcolon, hslash⟩ := ht t rfl
        exact .inr ⟨t.toList, rfl, fun h => hnil (toList_eq_nil.1 h), hcolon, hslash⟩
  · intro h
    obtain ⟨front, last, hname, hfront, hlast⟩ := h
    have hrepo : repoPart = String.ofList front := by
      rcases hlast with rfl | ⟨t, rfl, hnil, hcolon, hslash⟩
      · rw [List.append_nil] at hname
        have htagNone : tag = none := by
          cases tag with
          | none => rfl
          | some t =>
            -- a tag has no slash, and the text ends in one
            obtain ⟨hnil, -, hslash⟩ := ht t rfl
            rcases hfront with rfl | ⟨host, rfl, -, -⟩
            · exact absurd (toList_eq_nil.1 hname) hne
            · obtain ⟨t', c, hc⟩ := (List.eq_nil_or_concat t.toList).resolve_left fun h => hnil (toList_eq_nil.1 h)
              rw [hname, tagText, Option.elim_some, hc] at he
              have he' : host ++ ['/'] = (repoPart.toList ++ ':' :: t') ++ [c] := by simpa using he
              have hlast : '/' = c := List.singleton_inj.1 (List.append_inj_right' he' rfl)
              exact absurd (by rw [hc, hlast]; simp) hslash
        rw [htagNone, tagText, Option.elim_none, List.append_nil, hname] at he
        rw [he, String.ofList_toList]
      · have hsome := splitTag_some (t := String.ofList t) (by simpa using hname) (fun h => hnil (ofList_eq_empty.1 h))
          (by simpa using hcolon) (by simpa using hslash)
        rw [htag] at hsome
        cases hsome
        rfl
    rw [hrepo] at hregistry
    exact registry_only hfront hregistry

/-- a text is parsed when something stands before the first `@`, and an algorithm right after it -/
theorem parse_accepts {s : String} (hname : namePart s ≠ "") (hd : ∀ d ∈ digestPart s, HasAlgorithm d) :
    ∃ r, parse s = .ok r := by
  have htag : ∃ rest tag, splitTag (namePart s) = .ok (rest, tag) := by
    by_cases h : EndsInTag (namePart s).toList
    · obtain ⟨front, t, he, hnil, hcolon, hslash⟩ := h
      exact ⟨_, _, splitTag_some (t := String.ofList t) (by simpa using he) (fun h => hnil (ofList_eq_empty.1 h))
        (by simpa using hcolon) (by simpa using hslash)⟩
    · exact ⟨_, _, splitTag_none hname h⟩
  obtain ⟨rest, tag, htag⟩ := htag
  rcases hregistry : splitRegistry rest with ⟨registry, repository⟩
  have hparts : parse s = .ok ⟨registry, repository, tag, digestPart s⟩ := by
    rw [parse_eq]
    exact ⟨hd, by dsimp only, rest, htag, hregistry⟩
  exact ⟨_, hparts⟩

/-- what is parsed is well formed but for a missing repository and a digest that is not hexadecimal -/
theorem parsed_well_formed {s : String} {r : Reference} (h : parse s = .ok r) :
    WellFormed r ↔ ¬Nameless (namePart s).toList ∧ ∀ d ∈ digestPart s, IsHexDigest d := by
  obtain ⟨-, hdigest, repoPart, htag, hregistry⟩ := parse_eq.1 h
  rw [← nameless_iff htag hregistry, ← hdigest]
  obtain ⟨-, he, ht, -⟩ := splitTag_eq.1 htag
  refine ⟨fun hw => ⟨hw.repository, hw.digest⟩, ?_⟩
  intro hx
  refine ⟨hx.1, ?_, ?_, hx.2⟩
  · intro reg hreg hempty
    obtain ⟨-, hmarked⟩ := (splitRegistry_eq.1 hregistry).2.1 reg hreg
    simp [hempty] at hmarked
  · intro t hmem
    obtain ⟨hnil, hcolon, hslash⟩ := ht t hmem
    refine ⟨hnil, hslash, hcolon, ?_⟩
    -- the tag stands before the first `@`
    intro hat
    apply (parts_eq s).2
    rw [he, show r.tag = some t from hmem]
    simp [tagText, hat]

/-- **Where parsing accepts only well-formed references.** Exactly for the texts that are refused, and those that name a
repository and whose digest, if they have one, is hexadecimal. -/
theorem well_formed_iff (s : String) :
    AcceptsWellFormed s ↔ ¬(namePart s ≠ "" ∧ (∀ d ∈ digestPart s, HasAlgorithm d) ∧
      (Nameless (namePart s).toList ∨ ∃ d ∈ digestPart s, ¬IsHexDigest d)) := by
  refine ⟨?_, ?_⟩
  · intro hall hx
    obtain ⟨hname, hd, hdefect⟩ := hx
    obtain ⟨r, hr⟩ := parse_accepts hname hd
    obtain ⟨hnamed, hhex⟩ := (parsed_well_formed hr).1 (hall.1 r hr)
    rcases hdefect with hnameless | ⟨d, hmem, hnot⟩
    · exact hnamed hnameless
    · exact hnot (hhex d hmem)
  · intro hno
    have hall : ∀ r, parse s = .ok r → WellFormed r := by
      intro r hr
      obtain ⟨hd, -, repoPart, htag, -⟩ := parse_eq.1 hr
      have hname := (splitTag_eq.1 htag).1
      refine (parsed_well_formed hr).2 ⟨?_, ?_⟩
      · exact fun hnameless => hno ⟨hname, hd, .inl hnameless⟩
      · intro d hmem
        by_contra hnot
        exact hno ⟨hname, hd, .inr ⟨d, hmem, hnot⟩⟩
    refine ⟨hall, ?_⟩
    intro hvalid
    rw [isValid] at hvalid
    cases hr : parse s with
    | error e =>
      rw [hr] at hvalid
      cases hvalid
    | ok r =>
      rw [hr] at hvalid
      change r.isValid = true at hvalid
      rw [Reference.isValid, Bool.or_eq_true, Option.isSome_iff_ne_none, Option.isSome_iff_ne_none] at hvalid
      exact ⟨r, rfl, hall r hr, hvalid⟩

/-- a tag of no repository, in no registry or in one, and a digest without a single digit are accepted -/
theorem malformed_accepted :
    ¬AcceptsWellFormed ":latest" ∧ ¬AcceptsWellFormed "docker.io/:latest" ∧ ¬AcceptsWellFormed "ubuntu@sha256:" := by
  have hparse : parse ":latest" = .ok ⟨none, "", some "latest", none⟩ ∧
      parse "docker.io/:latest" = .ok ⟨some "docker.io", "", some "latest", none⟩ ∧
      parse "ubuntu@sha256:" = .ok ⟨none, "ubuntu", none, some "sha256:"⟩ := by decide +kernel
  obtain ⟨htag, hregistry, hdigest⟩ := hparse
  refine ⟨?_, ?_, ?_⟩
  · exact fun h => (h.1 _ htag).repository rfl
  · exact fun h => (h.1 _ hregistry).repository rfl
  · intro h
    obtain ⟨algorithm, hex, he, hnot, -, hhex, -⟩ := (h.1 _ hdigest).digest _ rfl
    obtain ⟨-, hnil⟩ := first_unique (a := "sha256".toList) (b := []) he (by decide) hnot
    exact hhex hnil.symm

end PhenoCompose.Oci
