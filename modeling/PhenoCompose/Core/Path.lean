/-
`std::path` on Unix: a path is a byte string, and everything about it is read off its components. A leading separator is
`rootDir`; repeated separators and inner "." vanish; ".." stays (no symlink is resolved); a leading "." is kept as
`curDir`. Two paths are equal when their components are, so `components` also stands for the file a path names.

Results: `components_join_plain` (joining a plain name appends exactly that component), `withExtension_join` (changing
the extension of a joined plain name joins the name with the other extension), `extension_append` and `fileStem_append`
(the two parts of a name with a dot in it).
-/
import PhenoCompose.Core.Text

namespace Core.Path

open Core.Text

def sep : UInt8 := 47
def dot : UInt8 := 46

inductive Component where
  | rootDir
  | curDir
  | parentDir
  | normal (name : Bytes)
deriving DecidableEq, Repr

def Component.asOsStr : Component → Bytes
  | .rootDir => [sep]
  | .curDir => [dot]
  | .parentDir => [dot, dot]
  | .normal name => name

structure PathBuf where
  inner : Bytes
deriving DecidableEq, Repr

/-- `Path::new(s)` -/
def PathBuf.ofStr (s : String) : PathBuf := ⟨bytes s⟩

def PathBuf.hasRoot (p : PathBuf) : Bool := p.inner.head? == some sep

/-- on Unix a path is absolute exactly when it has a root -/
def PathBuf.isAbsolute (p : PathBuf) : Bool := p.hasRoot

/-- a relative path that is "." or starts with "./" keeps that dot -/
def includeCurDir : Bytes → Bool
  | [b] => b == dot
  | b :: c :: _ => b == dot && c == sep
  | [] => false

def parseSingleComponent (piece : Bytes) : Option Component :=
  if piece = [] ∨ piece = [dot] then none
  else if piece = [dot, dot] then some .parentDir
  else some (.normal piece)

def PathBuf.components (p : PathBuf) : List Component :=
  (if p.hasRoot then [.rootDir] else if includeCurDir p.inner then [.curDir] else []) ++
    (p.inner.splitOn sep).filterMap parseSingleComponent

/-- `base.join(path)`: an absolute path replaces the base, a relative one is appended after one separator -/
def PathBuf.join (base path : PathBuf) : PathBuf :=
  if path.isAbsolute then path
  else if base.inner = [] ∨ base.inner.getLast? = some sep then ⟨base.inner ++ path.inner⟩
  else ⟨base.inner ++ sep :: path.inner⟩

/-- the components of `path.parent()`: the last one is removed whatever it is, except the root -/
def PathBuf.parent (p : PathBuf) : Option (List Component) :=
  match p.components.getLast? with
  | none | some .rootDir => none
  | some _ => some p.components.dropLast

def PathBuf.fileName (p : PathBuf) : Option Bytes :=
  match p.components.getLast? with
  | some (.normal name) => some name
  | _ => none

/-- the part of a file name before its last dot; a name that only starts with a dot is its own stem -/
def fileStem (name : Bytes) : Bytes :=
  match (name.reverse.dropWhile (· != dot)).reverse.dropLast with
  | [] => name
  | stem => stem

/-- the part of a file name after its last dot, if it has one that does not start it -/
def extension (name : Bytes) : Option Bytes :=
  if fileStem name = name then none else some (name.reverse.takeWhile (· != dot)).reverse

/-- the path up to the end of its last component: trailing separators and "/." do not count -/
def trimEnd : Bytes → Bytes
  | [] => []
  | b :: rest =>
    if b = sep then trimEnd rest
    else if b = dot then
      match rest with
      | c :: rest' => if c = sep then trimEnd rest' else b :: c :: rest'
      | [] => [b]
    else b :: rest

def PathBuf.withExtension (p : PathBuf) (extension : Bytes) : PathBuf :=
  match p.fileName with
  | none => p
  | some name =>
    let trimmed := (trimEnd p.inner.reverse).reverse
    ⟨trimmed.take (trimmed.length - name.length) ++ fileStem name ++ if extension = [] then [] else dot :: extension⟩

def PathBuf.fileStem (p : PathBuf) : Option Bytes := p.fileName.map Path.fileStem

def PathBuf.extension (p : PathBuf) : Option Bytes := p.fileName.bind Path.extension

/-- `OsStr::to_str` -/
def toStr (name : Bytes) : Option String := String.fromUTF8? ⟨name.toArray⟩

/-- `path.to_str()` -/
def PathBuf.toStr (p : PathBuf) : Option String := String.fromUTF8? ⟨p.inner.toArray⟩

/-- `path.display().to_string()` -/
def PathBuf.display (p : PathBuf) : String := fromUtf8Lossy p.inner

/-! ## Texts -/

theorem toStr_bytes (s : String) : toStr (bytes s) = some s := by
  have h : (⟨(bytes s).toArray⟩ : ByteArray) = s.toByteArray := by simp [bytes]
  rw [toStr, h]
  exact dif_pos s.isValidUTF8

/-! ## Plain names -/

/-- a file name that is one component and nothing else -/
structure Plain (name : Bytes) : Prop where
  no_sep : sep ∉ name
  nonempty : name ≠ []
  ne_dot : name ≠ [dot]
  ne_dotdot : name ≠ [dot, dot]

theorem Plain.parse {name : Bytes} (h : Plain name) : parseSingleComponent name = some (.normal name) := by
  simp [parseSingleComponent, h.nonempty, h.ne_dot, h.ne_dotdot]

theorem Plain.not_root {name : Bytes} (h : Plain name) : (PathBuf.mk name).hasRoot = false := by
  cases name with
  | nil => exact absurd rfl h.nonempty
  | cons b rest =>
    have hb : b ≠ sep := fun hb => h.no_sep (by simp [hb])
    simpa [PathBuf.hasRoot] using hb

theorem Plain.not_cur_dir {name : Bytes} (h : Plain name) : includeCurDir name = false := by
  match name, h with
  | [b], h => simpa [includeCurDir] using h.ne_dot
  | b :: c :: rest, h =>
    have hc : c ≠ sep := fun hc => h.no_sep (by simp [hc])
    simp [includeCurDir, hc]

theorem components_plain {name : Bytes} (h : Plain name) : (PathBuf.mk name).components = [.normal name] := by
  simp only [PathBuf.components, h.not_root, h.not_cur_dir, Bool.false_eq_true, if_false, List.nil_append,
    List.splitOn_eq_singleton h.no_sep, List.filterMap_cons, h.parse, List.filterMap_nil]

/-! ## Joining -/

/-- the bytes of a base up to where a joined relative path starts -/
def PathBuf.slot (base : PathBuf) : Bytes :=
  if base.inner = [] ∨ base.inner.getLast? = some sep then base.inner else base.inner ++ [sep]

theorem join_plain (base : PathBuf) {name : Bytes} (h : Plain name) : base.join ⟨name⟩ = ⟨base.slot ++ name⟩ := by
  have habs : (PathBuf.mk name).isAbsolute = false := h.not_root
  unfold PathBuf.join PathBuf.slot
  rw [habs, if_neg (by simp)]
  split_ifs <;> simp

theorem slot_end (base : PathBuf) : base.slot = [] ∨ ∃ front, base.slot = front ++ [sep] := by
  unfold PathBuf.slot
  split_ifs with h
  · exact h.imp_right List.getLast?_eq_some_iff.1
  · exact .inr ⟨base.inner, rfl⟩

theorem components_slot (base : PathBuf) : (PathBuf.mk base.slot).components = base.components := by
  obtain ⟨inner⟩ := base
  unfold PathBuf.slot
  split_ifs with h
  · rfl
  · have hroot : (PathBuf.mk (inner ++ [sep])).hasRoot = (PathBuf.mk inner).hasRoot := by
      cases inner with
      | nil => simp at h
      | cons b rest => rfl
    have hdot : includeCurDir (inner ++ [sep]) = includeCurDir inner := by
      match inner, h with
      | [], h => simp at h
      | [b], _ => simp [includeCurDir]
      | b :: c :: rest, _ => rfl
    have hnil : parseSingleComponent [] = none := rfl
    simp only [PathBuf.components, hroot, hdot, List.splitOn_append_cons_self, List.filterMap_append,
      List.splitOn_nil, List.filterMap_cons, hnil, List.filterMap_nil, List.append_nil]

theorem components_append_name {front name : Bytes} (h : Plain name) :
    (PathBuf.mk (front ++ sep :: name)).components = (PathBuf.mk (front ++ [sep])).components ++ [.normal name] := by
  have hroot : (PathBuf.mk (front ++ sep :: name)).hasRoot = (PathBuf.mk (front ++ [sep])).hasRoot := by
    cases front <;> rfl
  have hdot : includeCurDir (front ++ sep :: name) = includeCurDir (front ++ [sep]) := by
    match front with
    | [] => cases name <;> simp [includeCurDir, sep, dot]
    | [b] => rfl
    | b :: c :: rest => rfl
  have hsplit : ∀ tail : Bytes, sep ∉ tail → (front ++ sep :: tail).splitOn sep = front.splitOn sep ++ [tail] := by
    intro tail ht
    rw [List.splitOn_append_cons_self, List.splitOn_eq_singleton ht]
  have hnil : parseSingleComponent [] = none := rfl
  simp only [PathBuf.components, hroot, hdot, hsplit name h.no_sep, hsplit [] (by simp), List.filterMap_append,
    List.filterMap_cons, h.parse, hnil, List.filterMap_nil, List.append_assoc, List.nil_append]

/-- **Joining a plain name appends exactly that component**, whatever the base -/
theorem components_join_plain (base : PathBuf) {name : Bytes} (h : Plain name) :
    (base.join ⟨name⟩).components = base.components ++ [.normal name] := by
  rw [join_plain base h, ← components_slot base]
  rcases slot_end base with hnil | ⟨front, hfront⟩
  · rw [hnil]; exact components_plain h
  · rw [hfront, List.append_assoc]; exact components_append_name h

theorem fileName_join (base : PathBuf) {name : Bytes} (h : Plain name) :
    (base.join ⟨name⟩).fileName = some name := by
  simp [PathBuf.fileName, components_join_plain base h]

theorem parent_join (base : PathBuf) {name : Bytes} (h : Plain name) :
    (base.join ⟨name⟩).parent = some base.components := by
  simp [PathBuf.parent, components_join_plain base h]

/-! ## Extensions -/

/-- `stem.old` without a dot in `old` has the stem `stem` -/
theorem fileStem_append {stem old : Bytes} (hs : stem ≠ []) (he : dot ∉ old) :
    fileStem (stem ++ dot :: old) = stem := by
  have h : ((stem ++ dot :: old).reverse.dropWhile (· != dot)) = dot :: stem.reverse := by
    rw [List.reverse_append, List.reverse_cons, List.append_assoc, List.dropWhile_append_of_pos]
    · simp
    · intro b hb
      have : b ≠ dot := fun e => he (e ▸ List.mem_reverse.1 hb)
      simpa using this
  simp only [fileStem, h, List.reverse_cons, List.reverse_reverse, List.dropLast_concat]

theorem extension_append {stem old : Bytes} (hs : stem ≠ []) (he : dot ∉ old) :
    extension (stem ++ dot :: old) = some old := by
  have hne : stem ≠ stem ++ dot :: old := by
    intro h
    have := congrArg List.length h
    simp at this
  have hold : (stem ++ dot :: old).reverse.takeWhile (· != dot) = old.reverse := by
    rw [List.reverse_append, List.reverse_cons, List.append_assoc, List.takeWhile_append_of_pos]
    · simp
    · intro b hb
      have : b ≠ dot := fun e => he (e ▸ List.mem_reverse.1 hb)
      simpa using this
  rw [extension, fileStem_append hs he, if_neg hne, hold, List.reverse_reverse]

/-- nothing is trimmed after a plain name: it neither ends in a separator nor is a dot on its own -/
theorem trimEnd_plain {front name : Bytes} (h : Plain name) :
    trimEnd (front ++ name).reverse = (front ++ name).reverse := by
  rw [List.reverse_append]
  have hmem : ∀ b ∈ name.reverse, b ≠ sep := fun b hb e => h.no_sep (e ▸ List.mem_reverse.1 hb)
  match hrev : name.reverse, hmem with
  | [], _ => exact absurd (List.reverse_eq_nil_iff.1 hrev) h.nonempty
  | [b], hmem =>
    have hdot : b ≠ dot := fun e => h.ne_dot (by rw [← List.reverse_reverse name, hrev, e]; rfl)
    rw [List.singleton_append, trimEnd.eq_def]
    simp [hmem b, hdot]
  | b :: c :: rest, hmem =>
    rw [List.cons_append, trimEnd.eq_def]
    simp [hmem b, hmem c]

/-- **Changing the extension of a joined plain name** joins the changed name -/
theorem withExtension_join (base : PathBuf) {stem old extension : Bytes} (hs : stem ≠ []) (he : dot ∉ old)
    (hx : extension ≠ []) (h : Plain (stem ++ dot :: old)) (h' : Plain (stem ++ dot :: extension)) :
    (base.join ⟨stem ++ dot :: old⟩).withExtension extension = base.join ⟨stem ++ dot :: extension⟩ := by
  have hlen : (base.slot ++ (stem ++ dot :: old)).length - (stem ++ dot :: old).length = base.slot.length := by
    rw [List.length_append, Nat.add_sub_cancel]
  rw [PathBuf.withExtension, fileName_join base h, join_plain base h, join_plain base h']
  simp only [trimEnd_plain h, List.reverse_reverse, hlen, List.take_left', fileStem_append hs he, if_neg hx,
    List.append_assoc]

end Core.Path
