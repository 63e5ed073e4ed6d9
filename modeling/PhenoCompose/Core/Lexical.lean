/-
Where a path leads when "." and ".." are taken literally, without looking at the file system: each name goes one level
down, ".." one level up (at the root it stays), the root back to the top.

- `rebuild_spec`: pushing the components of an absolute path without ".." one at a time builds a clean path with the same
  components.
- `components_join`: a relative path joined to an absolute one goes on where that one ends.
- `below_iff`: of the paths whose parent is a directory, exactly those that do not end in ".." lead strictly below it.
- `ofStr_toStr`: a path that is a text is the path of that text.
-/
import PhenoCompose.Core.Path
import PhenoCompose.Core.Split

namespace Core.Path

open Core.Text

/-! ## Texts -/

theorem ofStr_toStr {p : PathBuf} {s : String} (h : p.toStr = some s) : PathBuf.ofStr s = p := by
  unfold PathBuf.toStr String.fromUTF8? at h
  split_ifs at h with hvalid
  rw [← Option.some.inj h, PathBuf.ofStr, bytes]
  rfl

def Component.isNormal : Component → Bool
  | .normal _ => true
  | _ => false

/-- a piece is a name, or ".." -/
theorem piece_component {piece : Bytes} {c : Component} (hsep : sep ∉ piece)
    (h : parseSingleComponent piece = some c) : c = .parentDir ∨ ∃ name, c = .normal name ∧ Plain name := by
  unfold parseSingleComponent at h
  split_ifs at h with hskip hdotdot
  · exact .inl (Option.some.inj h).symm
  · rw [not_or] at hskip
    exact .inr ⟨piece, (Option.some.inj h).symm, hsep, hskip.1, hskip.2, hdotdot⟩

/-- the components that the pieces of a text stand for -/
def pieces (inner : Bytes) : List Component := (inner.splitOn sep).filterMap parseSingleComponent

theorem mem_pieces {inner : Bytes} {c : Component} (h : c ∈ pieces inner) :
    c = .parentDir ∨ ∃ name, c = .normal name ∧ Plain name := by
  obtain ⟨piece, hpiece, hc⟩ := List.mem_filterMap.1 h
  exact piece_component (Core.Split.not_mem_of_mem_splitOn hpiece) hc

theorem pieces_append (front back : Bytes) : pieces (front ++ sep :: back) = pieces front ++ pieces back := by
  rw [pieces, List.splitOn_append_cons_self, List.filterMap_append, pieces, pieces]

theorem components_absolute {p : PathBuf} (h : p.isAbsolute = true) : p.components = .rootDir :: pieces p.inner := by
  have hroot : p.hasRoot = true := h
  rw [PathBuf.components, if_pos hroot]
  rfl

/-- the components of a relative path but for a leading "." -/
theorem components_relative {p : PathBuf} (h : p.isAbsolute = false) :
    p.components.filter (· ≠ .curDir) = pieces p.inner := by
  have hroot : p.hasRoot = false := h
  have hpieces : (pieces p.inner).filter (· ≠ .curDir) = pieces p.inner := by
    rw [List.filter_eq_self]
    intro c hc
    rcases mem_pieces hc with rfl | ⟨name, rfl, -⟩ <;> rfl
  rw [PathBuf.components, if_neg (by simp [hroot]), List.filter_append]
  change _ ++ (pieces p.inner).filter (· ≠ .curDir) = _
  rw [hpieces]
  split_ifs <;> rfl

theorem root_not_mem_relative {p : PathBuf} (h : p.isAbsolute = false) : .rootDir ∉ p.components := by
  intro hmem
  have hpieces : .rootDir ∈ p.components.filter (· ≠ .curDir) := List.mem_filter.2 ⟨hmem, rfl⟩
  rw [components_relative h] at hpieces
  rcases mem_pieces hpieces with hroot | ⟨name, hroot, -⟩
  · cases hroot
  · cases hroot

/-- the slot of an absolute base is what is above it, up to the separator -/
theorem slot_absolute {base : PathBuf} (h : base.isAbsolute = true) :
    ∃ front, base.slot = front ++ [sep] ∧ (base.slot).head? = some sep := by
  have hhead : base.inner.head? = some sep := beq_iff_eq.1 h
  have hslot : base.slot.head? = some sep := by
    unfold PathBuf.slot
    split_ifs
    · exact hhead
    · rw [List.head?_append, hhead, Option.some_or]
  rcases slot_end base with hnil | ⟨front, hfront⟩
  · rw [hnil] at hslot
    cases hslot
  · exact ⟨front, hfront, hslot⟩

/-- **A relative path joined to an absolute one** goes on where that one ends -/
theorem components_join {base path : PathBuf} (hbase : base.isAbsolute = true) (hpath : path.isAbsolute = false) :
    (base.join path).isAbsolute = true ∧
      (base.join path).components = base.components ++ path.components.filter (· ≠ .curDir) := by
  obtain ⟨front, hfront, hhead⟩ := slot_absolute hbase
  have hjoin : base.join path = ⟨base.slot ++ path.inner⟩ := by
    unfold PathBuf.join PathBuf.slot
    rw [hpath, if_neg (by simp)]
    split_ifs <;> simp
  have habs : (base.join path).isAbsolute = true := by
    rw [hjoin, PathBuf.isAbsolute, PathBuf.hasRoot, List.head?_append, hhead]
    rfl
  have hslot : pieces base.slot = pieces base.inner := by
    have hslotAbs : (PathBuf.mk base.slot).isAbsolute = true := beq_iff_eq.2 hhead
    have hcomponents := components_slot base
    rw [components_absolute hslotAbs, components_absolute hbase] at hcomponents
    exact (List.cons.inj hcomponents).2
  refine ⟨habs, ?_⟩
  have hpiecesNil : pieces [] = [] := rfl
  have hfrontPieces : pieces front = pieces base.inner := by
    rw [← hslot, hfront, pieces_append, hpiecesNil, List.append_nil]
  calc (base.join path).components = .rootDir :: pieces (front ++ sep :: path.inner) := by
        rw [components_absolute habs, hjoin, hfront, List.append_assoc, List.singleton_append]
    _ = .rootDir :: (pieces base.inner ++ pieces path.inner) := by rw [pieces_append, hfrontPieces]
    _ = base.components ++ path.components.filter (· ≠ .curDir) := by
        rw [components_absolute hbase, components_relative hpath, List.cons_append]

/-! ## Pushing components -/

/-- `path.push(component.as_os_str())` -/
def PathBuf.push (path : PathBuf) (component : Component) : PathBuf := path.join ⟨component.asOsStr⟩

/-- the path of the same components, written without what does not count -/
def PathBuf.rebuild (p : PathBuf) : PathBuf := (p.components.filter (· ≠ .curDir)).foldl PathBuf.push ⟨[]⟩

theorem push_names {names : List Component} (h : ∀ c ∈ names, ∃ name, c = .normal name ∧ Plain name) {p : PathBuf}
    (hp : p.isAbsolute = true) :
    (names.foldl PathBuf.push p).isAbsolute = true ∧ (names.foldl PathBuf.push p).components = p.components ++ names := by
  induction names generalizing p with
  | nil => exact ⟨hp, (List.append_nil _).symm⟩
  | cons c names ih =>
    rw [List.forall_mem_cons] at h
    obtain ⟨⟨name, rfl, hname⟩, hrest⟩ := h
    have hpush : (p.push (.normal name)).components = p.components ++ [.normal name] := components_join_plain p hname
    have habs : (p.push (.normal name)).isAbsolute = true := (components_join hp hname.not_root).1
    obtain ⟨habs', hcomponents⟩ := ih hrest habs
    rw [List.foldl_cons, hcomponents, hpush, List.append_assoc]
    exact ⟨habs', rfl⟩

/-- an absolute path of names alone -/
structure Clean (p : PathBuf) : Prop where
  absolute : p.isAbsolute = true
  no_dots : ∀ c ∈ p.components, c ≠ .curDir ∧ c ≠ .parentDir

theorem mem_pieces_normal {inner : Bytes} (h : .parentDir ∉ pieces inner) :
    ∀ c ∈ pieces inner, ∃ name, c = .normal name ∧ Plain name :=
  fun _ hc => (mem_pieces hc).resolve_left fun e => h (e ▸ hc)

/-- **Pushing the components of an absolute path** without ".." gives a clean path with the same components; once more
gives the same text -/
theorem rebuild_spec {p : PathBuf} (habs : p.isAbsolute = true) (hdots : .parentDir ∉ p.components) :
    Clean p.rebuild ∧ p.rebuild.components = p.components ∧ p.rebuild.rebuild = p.rebuild := by
  have hcomponents := components_absolute habs
  have hnames : ∀ c ∈ pieces p.inner, ∃ name, c = .normal name ∧ Plain name := by
    apply mem_pieces_normal
    rw [hcomponents] at hdots
    exact fun h => hdots (List.mem_cons_of_mem _ h)
  have hclean : ∀ c ∈ p.components, c ≠ .curDir ∧ c ≠ .parentDir := by
    rw [hcomponents, List.forall_mem_cons]
    refine ⟨⟨nofun, nofun⟩, ?_⟩
    intro c hc
    obtain ⟨name, rfl, -⟩ := hnames c hc
    exact ⟨nofun, nofun⟩
  have hfilter : p.components.filter (· ≠ .curDir) = p.components := by
    rw [List.filter_eq_self]
    exact fun c hc => decide_eq_true (hclean c hc).1
  have hrebuild : p.rebuild = (pieces p.inner).foldl PathBuf.push ⟨[sep]⟩ := by
    rw [PathBuf.rebuild, hfilter, hcomponents, List.foldl_cons]
    rfl
  obtain ⟨habs', hsame⟩ := push_names hnames (p := ⟨[sep]⟩) rfl
  rw [← hrebuild] at habs' hsame
  have hroot : (PathBuf.mk [sep]).components = [.rootDir] := by decide
  rw [hroot, List.singleton_append, ← hcomponents] at hsame
  exact ⟨⟨habs', by rwa [hsame]⟩, hsame, by rw [PathBuf.rebuild, hsame, ← PathBuf.rebuild]⟩

/-! ## Where a path leads -/

def lexicalStep (place : List Bytes) : Component → List Bytes
  | .rootDir => []
  | .curDir => place
  | .parentDir => place.dropLast
  | .normal name => place ++ [name]

/-- the names on the way from the root to where the path leads -/
def PathBuf.lexical (p : PathBuf) : List Bytes := p.components.foldl lexicalStep []

/-- `path` leads to a place under `directory`, other than `directory` itself -/
def StrictlyBelow (directory path : PathBuf) : Prop := ∃ rest ≠ [], path.lexical = directory.lexical ++ rest

/-- **Directly below a directory.** A path whose parent is the directory leads strictly below it unless it ends in ".." -/
theorem below_iff {directory path : PathBuf} (hpath : path.isAbsolute = true)
    (hparent : path.parent = some directory.components) :
    StrictlyBelow directory path ↔ path.components.getLast? ≠ some .parentDir := by
  obtain ⟨last, hroot, hlast, hcomponents⟩ : ∃ last, last ≠ .rootDir ∧ path.components.getLast? = some last ∧
      path.components = directory.components ++ [last] := by
    unfold PathBuf.parent at hparent
    split at hparent
    · cases hparent
    · cases hparent
    · rename_i last hroot hlast
      refine ⟨last, hroot, hlast, ?_⟩
      rw [← Option.some.inj hparent]
      exact (List.dropLast_append_getLast? last hlast).symm
  have hkind : last = .parentDir ∨ ∃ name, last = .normal name := by
    rw [components_absolute hpath] at hcomponents
    cases hdirectory : directory.components with
    | nil =>
      rw [hdirectory] at hcomponents
      exact absurd (List.cons.inj hcomponents).1.symm hroot
    | cons _ above =>
      rw [hdirectory] at hcomponents
      have hmem : last ∈ pieces path.inner := by
        rw [(List.cons.inj hcomponents).2]
        exact List.mem_append_right _ (List.mem_singleton_self _)
      exact (mem_pieces hmem).imp_right fun ⟨name, hname, _⟩ => ⟨name, hname⟩
  have hlexical : path.lexical = lexicalStep directory.lexical last := by
    rw [PathBuf.lexical, hcomponents, List.foldl_append]
    rfl
  rw [hlast]
  rcases hkind with rfl | ⟨name, rfl⟩
  · refine iff_of_false ?_ (not_not.2 rfl)
    rintro ⟨rest, hrest, hplace⟩
    rw [hlexical] at hplace
    have hlength := congrArg List.length hplace
    rw [lexicalStep, List.length_dropLast, List.length_append] at hlength
    have := List.length_pos_of_ne_nil hrest
    omega
  · exact iff_of_true ⟨[name], List.cons_ne_nil _ _, hlexical⟩ nofun

end Core.Path
