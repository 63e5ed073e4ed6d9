/-
JSON values and typed codecs, in the manner of `serde`.

An object is the list of its members in the order they were inserted or read, so a text with a repeated key can be told
from one without. `canonicalize` sorts the members of every object by key.

A `Codec` carries the law that it reads back what it wrote, also after the members of objects have been rearranged; a
record codec is put together from its `Fields`, each with its own rule for a missing member. Unknown and repeated
members are refused, as `deny_unknown_fields` does; a record can also be read from an array, by position. `toVec` writes
a value as compact text.

Results: `decode_encode` and `decode_canonicalize`, the two instances of the law.
-/
import PhenoCompose.Core.Collections
import PhenoCompose.Core.Text

namespace Core.Json

open Core.Collections Core.Text

inductive Value where
  | null
  | bool (value : Bool)
  | number (value : ℤ)
  /-- a number that is not an integer, by its bits -/
  | float (bits : UInt64)
  | string (value : String)
  | array (values : List Value)
  | object (members : List (String × Value))
deriving Repr

mutual

/-- sort the members of every object by key -/
def canonicalize : Value → Value
  | .array values => .array (canonicalizeValues values)
  | .object members => .object (Std.ExtTreeMap.ofList (canonicalizeMembers members) compare).toList
  | other => other

def canonicalizeValues : List Value → List Value
  | [] => []
  | value :: values => canonicalize value :: canonicalizeValues values

def canonicalizeMembers : List (String × Value) → List (String × Value)
  | [] => []
  | (key, value) :: members => (key, canonicalize value) :: canonicalizeMembers members

end

theorem canonicalizeValues_eq (values : List Value) : canonicalizeValues values = values.map canonicalize := by
  induction values with
  | nil => rfl
  | cons value values ih => rw [canonicalizeValues, ih, List.map_cons]

theorem canonicalizeMembers_eq (members : List (String × Value)) :
    canonicalizeMembers members = members.map fun m => (m.1, canonicalize m.2) := by
  induction members with
  | nil => rfl
  | cons m members ih => rw [canonicalizeMembers, ih, List.map_cons]

/-! ## Rearranging members -/

def Value.isScalar : Value → Bool
  | .array _ | .object _ => false
  | _ => true

/-- `t` changes a value at most in the order of the members of its objects -/
structure Rearranges (t : Value → Value) : Prop where
  scalar : ∀ v, v.isScalar = true → t v = v
  null : ∀ v, t v = .null → v = .null
  array : ∀ vs, t (.array vs) = .array (vs.map t)
  object : ∀ ms, (ms.map Prod.fst).Nodup → ∃ ns, t (.object ms) = .object ns ∧ ns.Perm (ms.map fun m => (m.1, t m.2))

theorem rearranges_id : Rearranges id where
  scalar _ _ := rfl
  null _ h := h
  array vs := by simp
  object ms _ := ⟨ms, rfl, by simp⟩

theorem rearranges_canonicalize : Rearranges canonicalize where
  scalar v h := by cases v <;> first | rfl | cases h
  null v h := by cases v <;> first | rfl | cases h
  array vs := by rw [canonicalize, canonicalizeValues_eq]
  object ms h := by
    rw [canonicalize, canonicalizeMembers_eq]
    refine ⟨_, rfl, toList_ofList_perm ?_⟩
    rwa [List.map_map]

/-! ## Codecs -/

/-- how a type is written and read, with the law that ties the two -/
structure Codec (α : Type) where
  encode : α → Value
  decode : Value → Option α
  read_back : ∀ {t}, Rearranges t → ∀ a, decode (t (encode a)) = some a

variable {σ α β : Type}

namespace Codec

theorem decode_encode (c : Codec α) (a : α) : c.decode (c.encode a) = some a := c.read_back rearranges_id a

theorem encode_inj (c : Codec α) {a b : α} : c.encode a = c.encode b ↔ a = b := by
  refine ⟨?_, congrArg _⟩
  intro h
  have hb := c.decode_encode b
  rw [← h, c.decode_encode] at hb
  exact Option.some.inj hb

theorem decode_canonicalize (c : Codec α) (a : α) : c.decode (canonicalize (c.encode a)) = some a :=
  c.read_back rearranges_canonicalize a

def bool : Codec Bool where
  encode := .bool
  decode
    | .bool b => some b
    | _ => none
  read_back ht a := by rw [ht.scalar _ rfl]

def string : Codec String where
  encode := .string
  decode
    | .string s => some s
    | _ => none
  read_back ht a := by rw [ht.scalar _ rfl]

theorem string_ne_null (a : String) : string.encode a ≠ .null := by
  intro h
  cases h

/-- a fixed-width integer: a number outside its range is refused -/
def integer (lo hi : ℤ) (value : α → ℤ) (wrap : ℤ → α) (h : ∀ a, lo ≤ value a ∧ value a ≤ hi ∧ wrap (value a) = a) :
    Codec α where
  encode a := .number (value a)
  decode
    | .number z => if lo ≤ z ∧ z ≤ hi then some (wrap z) else none
    | _ => none
  read_back ht a := by
    obtain ⟨h1, h2, h3⟩ := h a
    rw [ht.scalar _ rfl]
    simp only [h1, h2, and_self, if_true, h3]

def u32 : Codec UInt32 := integer 0 (2 ^ 32 - 1) (fun n => n.toNat) (fun z => UInt32.ofNat z.toNat) fun a => by
  have := a.toNat_lt
  exact ⟨by omega, by omega, by simp⟩

def u64 : Codec UInt64 := integer 0 (2 ^ 64 - 1) (fun n => n.toNat) (fun z => UInt64.ofNat z.toNat) fun a => by
  have := a.toNat_lt
  exact ⟨by omega, by omega, by simp⟩

def i32 : Codec Int32 := integer (-2 ^ 31) (2 ^ 31 - 1) Int32.toInt Int32.ofInt fun a =>
  ⟨a.le_toInt, by have := a.toInt_lt; omega, by simp⟩

def i64 : Codec Int64 := integer (-2 ^ 63) (2 ^ 63 - 1) Int64.toInt Int64.ofInt fun a =>
  ⟨a.le_toInt, by have := a.toInt_lt; omega, by simp⟩

theorem u32_ne_null (a : UInt32) : u32.encode a ≠ .null := by
  intro h
  cases h

theorem u64_ne_null (a : UInt64) : u64.encode a ≠ .null := by
  intro h
  cases h

/-- `Option`: `null` is `None`, so the inner codec must not write it -/
def option (c : Codec α) (h : ∀ a, c.encode a ≠ .null) : Codec (Option α) where
  encode
    | none => .null
    | some a => c.encode a
  decode
    | .null => some none
    | v => (c.decode v).map some
  read_back {t} ht a := by
    cases a with
    | none => rw [ht.scalar _ rfl]
    | some a =>
      have hd := c.read_back ht a
      have hn : t (c.encode a) ≠ .null := fun e => h a (ht.null _ e)
      dsimp only
      split
      · exact absurd ‹_› hn
      · rw [hd]; rfl

theorem mapM_map_some {f : β → Option α} {g : α → β} {l : List α} (h : ∀ a ∈ l, f (g a) = some a) :
    (l.map g).mapM f = some l := by
  induction l with
  | nil => rfl
  | cons a l ih =>
    rw [List.map_cons, List.mapM_cons, h a List.mem_cons_self, ih fun b hb => h b (List.mem_cons_of_mem a hb)]
    rfl

def vec (c : Codec α) : Codec (List α) where
  encode l := .array (l.map c.encode)
  decode
    | .array vs => vs.mapM c.decode
    | _ => none
  read_back ht l := by
    rw [ht.array, List.map_map]
    exact mapM_map_some fun a _ => c.read_back ht a

/-- a map is an object; a repeated key keeps its last value -/
def btreeMap (c : Codec α) : Codec (BTreeMap α) where
  encode m := .object (m.toList.map fun e => (e.1, c.encode e.2))
  decode
    | .object ms => (ms.mapM fun m => (c.decode m.2).map (m.1, ·)).map (Std.ExtTreeMap.ofList · compare)
    | _ => none
  read_back {t} ht m := by
    have hk : ((m.toList.map fun e => (e.1, c.encode e.2)).map Prod.fst).Nodup := by
      rw [List.map_map]; exact toList_keys_nodup m
    obtain ⟨ns, hns, hp⟩ := ht.object _ hk
    rw [List.map_map] at hp
    obtain ⟨l, hl, rfl⟩ := perm_map_exists hp
    have hm : (l.map fun e => (e.1, t (c.encode e.2))).mapM (fun m => (c.decode m.2).map (m.1, ·)) = some l :=
      mapM_map_some fun e _ => by rw [c.read_back ht]; rfl
    rw [hns]
    exact (congrArg (Option.map _) hm).trans (congrArg some (ofList_of_perm hl))

/-- a set is an array in key order; repetitions collapse -/
def btreeSet : Codec BTreeSet where
  encode s := (vec string).encode s.toList
  decode v := ((vec string).decode v).map (Std.ExtTreeSet.ofList · compare)
  read_back ht s := by
    rw [(vec string).read_back ht, Option.map_some]
    exact congrArg some (set_ofList_of_mem_iff fun x => Std.ExtTreeSet.mem_toList)

/-- the text that selects a unit variant: the name, or an object with the name and `null` -/
def variantName : Value → Option String
  | .string name => some name
  | .object [(name, .null)] => some name
  | _ => none

def variants (name : α → String) (all : List α) (h : ∀ a, all.find? (fun b => name b == name a) = some a) :
    Codec α where
  encode a := .string (name a)
  decode v := (variantName v).bind fun text => all.find? fun b => name b == text
  read_back ht a := by
    rw [ht.scalar _ rfl]
    exact h a

end Codec

/-! ## Records -/

/-- some members of a record `σ`, which together hold an `α` of it -/
structure Fields (σ α : Type) where
  names : List String
  get : σ → α
  write : σ → List (String × Value)
  /-- from the members of an object -/
  read : (String → Option Value) → Option α
  /-- from the front of an array -/
  readSeq : List Value → Option (α × List Value)
  keys : ∀ s, ((write s).map Prod.fst).Sublist names
  read_back : names.Nodup → ∀ {t}, Rearranges t → ∀ s (look : String → Option Value),
    (∀ name ∈ names, look name = ((write s).lookup name).map t) → read look = some (get s)

/-- one member. `missing` is what a missing member of an object stands for, `missingSeq` what one missing at the end of
an array does; a value that `skip` selects is not written -/
def field (name : String) (c : Codec α) (get : σ → α) (missing missingSeq : Option α) (skip : α → Bool)
    (hskip : ∀ a, skip a = true → missing = some a) : Fields σ α where
  names := [name]
  get := get
  write s := if skip (get s) then [] else [(name, c.encode (get s))]
  read look := match look name with
    | none => missing
    | some v => c.decode v
  readSeq
    | [] => missingSeq.map (·, [])
    | v :: vs => (c.decode v).map (·, vs)
  keys s := by split_ifs <;> simp
  read_back _ {t} ht s look hlook := by
    have hl := hlook name List.mem_cons_self
    by_cases h : skip (get s) = true
    · rw [if_pos h] at hl
      have : look name = none := hl
      rw [this]; exact hskip _ h
    · rw [if_neg h, List.lookup_cons_self] at hl
      rw [hl]; exact c.read_back ht (get s)

/-- a member that must be there -/
def required (name : String) (c : Codec α) (get : σ → α) : Fields σ α :=
  field name c get none none (fun _ => false) (by simp)

/-- `#[serde(default)]` -/
def defaulted (name : String) (c : Codec α) (default : α) (get : σ → α) : Fields σ α :=
  field name c get (some default) (some default) (fun _ => false) (by simp)

/-- `#[serde(default, skip_serializing_if = "..")]`, where the test selects the default only -/
def skipped (name : String) (c : Codec α) (default : α) (skip : α → Bool) (h : ∀ a, skip a = true → a = default)
    (get : σ → α) : Fields σ α :=
  field name c get (some default) (some default) skip fun a ha => by rw [h a ha]

/-- these members, then those -/
def Fields.and (x : Fields σ α) (y : Fields σ β) : Fields σ (α × β) where
  names := x.names ++ y.names
  get s := (x.get s, y.get s)
  write s := x.write s ++ y.write s
  read look := (x.read look).bind fun a => (y.read look).map (a, ·)
  readSeq vs := (x.readSeq vs).bind fun a => (y.readSeq a.2).map fun b => ((a.1, b.1), b.2)
  keys s := by rw [List.map_append]; exact (x.keys s).append (y.keys s)
  read_back hn {t} ht s look hlook := by
    obtain ⟨hx, hy, hd⟩ := List.nodup_append.1 hn
    have hxr : x.read look = some (x.get s) := by
      apply x.read_back hx ht s look
      intro name hname
      have hnot : name ∉ (y.write s).map Prod.fst := fun h => hd name hname name ((y.keys s).subset h) rfl
      rw [hlook name (List.mem_append_left _ hname), List.lookup_append, lookup_eq_none hnot, Option.or_none]
    have hyr : y.read look = some (y.get s) := by
      apply y.read_back hy ht s look
      intro name hname
      have hnot : name ∉ (x.write s).map Prod.fst := fun h => hd name ((x.keys s).subset h) name hname rfl
      rw [hlook name (List.mem_append_right _ hname), List.lookup_append, lookup_eq_none hnot, Option.none_or]
    rw [hxr, hyr]; rfl

/-- the members that a record was written with, however they were rearranged, are those that are read -/
theorem Fields.object_read_back {fields : Fields σ α} (hnames : fields.names.Nodup) {t : Value → Value}
    (ht : Rearranges t) (s : σ) :
    ∃ ns, t (.object (fields.write s)) = .object ns ∧ (ns.map Prod.fst).Nodup ∧
      (∀ key ∈ ns.map Prod.fst, key ∈ fields.names) ∧ fields.read (fun key => ns.lookup key) = some (fields.get s) := by
  have hk : ((fields.write s).map Prod.fst).Nodup := (fields.keys s).nodup hnames
  obtain ⟨ns, hns, hp⟩ := ht.object _ hk
  have hkeys : (ns.map Prod.fst).Perm ((fields.write s).map Prod.fst) := by
    have := hp.map Prod.fst
    rwa [List.map_map] at this
  refine ⟨ns, hns, hkeys.nodup_iff.2 hk, fun key h => (fields.keys s).subset (hkeys.subset h), ?_⟩
  apply fields.read_back hnames ht s _
  intro name _
  rw [lookup_of_perm hp (by rw [List.map_map]; exact hk), lookup_map_snd]

/-- a record with `deny_unknown_fields` -/
def record (fields : Fields σ α) (build : α → σ) (hbuild : ∀ s, build (fields.get s) = s)
    (hnames : fields.names.Nodup) : Codec σ where
  encode s := .object (fields.write s)
  decode
    | .object ms =>
      if (ms.map Prod.fst).Nodup ∧ ∀ key ∈ ms.map Prod.fst, key ∈ fields.names then
        (fields.read fun key => ms.lookup key).map build
      else none
    | .array vs => match fields.readSeq vs with
      | some (a, []) => some (build a)
      | _ => none
    | _ => none
  read_back {t} ht s := by
    obtain ⟨ns, hns, hdistinct, hknown, hread⟩ := fields.object_read_back hnames ht s
    rw [hns]
    show (if _ then _ else _) = _
    rw [if_pos ⟨hdistinct, hknown⟩, hread, Option.map_some, hbuild]

/-- a record without `deny_unknown_fields`: members of other names are passed over -/
def openRecord (fields : Fields σ α) (build : α → σ) (hbuild : ∀ s, build (fields.get s) = s)
    (hnames : fields.names.Nodup) : Codec σ where
  encode s := .object (fields.write s)
  decode
    | .object ms =>
      let known := ms.filter fun m => m.1 ∈ fields.names
      if (known.map Prod.fst).Nodup then (fields.read fun key => known.lookup key).map build else none
    | .array vs => match fields.readSeq vs with
      | some (a, []) => some (build a)
      | _ => none
    | _ => none
  read_back {t} ht s := by
    obtain ⟨ns, hns, hdistinct, hnamed, hread⟩ := fields.object_read_back hnames ht s
    have hknown : (ns.filter fun m => m.1 ∈ fields.names) = ns := by
      apply List.filter_eq_self.2
      intro m hm
      exact decide_eq_true (hnamed m.1 (List.mem_map_of_mem hm))
    rw [hns]
    show (if _ then _ else _) = _
    rw [hknown, if_pos hdistinct, hread, Option.map_some, hbuild]

/-- a member as it is read, a missing one as what it stands for -/
def readOr (c : Codec α) (missing : α) : Option Value → Option α
  | none => some missing
  | some v => c.decode v

theorem read_defaulted {name : String} {c : Codec α} {default : α} {get : σ → α} {look : String → Option Value} :
    (defaulted name c default get).read look = readOr c default (look name) := by
  show (match look name with
    | none => some default
    | some v => c.decode v) = _
  cases look name <;> rfl

theorem read_and {x : Fields σ α} {y : Fields σ β} {look : String → Option Value} {a : α} {b : β} :
    (x.and y).read look = some (a, b) ↔ x.read look = some a ∧ y.read look = some b := by
  show ((x.read look).bind fun a => (y.read look).map (a, ·)) = _ ↔ _
  cases x.read look <;> cases y.read look <;> simp

/-- a record is read from an object, or from an array -/
theorem openRecord_source {fields : Fields σ α} {build : α → σ} {hbuild : ∀ s, build (fields.get s) = s}
    {hnames : fields.names.Nodup} {v : Value} {s : σ} (h : (openRecord fields build hbuild hnames).decode v = some s) :
    (∃ ms, v = .object ms) ∨ ∃ vs, v = .array vs := by
  cases v with
  | object ms => exact .inl ⟨ms, rfl⟩
  | array vs => exact .inr ⟨vs, rfl⟩
  | _ => cases h

/-- a record that was read from an object is built from the members of its own names -/
theorem openRecord_object {fields : Fields σ α} {build : α → σ} {hbuild : ∀ s, build (fields.get s) = s}
    {hnames : fields.names.Nodup} {ms : List (String × Value)} {s : σ}
    (h : (openRecord fields build hbuild hnames).decode (.object ms) = some s) :
    ∃ a look, build a = s ∧ fields.read look = some a ∧ ∀ name ∈ fields.names, look name = ms.lookup name := by
  have h' : (if ((ms.filter fun m => m.1 ∈ fields.names).map Prod.fst).Nodup then
      (fields.read fun key => (ms.filter fun m => m.1 ∈ fields.names).lookup key).map build else none) = some s := h
  split_ifs at h'
  obtain ⟨a, hread, hbuild⟩ := Option.map_eq_some_iff.1 h'
  refine ⟨a, _, hbuild, hread, fun name hname => ?_⟩
  exact lookup_filter (p := fun key => key ∈ fields.names) (decide_eq_true hname) ms

theorem record_ne_null {fields : Fields σ α} {build : α → σ} {hbuild : ∀ s, build (fields.get s) = s}
    {hnames : fields.names.Nodup} (s : σ) : (record fields build hbuild hnames).encode s ≠ .null := by
  intro h; cases h

/-! ## Compact text -/

/-- the text between two bytes -/
def enclosed (left right : UInt8) (text : Bytes) : Bytes := left :: text ++ [right]

def comma : Bytes := [44]

/-- quotes, backslashes and control characters are escaped; everything else stands for itself -/
def writeChar (c : Char) : Bytes :=
  match c.toNat with
  | 8 => bytes "\\b"
  | 9 => bytes "\\t"
  | 10 => bytes "\\n"
  | 12 => bytes "\\f"
  | 13 => bytes "\\r"
  | 34 => [92, 34]
  | 92 => [92, 92]
  | n => if n < 32 then bytes "\\u00" ++ bytes (hex [UInt8.ofNat n]) else String.utf8EncodeChar c

def writeString (s : String) : Bytes := enclosed 34 34 (s.toList.flatMap writeChar)

mutual

/-- a value without floating-point numbers, with no space between its tokens -/
def toVec : Value → Bytes
  | .null => bytes "null"
  | .bool value => bytes (toString value)
  | .number value => bytes (toString value)
  | .float _ => []
  | .string value => writeString value
  | .array values => enclosed 91 93 (comma.intercalate (toVecValues values))
  | .object members => enclosed 123 125 (comma.intercalate (toVecMembers members))

def toVecValues : List Value → List Bytes
  | [] => []
  | value :: values => toVec value :: toVecValues values

def toVecMembers : List (String × Value) → List Bytes
  | [] => []
  | (key, value) :: members => (writeString key ++ 58 :: toVec value) :: toVecMembers members

end

example : toVec (.object [("a", .array [.number (-1), .null])]) = bytes "\x7b\"a\":[-1,null]\x7d" := by decide

end Core.Json
