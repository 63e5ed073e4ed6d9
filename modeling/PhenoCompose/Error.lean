/-
Errors of the command line tool, and what it takes from outside: the hash function, the JSON writer, and the texts of
errors that come from the standard library and from `serde`.
-/
import PhenoCompose.Core.Text
import PhenoCompose.Core.Json
import PhenoCompose.Core.Process
import PhenoCompose.Core.Sha256

namespace PhenoCompose

open Core.Text Core.Json Core.Process

/-- the kinds of `std::io::Error` the program tells apart, and its rendered text -/
structure IoError where
  notFound : Bool
  message : String
deriving DecidableEq, Repr

inductive ErrorKind where
  | validation
  | unsupported
  | notFound
  | conflict
  | backend
  | io
deriving DecidableEq, Repr

structure CliError where
  kind : ErrorKind
  code : String
  message : String
  capability : Option String
  provider : Option String
deriving DecidableEq, Repr

namespace CliError

def new (kind : ErrorKind) (code message : String) : CliError := ⟨kind, code, message, none, none⟩

def validation (code message : String) : CliError := new .validation code message

def unsupported (code message capability provider : String) : CliError :=
  ⟨.unsupported, code, message, some capability, some provider⟩

def notFound (code message : String) : CliError := new .notFound code message

def conflict (code message : String) : CliError := new .conflict code message

def backend (code message : String) : CliError := new .backend code message

def io (code : String) (error : IoError) : CliError := new .io code error.message

def json (message : String) : CliError := validation "json" message

end CliError

/-- a computation of the program that makes no system call -/
abbrev Result (α : Type) := Except (Stop CliError) α

/-- `Err(error)` -/
def Err {α : Type} (error : CliError) : Result α := .error (.err error)

/-- `if condition { return Err(error); }` -/
def refuseIf (condition : Prop) [Decidable condition] (error : CliError) : Result Unit :=
  if condition then Err error else .ok ()

@[simp] theorem refuseIf_ok {condition : Prop} [Decidable condition] {error : CliError} {u : Unit} :
    refuseIf condition error = .ok u ↔ ¬condition := by
  unfold refuseIf Err
  split_ifs <;> simp_all

/-- `map[name]` panics on a missing key -/
def index {V : Type} (map : Core.Collections.BTreeMap V) (name : String) : Result V :=
  match map[name]? with
  | some value => .ok value
  | none => .error (.panic "no entry found for key")

theorem index_ok_iff {V : Type} {m : Core.Collections.BTreeMap V} {name : String} {value : V} :
    index m name = .ok value ↔ m[name]? = some value := by
  unfold index
  cases m[name]? <;> simp

/-- a text in a file: what `serde_json` makes of it, or bytes that are not a JSON text -/
inductive Contents where
  | json (value : Value)
  | text (bytes : Bytes)

/-- functions of other crates, and error texts rendered by them -/
structure Externals where
  /-- `Sha256::digest` -/
  sha256 : Bytes → Vector UInt8 32
  /-- `serde_json::to_vec` -/
  toVec : Value → Bytes
  /-- the `serde_json` error for reading a type from a text -/
  serdeError : String → Contents → String
  /-- `format!("{:?}", s)` -/
  debugStr : String → String

namespace Externals

variable (lib : Externals)

/-- `format!("{:x}", Sha256::digest(bytes))` -/
def sha256Hex (bytes : Bytes) : String := hex (lib.sha256 bytes).toList

theorem sha256Hex_length (bytes : Bytes) : (lib.sha256Hex bytes).toList.length = 64 := by
  simp [sha256Hex, hex_length]

/-- `serde_json::from_str` -/
def fromStr {α : Type} (target : String) (c : Codec α) (input : Contents) : Result α :=
  match input with
  | .json value => match c.decode value with
    | some a => .ok a
    | none => Err (.json (lib.serdeError target input))
  | .text _ => Err (.json (lib.serdeError target input))

theorem fromStr_encode {α : Type} (target : String) (c : Codec α) (a : α) :
    lib.fromStr target c (.json (c.encode a)) = .ok a := by
  simp [fromStr, c.decode_encode]

theorem fromStr_raises {α : Type} (target : String) (c : Codec α) (input : Contents) :
    Raises (lib.fromStr target c input) := by
  unfold fromStr
  split
  · split
    · exact .ok _
    · exact .err _
  · exact .err _

end Externals

/-- the hash function and the writer as they are; error texts in short -/
def Externals.standard : Externals where
  sha256 := Core.Sha256.sha256
  toVec := Core.Json.toVec
  serdeError target _ := "invalid " ++ target
  debugStr s := "\"" ++ s ++ "\""

theorem refuseIf_raises (condition : Prop) [Decidable condition] (error : CliError) :
    Raises (refuseIf condition error) := by
  unfold refuseIf
  split_ifs
  · exact .err _
  · exact .ok _

end PhenoCompose
