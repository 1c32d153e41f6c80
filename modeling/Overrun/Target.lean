import Overrun.Text.Fields

/-! The machine the guest code runs on, written `architecture-os-abi`. Darwin is the one system
without an ABI part of its own, so it goes with `none` and nothing else does. -/

namespace Overrun

inductive Architecture where
  | x86
  | amd64
  | arm64
  | ppc64
  deriving DecidableEq, Repr

inductive OperatingSystem where
  | linux
  | freebsd
  | darwin
  deriving DecidableEq, Repr

inductive Abi where
  | gnu
  | musl
  | none
  deriving DecidableEq, Repr

structure Target where
  architecture : Architecture
  os : OperatingSystem
  abi : Abi
  deriving DecidableEq, Repr

namespace Architecture

def text : Architecture → String
  | x86 => "x86"
  | amd64 => "amd64"
  | arm64 => "arm64"
  | ppc64 => "ppc64"

instance : ToString Architecture := ⟨text⟩

def ofText? (s : String) : Option Architecture :=
  if s = "x86" then some x86
  else if s = "amd64" then some amd64
  else if s = "arm64" then some arm64
  else if s = "ppc64" then some ppc64
  else Option.none

/-- Bytes in a machine word. -/
def wordSize : Architecture → UInt32
  | x86 => 4
  | amd64 | arm64 | ppc64 => 8

end Architecture

namespace OperatingSystem

def text : OperatingSystem → String
  | linux => "linux"
  | freebsd => "freebsd"
  | darwin => "darwin"

instance : ToString OperatingSystem := ⟨text⟩

def ofText? (s : String) : Option OperatingSystem :=
  if s = "linux" then some linux
  else if s = "freebsd" then some freebsd
  else if s = "darwin" then some darwin
  else Option.none

end OperatingSystem

namespace Abi

def text : Abi → String
  | gnu => "gnu"
  | musl => "musl"
  | none => "none"

instance : ToString Abi := ⟨text⟩

def ofText? (s : String) : Option Abi :=
  if s = "gnu" then some gnu
  else if s = "musl" then some musl
  else if s = "none" then some none
  else Option.none

end Abi

namespace Target

inductive Error where
  /-- There are not exactly three parts in `text`. -/
  | format (text : String)
  | architecture
  | os
  | abi
  | combination
  deriving DecidableEq, Repr

def Error.message : Error → String
  | format text => s!"the format of triple must be `architecture-os-abi`: but got `{text}`"
  | architecture => "given architecture is not supported"
  | os => "given os is not supported"
  | abi => "given abi is not supported"
  | combination => "given triple consists of invalid combination"

def text (target : Target) : String :=
  target.architecture.text ++ "-" ++ target.os.text ++ "-" ++ target.abi.text

instance : ToString Target := ⟨text⟩

def wordSize (target : Target) : UInt32 :=
  target.architecture.wordSize

/-- Darwin has no ABI part and every other system has one. -/
def Coherent (target : Target) : Prop :=
  target.os = .darwin ↔ target.abi = .none

instance (target : Target) : Decidable target.Coherent :=
  inferInstanceAs (Decidable (_ ↔ _))

/-- Reads the parts from left to right: a part that is unknown is reported before one that is
missing further right, and the pairing of system and ABI is looked at last. -/
def parse (s : String) : Except Error Target :=
  match Text.fields '-' s with
  | [] => .error (.format s)
  | part :: parts =>
    match Architecture.ofText? part with
    | none => .error .architecture
    | some architecture =>
      match parts with
      | [] => .error (.format s)
      | part :: parts =>
        match OperatingSystem.ofText? part with
        | none => .error .os
        | some os =>
          match parts with
          | [] => .error (.format s)
          | part :: parts =>
            match Abi.ofText? part with
            | none => .error .abi
            | some abi =>
              match parts with
              | _ :: _ => .error (.format s)
              | [] =>
                let target : Target := ⟨architecture, os, abi⟩
                if target.Coherent then .ok target else .error .combination

end Target

end Overrun
