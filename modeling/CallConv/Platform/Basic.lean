import CallConv.Text.Basic

/-!
# Platforms

A platform is an operating system and an architecture, each known by one canonical name and some
aliases. The width of a pointer follows from the architecture.
-/

namespace CallConv

/-- An operating system and an architecture. -/
structure Platform where
  /-- The name of the operating system. -/
  os : Text
  /-- The name of the architecture. -/
  arch : Text
deriving DecidableEq, Repr

namespace Platform

/-- The canonical names of operating systems. -/
def knownOs : List Text :=
  ["android", "chromiumos", "emscripten", "freebsd", "fuchsia", "haiku", "ios", "linux", "netbsd",
    "nixos", "none", "openbsd", "osx", "qnx", "tvos", "uefi", "visionos", "vxworks", "wasi",
    "watchos", "windows"].map utf8

/-- The canonical names of architectures. -/
def knownArch : List Text :=
  ["aarch32", "aarch64", "arm64_32", "arm64e", "armv6-m", "armv7", "armv7k", "armv7-m", "i386",
    "mips64", "ppc", "ppc32", "ppc64le", "riscv32", "riscv64", "s390x", "wasm32", "wasm64",
    "x86_32", "x86_64"].map utf8

/-- The architectures whose pointers have 32 bits. -/
def arch32 : List Text :=
  ["aarch32", "armv6-m", "armv7", "armv7k", "armv7-m", "arm64_32", "i386", "x86_32", "ppc", "ppc32",
    "riscv32", "wasm32"].map utf8

/-- The architectures whose pointers have 64 bits. -/
def arch64 : List Text :=
  ["aarch64", "arm64e", "mips64", "ppc64le", "riscv64", "s390x", "wasm64", "x86_64"].map utf8

/-- Other names, each with the canonical name that it stands for, in the order of the names. -/
abbrev Aliases := List (Text × Text)

/-- Other names of operating systems. -/
def osAliases : Aliases :=
  [("darwin", "osx"), ("macos", "osx"), ("win", "windows")].map fun (a, b) => (utf8 a, utf8 b)

/-- Other names of architectures. -/
def archAliases : Aliases :=
  [("386", "i386"), ("amd64", "x86_64"), ("arm", "aarch32"), ("arm64", "aarch64"),
    ("mips64le", "mips64"), ("wasm", "wasm32"), ("x86", "x86_32")].map fun (a, b) =>
      (utf8 a, utf8 b)

/-- The canonical name that a name stands for, which is the name itself unless it is an alias. -/
def Aliases.canonical (aliases : Aliases) (name : Text) : Text := (aliases.lookup name).getD name

/-- How messages show a table of aliases. -/
def Aliases.text (aliases : Aliases) : Text :=
  utf8 "map" ++ Text.bracketed (aliases.map fun (a, b) => a ++ utf8 ":" ++ b)

/-- How messages show a platform. -/
def text (p : Platform) : Text := p.os ++ utf8 "/" ++ p.arch

/-- The number of bits of a pointer, or zero for an unknown architecture. -/
def pointerWidth (p : Platform) : Nat :=
  if p.arch ∈ arch32 then 32 else if p.arch ∈ arch64 then 64 else 0

/-- The order of platforms: by operating system, then by architecture. -/
def compare (p q : Platform) : Ordering := (p.os.compare q.os).then (p.arch.compare q.arch)

/-- Platforms in order; equal ones keep their places. -/
def sort (ps : List Platform) : List Platform := ps.mergeSort fun p q => p.compare q != .gt

/-- Why a name or a pair of names is no platform. -/
inductive NameError where
  /-- The text is not two names with a slash between them. -/
  | malformed (value : Text)
  | unknownOs (name : Text)
  | unknownArch (name : Text)
deriving DecidableEq, Repr

/-- The message of a failure. -/
def NameError.message : NameError → Text
  | malformed value => utf8 "malformed platform string: " ++ value ++ utf8 ", expected <os>/<arch>"
  | unknownOs name =>
    utf8 "unknown OS " ++ name ++ utf8 ", expected one of known values " ++
      Text.bracketed knownOs ++ utf8 " or an alias " ++ osAliases.text
  | unknownArch name =>
    utf8 "unknown architecture " ++ name ++ utf8 ", expected one of known values " ++
      Text.bracketed knownArch ++ utf8 " or an alias " ++ archAliases.text

/-- The platform with the given names or aliases. -/
def ofNames (os arch : Text) : Except NameError Platform :=
  let p : Platform := ⟨osAliases.canonical os, archAliases.canonical arch⟩
  if p.os ∉ knownOs then .error (.unknownOs p.os)
  else if p.arch ∉ knownArch then .error (.unknownArch p.arch)
  else .ok p

/-- The platform written as two names with slashes around and between them. -/
def parse (value : Text) : Except NameError Platform :=
  match (value.splitAt Byte.slash).filter (· ≠ []) with
  | [os, arch] => ofNames os arch
  | _ => .error (.malformed value)

end Platform

/-- The system that a program is built for, by the names that its compiler has for it. -/
structure Host where
  /-- The name of the operating system. -/
  os : Text
  /-- The name of the architecture. -/
  arch : Text
deriving DecidableEq, Repr

/-- The platform that a program runs on. -/
def Host.platform (h : Host) : Except Platform.NameError Platform := Platform.ofNames h.os h.arch

end CallConv
