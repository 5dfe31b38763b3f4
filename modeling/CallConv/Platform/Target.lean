import CallConv.Platform.Basic
import CallConv.Text.Quoted

/-!
# Targets and their shortcuts

A shortcut such as `win64` names a condition on the platform. Conditions are asked of targets: the
platforms of the three operating systems that shortcuts speak of, with a pointer of 32 or 64 bits,
so that every condition has a meaningful answer.
-/

namespace CallConv

/-- A condition on a platform: its operating system, its pointer width, or both. -/
structure Condition where
  /-- The operating system asked for. -/
  os? : Option Text
  /-- The pointer width asked for. -/
  width? : Option Nat
deriving DecidableEq, Repr

/-- Whether a platform meets a condition. -/
def Condition.holds (c : Condition) (p : Platform) : Bool :=
  c.os?.all (· == p.os) && c.width?.all (· == p.pointerWidth)

namespace Shortcut

/-- The operating system of the `linux` shortcuts. -/
def linux : Text := utf8 "linux"
/-- The operating system of the `win` shortcuts. -/
def windows : Text := utf8 "windows"
/-- The operating system of the `macos` shortcuts. -/
def osx : Text := utf8 "osx"

/-- The shortcuts with their conditions, in canonical order. -/
def table : List (Text × Condition) :=
  [(utf8 "linux64", ⟨some linux, some 64⟩),
    (utf8 "linux32", ⟨some linux, some 32⟩),
    (utf8 "win32", ⟨some windows, some 32⟩),
    (utf8 "win64", ⟨some windows, some 64⟩),
    (utf8 "macos32", ⟨some osx, some 32⟩),
    (utf8 "macos64", ⟨some osx, some 64⟩),
    (utf8 "linux", ⟨some linux, none⟩),
    (utf8 "win", ⟨some windows, none⟩),
    (utf8 "macos", ⟨some osx, none⟩),
    (utf8 "64", ⟨none, some 64⟩),
    (utf8 "32", ⟨none, some 32⟩)]

/-- The names of the shortcuts in canonical order. -/
def names : List Text := table.map Prod.fst

/-- The condition that a name stands for. -/
def condition? (name : Text) : Option Condition := table.lookup name

/-- Whether a name is a shortcut. -/
def isKnown (name : Text) : Bool := (condition? name).isSome

end Shortcut

/-- The operating systems that shortcuts speak of. -/
def supportedOs : List Text := [Shortcut.linux, Shortcut.windows, Shortcut.osx]

/-- The pointer widths that shortcuts speak of. -/
def supportedWidths : List Nat := [32, 64]

/-- A platform of which every shortcut can be asked. -/
structure Target where
  /-- The platform. -/
  platform : Platform
  /-- Its operating system is one that shortcuts speak of. -/
  os_mem : platform.os ∈ supportedOs
  /-- Its pointer width is one that shortcuts speak of. -/
  width_mem : platform.pointerWidth ∈ supportedWidths
deriving DecidableEq, Repr

/-- Why a platform is no target. -/
inductive TargetError where
  | unsupportedOs (p : Platform)
  | unknownWidth (p : Platform)
deriving DecidableEq, Repr

/-- The message of a failure. -/
def TargetError.message : TargetError → Text
  | unsupportedOs p =>
    utf8 "target platform is not supported by target shortcuts: OS " ++ Text.quoted p.os ++
      utf8 " of " ++ p.text ++ utf8 ", expected one of " ++ Text.bracketed supportedOs
  | unknownWidth p =>
    utf8 "target platform is not supported by target shortcuts: pointer width of " ++ p.text ++
      utf8 " is unknown, expected one of " ++ Text.bracketed (supportedWidths.map Text.ofNat)

namespace Target

/-- The target of a platform. -/
def ofPlatform (p : Platform) : Except TargetError Target :=
  if os_mem : p.os ∈ supportedOs then
    if width_mem : p.pointerWidth ∈ supportedWidths then .ok ⟨p, os_mem, width_mem⟩
    else .error (.unknownWidth p)
  else .error (.unsupportedOs p)

/-- Whether a shortcut denotes the target; `none` for a name that is no shortcut. -/
def matches? (target : Target) (name : Text) : Option Bool :=
  (Shortcut.condition? name).map (·.holds target.platform)

/-- The shortcuts that denote the target, in canonical order. -/
def shortcuts (target : Target) : List Text :=
  (Shortcut.table.filter fun (_, condition) => condition.holds target.platform).map Prod.fst

/-- How messages name an unknown shortcut. -/
def unknownShortcut (name : Text) : Text := utf8 "unknown target shortcut " ++ Text.quoted name

end Target

end CallConv
