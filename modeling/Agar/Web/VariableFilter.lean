import Agar.Lib.Search
import Agar.Lib.Turns
import Agar.Web.EscapeURL
import Agar.Web.Variables

namespace Agar.Web

open Agar.Lib
open Agar.Core

/-!
# Filtering documents

`WEB_VAR_FilterDocument` and `WEB_VAR_FilterFragment` go through a document
from its start, and put the values of variables and the translations of texts
in the place of their names.

A pointer into the document is the bytes from there to its end.  The document
has no terminator: the memory behind its end is read as well, and what is there
is known to no one.
-/

/-- `VAR_GETTEXT_MAX`, the size of `vName` -/
def varGettextMax : Nat := 256

/-- `enum web_varsubst_mode` -/
inductive VarSubstMode where
  | normal
  | var
  | escape
  | translate
  deriving DecidableEq

/-- `isprint` -/
def isPrint (c : UInt8) : Bool := 32 ≤ c && c ≤ 126

/-- `VarNameChar` -/
def varNameChar (c : UInt8) : Bool := isAlnum c || c == 95

/-- `c[index]`, in the document or in the memory behind it -/
def byteAt (behind : Nat → UInt8) (c : Text) (index : Nat) : UInt8 :=
  c.getD index (behind (index - c.length))

/--
The loops that copy a name to `vName`, where there is room for so many bytes:
they stop before the last byte of the document.
-/
def copyName (accepts : UInt8 → Bool) : Nat → Text → Text × Text
  | room + 1, b :: next :: rest =>
    if accepts b then
      let (vName, c) := copyName accepts room (next :: rest)
      (b :: vName, c)
    else ([], b :: next :: rest)
  | _, c => ([], c)

/-- What is done behind a marker: the mode, the name, and where `c` is then -/
def readName (behind : Nat → UInt8) (mode : VarSubstMode) (c : Text) : VarSubstMode × Text × Text :=
  if byteAt behind c 0 = 95 ∧ byteAt behind c 1 = 40 then
    let (vName, c) := copyName (fun b => b ≠ 41 && isPrint b) (varGettextMax - 1) (c.drop 2)
    (.translate, vName, c.drop 1)
  else
    let (vName, c) := copyName varNameChar (varGettextMax - 1) c
    (mode, vName, c)

/-- The part of a turn that decides on the mode -/
def readItem (behind : Nat → UInt8) (c : Text) : VarSubstMode × Text × Text :=
  if byteAt behind c 0 = 37 ∧ 3 < c.length ∧ byteAt behind c 1 = 50 ∧ byteAt behind c 2 = 52 then
    readName behind (if byteAt behind c 3 = 37 ∧ 6 < c.length ∧
          byteAt behind c 4 = 50 ∧ byteAt behind c 5 = 52 then
        .escape
      else .var)
      (c.drop 3)
  else if byteAt behind c 0 = 36 then
    readName behind (if byteAt behind c 1 = 36 then .escape else .var) (c.drop 1)
  else (.normal, [], c)

/-- What a turn puts out, and where `c` is after it -/
def filterItem (app : WebApp) (gettext : Text → Text) (behind : Nat → UInt8)
    (c : Text) : Text × Text :=
  match readItem behind c with
  | (.normal, _, c) => ([byteAt behind c 0], c.drop 1)
  | (.escape, vName, c) => (36 :: vName, c)
  | (.translate, vName, c) => (gettext vName, c)
  | (.var, vName, c) => if vName = [] then ([], c) else (((app.get vName).map cString).getD [], c)

/-! ## Documents -/

/-- Where `WEB_VAR_FilterDocument` is, and what it has put out -/
structure DocumentState where
  c : Text
  out : Text
  deriving DecidableEq

/-- One turn of `WEB_VAR_FilterDocument`, with its test -/
def documentTurn (app : WebApp) (gettext : Text → Text) (behind : Nat → UInt8)
    (state : DocumentState) : Progress DocumentState Text :=
  if state.c ≠ [] then
    let (text, c) := filterItem app gettext behind state.c
    .running ⟨c, state.out ++ text⟩
  else .ended state.out

/-- `WEB_VAR_FilterDocument` ends, having put out a text. -/
def FilterDocument (app : WebApp) (gettext : Text → Text) (behind : Nat → UInt8)
    (src out : Text) : Prop :=
  EndsWith (fun _ => documentTurn app gettext behind) ⟨src, []⟩ out

/-! ## Fragments -/

section Bytes

variable {behind : Nat → UInt8}

@[simp] theorem byteAt_cons_zero (b : UInt8) (rest : Text) : byteAt behind (b :: rest) 0 = b := rfl

@[simp] theorem byteAt_cons_succ (b : UInt8) (rest : Text) (index : Nat) :
    byteAt behind (b :: rest) (index + 1) = byteAt behind rest index := by
  simp [byteAt]

end Bytes

/-! ## Turns make progress -/

section Progress

variable {app : WebApp} {gettext : Text → Text} {behind : Nat → UInt8}

end Progress

end Agar.Web
