import Agar.Core.ClassPattern
import Agar.Core.DataSource

namespace Agar.Core

open Agar.Lib

/-!
# Class specifications

A class is specified by the hierarchy of its names, in flat format or by names
in a namespace, whose prefix is put in front of each of them.  Libraries may
follow an `@`.
-/

/-- `'@'` -/
def atSign : UInt8 := 64

/-- `'('` -/
def openParen : UInt8 := 40

/-- `')'` -/
def closeParen : UInt8 := 41

/-- `AG_Namespace` -/
structure ClassNamespace where
  name : List UInt8
  pfx : List UInt8
  url : List UInt8
  deriving Repr, DecidableEq

/-- The namespace that `AG_InitClassTbl` registers -/
def agarNamespace : ClassNamespace where
  name := ascii "Agar"
  pfx := ascii "AG_"
  url := ascii "http://libagar.org/"

/-- `AG_GetNamespace` -/
def getNamespace (namespaceTbl : List ClassNamespace) (ns : List UInt8) : Option ClassNamespace :=
  namespaceTbl.find? fun entry => entry.name = ns

/-- `AG_ObjectClassSpec` -/
structure ObjectClassSpec where
  hier : CString objectHierMax
  libs : CString objectLibsMax
  spec : CString objectHierMax
  name : CString objectNameMax
  deriving DecidableEq

/--
The variables of the loop of `AG_ParseClassSpec`: what was appended to
`cs->hier`, as far as it would reach in enough memory; the libraries; what was
stored in front of `pNsName`, and `nsName[0]`; and what follows `pOpen`.
-/
structure SpecScan where
  hier : List UInt8
  libs : CString objectLibsMax
  nsName : List UInt8
  nsFirst : UInt8
  pOpen : Option (List UInt8)
  deriving DecidableEq

namespace SpecScan

/-- The variables in front of the loop. -/
def initial : SpecScan where
  hier := []
  libs := .strlcpy []
  nsName := []
  nsFirst := 0
  pOpen := none

/-- `i += Strlcpy(&cs->hier[i], src, sizeof(cs->hier)-i)` -/
def append (scan : SpecScan) (src : List UInt8) : Except Stop SpecScan :=
  if scan.hier.length > objectHierMax then
    -- the size that is left wraps, and the copy is behind the array
    .error .undefined
  else .ok { scan with hier := scan.hier ++ src }

/-- The loop over the names of a namespace -/
def appendNames (pfx : List UInt8) : List Component → SpecScan → Except Stop SpecScan
  | [], scan => .ok scan
  | pTok :: rest, scan => do
      let scan ← scan.append pfx
      let scan ← scan.append pTok
      let scan ← scan.append [colon]
      appendNames pfx rest scan

/-- What the loop stores of a character outside parentheses -/
def store (scan : SpecScan) (c : UInt8) (rest : List UInt8) : SpecScan :=
  match scan.pOpen with
  | some inner => { scan with pOpen := some (inner ++ [c]) }
  | none =>
    { scan with
      nsName := if c = colon then scan.nsName else scan.nsName ++ [c]
      nsFirst :=
        if c ≠ colon ∧ scan.nsName = [] then c else scan.nsFirst
      libs :=
        if c = atSign ∧ rest ≠ [] then .strlcpy rest else scan.libs }

/-- The name of a namespace ends. -/
def endName (scan : SpecScan) : SpecScan :=
  { scan with nsName := [], nsFirst := scan.nsName.headD 0 }

end SpecScan

/-- The loop of `AG_ParseClassSpec`, with no result where it returns -1 -/
def scanSpec (namespaceTbl : List ClassNamespace) :
    List UInt8 → SpecScan → Except Stop (Option SpecScan)
  | [], scan => .ok (some scan)
  | c :: rest, scan =>
    if c = openParen ∧ rest ≠ [] then
      if scan.pOpen.isSome ∨ scan.nsFirst = 0 then .ok none
      else scanSpec namespaceTbl rest { scan with pOpen := some [] }
    else if c = closeParen then
      if scan.pOpen = some [] then scanSpec namespaceTbl rest { scan with pOpen := none }
      else
        let stored := scan.store c rest
        match getNamespace namespaceTbl stored.nsName with
        | none => .ok none
        | some ns =>
          match scan.pOpen with
          | none =>
            -- the names are read from `NULL`
            .error .undefined
          | some inner => do
              let scan ← stored.endName.appendNames ns.pfx
                  (components (inner.take (objectHierMax - 1)))
              scanSpec namespaceTbl rest { scan with pOpen := none }
    else scanSpec namespaceTbl rest (scan.store c rest)

/-- The part of a string in front of the last `'@'` -/
def withoutLibs (s : List UInt8) : List UInt8 :=
  match splitLast atSign s with
  | some (front, _) => front
  | none => s

/-- The part of a hierarchy behind the last colon, unless that is empty -/
def lastName (hier : List UInt8) : List UInt8 :=
  match splitLast colon hier with
  | some (_, c) => if c = [] then hier else c
  | none => hier

/-- The end of `AG_ParseClassSpec`, which fills in the fields -/
def fillSpec (spec : List UInt8) (scan : SpecScan) : Except Stop ObjectClassSpec :=
  if scan.hier.length ≥ objectHierMax then .error .undefined
  else
    let named :=
      if scan.hier = [] then spec
      else if scan.hier.getLast? = some colon then scan.hier.dropLast
      else scan.hier
    let hier : CString objectHierMax := .strlcpy (withoutLibs named)
    let name : CString objectNameMax := .strlcpy (lastName hier.bytes)
    .ok {
      hier := hier
      libs := scan.libs
      spec :=
        if scan.libs.bytes = [] then hier else hier.strlcat scan.libs.bytes
      name := .strlcpy (withoutLibs name.bytes)
    }

/-- `AG_ParseClassSpec`, with no result where it returns -1 -/
def parseClassSpec (namespaceTbl : List ClassNamespace)
    (spec : List UInt8) : Except Stop (Option ObjectClassSpec) :=
  if spec.length ≥ objectHierMax then .ok none
  else do
    match ← scanSpec namespaceTbl spec .initial with
    | none => return none
    | some scan => do
        let cs ← fillSpec spec scan
        return some cs

end Agar.Core
