import Agar.Core.Object
import Agar.Web.Headers
import Agar.Lib.UpdateFirst

namespace Agar.Web

open Agar.Lib
open Agar.Core

/-!
# Queries

What the frontend makes of an HTTP request, and the characters, tokens, numbers
and ranges that it reads.  The response of a query is left out.
-/

/-! ## Limits -/

/-- `WEB_MAX_ARGS` -/
def maxArgs : Nat := 256

/-- `WEB_ARG_LENGTH_MAX` -/
def argLengthMax : Nat := 100000000

/-- `WEB_OPNAME_MAX` -/
def opNameMax : Nat := 32

/-- `WEB_ARG_KEY_MAX` -/
abbrev argKeyMax : Nat := 64

/-- `WEB_LANG_CODE_MAX` -/
abbrev langCodeMax : Nat := 6

/-- `WEB_COOKIE_NAME_MAX` -/
abbrev cookieNameMax : Nat := 48

/-- `WEB_COOKIE_VALUE_MAX` -/
abbrev cookieValueMax : Nat := 3807

/-- `WEB_USERAGENT_MAX` -/
abbrev userAgentMax : Nat := 512

instance : NeZero argKeyMax := ⟨by decide⟩
instance : NeZero userAgentMax := ⟨by decide⟩

/-! ## Queries -/

/-- `enum web_method`, without `WEB_METHOD_LAST` -/
inductive WebMethod where
  | get
  | head
  | post
  | options
  | put
  | delete
  | trace
  | connect
  deriving Repr, DecidableEq

/-- `WEB_GET_ARGUMENT` -/
def getArgument : UInt8 := 0

/-- `WEB_POST_ARGUMENT` -/
def postArgument : UInt8 := 1

/--
`struct web_argument`: `value` is the memory allocated for the value.  The
type is an integer, since a loaded one is not checked against the enumeration.
-/
structure WebArgument where
  type : UInt8
  key : CString argKeyMax
  value : List UInt8
  len : Nat
  contentType : CString 32
  deriving DecidableEq

/-- `struct web_cookie` -/
structure WebCookie where
  name : CString cookieNameMax
  value : CString cookieValueMax
  expires : CString 64
  domain : CString 48
  path : CString 128
  flags : UInt32
  deriving DecidableEq

/--
`struct web_query`.  The counts `nAcceptLangs`, `nArgs` and `nCookies` are the
lengths of the lists.
-/
structure WebQuery where
  method : WebMethod
  flags : UInt32
  acceptLangs : List (CString langCodeMax)
  args : List WebArgument
  cookies : List WebCookie
  contentType : CString 128
  contentLength : Nat
  rangeFrom : Int
  rangeTo : Int
  userIP : CString 64
  userHost : CString 256
  userAgent : CString userAgentMax
  lang : CString 4
  date : CString 32
  deriving DecidableEq

/-- `WEB_QUERY_RANGE` -/
def rangeFlag : UInt32 := 0x10

/-- What the fields that `WEB_QueryInit` leaves alone hold before it. -/
structure UnsetRange where
  rangeFrom : Int
  rangeTo : Int
  deriving Repr, DecidableEq

/-- `WEB_QueryInit` -/
def queryInit (unset : UnsetRange) (lang : List UInt8) : WebQuery where
  method := .get
  flags := 0
  acceptLangs := []
  args := []
  cookies := []
  contentType := .strlcpy []
  contentLength := 0
  rangeFrom := unset.rangeFrom
  rangeTo := unset.rangeTo
  userIP := .strlcpy []
  userHost := .strlcpy []
  userAgent := .strlcpy []
  lang := .strlcpy lang
  date := .strlcpy []

namespace WebQuery

/-- `q->flags |= flag` -/
def setFlag (q : WebQuery) (flag : UInt32) : WebQuery := { q with flags := q.flags ||| flag }

end WebQuery

/-! ## Characters and strings -/

/-- `isspace` -/
def isSpace (c : UInt8) : Bool := c = 32 || (9 ≤ c && c ≤ 13)

/-- `isdigit` -/
def isDigit (c : UInt8) : Bool := 48 ≤ c && c ≤ 57

/-- `isalnum` -/
def isAlnum (c : UInt8) : Bool := isDigit c || (65 ≤ c && c ≤ 90) || (97 ≤ c && c ≤ 122)

/-- `isxdigit` -/
def isXDigit (c : UInt8) : Bool := isDigit c || (65 ≤ c && c ≤ 70) || (97 ≤ c && c ≤ 102)

/-- `strncasecmp(s, prefix, strlen(prefix)) == 0` -/
def startsNoCase (s start : List UInt8) : Bool := equalsNoCase (s.take start.length) start

/-- The tokens that calling `AG_Strsep` on a string gives, one after the other. -/
def strsep (delim s : List UInt8) : List (List UInt8) := s.splitOnP fun c => delim.contains c

/-- The sign that a number starts with, and what is behind it. -/
def signOf : List UInt8 → Int × List UInt8
  | 45 :: rest => (-1, rest)
  | 43 :: rest => (1, rest)
  | rest => (1, rest)

/-- `strtoll(s, &ep, 10)`: the number, and what `ep` then points to -/
def strtoll (s : List UInt8) : Int × List UInt8 :=
  let (sign, behind) := signOf (s.dropWhile isSpace)
  let digits := behind.takeWhile isDigit
  if digits = [] then (0, s)
  else
    let magnitude : Nat := digits.foldl (fun value c => 10 * value + (c.toNat - 48)) 0
    (max (-2 ^ 63) (min (2 ^ 63 - 1) (sign * magnitude)), behind.drop digits.length)

/-- `strtonum`: `none` where it reports an error -/
def strtonum (s : List UInt8) (minval maxval : Int) : Option Int :=
  let (value, ep) := strtoll s
  if s = [] ∨ ep ≠ [] ∨ value < minval ∨ maxval < value then none else some value

/-- The value of a hexadecimal digit. -/
def hexValue (c : UInt8) : UInt8 :=
  if isDigit c then c - 48 else toLower c - 87

/-- The characters that the loop of `WEB_UnescapeURL` stores. -/
def unescape : List UInt8 → List UInt8
  | 37 :: high :: low :: rest =>
    if isXDigit high && isXDigit low then
      let n := 16 * hexValue high + hexValue low
      -- NUL sequences are replaced by underscores
      (if n = 0 then 95 else n) :: unescape rest
    else 37 :: unescape (high :: low :: rest)
  | 43 :: rest => 32 :: unescape rest
  | c :: rest => c :: unescape rest
  | [] => []

/-! ## The form -/

/-- Why the frontend does not accept a request. -/
inductive FrontError where
  | badRequest
  | requestUriTooLong
  | rangeNotSatisfiable
  | internalServerError
  deriving Repr, DecidableEq

/-- The value of one token of a form: the memory, and the length stored. -/
def formValue : Option (List UInt8) → List UInt8 × Nat
  | some value => (unescape value ++ [0], (unescape value).length + 1)
  | none => ([0], 0)

/-! ## Headers -/

/-- `AG_INT_MAX` -/
def intMax : Int := 2 ^ 31 - 1

/-- `ParseRange` -/
def parseRange (q : WebQuery) (s : List UInt8) : Except FrontError WebQuery :=
  if (ascii ",").any s.contains then .error .rangeNotSatisfiable
  else
    match strsep (ascii "-") s with
    | first :: last :: _ =>
      match strtonum first 0 intMax, strtonum last 0 intMax with
      | some rangeFrom, some rangeTo =>
        .ok ({ q with rangeFrom := rangeFrom, rangeTo := rangeTo }.setFlag rangeFlag)
      | _, _ => .error .rangeNotSatisfiable
    | _ => .error .rangeNotSatisfiable

end Agar.Web
