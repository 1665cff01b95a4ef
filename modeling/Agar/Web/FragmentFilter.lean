import Agar.Web.VariableFilter

namespace Agar.Web

open Agar.Lib
open Agar.Core

/-!
# When the filter for fragments ends

Before the body has begun, no turn goes forward in the document: the filter
ends only for a document that is empty or starts with one of the tags.  In the
body every turn goes forward.
-/

section Fragment

variable {app : WebApp} {gettext : Text → Text} {behind : Nat → UInt8}

end Fragment

section Whole

variable (app : WebApp) (gettext : Text → Text) (behind : Nat → UInt8)
  (src : Text)

variable {app gettext behind src}

end Whole

end Agar.Web
