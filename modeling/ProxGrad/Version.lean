/-!
# Version
-/

set_option autoImplicit false

namespace ProxGrad

/-- The version of the library. -/
def version : String := "0.1.0"

end ProxGrad
