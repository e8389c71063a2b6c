import Mathlib.Data.Nat.Notation

set_option autoImplicit false
namespace Stakit.RouterError

/-- The parts of a router error that a client sees: status code, machine-readable
kind and message. -/
structure Error where
  code : ℕ
  kind : String
  message : String
  deriving DecidableEq, Repr

def coded (code : ℕ) (kind message : String) : Error := ⟨code, kind, message⟩

/-- An application error without a machine-readable kind of its own. -/
def applicationError (code : ℕ) (message : String) : Error := coded code "error" message

def badRequest (message : String) : Error := coded 400 "bad_request" message

/-- The real text of an internal error stays on the server, in its `detail`. -/
def internal : Error := coded 500 "internal" "internal server error"

end Stakit.RouterError
