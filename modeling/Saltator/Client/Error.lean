import Mathlib.Tactic.Common

/-!
# Errors of the client API

The standard error response: an HTTP status, an error code and a text.
-/

namespace Saltator.Client

structure ApiError where
  status : Nat
  errcode : String
  message : String
  deriving DecidableEq, Repr

namespace ApiError

def forbidden (message : String) : ApiError := ⟨403, "M_FORBIDDEN", message⟩
def notFound (message : String) : ApiError := ⟨404, "M_NOT_FOUND", message⟩
def badJson (message : String) : ApiError := ⟨400, "M_BAD_JSON", message⟩
def invalidParam (message : String) : ApiError := ⟨400, "M_INVALID_PARAM", message⟩
def internal (message : String) : ApiError := ⟨500, "M_UNKNOWN", message⟩

end ApiError

end Saltator.Client
