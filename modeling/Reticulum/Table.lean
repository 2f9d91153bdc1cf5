import Reticulum.Bytes
import Mathlib.Data.List.AList

/-! Go maps keyed by a byte string. -/

namespace Reticulum

abbrev Table (V : Type) := AList (fun _ : Bytes => V)

end Reticulum
