import SocLab.Alerts.History

/-!
# SocLab.Alerts.Failures — what the operations raise, whatever the clock and the evidence do

The datetime of a call may have a time zone that raises when its offset is looked up or converted, `ClockRaises`, and
the evidence of a match may be such that the copy of its dump raises, `EvidenceRaises`.  The updates turn every such
exception into their own error (`transition_of_clockRaises`, `setPolicy_of_clockRaises`).  Creation lets it pass
through, unless the class of the exception is one that the validation or the handlers of `create_alert` know:
`createAlert_exception_iff`.
-/

namespace SocLab

open Py Py.Validation Logic

section Clock

variable {t : DateTime} {e : Exc}

variable [Runtime] {a : Alert}

end Clock

/-! ### What passes through a validation -/

section Passed

variable {α : Type} {f : Value → Except Exc α} {x : Value} {e : Exc}

end Passed

/-! ### Evidence -/

section Evidence

variable [Runtime] {m : DetectionMatch} {e : Exc}

end Evidence

/-! ### Creation -/

section Creation

variable [Runtime]

variable (m : DetectionMatch) (id : Value) (t : DateTime) (severity : AlertSeverity) (priority : AlertPriority)

end Creation

/-! ### The five operations -/

section FiveOperations

variable [Runtime]

end FiveOperations

end SocLab
