import Reclaim.Json
import Reclaim.Maintenance
import Reclaim.Report.Style

/-!
# The report of maintenance

## Main definitions

* `MaintenanceReport.json`, `MaintenanceReport.brief`, `MaintenanceReport.report` : as data, in one
  line, and in full.
-/

namespace Reclaim

/-- What became of a step as data. -/
def StepStatus.json : StepStatus → Json
  | done => .text "done"
  | failed text => .object [("failed", .text text)]
  | cancelled => .text "cancelled"
  | awaitingAuthorization => .text "awaiting_authorization"

/-- A step with what became of it as data. -/
def StepReport.json (s : StepReport) : Json :=
  .object [("label", .text s.label), ("status", s.status.json)]

/-- The line for a step. -/
def StepReport.line (look : Look) (s : StepReport) : String :=
  match s.status with
  | .done => "  " ++ look.tick ++ " " ++ s.label
  | .failed text => "  " ++ look.cross ++ " " ++ s.label ++ " " ++ look.dimmed (Text.trim text)
  | .cancelled =>
    "  " ++ look.tinted .yellow "–" ++ " " ++ s.label ++ " " ++ look.dimmed "(cancelled)"
  | .awaitingAuthorization => "  🔒 " ++ s.label ++ " " ++ look.dimmed "(needs password)"

namespace MaintenanceReport

/-- What became of all steps as data. -/
def json (r : MaintenanceReport) : Json :=
  .object [("steps", .array (r.steps.map StepReport.json)), ("paused", .boolean r.paused)]

/-- What became of all steps in one line. -/
def brief (r : MaintenanceReport) : String :=
  page [Decimal.natural r.steps.length ++ "  " ++ Decimal.natural r.failures ++ "  " ++
    if r.paused then "paused" else "done"]

/-- What became of all steps in full. -/
def report (look : Look) (r : MaintenanceReport) : String :=
  page (["", "  🔧 Maintenance", look.rule 50] ++ r.steps.map (StepReport.line look) ++
    (if r.paused then
      ["", "  💡 Run " ++ look.tinted .cyan "mole auth login" ++ " and then " ++
        look.tinted .cyan "mole optimize" ++ " again to finish."]
      else []) ++ [""])

end MaintenanceReport

end Reclaim
