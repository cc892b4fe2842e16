import Reclaim.App.Removal
import Reclaim.Json
import Reclaim.Report.Style

/-!
# Reports about applications

## Main definitions

* `AppRecord.json`, `AppRecord.listReport` : installed applications.
* `RemovalPlan.json`, `RemovalPlan.infoReport`, `RemovalPlan.dryReport` : what would go with one.
* `Uninstall.json`, `Uninstall.brief`, `Uninstall.report` : what went.
-/

namespace Reclaim

namespace AppRecord

/-- An application as data. -/
def json (r : AppRecord) : Json :=
  .object [("id", .text r.id.text), ("name", .text r.name), ("path", .path r.path),
    ("icon", .ofOption .path r.icon), ("size", .text r.size),
    ("size_bytes", .ofOption .natural r.sizeBytes)]

/-- The columns of a list. -/
def columns (name size : String) : String :=
  "  " ++ name ++ " " ++ size

/-- The line for an application, its name shortened to its column. -/
def line (r : AppRecord) : String :=
  columns (Text.padRight 40 (Text.shortenEnd r.name 40))
    (Text.padLeft 12 (if r.size = "" then "-" else r.size))

/-- Applications in full. -/
def listReport (look : Look) (apps : List AppRecord) : String :=
  let front := ["", "  📱 Installed Applications (" ++ Decimal.natural apps.length ++ ")",
    look.rule 60, ""]
  if apps.isEmpty then page (front ++ ["  No applications found."])
  else
    page (front ++
      [columns (look.dimmed (Text.padRight 40 "Name")) (look.dimmed (Text.padLeft 12 "Size")),
        "  " ++ look.rule 58] ++
      apps.map line ++ [""])

/-- Applications with a line each. -/
def briefList (apps : List AppRecord) : String :=
  page (apps.map fun r => r.name ++ "  " ++ (r.sizeBytes.map Amount.size).getD "")

end AppRecord

/-- A target as data. -/
def RemovalTarget.json (t : RemovalTarget) : Json :=
  .object [("path", .path t.path),
    ("kind", .ofOption (fun (k : ResidualKind) => .text k.key) t.kind),
    ("size_bytes", .natural t.sizeBytes)]

namespace RemovalPlan

/-- A plan as data. -/
def json (p : RemovalPlan) : Json :=
  .object [("app_name", .text p.appName), ("bundle_id", .ofOption .text p.identifier),
    ("targets", .array (p.targets.map RemovalTarget.json))]

/-- The targets that an application left behind, with their kinds. -/
def residuals (p : RemovalPlan) : List (ResidualKind × RemovalTarget) :=
  p.targets.filterMap fun t => t.kind.map (·, t)

/-- The lines about what an application left behind. -/
def residualLines (look : Look) (p : RemovalPlan) : List String :=
  let residuals := p.residuals
  if residuals.isEmpty then []
  else
    let bytes := Bytes.sum (residuals.map fun (_, t) => t.sizeBytes)
    ["", "  📁 Leftover files (" ++ Decimal.natural residuals.length ++ ", " ++
      Amount.size bytes ++ "):"] ++
    residuals.map fun (kind, t) =>
      "    " ++ look.dimmed ("[" ++ kind.title ++ "]") ++ " " ++ look.path t.path ++ " (" ++
        Amount.size t.sizeBytes ++ ")"

/-- An application in full, with what would go with it. -/
def infoReport (look : Look) (app : AppRecord) (p : RemovalPlan) : String :=
  page (["", "  📱 " ++ look.bold app.name, look.rule 50,
      "  Path:       " ++ look.path app.path] ++
    (p.identifier.map fun identifier => "  Bundle ID:  " ++ identifier).toList ++
    (app.icon.map fun icon => "  Icon:       " ++ look.dimmed (look.path icon)).toList ++
    (if app.size = "" then [] else ["  App size:   " ++ app.size]) ++
    p.residualLines look ++
    ["", "  💾 Total: " ++ look.size p.totalBytes, ""])

/-- What would go with an application, while nothing goes. -/
def dryReport (look : Look) (p : RemovalPlan) : String :=
  page (["",
      "  ℹ️ " ++ look.bold "Dry run" ++ " '" ++ p.appName ++ "' — " ++
        Decimal.natural p.targets.length ++ " items, " ++ look.size p.totalBytes] ++
    (p.targets.map fun t => "    " ++ look.dimmed "→" ++ " " ++ look.dimmed (look.path t.path)) ++
    [""])

end RemovalPlan

namespace Uninstall

/-- What an uninstall did as data. -/
def json (u : Uninstall) : Json :=
  .object [("app_name", .text u.appName), ("bundle_id", .ofOption .text u.identifier),
    ("trashed", .array (u.trashed.map Json.path)), ("bytes_freed", .natural u.bytesFreed),
    ("errors", .array (u.errors.map Json.text)), ("bundle_removed", .boolean u.bundleRemoved)]

/-- What an uninstall did in one line. -/
def brief (u : Uninstall) : String :=
  page [u.appName ++ "  " ++ Decimal.natural u.trashed.length ++ "  " ++ Amount.size u.bytesFreed]

/-- What an uninstall did in full. -/
def report (look : Look) (u : Uninstall) : String :=
  let heading :=
    if u.bundleRemoved then look.tick ++ " " ++ look.bold "Uninstalled"
    else look.cross ++ " " ++ look.bold "Failed to remove"
  page (["",
      "  " ++ heading ++ " '" ++ u.appName ++ "' — " ++ Decimal.natural u.trashed.length ++
        " items moved to Trash, " ++ look.size u.bytesFreed] ++
    (u.trashed.map fun p => "    " ++ look.dimmed "🗑" ++ " " ++ look.dimmed (look.path p)) ++
    (if u.errors.isEmpty then []
      else "" :: u.errors.map fun e => "    " ++ look.warning ++ " " ++ look.dimmed e) ++
    [""])

end Uninstall

end Reclaim
