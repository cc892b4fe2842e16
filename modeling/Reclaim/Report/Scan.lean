import Reclaim.Report.Style
import Reclaim.Scan

/-!
# The report of a scan

## Main definitions

* `ScanResult.json`, `ScanResult.brief`, `ScanResult.report` : as data, in one line, and in full.
-/

namespace Reclaim.ScanResult

/-- What a scan found as data. -/
def json (r : ScanResult) : Json :=
  .object [("total_bytes", .natural r.totalBytes), ("entries_visited", .natural r.entriesVisited),
    ("label", .text r.label), ("duration_secs", .double r.seconds)]

/-- What a scan found in one line. -/
def brief (r : ScanResult) : String :=
  page [Amount.size r.totalBytes ++ "  " ++ Decimal.natural r.entriesVisited]

/-- The line for a directory of the catalog, which exists or not. -/
def rootLine (look : Look) (d : Disk) (root : ReclaimRoot) : String :=
  let mark := if d.isPresent root.path then "📁" else "  "
  "    " ++ mark ++ " " ++ Text.padRight Text.labelLimit (root.path.progressLabel look.home) ++
    " " ++ look.dimmed ("[" ++ root.tier.title ++ "]")

/-- The lines with the sum. -/
def totalLines (look : Look) (r : ScanResult) : List String :=
  if r.totalBytes = 0 then ["  ✨ Your Mac is already clean!"]
  else
    ["  💾 Total reclaimable: " ++ look.size r.totalBytes,
      "  💡 Run " ++ look.tinted .cyan "mole clean" ++ " to clean"]

/-- What a scan of a catalog found in full. -/
def report (look : Look) (catalog : Catalog) (d : Disk) (r : ScanResult) : String :=
  page (["", "🧹  Mole Scan Results", look.rule 60,
      "  Scanned in " ++ look.tinted .cyan (Amount.duration r.seconds) ++ "  •  " ++
        look.dimmed (Decimal.natural r.entriesVisited) ++ " entries",
      look.rule 60, ""] ++
    catalog.toList.map (rootLine look d) ++
    ["", look.rule 60] ++ totalLines look r ++ [""])

end Reclaim.ScanResult
