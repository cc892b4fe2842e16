import Reclaim.Clean
import Reclaim.Report.Style

/-!
# The report of a clean

## Main definitions

* `Cleaning.json`, `Cleaning.brief`, `Cleaning.report` : as data, in one line, and in full.
-/

namespace Reclaim

namespace SystemPhase

/-- What became of the system part as data. -/
def json : SystemPhase → Json
  | notNeeded => .text "not_needed"
  | cleaned => .text "cleaned"
  | needsAuthorization => .text "needs_authorization"
  | credentialRejected => .text "credential_rejected"
  | failed text => .object [("failed", .text text)]

/-- What became of the system part in one word. -/
def word : SystemPhase → String
  | notNeeded => "none"
  | cleaned => "cleaned"
  | needsAuthorization | credentialRejected => "auth"
  | failed _ => "failed"

/-- The lines about the system part, of which so many bytes were freed. -/
def lines (look : Look) (bytes : Nat) : SystemPhase → List String
  | notNeeded => []
  | cleaned =>
    ["  " ++ look.tick ++ " System caches and logs cleared (" ++ Amount.size bytes ++ ")"]
  | needsAuthorization =>
    ["  🔒 System caches need an administrator password. Run " ++
      look.tinted .cyan "mole auth login" ++ " first."]
  | credentialRejected =>
    ["  🔒 Cached password was rejected and has been forgotten. Run " ++
      look.tinted .cyan "mole auth login" ++ " again."]
  | failed text => ["  " ++ look.cross ++ " System cleanup failed: " ++ look.dimmed text]

end SystemPhase

namespace Cleaning

/-- What a clean did as data. -/
def json (c : Cleaning) : Json :=
  .object [("user_bytes_freed", .natural c.user.bytes),
    ("user_items_removed", .natural c.user.removed),
    ("user_items_failed", .natural c.user.failed),
    ("system", c.system.json), ("system_bytes_freed", .natural c.systemBytes)]

/-- What a clean did in one line. -/
def brief (c : Cleaning) : String :=
  page [Amount.size c.freedBytes ++ "  " ++ Decimal.natural c.user.removed ++ "  " ++
    c.system.word]

/-- What a clean did in full. -/
def report (look : Look) (c : Cleaning) : String :=
  page (["",
      "  " ++ look.tick ++ " " ++ look.bold "Cleaned" ++ " — " ++
        look.tinted .cyan (Decimal.natural c.user.removed) ++ " items, " ++
        look.size c.freedBytes] ++
    (if c.user.failed = 0 then []
      else ["  " ++ look.warning ++ " " ++ Decimal.natural c.user.failed ++
        " items could not be removed"]) ++
    c.system.lines look c.systemBytes ++ [""])

end Cleaning

end Reclaim
