import Reclaim.Path
import Reclaim.Text.Shorten

/-!
# Paths as they are shown

A path below the home directory is shown from `~` on; in a status line it is shortened as well.

## Main definitions

* `Path.shown` : a path for display.
* `Path.progressLabel` : a path for a status line.
-/

namespace Reclaim.Path

/-- A path for display, the home directory written as `~`. -/
def shown (home : Option Path) (p : Path) : String :=
  match home.bind p.stripPrefix? with
  | some rest => "~/" ++ rest.text
  | none => p.text

/-- A path for a status line. -/
def progressLabel (home : Option Path) (p : Path) : String :=
  Text.shortenMiddle (p.shown home)

end Reclaim.Path
