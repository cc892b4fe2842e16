import Reclaim.Bytes
import Reclaim.Catalog
import Reclaim.Decimal.Double
import Reclaim.Label
import Reclaim.Signals
import Reclaim.Walk

/-!
# Measuring what can be reclaimed

A scan walks the directories of a catalog that exist, one after the other, and adds up the sizes
it meets.  What cannot be read counts as an entry without bytes.  Every so many entries the path
just met is published.

## Main definitions

* `Tally`, `Tally.ofItems` : entries and bytes of one walk.
* `Scanner.run` : a scan of a whole catalog.
-/

namespace Reclaim

/-- What a scan is doing. -/
inductive ScanPhase where
  | idle
  | scanning
  | done
  deriving DecidableEq, Repr

/-- What a scan found. -/
structure ScanResult where
  totalBytes : Nat
  entriesVisited : Nat
  label : String
  /-- How long the scan took. -/
  seconds : Double
  deriving DecidableEq, Repr

/-- The entries and bytes of a walk, with the paths published on the way. -/
structure Tally where
  bytes : Nat := 0
  entries : Nat := 0
  labels : List String := []
  deriving DecidableEq, Repr

namespace Tally

/-- One more item of a walk; every `every`-th one is published if it could be read. -/
def add (home : Option Path) (every : Nat) (t : Tally) : Item → Tally
  | .error _ => { t with entries := t.entries + 1 }
  | .ok found =>
    let entries := t.entries + 1
    { bytes := Bytes.add t.bytes (found.size.getD 0)
      entries := entries
      labels := if entries % every = 0 then t.labels ++ [found.path.progressLabel home]
        else t.labels }

/-- The entries and bytes of the items of a walk. -/
def ofItems (home : Option Path) (every : Nat) (items : List Item) : Tally :=
  items.foldl (add home every) {}

end Tally

/-- A scan of a catalog, with what it is doing. -/
structure Scanner where
  catalog : Catalog
  /-- After how many entries a path is published; at least one. -/
  every : Nat
  phase : Published ScanPhase := ⟨.idle, 0⟩

namespace Scanner

/-- The cadence of published paths unless another one is asked for. -/
def defaultEvery : Nat := 200

/-- A scanner that has not run, publishing after every `every` entries and at least after each. -/
def ofCatalog (catalog : Catalog) (every : Nat) : Scanner :=
  ⟨catalog, max every 1, ⟨.idle, 0⟩⟩

/-- One directory of the catalog: nothing if it does not exist. -/
def visit (home : Option Path) (every : Nat) (d : Disk) :
    Tally × Signals → ReclaimRoot → Tally × Signals
  | (total, signals), root =>
    if d.isPresent root.path then
      let one := Tally.ofItems home every (d.enumerate root.path)
      let signals := one.labels.foldl Signals.log (signals.log ("Scanning " ++ root.label ++ "..."))
      ({ bytes := Bytes.add total.bytes one.bytes, entries := total.entries + one.entries },
        signals)
    else (total, signals)

/-- The line published at the end of a scan. -/
def doneLine : String := "Scan Complete"

/-- A scan of all directories of the catalog, the user's first.  `seconds` is what the clock says
at the end. -/
def run (home : Option Path) (seconds : Double) (s : Scanner) (d : Disk) (signals : Signals) :
    ScanResult × Scanner × Signals :=
  let signals := (signals.setBusy true).setBytes 0
  let (total, signals) := s.catalog.toList.foldl (visit home s.every d) ({}, signals)
  let signals := ((signals.setBytes total.bytes).log doneLine).setBusy false
  (⟨total.bytes, total.entries, doneLine, seconds⟩,
    { s with phase := (s.phase.send .scanning).send .done }, signals)

end Scanner

end Reclaim
