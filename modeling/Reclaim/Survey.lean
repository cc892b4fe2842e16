import Reclaim.Scan

/-!
# Scans under way

`Scanner.run` is a scan that nothing comes between.  In truth every directory is walked on a thread
of its own.  The walk counts its items and sends the path of every so many-th to the scan, through a
channel that holds a limited number of them; when the channel is full the walk waits.  The scan
publishes the paths as they come, and asks for the figures when the walk is over and the channel is
empty.  A scan may be dropped on the way, and a walk that nobody listens to ends early.

## Main definitions

* `Disk.look`, `Sight` : what a scan finds at a path, on a disk or in any other way.
* `WalkStage` : how far a walk on its own thread has come.
* `Relay`, `Relay.walk?` : such a walk with its channel, and how it goes on.
* `Survey`, `Survey.take?`, `Survey.takeAll?` : a scan under way, and how it goes on.
-/

namespace Reclaim

/-- What a scan finds at a path: the items of a walk, or nothing at all. -/
def Disk.look (d : Disk) (p : Path) : Option (List Item) :=
  if d.isPresent p then some (d.enumerate p) else none

/-- What scans find at the paths of a disk. -/
abbrev Sight : Type :=
  Disk → Path → Option (List Item)

/-! ### Walks -/

/-- How far a walk on its own thread has come. -/
inductive WalkStage where
  /-- It goes on with the items that are still to come. -/
  | going (rest : List Item)
  /-- It has to send the path of an item before it counts the item's bytes. -/
  | sending (found : Found) (rest : List Item)
  /-- It is over, and has its figures. -/
  | ended
  /-- It has divided by zero, and its figures are lost. -/
  | crashed

/-- A walk on its own thread, with the lines that the scan has not yet taken. -/
structure Relay where
  stage : WalkStage
  bytes : Nat := 0
  entries : Nat := 0
  channel : List String := []

namespace Relay

/-- How many lines the channel holds. -/
def capacity : Nat := 16

/-- The walk of some items when it begins. -/
def ofItems (items : List Item) : Relay :=
  { stage := .going items }

/-- The walk goes on, if it can.  It sends the path of every `every`-th entry, unless that could not
be read, and `heard` says that the scan listens. -/
def walk? (home : Option Path) (every : Nat) (heard : Bool) (r : Relay) : Option Relay :=
  match r.stage with
  | .going [] => some { r with stage := .ended }
  | .going (.error _ :: rest) => some { r with stage := .going rest, entries := r.entries + 1 }
  | .going (.ok found :: rest) =>
    let entries := r.entries + 1
    if every = 0 then some { r with stage := .crashed, entries }
    else if entries % every = 0 then some { r with stage := .sending found rest, entries }
    else some { r with
      stage := .going rest
      entries
      bytes := Bytes.add r.bytes (found.size.getD 0) }
  | .sending found rest =>
    if !heard then some { r with stage := .ended }
    else if r.channel.length < capacity then
      some { r with
        stage := .going rest
        bytes := Bytes.add r.bytes (found.size.getD 0)
        channel := r.channel ++ [found.path.progressLabel home] }
    else none
  | .ended => none
  | .crashed => none

/-- The figures of a walk that is over, when all its lines have been taken.  One that has crashed
has none. -/
def figures? (r : Relay) : Option Tally :=
  match r.stage, r.channel with
  | .ended, [] => some { bytes := r.bytes, entries := r.entries }
  | .crashed, [] => some {}
  | _, _ => none

end Relay

/-! ### Scans -/

/-- How far a scan has come. -/
inductive SurveyStage where
  /-- It goes on with the next directory. -/
  | choosing
  /-- A directory is being walked. -/
  | walking (r : Relay)
  | finished (result : ScanResult)
  /-- It was dropped, maybe with a walk that goes on. -/
  | dropped (r : Option Relay)

/-- A scan under way. -/
structure Survey where
  home : Option Path
  /-- After how many entries a path is published. -/
  every : Nat
  disk : Disk
  /-- The directories that are still to come. -/
  roots : List ReclaimRoot
  /-- What the clock will say at the end. -/
  seconds : Double
  total : Tally := {}
  phase : Published ScanPhase
  signals : Signals
  stage : SurveyStage := .choosing

/-- What may happen next. -/
inductive SurveyTurn where
  /-- The scan looks at the next directory. -/
  | visit
  /-- The walk goes on. -/
  | walk
  /-- The scan takes a line from the channel. -/
  | receive
  /-- The scan asks for the figures of the walk. -/
  | join
  /-- There are no more directories. -/
  | finish
  /-- Nobody waits for the scan any more. -/
  | drop
  deriving DecidableEq

namespace Survey

/-- A scan that has just begun. -/
def begun (home : Option Path) (seconds : Double) (s : Scanner) (d : Disk) (signals : Signals) :
    Survey where
  home := home
  every := s.every
  disk := d
  roots := s.catalog.toList
  seconds := seconds
  phase := s.phase.send .scanning
  signals := (signals.setBusy true).setBytes 0

/-- The figures with those of one more walk. -/
def addFigures (total one : Tally) : Tally :=
  { bytes := Bytes.add total.bytes one.bytes, entries := total.entries + one.entries }

/-- The end of a scan with its totals. -/
def close (s : Survey) : Survey :=
  { s with
    roots := []
    phase := s.phase.send .done
    signals := ((s.signals.setBytes s.total.bytes).log Scanner.doneLine).setBusy false
    stage := .finished ⟨s.total.bytes, s.total.entries, Scanner.doneLine, s.seconds⟩ }

/-- One thing happens, if it can.  What is at a path is told by `look`. -/
def take? (look : Sight) (s : Survey) : SurveyTurn → Option Survey
  | .visit =>
    match s.stage, s.roots with
    | .choosing, root :: roots =>
      match look s.disk root.path with
      | none => some { s with roots }
      | some items =>
        some { s with
          roots
          signals := s.signals.log ("Scanning " ++ root.label ++ "...")
          stage := .walking (.ofItems items) }
    | _, _ => none
  | .walk =>
    match s.stage with
    | .walking r =>
      (r.walk? s.home s.every true).map fun r => { s with stage := .walking r }
    | .dropped (some r) =>
      (r.walk? s.home s.every false).map fun r => { s with stage := .dropped (some r) }
    | _ => none
  | .receive =>
    match s.stage with
    | .walking r =>
      match r.channel with
      | [] => none
      | line :: channel =>
        some { s with signals := s.signals.log line, stage := .walking { r with channel } }
    | _ => none
  | .join =>
    match s.stage with
    | .walking r =>
      r.figures?.map fun one => { s with total := addFigures s.total one, stage := .choosing }
    | _ => none
  | .finish =>
    match s.stage, s.roots with
    | .choosing, [] => some s.close
    | _, _ => none
  | .drop =>
    match s.stage with
    | .choosing => some { s with stage := .dropped none }
    | .walking r => some { s with stage := .dropped (some r) }
    | _ => none

/-- Things happen one after the other. -/
def takeAll? (look : Sight) (s : Survey) (turns : List SurveyTurn) : Option Survey :=
  turns.foldlM (take? look) s

/-- The scan was dropped. -/
def isDropped (s : Survey) : Bool :=
  match s.stage with
  | .dropped _ => true
  | _ => false

/-- What the scan gives, when it has come to its end. -/
def result? (s : Survey) : Option ScanResult :=
  match s.stage with
  | .finished result => some result
  | _ => none

/-- The walk that is under way. -/
def relay? (s : Survey) : Option Relay :=
  match s.stage with
  | .walking r => some r
  | .dropped r => r
  | _ => none

end Survey

end Reclaim
