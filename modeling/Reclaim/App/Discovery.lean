import Reclaim.App.Inventory

/-!
# Scans at the same time

`Inventory.scan` is a scan that nothing comes between.  In truth a scan is made of parts.  It looks
at the published list, lists the directory, offers the owner what it has found and waits for the
answer; then it has the applications measured, a limited number of them at a time, sends each
measurement when it is there, and waits until the owner has taken them all.  Between these parts
other scans go on, applications are removed, and the directory changes.

All that is asked of the owner goes into one mailbox, and the owner takes it from there in the order
in which it was sent.

## Main definitions

* `Measurement` : what is measured of an application.
* `ScanStage` : how far a scan has come.
* `ScanStage.turn?` : what a scan does next of itself.
* `ScanStage.hear` : what an answer of the owner means to the scan that waits for it.
* `Discovery`, `Discovery.take?`, `Discovery.takeAll?` : an inventory with the scans under way, and
  how it goes on.
-/

namespace Reclaim

/-- What has been measured of an application. -/
structure Measurement where
  id : AppId
  icon : Option Path
  sizeBytes : Option Nat

namespace Measurement

/-- An application is measured. -/
def of (d : Disk) (r : AppRecord) : Measurement :=
  ⟨r.id, Bundle.icon? r.path d, some (d.folderSize r.path)⟩

/-- The command that fills in a measurement. -/
def command (m : Measurement) : AppCommand :=
  .fill m.id m.icon m.sizeBytes

end Measurement

/-- How far a scan has come. -/
inductive ScanStage where
  | begun
  /-- Nothing was published when it looked. -/
  | looked
  /-- It has listed the directory. -/
  | listed (records : List AppRecord)
  /-- It has offered its list to the owner. -/
  | offering (records : List AppRecord)
  /-- The owner had a list already. -/
  | refused
  /-- Its list of `count` applications was taken.  Some are waiting to be measured, some are being
  measured, and some measurements have still to be sent. -/
  | measuring (count : Nat) (waiting running : List AppRecord) (measured : List Measurement)
  /-- All measurements are sent, and it waits for the owner. -/
  | settling (count : Nat)
  /-- It has ended, and no list of its own was taken. -/
  | answered (result : Except AppError Nat)
  /-- It has ended, and its list of `count` applications is complete. -/
  | completed (count : Nat)

/-- A part of a scan. -/
inductive ScanTurn where
  /-- The published list is looked at. -/
  | look
  /-- The directory is listed. -/
  | list
  /-- The owner is offered the list. -/
  | offer
  /-- The measurement of the next application begins. -/
  | start
  /-- One of the measurements under way ends. -/
  | measure (k : Nat)
  /-- One of the measurements is sent. -/
  | send (k : Nat)
  /-- All is sent, and the scan begins to wait. -/
  | finish
  /-- The list that the owner had already is counted. -/
  | leave
  deriving DecidableEq

/-- What a part of a scan leads to. -/
structure ScanMove where
  stage : ScanStage
  /-- What is asked of the owner. -/
  sent : List AppCommand := []
  /-- The number of identities that are given. -/
  identities : Nat := 0

namespace ScanStage

/-- What a scan that has ended gives. -/
def result? : ScanStage → Option (Except AppError Nat)
  | answered result => some result
  | completed count => some (.ok count)
  | _ => none

/-- A part of a scan, with at most `fanout` applications measured at a time and never less than
one.  A measurement that is not yet sent counts among them. -/
def turn? (fanout : Nat) (v : Inventory) (d : Disk) : ScanTurn → ScanStage → Option ScanMove
  | .look, begun =>
    if v.apps.value.isEmpty then some { stage := looked }
    else some { stage := answered (.ok v.apps.value.length) }
  | .list, looked =>
    match AppRecord.listFolder v.nextId v.dir d with
    | .error e => some { stage := answered (.error e) }
    | .ok records => some { stage := listed records, identities := records.length }
  | .offer, listed records => some { stage := offering records, sent := [.populate records] }
  | .start, measuring count (r :: waiting) running measured =>
    if running.length + measured.length < max 1 fanout then
      some { stage := measuring count waiting (running ++ [r]) measured }
    else none
  | .measure k, measuring count waiting running measured =>
    running[k]?.map fun r =>
      { stage := measuring count waiting (running.eraseIdx k) (measured ++ [.of d r]) }
  | .send k, measuring count waiting running measured =>
    measured[k]?.map fun m =>
      { stage := measuring count waiting running (measured.eraseIdx k), sent := [m.command] }
  | .finish, measuring count [] [] [] => some { stage := settling count, sent := [.barrier] }
  | .leave, refused => some { stage := answered (.ok v.apps.value.length) }
  | _, _ => none

/-- A scan hears from the owner. -/
def hear : AppReply → ScanStage → ScanStage
  | .populated true, offering records => measuring records.length records [] []
  | .populated false, offering _ => refused
  | .settled, settling count => completed count
  | _, stage => stage

end ScanStage

/-- What has been asked of the owner, with the scan that asks, if it is one. -/
structure Letter where
  sender : Option Nat
  command : AppCommand

/-- An inventory whose owner takes commands, with the scans that have begun and what is on its way
to the owner. -/
structure Discovery where
  inventory : Inventory
  disk : Disk
  /-- How many applications a scan has measured at a time. -/
  fanout : Nat
  scans : List ScanStage := []
  mailbox : List Letter := []

/-- What may happen next. -/
inductive DiscoveryTurn where
  /-- A scan begins. -/
  | begin
  /-- A scan goes on. -/
  | scan (i : Nat) (turn : ScanTurn)
  /-- The owner takes what was sent first. -/
  | receive
  /-- The removal of an application is asked for. -/
  | remove (id : AppId)
  /-- Files change. -/
  | change (disk : Disk)

namespace Discovery

/-- An inventory of a directory that has just been made. -/
def spawned (dir : Path) (disk : Disk) (fanout : Nat) : Discovery :=
  { inventory := { dir }, disk, fanout }

/-- The scan at a place in the list has gone on. -/
def advance (s : Discovery) (i : Nat) (move : ScanMove) : Discovery :=
  { s with
    inventory := { s.inventory with nextId := s.inventory.nextId + move.identities }
    scans := s.scans.set i move.stage
    mailbox := s.mailbox ++ move.sent.map fun command => ⟨some i, command⟩ }

/-- The owner has taken a letter, with `rest` still to come, and its answer is heard. -/
def deliver (s : Discovery) (letter : Letter) (rest : List Letter) : Discovery :=
  let answer := s.inventory.owner.receive letter.command
  { s with
    inventory := { s.inventory with owner := answer.2 }
    scans := match letter.sender with
      | some i => s.scans.modify i (ScanStage.hear answer.1)
      | none => s.scans
    mailbox := rest }

/-- One thing happens, if it can. -/
def take? (s : Discovery) : DiscoveryTurn → Option Discovery
  | .begin => some { s with scans := s.scans ++ [.begun] }
  | .scan i turn =>
    s.scans[i]?.bind fun stage =>
      (stage.turn? s.fanout s.inventory s.disk turn).map (s.advance i)
  | .receive =>
    match s.mailbox with
    | [] => none
    | letter :: rest => some (s.deliver letter rest)
  | .remove id => some { s with mailbox := s.mailbox ++ [⟨none, .remove id⟩] }
  | .change disk => some { s with disk }

/-- Things happen one after the other. -/
def takeAll? (s : Discovery) (turns : List DiscoveryTurn) : Option Discovery :=
  turns.foldlM take? s

end Discovery

end Reclaim
