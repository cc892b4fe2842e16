import Reclaim.Amount
import Reclaim.App.Bundle
import Reclaim.App.Discovery
import Reclaim.App.Error
import Reclaim.App.Inventory
import Reclaim.App.Removal
import Reclaim.App.Residual
import Reclaim.App.TrashFolder
import Reclaim.Authority.Elevator
import Reclaim.Authority.Store
import Reclaim.Bytes
import Reclaim.Catalog
import Reclaim.Clean
import Reclaim.CommandLine.Arguments
import Reclaim.CommandLine.Grammar
import Reclaim.CommandLine.Help
import Reclaim.CommandLine.Run
import Reclaim.Config
import Reclaim.Decimal.Double
import Reclaim.Decimal.Rounding
import Reclaim.Decimal.Shortest
import Reclaim.Disk.Basic
import Reclaim.Disk.Errno
import Reclaim.Disk.Tree
import Reclaim.Json
import Reclaim.Label
import Reclaim.Main
import Reclaim.Maintenance
import Reclaim.Path
import Reclaim.Plist.Binary
import Reclaim.Plist.Descriptor
import Reclaim.Plist.OpenStep
import Reclaim.Plist.Value
import Reclaim.Plist.Xml
import Reclaim.Program.Executor
import Reclaim.Program.Machine
import Reclaim.Proofs.Amount.Accuracy
import Reclaim.Proofs.Amount.Carrying
import Reclaim.Proofs.App.Bookkeeping
import Reclaim.Proofs.App.Completion
import Reclaim.Proofs.App.Containment
import Reclaim.Proofs.App.Ending
import Reclaim.Proofs.App.Filling
import Reclaim.Proofs.App.Freed
import Reclaim.Proofs.App.Identifier
import Reclaim.Proofs.App.Listing
import Reclaim.Proofs.App.Ownership
import Reclaim.Proofs.App.Picking
import Reclaim.Proofs.App.Rediscovery
import Reclaim.Proofs.App.Turns
import Reclaim.Proofs.Authority.Commands
import Reclaim.Proofs.Authority.Elevation
import Reclaim.Proofs.Authority.Forgetting
import Reclaim.Proofs.Authority.Lifecycle
import Reclaim.Proofs.Authority.Overlap
import Reclaim.Proofs.Authority.Restart
import Reclaim.Proofs.Authority.Superseded
import Reclaim.Proofs.Bytes
import Reclaim.Proofs.Clean.Agreement
import Reclaim.Proofs.Clean.Guards
import Reclaim.Proofs.Clean.Outcome
import Reclaim.Proofs.Clean.Reached
import Reclaim.Proofs.Clean.Survival
import Reclaim.Proofs.Clean.Sweep
import Reclaim.Proofs.Clean.UserTier
import Reclaim.Proofs.CommandLine.Levels
import Reclaim.Proofs.CommandLine.Login
import Reclaim.Proofs.CommandLine.Looking
import Reclaim.Proofs.CommandLine.Rendering
import Reclaim.Proofs.CommandLine.Written
import Reclaim.Proofs.Config.RoundTrip
import Reclaim.Proofs.Decimal.Doubles
import Reclaim.Proofs.Decimal.Rounding
import Reclaim.Proofs.Disk.Folders
import Reclaim.Proofs.Disk.Hiding
import Reclaim.Proofs.Disk.Removal
import Reclaim.Proofs.Disk.Tree
import Reclaim.Proofs.Disk.Way
import Reclaim.Proofs.Disk.Writing
import Reclaim.Proofs.Maintenance.Discipline
import Reclaim.Proofs.Maintenance.Failures
import Reclaim.Proofs.Path.Prefix
import Reclaim.Proofs.Path.Spelling
import Reclaim.Proofs.Plist.Scraping
import Reclaim.Proofs.Program.Scripts
import Reclaim.Proofs.Safety.Catalogs
import Reclaim.Proofs.Safety.Roots
import Reclaim.Proofs.Safety.Shown
import Reclaim.Proofs.Secrecy.Applications
import Reclaim.Proofs.Secrecy.Commands
import Reclaim.Proofs.Secrecy.Session
import Reclaim.Proofs.Secrecy.Trees
import Reclaim.Proofs.Signals.Published
import Reclaim.Proofs.Text.Cutting
import Reclaim.Proofs.Text.Folding
import Reclaim.Proofs.Text.Reading
import Reclaim.Proofs.Text.Slicing
import Reclaim.Proofs.Text.Trimming
import Reclaim.Proofs.Toml.Lines
import Reclaim.Proofs.Toml.Numbers
import Reclaim.Proofs.Toml.Texts
import Reclaim.Proofs.Toml.Values
import Reclaim.Proofs.Walk.Accounting
import Reclaim.Proofs.Walk.Overlap
import Reclaim.Proofs.Walk.Reclaimable
import Reclaim.Proofs.Walk.Totals
import Reclaim.Proofs.Walk.Traversal
import Reclaim.Proofs.Walk.Within
import Reclaim.Report.Apps
import Reclaim.Report.Clean
import Reclaim.Report.Maintenance
import Reclaim.Report.Scan
import Reclaim.Report.Style
import Reclaim.Safety
import Reclaim.Scan
import Reclaim.Signals
import Reclaim.Survey
import Reclaim.Text.Blank
import Reclaim.Text.Calendar
import Reclaim.Text.CaseTable
import Reclaim.Text.Digits
import Reclaim.Text.Lossy
import Reclaim.Text.Lowercase
import Reclaim.Text.Quoted
import Reclaim.Text.Reader
import Reclaim.Text.Shorten
import Reclaim.Text.Slice
import Reclaim.Toml.Document
import Reclaim.Toml.Scalar
import Reclaim.Toml.Value
import Reclaim.Toml.Written
import Reclaim.Walk
