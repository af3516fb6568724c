import TypingsIndex.Declaration.Grammar
import TypingsIndex.Declaration.ByteCursor
import TypingsIndex.Encoding
import TypingsIndex.Json.Draft
import TypingsIndex.Json.Printer
import TypingsIndex.Module.Content
import TypingsIndex.Scan
import TypingsIndex.Settings.Change
import TypingsIndex.Settings.Document
import TypingsIndex.Watch.Event
import TypingsIndex.Watch.Command
import TypingsIndex.Watch.Pending
import TypingsIndex.Watch.Service
import TypingsIndex.CommandLine.Watching
import TypingsIndex.Main
import TypingsIndex.Proofs.Catalog.Refinement
import TypingsIndex.Proofs.Catalog.Membership
import TypingsIndex.Proofs.Watch.Marks
import TypingsIndex.Proofs.Watch.Scene
import TypingsIndex.Proofs.Watch.Drained
import TypingsIndex.Proofs.Watch.Rebuilt
import TypingsIndex.Proofs.Watch.News
import TypingsIndex.Proofs.Watch.Tracking
import TypingsIndex.Proofs.Watch.Agreement
import TypingsIndex.Proofs.Disk.Lookup
import TypingsIndex.Proofs.Watch.Shown
import TypingsIndex.Proofs.Declaration.Cuts
import TypingsIndex.Proofs.Declaration.Language
import TypingsIndex.Proofs.Declaration.Balance
import TypingsIndex.Proofs.Declaration.Decorated
import TypingsIndex.Proofs.Declaration.RoundTrip
import TypingsIndex.Proofs.Watch.Effects
import TypingsIndex.Proofs.Watch.Run
import TypingsIndex.Proofs.Watch.Provenance
import TypingsIndex.Proofs.Watch.Publication
import TypingsIndex.Proofs.Watch.Deadlines
import TypingsIndex.Proofs.Watch.Renames.Moves
import TypingsIndex.Proofs.Watch.Renames.Following
import TypingsIndex.Proofs.Watch.Renames.Told
import TypingsIndex.Proofs.Watch.Renames.Freshness
import TypingsIndex.Proofs.Watch.Naming
import TypingsIndex.Proofs.Catalog.Without
import TypingsIndex.Proofs.Watch.Isolation
import TypingsIndex.Proofs.Watch.SettingsFile
import TypingsIndex.Proofs.Settings.RoundTrip
import TypingsIndex.Proofs.Scan.Listed
import TypingsIndex.Proofs.Scan.Accounts
import TypingsIndex.Proofs.Watch.OneFile
import TypingsIndex.Proofs.Watch.Exchange.Answers
import TypingsIndex.Proofs.Watch.Exchange.Results
import TypingsIndex.Proofs.Watch.Exchange.Contract
import TypingsIndex.Proofs.Watch.Still.Listing
import TypingsIndex.Proofs.Watch.Still.Kept
import TypingsIndex.Proofs.Watch.Still.Quiet
import TypingsIndex.Proofs.Watch.Still.Touches
import TypingsIndex.Proofs.Watch.Removal
import TypingsIndex.Proofs.Watch.Renames.InPlace
import TypingsIndex.Proofs.Watch.Replacement
import TypingsIndex.Proofs.Watch.DrainOrder
import TypingsIndex.Proofs.Watch.Bursts
import TypingsIndex.Proofs.Watch.Unchanged
import TypingsIndex.Proofs.Watch.Parts
import TypingsIndex.Proofs.Watch.Retries.Tally
import TypingsIndex.Proofs.Watch.Retries.GivingUp
import TypingsIndex.Proofs.Watch.Retries.Limit
import TypingsIndex.Proofs.Watch.Quiescence
import TypingsIndex.Proofs.Declaration.Reprinted
import TypingsIndex.Proofs.Module.LineByLine
import TypingsIndex.Proofs.Declaration.Markers
import TypingsIndex.Proofs.Declaration.Promises
import TypingsIndex.Proofs.Module.Names
import TypingsIndex.Proofs.Watch.EventStream
import TypingsIndex.Proofs.Settings.Overlay
import TypingsIndex.Proofs.Settings.Warnings
import TypingsIndex.Proofs.Declaration.ByteCuts
