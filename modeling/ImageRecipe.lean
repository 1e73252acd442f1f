import ImageRecipe.Kind
import ImageRecipe.ValueList
import ImageRecipe.Duration
import ImageRecipe.Text.Utf8
import ImageRecipe.Text.Json
import ImageRecipe.Text.Visible
import ImageRecipe.Text.Quoted
import ImageRecipe.Instruction.Step
import ImageRecipe.Instruction.Healthcheck
import ImageRecipe.Instruction.Basic
import ImageRecipe.Instruction.Blueprint
import ImageRecipe.Instruction.Edit
import ImageRecipe.Dockerfile.Basic
import ImageRecipe.Dockerfile.Builder
import ImageRecipe.Path
import ImageRecipe.Fault
import ImageRecipe.Host.Tree
import ImageRecipe.Host.Resolve
import ImageRecipe.Host.Change
import ImageRecipe.Tar.Header
import ImageRecipe.Tar.Archive
import ImageRecipe.Tar.Listing
import ImageRecipe.Context.Options
import ImageRecipe.Context.Failure
import ImageRecipe.Context.Message
import ImageRecipe.Context.Event
import ImageRecipe.Context.Import
import ImageRecipe.Context.Package
import ImageRecipe.Context.Trouble
import ImageRecipe.Proofs.Host.Tree
import ImageRecipe.Proofs.Host.Walk
import ImageRecipe.Proofs.Host.Paths
import ImageRecipe.Proofs.Host.Respelling
import ImageRecipe.Proofs.Host.Alike
import ImageRecipe.Proofs.Host.Created
import ImageRecipe.Proofs.Host.View
import ImageRecipe.Proofs.Text.Lossy
import ImageRecipe.Proofs.Text.Spelling
import ImageRecipe.Proofs.Text.JsonReading
import ImageRecipe.Proofs.Text.Reading
import ImageRecipe.Proofs.Text.Decimal
import ImageRecipe.Proofs.Text.QuotedReading
import ImageRecipe.Proofs.LastWrite
import ImageRecipe.Proofs.Instruction.Quoting
import ImageRecipe.Proofs.Instruction.Wrapping
import ImageRecipe.Proofs.Instruction.HealthcheckLine
import ImageRecipe.Proofs.Instruction.Words
import ImageRecipe.Proofs.Dockerfile.History
import ImageRecipe.Proofs.Dockerfile.Lines
import ImageRecipe.Proofs.Dockerfile.Equality
import ImageRecipe.Proofs.Dockerfile.Calls
import ImageRecipe.Proofs.Tar.Format
import ImageRecipe.Proofs.Context.Listing
import ImageRecipe.Proofs.Context.Mirror
import ImageRecipe.Proofs.Context.Completeness
import ImageRecipe.Proofs.Context.Entries
import ImageRecipe.Proofs.Context.Undisturbed
import ImageRecipe.Proofs.Context.SlashedCopy
import ImageRecipe.Proofs.Context.DiskRun
import ImageRecipe.Proofs.Context.AllOrNothing
import ImageRecipe.Proofs.Context.Extractable
import ImageRecipe.Proofs.Context.Lookalikes
import ImageRecipe.Proofs.Context.Reproducible
import ImageRecipe.Proofs.Context.Copies
import ImageRecipe.Proofs.Context.Collisions
import ImageRecipe.Proofs.Context.Names
import ImageRecipe.Proofs.Context.Extraction
import ImageRecipe.Proofs.Context.Noninterference
import ImageRecipe.Proofs.Context.OwnArchive
import ImageRecipe.Proofs.Context.Tour
import ImageRecipe.Proofs.Context.FirstFault
import ImageRecipe.Proofs.Context.Repackaging
import ImageRecipe.Proofs.Context.Settings
import ImageRecipe.Proofs.Context.MessageReading
import ImageRecipe.Proofs.Context.Log
