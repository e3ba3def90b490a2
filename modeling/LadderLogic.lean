import LadderLogic.Analysis.Basic
import LadderLogic.Analysis.Json
import LadderLogic.Analysis.Summary
import LadderLogic.Analysis.Text
import LadderLogic.CommandLine
import LadderLogic.Context.Basic
import LadderLogic.Context.BranchGroup
import LadderLogic.Context.Category
import LadderLogic.Context.CrossReference
import LadderLogic.Context.Json
import LadderLogic.Context.KeyPoint
import LadderLogic.Context.Purpose
import LadderLogic.Context.Subsystem
import LadderLogic.File
import LadderLogic.Instruction.Access
import LadderLogic.Instruction.Operand
import LadderLogic.Json.Decode
import LadderLogic.Json.Document
import LadderLogic.Json.Reader
import LadderLogic.Json.Value
import LadderLogic.Main
import LadderLogic.NameMap
import LadderLogic.Number.Binary64
import LadderLogic.Number.Shortest
import LadderLogic.Pattern.Basic
import LadderLogic.Pattern.Data
import LadderLogic.Pattern.Detection
import LadderLogic.Pattern.Motion
import LadderLogic.Pattern.Safety
import LadderLogic.Pattern.Signal
import LadderLogic.Pattern.Timing
import LadderLogic.Project.Basic
import LadderLogic.Project.Json
import LadderLogic.Proofs.Analysis.Contexts
import LadderLogic.Proofs.Analysis.Extent
import LadderLogic.Proofs.Analysis.KeyTags
import LadderLogic.Proofs.Analysis.Order
import LadderLogic.Proofs.Analysis.Policy
import LadderLogic.Proofs.Analysis.RoundTrip
import LadderLogic.Proofs.Analysis.Scope
import LadderLogic.Proofs.Analysis.Summary
import LadderLogic.Proofs.CommandLine
import LadderLogic.Proofs.Context.BranchGroups
import LadderLogic.Proofs.Context.CrossReference
import LadderLogic.Proofs.Context.Isolation
import LadderLogic.Proofs.Context.Names
import LadderLogic.Proofs.Context.PatternKinds
import LadderLogic.Proofs.Context.Safety
import LadderLogic.Proofs.Context.Sentence
import LadderLogic.Proofs.Context.Spelling
import LadderLogic.Proofs.Instruction.Numeral
import LadderLogic.Proofs.Instruction.Operand
import LadderLogic.Proofs.Json.Record
import LadderLogic.Proofs.Json.Text
import LadderLogic.Proofs.NameMap
import LadderLogic.Proofs.Pattern.Confidence
import LadderLogic.Proofs.Pattern.Detection
import LadderLogic.Proofs.Pattern.Finding
import LadderLogic.Proofs.Pattern.Handshake
import LadderLogic.Proofs.Pattern.Interlock
import LadderLogic.Proofs.Pattern.Permissive
import LadderLogic.Proofs.Pattern.Tags
import LadderLogic.Proofs.Project.RoundTrip
import LadderLogic.Proofs.Rung.Call
import LadderLogic.Proofs.Rung.Circuit
import LadderLogic.Proofs.Rung.Excerpt
import LadderLogic.Proofs.Rung.Extent
import LadderLogic.Proofs.Rung.Grammar
import LadderLogic.Proofs.Rung.Group
import LadderLogic.Proofs.Rung.Malformed
import LadderLogic.Proofs.Rung.Nesting
import LadderLogic.Proofs.Rung.Positions.Call
import LadderLogic.Proofs.Rung.Positions.Delimited
import LadderLogic.Proofs.Rung.Positions.Group
import LadderLogic.Proofs.Rung.Render
import LadderLogic.Proofs.Rung.Separation
import LadderLogic.Proofs.Rung.Series
import LadderLogic.Proofs.Rung.Slices
import LadderLogic.Proofs.Rung.Spelling
import LadderLogic.Proofs.Rung.Splitting
import LadderLogic.Proofs.Rung.Stability
import LadderLogic.Proofs.Sorted
import LadderLogic.Proofs.Tag.Declarations
import LadderLogic.Proofs.Tag.Extraction
import LadderLogic.Proofs.Tag.Order
import LadderLogic.Proofs.Tag.References
import LadderLogic.Proofs.Tag.Related
import LadderLogic.Proofs.Tag.Role
import LadderLogic.Proofs.Tag.Shards
import LadderLogic.Proofs.Text.Bytes
import LadderLogic.Proofs.Vocabulary.Inclusion
import LadderLogic.Proofs.Vocabulary.LetterCase
import LadderLogic.Proofs.Vocabulary.Occurrence
import LadderLogic.Proofs.Vocabulary.Trimming
import LadderLogic.Report
import LadderLogic.Rung.Call
import LadderLogic.Rung.Circuit
import LadderLogic.Rung.View
import LadderLogic.Settings
import LadderLogic.Sorted
import LadderLogic.Tag.Graph
import LadderLogic.Tag.Json
import LadderLogic.Tag.Role
import LadderLogic.Text.Blank
import LadderLogic.Text.Digit
import LadderLogic.Text.Letter
import LadderLogic.Text.Listing
import LadderLogic.Text.Quoted
import LadderLogic.Text.Unprintable
import LadderLogic.Vocabulary.Ending
import LadderLogic.Vocabulary.Subject
import LadderLogic.Vocabulary.Term
