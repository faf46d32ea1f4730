import SyntaxTree.Assembly
import SyntaxTree.Directory
import SyntaxTree.Main
import SyntaxTree.NodeEquality
import SyntaxTree.Visitor
import SyntaxTree.Proofs.ReadTrees
import SyntaxTree.Proofs.TreeEquality
import SyntaxTree.Proofs.AssemblyRuns
import SyntaxTree.Proofs.Constructible
import SyntaxTree.Proofs.DecimalReading
import SyntaxTree.Proofs.ShortestDigits
import SyntaxTree.Proofs.Json.NumeralScanning
import SyntaxTree.Proofs.Json.Spelling
import SyntaxTree.Proofs.Json.Takes
import SyntaxTree.Proofs.Json.TakesRecords
import SyntaxTree.Proofs.FormReading
import SyntaxTree.Proofs.TreeReading
import SyntaxTree.Proofs.Observation
import SyntaxTree.Proofs.QuotedText
import SyntaxTree.Proofs.Shape
import SyntaxTree.Proofs.ItemShapes
import SyntaxTree.Proofs.Words
import SyntaxTree.Proofs.FormShapes
import SyntaxTree.Proofs.ShapeReading
import SyntaxTree.Proofs.UniqueReadability
import SyntaxTree.Proofs.Json.Nesting
import SyntaxTree.Proofs.Rereading
import SyntaxTree.Proofs.Numbering
import SyntaxTree.Proofs.Templates
import SyntaxTree.Proofs.CanonicalTemplates
import SyntaxTree.Proofs.CanonicalText
import SyntaxTree.Proofs.WrittenNames
import SyntaxTree.Proofs.Snapshots
import SyntaxTree.Proofs.JsonTemplates
import SyntaxTree.Proofs.Pieces
import SyntaxTree.Proofs.Json.SpacedText
import SyntaxTree.Proofs.NormalForm
import SyntaxTree.Proofs.CanonicalLines
import SyntaxTree.Proofs.Json.Passages
import SyntaxTree.Proofs.Json.RecordPassages
import SyntaxTree.Proofs.FormSpellings
import SyntaxTree.Proofs.Respelling
import SyntaxTree.Proofs.SwitchLinks
import SyntaxTree.Proofs.AssembledSwitches
import SyntaxTree.Proofs.Json.Phrases
import SyntaxTree.Proofs.SpineFlags
import SyntaxTree.Proofs.Json.Agreement
import SyntaxTree.Proofs.VacantClauses
import SyntaxTree.Proofs.TrimmedReading
import SyntaxTree.Proofs.OptionalClauses
import SyntaxTree.Proofs.TrimmedRecords
import SyntaxTree.Proofs.ClauseSpellings
import SyntaxTree.Proofs.PartialVisits
import SyntaxTree.Proofs.WrittenLists
import SyntaxTree.Proofs.Overflow
import SyntaxTree.Proofs.Json.NumberGrammar
import SyntaxTree.Proofs.LiteralGrammar
import SyntaxTree.Proofs.Json.CutNumerals
import SyntaxTree.Proofs.Json.LongerTexts
import SyntaxTree.Proofs.Json.CutTexts
import SyntaxTree.Proofs.Json.Streams
import SyntaxTree.Proofs.Json.CutRecords
import SyntaxTree.Proofs.CutForms
import SyntaxTree.Proofs.Truncation
