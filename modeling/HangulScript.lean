import HangulScript.Main
import HangulScript.Proofs.Source.Lines
import HangulScript.Proofs.Source.Windows
import HangulScript.Proofs.Scanning.Lexemes
import HangulScript.Proofs.Scanning.Numerals
import HangulScript.Proofs.Scanning.Segments
import HangulScript.Proofs.Scanning.Spacing
import HangulScript.Proofs.Scanning.Stream
import HangulScript.Proofs.Scanning.Terminals
import HangulScript.Proofs.Scanning.Tiling
import HangulScript.Proofs.Tree.Decoding
import HangulScript.Proofs.Tree.Encoding
import HangulScript.Proofs.Tree.Heights
import HangulScript.Proofs.Tree.Likeness
import HangulScript.Proofs.Tree.Literals
import HangulScript.Proofs.Tree.Objects
import HangulScript.Proofs.Tree.Parts
import HangulScript.Proofs.Tree.Ranges
import HangulScript.Proofs.Tree.Returns
import HangulScript.Proofs.Tree.Shapes
import HangulScript.Proofs.Tree.Text
import HangulScript.Proofs.Tree.Variants
import HangulScript.Proofs.Reading.Consumption
import HangulScript.Proofs.Reading.Following
import HangulScript.Proofs.Reading.Limits
import HangulScript.Proofs.Reading.Passage
import HangulScript.Proofs.Reading.Positions
import HangulScript.Proofs.Reading.Steps
import HangulScript.Proofs.Grammar.Completeness
import HangulScript.Proofs.Grammar.Derivation
import HangulScript.Proofs.Grammar.EarliestErrors
import HangulScript.Proofs.Grammar.Exactness
import HangulScript.Proofs.Grammar.Extents
import HangulScript.Proofs.Grammar.Faults
import HangulScript.Proofs.Grammar.Joining
import HangulScript.Proofs.Grammar.Minimums
import HangulScript.Proofs.Grammar.Nesting
import HangulScript.Proofs.Grammar.Parts
import HangulScript.Proofs.Grammar.Places
import HangulScript.Proofs.Grammar.Powers
import HangulScript.Proofs.Grammar.Regrouping
import HangulScript.Proofs.Grammar.Sentence
import HangulScript.Proofs.Grammar.Shapes
import HangulScript.Proofs.Grammar.Soundness
import HangulScript.Proofs.Grammar.Sources
import HangulScript.Proofs.Rendering.Image
import HangulScript.Proofs.Rendering.Marks
import HangulScript.Proofs.Rendering.Renderable
import HangulScript.Proofs.Rendering.RoundTrip
import HangulScript.Proofs.Rendering.Shapes
import HangulScript.Proofs.Rendering.Writing
import HangulScript.Proofs.Number.Displays
import HangulScript.Proofs.Number.Leading
import HangulScript.Proofs.Number.Notation
import HangulScript.Proofs.Number.Rounding
import HangulScript.Proofs.Json.Numbers
import HangulScript.Proofs.Json.RoundTrip
import HangulScript.Proofs.Evaluation.Activations
import HangulScript.Proofs.Evaluation.Adequacy
import HangulScript.Proofs.Evaluation.Blame
import HangulScript.Proofs.Evaluation.Comparison
import HangulScript.Proofs.Evaluation.Containment
import HangulScript.Proofs.Evaluation.Correspondence
import HangulScript.Proofs.Evaluation.Coupling
import HangulScript.Proofs.Evaluation.Defects
import HangulScript.Proofs.Evaluation.Discipline
import HangulScript.Proofs.Evaluation.Exhaustion
import HangulScript.Proofs.Evaluation.Frame
import HangulScript.Proofs.Evaluation.Histories
import HangulScript.Proofs.Evaluation.IdleStatements
import HangulScript.Proofs.Evaluation.Independence
import HangulScript.Proofs.Evaluation.Lockstep
import HangulScript.Proofs.Evaluation.Nesting
import HangulScript.Proofs.Evaluation.Origins
import HangulScript.Proofs.Evaluation.Placement
import HangulScript.Proofs.Evaluation.Positions
import HangulScript.Proofs.Evaluation.Realization
import HangulScript.Proofs.Evaluation.Regions
import HangulScript.Proofs.Evaluation.Relevance
import HangulScript.Proofs.Evaluation.Renaming
import HangulScript.Proofs.Evaluation.Returns
import HangulScript.Proofs.Evaluation.Rules
import HangulScript.Proofs.Evaluation.SameScopes
import HangulScript.Proofs.Evaluation.Script
import HangulScript.Proofs.Evaluation.Semantics
import HangulScript.Proofs.Evaluation.Sessions
import HangulScript.Proofs.Evaluation.Upkeep
import HangulScript.Proofs.Evaluation.Variants
import HangulScript.Proofs.Evaluation.Variation
import HangulScript.Proofs.Evaluation.Verbosity
import HangulScript.Proofs.Session.Joining
import HangulScript.Proofs.Session.Layout
import HangulScript.Proofs.Diagnosis.Reports
import HangulScript.Proofs.Command.TreeFiles
