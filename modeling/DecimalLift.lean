import DecimalLift.Word
import DecimalLift.Location
import DecimalLift.Diagnostic
import DecimalLift.Text.Alphabetic
import DecimalLift.Text.Numeric
import DecimalLift.Text.Class
import DecimalLift.Token
import DecimalLift.Token.Scan
import DecimalLift.Token.Number
import DecimalLift.Token.Quoted
import DecimalLift.Token.Stream
import DecimalLift.Operator
import DecimalLift.Tree
import DecimalLift.Tree.Layout
import DecimalLift.Parse.State
import DecimalLift.Parse.Ascription
import DecimalLift.Parse.Expression
import DecimalLift.Parse.Statement
import DecimalLift.Json.Value
import DecimalLift.Rules
import DecimalLift.Binding
import DecimalLift.Lift
import DecimalLift.Lift.Weight
import DecimalLift.Lift.Walk
import DecimalLift.Transform
import DecimalLift.File.Path
import DecimalLift.File.Disk
import DecimalLift.File.Store
import DecimalLift.Host
import DecimalLift.Compilation
import DecimalLift.CommandLine
import DecimalLift.Main
import DecimalLift.Proofs.Token.Numeral
import DecimalLift.Proofs.Token.Quoted
import DecimalLift.Proofs.Token.Lexeme
import DecimalLift.Proofs.Token.Escape
import DecimalLift.Proofs.Token.CodePoint
import DecimalLift.Proofs.Token.Stream
import DecimalLift.Proofs.Token.Tiling
import DecimalLift.Proofs.Token.Longest
import DecimalLift.Proofs.Token.Recovery
import DecimalLift.Proofs.Parse.State
import DecimalLift.Proofs.Parse.Expression
import DecimalLift.Proofs.Layout.Pieces
import DecimalLift.Proofs.Tree
import DecimalLift.Proofs.Layout.Expression
import DecimalLift.Proofs.RoundTrip.Expression
import DecimalLift.Proofs.Parse.Ascription
import DecimalLift.Proofs.Parse.Declaration
import DecimalLift.Proofs.Parse.Statement
import DecimalLift.Proofs.Parse.Locality
import DecimalLift.Proofs.Parse.Climbing
import DecimalLift.Proofs.Layout.Ascription
import DecimalLift.Proofs.RoundTrip.Ascription
import DecimalLift.Proofs.Layout.Statement
import DecimalLift.Proofs.RoundTrip.Declaration
import DecimalLift.Proofs.RoundTrip.Statement
import DecimalLift.Proofs.RoundTrip.Source
import DecimalLift.Proofs.TokenSequence.Layout
import DecimalLift.Proofs.TokenSequence.Reading
import DecimalLift.Proofs.TokenSequence.Angles
import DecimalLift.Proofs.TokenSequence.Declaration
import DecimalLift.Proofs.TokenSequence.Source
import DecimalLift.Proofs.Tree.Parts
import DecimalLift.Proofs.Parse.Assembly
import DecimalLift.Proofs.Parse.Numbering
import DecimalLift.Proofs.Parse.Spans
import DecimalLift.Proofs.Parse.Outcome
import DecimalLift.Proofs.Parse.Settling
import DecimalLift.Proofs.Parse.Progress
import DecimalLift.Proofs.Lift.Walks
import DecimalLift.Proofs.Lift.Children
import DecimalLift.Proofs.Lift.Descent
import DecimalLift.Proofs.Lift.Visits
import DecimalLift.Proofs.Lift.Policy
import DecimalLift.Proofs.Lift.Inverse
import DecimalLift.Proofs.Layout.Relabel
import DecimalLift.Proofs.Lift.Stable
import DecimalLift.Proofs.Lift.Judgement
import DecimalLift.Proofs.Lift.BottomUp
import DecimalLift.Proofs.Binding
import DecimalLift.Proofs.Lift.Written
import DecimalLift.Proofs.Transform.Idempotent
import DecimalLift.Proofs.Transform.FixedPoint
import DecimalLift.Proofs.Lift.Renewal
import DecimalLift.Proofs.Transform.Identity
import DecimalLift.Proofs.Transform.Literals
import DecimalLift.Proofs.Lift.Slots
import DecimalLift.Proofs.RoundTrip.NormalForm
import DecimalLift.Proofs.Transform.Readable
import DecimalLift.Proofs.Compilation
import DecimalLift.Proofs.Compilation.Loader
import DecimalLift.Proofs.Compilation.Order
