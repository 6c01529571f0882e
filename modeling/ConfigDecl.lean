import ConfigDecl.CommandLine.FileSystem
import ConfigDecl.Configuration.Trace
import ConfigDecl.Main
import ConfigDecl.Proofs.CommandLine.Classification
import ConfigDecl.Proofs.CommandLine.Delivery
import ConfigDecl.Proofs.CommandLine.Stages
import ConfigDecl.Proofs.Configuration.Decoding
import ConfigDecl.Proofs.Configuration.FirstFailure
import ConfigDecl.Proofs.Configuration.Interference
import ConfigDecl.Proofs.Configuration.Log
import ConfigDecl.Proofs.Configuration.Numerals
import ConfigDecl.Proofs.Configuration.PartialEvaluation
import ConfigDecl.Proofs.Configuration.Renaming
import ConfigDecl.Proofs.Configuration.Reordering
import ConfigDecl.Proofs.Configuration.WrittenKeys
import ConfigDecl.Proofs.Constants.History
import ConfigDecl.Proofs.Expr.Composition
import ConfigDecl.Proofs.Expr.Depth
import ConfigDecl.Proofs.Markup.Assembly
import ConfigDecl.Proofs.Markup.BehindRoot
import ConfigDecl.Proofs.Markup.Declarations
import ConfigDecl.Proofs.Markup.Edits
import ConfigDecl.Proofs.Markup.Representation
import ConfigDecl.Proofs.Markup.Rewriting
import ConfigDecl.Proofs.Markup.RoundTrip
import ConfigDecl.Proofs.Markup.Rounds
import ConfigDecl.Proofs.Output.Pieces
