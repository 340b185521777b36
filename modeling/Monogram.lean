import Monogram.Code.Listing
import Monogram.CommandLine.Command
import Monogram.Editor.Brackets
import Monogram.Editor.Highlight
import Monogram.Main
import Monogram.Proofs.Classes.Loaded
import Monogram.Proofs.Classes.Registrations
import Monogram.Proofs.Code.Listing
import Monogram.Proofs.Editor.Brackets
import Monogram.Proofs.Editor.Highlight
import Monogram.Proofs.Evaluation.References
import Monogram.Proofs.Evaluation.Statics
import Monogram.Proofs.Lowering.Append
import Monogram.Proofs.Lowering.Checked
import Monogram.Proofs.Lowering.Mentions
import Monogram.Proofs.Lowering.Naming
import Monogram.Proofs.Lowering.Position
import Monogram.Proofs.Lowering.Refusals
import Monogram.Proofs.Machine.Alike
import Monogram.Proofs.Machine.Effect
import Monogram.Proofs.Machine.Limits
import Monogram.Proofs.Machine.Metered
import Monogram.Proofs.Machine.References
import Monogram.Proofs.Machine.Relocation
import Monogram.Proofs.Machine.Setting
import Monogram.Proofs.Number.Bits
import Monogram.Proofs.Number.Equality
import Monogram.Proofs.Reading.Nesting
import Monogram.Proofs.Reading.Places
import Monogram.Proofs.Reading.Program
import Monogram.Proofs.Session.Compilations
import Monogram.Proofs.Session.Evaluation
import Monogram.Proofs.Session.Initialization
import Monogram.Proofs.Session.Piecewise
import Monogram.Proofs.Session.Privacy
import Monogram.Proofs.Session.References
import Monogram.Proofs.Session.Slots
import Monogram.Proofs.Session.Stack
import Monogram.Proofs.Session.Unwinding
import Monogram.Proofs.Token.Printing
import Monogram.Proofs.Token.Tiling
import Monogram.Proofs.Value.Bisimilarity
import Monogram.Proofs.Value.Dict
import Monogram.Proofs.Value.Insertions
import Monogram.Proofs.Value.Unfolding
import Monogram.Report.Drawing
import Monogram.Session
