import Recolor.CompiledScript
import Recolor.Config.Document
import Recolor.Image.Samples
import Recolor.Proofs.Selection
import Recolor.Proofs.StaticShape
import Recolor.Proofs.Refusal
import Recolor.Proofs.FirstMatch
import Recolor.Proofs.Cell
import Recolor.Proofs.Pointwise
import Recolor.Proofs.PixelRules
import Recolor.Proofs.PixelLocality
import Recolor.Proofs.Reading
import Recolor.Proofs.ParserSound
import Recolor.Proofs.ParserComplete
import Recolor.Proofs.Checked
import Recolor.Proofs.VectorLengths
import Recolor.Proofs.ProgramParser
import Recolor.Proofs.SharedBands
import Recolor.Proofs.KindFaults
import Recolor.Proofs.SizeFaults
import Recolor.Proofs.BandFrame
import Recolor.Proofs.Pieces
import Recolor.Proofs.LongestMatch
import Recolor.Proofs.NativeRules
import Recolor.Proofs.Strictness
import Recolor.Proofs.Placeless
import Recolor.Proofs.PlacelessPrograms
import Recolor.Proofs.Spacing
import Recolor.Proofs.Progression
import Recolor.Proofs.MirroredComparisons
import Recolor.Proofs.Conversions
import Recolor.Proofs.OperatorFaults
import Recolor.Proofs.BandFaults
import Recolor.Proofs.FaultPlaces
import Recolor.Proofs.PlacesInSource
import Recolor.Proofs.NumberBits
import Recolor.Proofs.Rounding
import Recolor.Proofs.IntegerNumbers
import Recolor.Proofs.BitOperators
import Recolor.Proofs.GatherScatter
import Recolor.Proofs.LineScan
import Recolor.Proofs.Spelling
import Recolor.Proofs.TokenTexts
import Recolor.Proofs.OccurringVariables
import Recolor.Proofs.WellFormedBuffers
import Recolor.Proofs.PolicyFaults
import Recolor.Proofs.AlphaDirectives
import Recolor.Proofs.ParserProgress
import Recolor.Proofs.ParserLoops
import Recolor.Proofs.VisibleLengths
import Recolor.Proofs.BandLens
