import Recolor.Number.Decimal
import Recolor.Script.Operator
import Recolor.Script.Token
import Recolor.Value.Kind

/-!
# Faults

Everything that can go wrong, by cause. A fault belongs to one of nine families (`Fault`), each
with a code. `Fault.message` and `Fault.help` hold all wording.
-/

set_option autoImplicit false

namespace Recolor

/-- A text between single quotes. -/
def inQuotes (s : String) : String := "'" ++ s ++ "'"

/-- What the grammar asks for at some place. -/
inductive Expected where
  | statement
  | assignmentTarget
  | policy
  | blockItem
  | expression
  | expressionEnd
  | itemEnd
  | saturationEnd
  | symbol (s : Symbol)
  | keyword (k : Keyword)

/-- What was asked for, as messages say it. -/
def Expected.text : Expected → String
  | .statement => "an assignment, 'alpha' or 'on'"
  | .assignmentTarget => "a variable"
  | .policy => "'require', 'allow' or 'forbid'"
  | .blockItem => "an assignment, 'using' or 'end'"
  | .expression => "an expression"
  | .expressionEnd => "end of expression"
  | .itemEnd => "',' or ']'"
  | .saturationEnd => "'|)'"
  | .symbol s => inQuotes s.text
  | .keyword k => inQuotes k.text

/-- A script that does not follow the grammar. -/
inductive SyntaxFault where
  | unexpected (found : TokenKind) (expected : Expected)
  | endOfScript (expected : Expected)
  | compoundOutsideBlock (sign : TokenKind)
  | chainedComparison
  | stringInExpression
  | emptyBlock (space : String)
  | missingSpace

namespace SyntaxFault

/-- The wording of the fault. -/
def message : SyntaxFault → String
  | .unexpected found expected =>
    "Unexpected " ++ inQuotes found.text ++ ", expected " ++ expected.text
  | .endOfScript expected => "Unexpected end of script, expected " ++ expected.text
  | .compoundOutsideBlock sign =>
    "Compound assignment " ++ inQuotes sign.text ++ " outside of an action block"
  | .chainedComparison => "Comparisons cannot be chained"
  | .stringInExpression => "String literals cannot be used in expressions"
  | .emptyBlock space => inQuotes ("using " ++ space ++ ":") ++ " block has no statements"
  | .missingSpace => "Expected a colorspace after 'using'"

/-- Advice on the fault. -/
def help : SyntaxFault → Option String
  | .compoundOutsideBlock _ => some "Use plain '=' for global variables"
  | .chainedComparison => some "Combine comparisons with '&', e.g. ($a < $b) & ($b < $c)"
  | _ => none

end SyntaxFault

/-- Operands whose sizes do not fit together. `declaredLengths` is found on the expression,
`vectorLengths` on its values. -/
inductive ShapeFault where
  | declaredLengths (op : BinaryOp) (left right : Nat)
  | vectorLengths (op : Arithmetic) (left right : Nat)
  | comparedLengths (left right : Nat)
  | operandSizes (left right : Nat × Nat)
  | bandSize (plane image : Nat × Nat)
  | maskSize (mask image : Nat × Nat)
  | chunkSize (pixels channels selected imageChannels : Nat)
deriving DecidableEq, Repr

namespace ShapeFault

/-- Width and height with a cross between them. -/
def sizeText (size : Nat × Nat) : String := toString size.1 ++ "x" ++ toString size.2

/-- Two vector lengths that an operator cannot combine. -/
def lengthsText (sign : String) (left right : Nat) : String :=
  "Cannot apply " ++ inQuotes sign ++ " to vectors of length " ++ toString left ++ " and "
    ++ toString right

/-- The wording of the fault. -/
def message : ShapeFault → String
  | .declaredLengths op left right => lengthsText op.text left right
  | .vectorLengths op left right => lengthsText op.text left right
  | .comparedLengths left right =>
    "Cannot compare vectors of length " ++ toString left ++ " and " ++ toString right
  | .operandSizes left right =>
    "Operands cover " ++ sizeText left ++ " and " ++ sizeText right ++ " pixels"
  | .bandSize plane image => "Band plane is " ++ sizeText plane ++ ", image is " ++ sizeText image
  | .maskSize mask image =>
    "Mask covers " ++ sizeText mask ++ " pixels, image is " ++ sizeText image
  | .chunkSize pixels channels selected imageChannels =>
    "Chunk of " ++ toString pixels ++ " pixel(s) with " ++ toString channels
      ++ " channel(s) does not fit " ++ toString selected ++ " selected pixel(s) with "
      ++ toString imageChannels ++ " channel(s)"

/-- Advice on the fault. -/
def help : ShapeFault → Option String
  | .declaredLengths _ _ _ => some "Both vectors must have the same number of elements"
  | _ => none

end ShapeFault

/-- What a number is needed for. -/
inductive NumberRole where
  | rangeBound
  | vectorElement
deriving DecidableEq, Repr

/-- The role as messages name it. -/
def NumberRole.text : NumberRole → String
  | .rangeBound => "Range bound"
  | .vectorElement => "Vector element"

/-- Values of a kind that an operation does not take. -/
inductive TypeFault where
  | vectorOperands (op : BinaryOp)
  | notIndexable
  | vectorToScalar (name : String)
  | plainToVector (name : String)
  | vectorRangeBound
  | nestedVector
  | operandKinds (sign : String) (left right : ValueKind)
  | notARange (kind : ValueKind)
  | membership (kind : ValueKind)
  | negation (kind : ValueKind)
  | inversion (kind : ValueKind)
  | saturation (kind : ValueKind)
  | integerOperand (sign : String) (x : Number)
  | numberNeeded (role : NumberRole) (kind : ValueKind)
  | sliceBound (kind : ValueKind)
  | indexedKind (kind : ValueKind)
  | indexKind (kind : ValueKind)
  | assignedKind (kind : ValueKind) (name : String)
  | unknownBand (space band : String) (components : List String)
  | noMaskBands
  | tupleLength (values bands : Nat)
  | maskValueKind (kind : ValueKind)
  | predicateKind (kind : ValueKind)
  | storedKind (kind : ValueKind) (band : String)
  | noAlphaBand (space : String)

namespace TypeFault

/-- The wording of the fault. -/
def message : TypeFault → String
  | .vectorOperands op =>
    "Operator " ++ inQuotes op.text ++ " is not defined for these vector operands"
  | .notIndexable => "Only vectors can be indexed"
  | .vectorToScalar name => "Cannot assign a vector to scalar variable $" ++ name
  | .plainToVector name => "Cannot assign a non-vector value to $$" ++ name
  | .vectorRangeBound => "Range bounds must be numbers, not vectors"
  | .nestedVector => "Vector elements must be numbers"
  | .operandKinds sign left right =>
    "Operator " ++ inQuotes sign ++ " is not defined for " ++ left.text ++ " and " ++ right.text
  | .notARange kind => "Right operand of 'in' must be a range, got " ++ kind.text
  | .membership kind => "Cannot test membership of a " ++ kind.text ++ " in a range"
  | .negation kind => "Cannot negate a " ++ kind.text
  | .inversion kind => "Cannot invert a " ++ kind.text
  | .saturation kind => "Cannot saturate a " ++ kind.text
  | .integerOperand sign x =>
    "Operator " ++ inQuotes sign ++ " needs integer operands, got " ++ x.text
  | .numberNeeded role kind => role.text ++ " must be a number, got " ++ kind.text
  | .sliceBound kind => "Slice bounds must be numbers, got " ++ kind.text
  | .indexedKind kind => "Only vectors can be indexed, got " ++ kind.text
  | .indexKind kind => "Vector index must be a number or slice, got " ++ kind.text
  | .assignedKind kind name => "Cannot assign a " ++ kind.text ++ " to $$" ++ name
  | .unknownBand space band _ => "Colorspace " ++ space ++ " has no band " ++ inQuotes band
  | .noMaskBands => "A band mask needs at least one band"
  | .tupleLength values bands =>
    "Mask tuple has " ++ toString values ++ " value(s) for " ++ toString bands ++ " band(s)"
  | .maskValueKind kind => "Cannot build a band mask from a " ++ kind.text
  | .predicateKind kind => "Predicate produced a " ++ kind.text ++ ", not a mask"
  | .storedKind kind band => "Cannot store a " ++ kind.text ++ " in band $" ++ band
  | .noAlphaBand space => "Cannot assign $alpha: the " ++ space ++ " image has no alpha band"

/-- Advice on the fault. -/
def help : TypeFault → Option String
  | .vectorOperands _ => some "Vectors support v + v, v - v, v * n, n * v, v / n and v % n"
  | .notIndexable => some "Index a $$vector or a [..] literal"
  | .vectorToScalar name => some ("Use $$" ++ name ++ " for vector variables")
  | .plainToVector name => some ("Use $" ++ name ++ " for numeric variables")
  | .nestedVector => some "Nested vectors are not supported"
  | .notARange _ => some "Write ranges as min .. max or value +- tolerance"
  | .unknownBand space _ components =>
    some ("Bands of " ++ space ++ ": " ++ ", ".intercalate components ++ ", alpha")
  | .tupleLength _ _ => some "Give exactly one value per band"
  | .maskValueKind _ => some "Use a number, a vector of numbers or a range"
  | .predicateKind _ => some "Compare bands, e.g. $h in 0 .. 0.1"
  | .storedKind _ _ => some "Band variables hold numbers or band planes"
  | .noAlphaBand _ => some "Add 'alpha require;' or convert the image to RGBA"
  | _ => none

end TypeFault

/-- Values that an operation cannot compute with. -/
inductive EvaluationFault where
  | zeroStep
  | fractionalIndex (x : Number)
  | indexOutOfRange (index : Int) (length : Nat)

/-- The wording of the fault. -/
def EvaluationFault.message : EvaluationFault → String
  | .zeroStep => "Slice step cannot be zero"
  | .fractionalIndex x => "Index must be an integer, got " ++ x.text
  | .indexOutOfRange index length =>
    "Index " ++ toString index ++ " out of range for vector of length " ++ toString length

/-- Images that are not what an operation needs. -/
inductive ImageFault where
  | bufferLength (held width height channels : Nat)
  | dimensions (count : Nat)
  | missingBand (band channels : Nat)
  | notExportable (channels : Nat)
  | notMappable (channels : Nat)
  | alphaRequired
  | alphaForbidden
deriving DecidableEq, Repr

namespace ImageFault

/-- The wording of the fault. -/
def message : ImageFault → String
  | .bufferLength held width height channels =>
    "Buffer holds " ++ toString held ++ " values, expected " ++ toString height ++ "x"
      ++ toString width ++ "x" ++ toString channels ++ " = " ++ toString (width * height * channels)
  | .dimensions count =>
    "Expected a 3-dimensional image, got " ++ toString count ++ " dimension(s)"
  | .missingBand band channels =>
    "Band " ++ toString band ++ " does not exist in a " ++ toString channels ++ "-channel image"
  | .notExportable channels => "Cannot export a " ++ toString channels ++ "-channel image as RGBA"
  | .notMappable channels =>
    "Expected an RGB or RGBA image, got " ++ toString channels ++ " channel(s)"
  | .alphaRequired => "Script requires an alpha band but the image has none"
  | .alphaForbidden => "Script forbids an alpha band but the image has one"

/-- Advice on the fault. -/
def help : ImageFault → Option String
  | .dimensions _ => some "Images are shaped [height, width, channels]"
  | .notMappable _ => some "Images are shaped [height, width, 3 or 4]"
  | .alphaRequired => some "Convert the image to RGBA first"
  | .alphaForbidden => some "Convert the image to RGB first"
  | _ => none

end ImageFault

/-- Settings that cannot be used. -/
inductive ConfigFault where
  | unknownSpace (name : String) (known : List String)
  | invalid (reason : String)
deriving DecidableEq, Repr

namespace ConfigFault

/-- The wording of the fault. -/
def message : ConfigFault → String
  | .unknownSpace name _ => "Unknown colorspace " ++ inQuotes name
  | .invalid reason => "Invalid config: " ++ reason

/-- Advice on the fault. -/
def help : ConfigFault → Option String
  | .unknownSpace _ known => some ("Known colorspaces: " ++ ", ".intercalate known)
  | .invalid _ => some "Known keys: enable_cache, strict_lexing, alpha"

end ConfigFault

/-- What can go wrong. -/
inductive Fault where
  | unreadableFile (path reason : String)
  | lexical (cause : String) (location : Location) (advice : Option String)
  | grammar (cause : SyntaxFault) (location : Location)
  | shape (cause : ShapeFault)
  | type (cause : TypeFault)
  | undefinedVariable (v : Variable)
  | evaluation (cause : EvaluationFault)
  | image (cause : ImageFault)
  | config (cause : ConfigFault)

namespace Fault

/-- The full text of a fault, with its family in front. -/
def message : Fault → String
  | .unreadableFile path reason => "IO error with " ++ path ++ ": " ++ reason
  | .lexical cause location _ => "Lexical error at " ++ location.text ++ ": " ++ cause
  | .grammar cause location => "Syntax error at " ++ location.text ++ ": " ++ cause.message
  | .shape cause => "Shape error: " ++ cause.message
  | .type cause => "Type error: " ++ cause.message
  | .undefinedVariable v => "Undefined variable: " ++ v.text
  | .evaluation cause => "Evaluation error: " ++ cause.message
  | .image cause => "Invalid image: " ++ cause.message
  | .config cause => "Invalid configuration: " ++ cause.message

/-- The code of the family. -/
def code : Fault → String
  | .unreadableFile _ _ => "colormap::io"
  | .lexical _ _ _ => "colormap::lex"
  | .grammar _ _ => "colormap::syntax"
  | .shape _ => "colormap::shape"
  | .type _ => "colormap::type_mismatch"
  | .undefinedVariable _ => "colormap::undefined"
  | .evaluation _ => "colormap::eval"
  | .image _ => "colormap::image"
  | .config _ => "colormap::config"

/-- Advice on the fault. -/
def help : Fault → Option String
  | .lexical _ _ advice => advice
  | .grammar cause _ => cause.help
  | .shape cause => cause.help
  | .type cause => cause.help
  | .image cause => cause.help
  | .config cause => cause.help
  | _ => none

/-- The place in the script, for faults of its text. -/
def location? : Fault → Option Location
  | .lexical _ location _ => some location
  | .grammar _ location => some location
  | _ => none

end Fault

end Recolor
