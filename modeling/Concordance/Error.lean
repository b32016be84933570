import Concordance.Capabilities
import Concordance.DocId
import Concordance.Key
import Concordance.Text.Quoted

/-!
# Errors

An error is the cause of a failure together with the figures that its message
shows.  Every cause belongs to one kind.
-/

namespace Concordance

/-- What sort of failure an error is. -/
inductive ErrorKind where
  | io
  | parse
  | notFound
  | invalidArgument
  | internal
  /-- Stored bytes violate the format. -/
  | corruptIndex
  /-- A node asks for an operation that a cursor does not have. -/
  | unsupportedNode
  /-- A configuration or a table of counts cannot be used. -/
  | configLoad
  /-- A cursor is read or moved where its position does not allow it. -/
  | invalidCursorState
  /-- A figure leaves the machine word that holds it. -/
  | overflow
  deriving DecidableEq

namespace ErrorKind

def name : ErrorKind → String
  | io => "Io"
  | parse => "Parse"
  | notFound => "NotFound"
  | invalidArgument => "InvalidArgument"
  | internal => "Internal"
  | corruptIndex => "CorruptIndex"
  | unsupportedNode => "UnsupportedNode"
  | configLoad => "ConfigLoad"
  | invalidCursorState => "InvalidCursorState"
  | overflow => "Overflow"

/-- Every kind, in the order of declaration. -/
def all : List ErrorKind :=
  [io, parse, notFound, invalidArgument, internal, corruptIndex, unsupportedNode,
    configLoad, invalidCursorState, overflow]

/-- The kind with this name. -/
def ofName? (name : String) : Option ErrorKind :=
  all.find? fun kind => kind.name == name

/-- The text of an error of this kind with this message. -/
def describe (kind : ErrorKind) (message : String) : String :=
  kind.name ++ ": " ++ message

end ErrorKind

/-- Why a file gives no text. -/
inductive ReadFault where
  | missing
  /-- No name holds the character NUL. -/
  | nulInName
  | nameTooLong
  | directory
  | notText
  deriving DecidableEq

def ReadFault.message : ReadFault → String
  | missing => "No such file or directory (os error 2)"
  | nulInName => "file name contained an unexpected NUL byte"
  | nameTooLong => "File name too long (os error 36)"
  | directory => "Is a directory (os error 21)"
  | notText => "stream did not contain valid UTF-8"

/-- Why a line of a table of counts holds no entry. -/
inductive CountLineFault where
  | fieldCount (found : Nat)
  | notACount (field : String)
  | inconsistent (key : String) (frequency maximum documents : Nat)
  deriving DecidableEq

def CountLineFault.message : CountLineFault → String
  | fieldCount found => s!"expected 4 tab-separated fields, found {found}"
  | notACount field => quoted field ++ " is not a count"
  | inconsistent key frequency maximum documents =>
    s!"counts for {key} are inconsistent (frequency {frequency}, " ++
      s!"maximum {maximum}, documents {documents})"

/-- The causes of failure. -/
inductive Error where
  -- numbers
  | incompleteNumber
  | numberOverflow
  | numberTooWide (value : Nat)
  -- lists of gaps
  | notIncreasing (value last : DocId)
  | zeroGap
  | docOverflow
  -- building blocks
  | noOccurrences (doc : DocId)
  | docNotAfter (doc last : DocId)
  | extentsNotOrdered (doc : DocId)
  | countMismatch (doc : DocId) (declared found : Nat)
  -- reading block headers
  | inconsistentSummary
  | skipCountMismatch (expected found : Nat)
  | streamOverflow
  | blockLengthMismatch (length covered : Nat)
  | skipDocOverflow
  | skipOutside
  | skipFigureOverflow
  | skipTableOverflow
  -- reading postings
  | zeroCount (doc : DocId)
  | extentsMissing (doc : DocId) (declared : Nat)
  | startOverflow
  | stopOverflow
  | trailingPostings
  -- opening an index
  | fileMissing
  | fileTooShort (length : Nat)
  | notAnIndex
  | incompatibleVersion (version : Nat)
  | postingsOverflow
  | keysMisplaced
  | keysOverflow
  | fileLengthMismatch (file : String) (length expected : Nat)
  | checksumMismatch (file : String)
  | malformedDictionary
  | keyCountMismatch (found expected : Nat)
  -- reading an index
  | blockOutside (key : Key) (start stop : Nat)
  | keysExhausted
  -- writing an index
  | keyNotAfter (key last : Key)
  | documentBeforeKey
  | occurrenceBeforeDocument
  | extentOutOfOrder (start stop : Nat) (doc : DocId)
  -- moving and reading cursors
  | exhausted (key : String)
  | movedBack (key : String) (target floor : DocId)
  | noCounts (key : String)
  | noExtents (key : String)
  -- windows
  | windowOverflow
  -- building cursors
  | childLacks (operator : String) (needed : Capabilities) (child : String)
      (offered : Capabilities)
  | noChildren (parent : String)
  | featureArity (children : Nat)
  | noKey (node : String)
  | widthOutOfRange (width : Int) (node : String)
  | unknownOperator (operator : String)
  | noConstructor (operator implementation : String)
  -- statistics
  | countersOverflow
  | notCounting (signature : String) (offered : Capabilities)
  | noCandidates
  | noSample
  | notAFeature (node : String)
  | featureWithoutChild (node : String)
  -- files of a session
  | malformedConfiguration
  | unreadable (file : String) (fault : ReadFault)
  | unreadableCounts (file : String) (fault : ReadFault)
  | countLine (file : Option String) (line : Nat) (fault : CountLineFault)
  deriving DecidableEq

namespace Error

def kind : Error → ErrorKind
  | incompleteNumber | numberOverflow | numberTooWide _ | zeroGap | docOverflow
  | inconsistentSummary | skipCountMismatch .. | streamOverflow | blockLengthMismatch ..
  | skipDocOverflow | skipOutside | zeroCount _ | extentsMissing .. | startOverflow
  | stopOverflow | trailingPostings | fileTooShort _ | notAnIndex
  | incompatibleVersion _ | postingsOverflow | keysMisplaced | keysOverflow
  | fileLengthMismatch .. | checksumMismatch _ | malformedDictionary
  | keyCountMismatch .. | blockOutside .. => .corruptIndex
  | skipFigureOverflow | skipTableOverflow | windowOverflow | countersOverflow => .overflow
  | notIncreasing .. | noOccurrences _ | docNotAfter .. | extentsNotOrdered _
  | countMismatch .. | keyNotAfter .. | documentBeforeKey | occurrenceBeforeDocument
  | extentOutOfOrder .. | widthOutOfRange .. | noCandidates | noSample
  | notAFeature _ => .invalidArgument
  | fileMissing => .io
  | keysExhausted | exhausted _ | movedBack .. => .invalidCursorState
  | noCounts _ | noExtents _ | childLacks .. | noChildren _ | featureArity _ | noKey _
  | unknownOperator _ | noConstructor .. | notCounting ..
  | featureWithoutChild _ => .unsupportedNode
  | malformedConfiguration | unreadable .. | unreadableCounts ..
  | countLine .. => .configLoad

def message : Error → String
  | incompleteNumber => "Incomplete VByte"
  | numberOverflow => "VByte overflow"
  | numberTooWide value => s!"VByte value {value} exceeds u32"
  | notIncreasing value last =>
    s!"Values must strictly increase: {value.val} after {last.val}"
  | zeroGap => "Non-increasing document id"
  | docOverflow => "Document id overflows u64"
  | noOccurrences doc => s!"Posting for document {doc.val} has no occurrences"
  | docNotAfter doc last => s!"Document {doc.val} is not after {last.val}"
  | extentsNotOrdered doc => s!"Extents of document {doc.val} are not ordered"
  | countMismatch doc declared found =>
    s!"Document {doc.val} declares count {declared} but has {found} extents"
  | inconsistentSummary => "Inconsistent block summary"
  | skipCountMismatch expected found =>
    s!"Expected {expected} skip entries, found {found}"
  | streamOverflow => "Stream length overflows"
  | blockLengthMismatch length covered =>
    s!"Block is {length} bytes but its streams cover {covered}"
  | skipDocOverflow => "Skip document id overflows"
  | skipOutside => "Skip entry points outside its block"
  | skipFigureOverflow => "Skip offset overflows"
  | skipTableOverflow => "Skip table exceeds address space"
  | zeroCount doc => s!"Zero count stored for document {doc.val}"
  | extentsMissing doc declared =>
    s!"Document {doc.val} declares {declared} extents but the extent stream ended"
  | startOverflow => "Extent begin overflows"
  | stopOverflow => "Extent end overflows"
  | trailingPostings => "Postings streams hold trailing data"
  | fileMissing => ReadFault.missing.message
  | fileTooShort length => s!"File of {length} bytes is shorter than the header"
  | notAnIndex => "Not an index file"
  | incompatibleVersion version => s!"Incompatible index version {version}"
  | postingsOverflow => "Postings region length overflows"
  | keysMisplaced => "Key dictionary does not follow the postings"
  | keysOverflow => "Key dictionary length overflows"
  | fileLengthMismatch file length expected =>
    s!"Index {file} is {length} bytes, header expects {expected}"
  | checksumMismatch file => s!"Checksum mismatch in {file}"
  | malformedDictionary => "Key dictionary is malformed"
  | keyCountMismatch found expected =>
    s!"Key dictionary holds {found} keys, header says {expected}"
  | blockOutside key start stop =>
    "Block of " ++ quoted key.text ++
      s!" spans {start}..{stop} outside the postings region"
  | keysExhausted => "Key iterator is exhausted"
  | keyNotAfter key last =>
    "Key " ++ quoted key.text ++ " is not after " ++ quoted last.text
  | documentBeforeKey => "begin_document called before begin_key"
  | occurrenceBeforeDocument => "Occurrence added before begin_document"
  | extentOutOfOrder start stop doc =>
    s!"Extent ({start}, {stop}) out of order in document {doc.val}"
  | exhausted key => s!"Cursor {key} is exhausted"
  | movedBack key target floor =>
    s!"{key} cannot move back to {target.val} after a move to {floor.val}"
  | noCounts key => s!"{key} does not produce counts"
  | noExtents key => s!"{key} does not produce extents"
  | windowOverflow => "Window width overflows"
  | childLacks operator needed child offered =>
    s!"#{operator} needs " ++ needed.describe ++ s!" from {child}, which only offers " ++
      offered.describe
  | noChildren parent => s!"{parent} needs at least one child"
  | featureArity children => s!"#feature takes exactly one child, got {children}"
  | noKey node => s!"{node} names no index key"
  | widthOutOfRange width node => s!"Window width {width} out of range in {node}"
  | unknownOperator operator => s!"Unknown operator #{operator}"
  | noConstructor operator implementation =>
    s!"Operator #{operator} maps to {implementation}, which has no constructor"
  | countersOverflow => "Statistics counters overflow"
  | notCounting signature offered =>
    s!"Statistics need a counting cursor, {signature} offers " ++ offered.describe
  | noCandidates => "Onepass statistics need a candidate set"
  | noSample => "Sampled statistics need a sorted candidate list"
  | notAFeature node => s!"{node} is not a feature node"
  | featureWithoutChild node => s!"{node} has no child to annotate from"
  | malformedConfiguration => "Invalid configuration"
  | unreadable file fault => s!"Cannot read {file}: " ++ fault.message
  | unreadableCounts file fault =>
    s!"Cannot read synthetic counts {file}: " ++ fault.message
  | countLine file line fault =>
    (match file with
      | some name => name ++ ": "
      | none => "") ++ s!"line {line}: " ++ fault.message

end Error

end Concordance
