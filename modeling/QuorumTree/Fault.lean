import QuorumTree.Curve.Coordinate
import QuorumTree.Number
import QuorumTree.Text.Hex
import QuorumTree.Text.Quoted

/-!
Everything that an operation can refuse, as causes. The wording of a refusal and its kind are each
one function of the cause.
-/

namespace QuorumTree

/-- The families of refusals that callers tell apart. -/
inductive FaultKind
  | policy
  | threshold
  | publicKey
  | tooManyCombinations
  | aggregation
  | emptyTree
  | outOfRange
  | notCommitted
  | proofEncoding
  | value
  | wrongType
  | noSuchPosition
  | tooWide
  | outOfMemory
  | notBytes
  | noSuchField
  | unknownName
  | conflict
  | notStorable
  | notEncodable
  | address
  | unknownDatabase
  | missingDriver
  | notOpened
  deriving DecidableEq, Repr

namespace FaultKind

/-- Refusals that speak about commitments, keys, trees or proofs. -/
def isDomain : FaultKind → Bool
  | policy | threshold | publicKey | tooManyCombinations | aggregation | emptyTree | outOfRange
  | notCommitted | proofEncoding => true
  | _ => false

/-- Refusals of a value that has the right type but does not qualify. -/
def isInvalidValue : FaultKind → Bool
  | threshold | publicKey | emptyTree | proofEncoding | value => true
  | _ => false

/-- Refusals that a caller with untrusted input expects and handles. -/
def isExpected (kind : FaultKind) : Bool :=
  kind.isDomain || kind.isInvalidValue

end FaultKind

inductive Fault
  -- hashing
  | leafKeyWidth (width : Nat)
  | branchWidth
  | internalKeyWidth (width : Nat)
  | rootWidth (width : Nat)
  -- compact sizes
  | negativeLength (length : Number)
  | lengthTooWide
  | truncatedSize
  | overlongSize (value : Nat)
  | noSuchPosition
  -- quorums
  | noParticipantCount (n : Number)
  | thresholdTooSmall (m : Number)
  | thresholdTooLarge (m n : Number)
  | tooManyCombinations (n m : Number) (count : Nat) (ceiling : Number)
  | selectionTooWide
  | memberCount (shown : String) (given : Nat)
  | memberType (type : String)
  | memberRange (index : Int) (shown : String)
  | memberOrder (combination : List Int)
  | rankRange (rank n m : Number) (total : Nat)
  | negativeBinomial
  | negativeBudget (budget : Number)
  | budgetTooLarge
  | negativeLimit
  -- keys
  | keyType (type : String)
  | keyForm (bytes : Bytes)
  | keyOffCurve (bytes : Bytes)
  | keyLength (length : Nat)
  | keyHex (text : String)
  | secretRange
  -- aggregation
  | noKeys
  | repeatedKeys (keys : List Bytes)
  | vanishingSum (count : Nat)
  | tweakRange
  | tweakFailed
  | refusedKeys (count : Nat)
  | pointAtInfinity
  | rejectedKeys (reason : String)
  | repeatedParticipant (key : Bytes)
  | negativeCacheSize (size : Number)
  -- trees and proofs
  | noLeafCount
  | noLeaves
  | leafWidth (index width : Nat)
  | levelRange (level : Number) (depth : Nat)
  | indexRange (index level : Number) (width : Nat)
  | leafIndexRange (shown : String) (leafCount : Nat)
  | proofSize (reason : String)
  | proofDepth (steps : Nat)
  | proofWidth (expected steps given : Nat)
  | proofPadding
  | proofHex (position : Nat)
  | stepSide (shown : String)
  -- values
  | textExpected (type : String)
  | oddHex (text : String)
  | badHex (text : String)
  | strayHex (position : Nat)
  | hashWidth (width : Nat) (text : String)
  | bytesExpected
  | byteRange
  | negativeCount
  | countTooWide
  | outOfMemory
  | wrongType
  | noSuchField
  | notInteger (text : String)
  | tooManyDigits (count : Nat)
  | numberTooLong
  -- policies
  | noParticipants
  | thresholdMismatch (m n : Number) (participants : Nat)
  | signerRange (index : Int)
  | badSigner (shown reason : String)
  | notParticipant (key : Bytes)
  | repeatedSigner
  | signerCount (given : Nat) (shown : String)
  | notCommitted (combination : List Nat) (rank leafCount : Nat)
  -- the store
  | nameTaken
  | unknownName
  | columnTooWide
  | missingColumn
  | notRowNumber
  | notStorable
  | notEncodable
  | storedLeaves (name : String)
  | rebuiltRoot (root : Bytes) (name stored : String)
  | rebuiltDropped (name : String) (dropped : Int) (stored : String)
  -- the surroundings
  | variableName
  | embeddedNul
  | databaseAddress
  | tooManyParts
  | unknownDatabase
  | missingDriver
  | notTruth (text : String)
  | notReal (text : String)
  | isolationLevel
  | optionTooWide
  | notOpened
  | readOnly
  deriving DecidableEq

namespace Fault

def kind : Fault → FaultKind
  | leafKeyWidth _ | branchWidth | internalKeyWidth _ | rootWidth _ | negativeLength _
  | truncatedSize | overlongSize _ | memberCount _ _ | memberRange _ _ | memberOrder _
  | rankRange _ _ _ _ | negativeBinomial | negativeBudget _ | budgetTooLarge | negativeLimit
  | secretRange | pointAtInfinity | negativeCacheSize _ | leafWidth _ _ | stepSide _ | oddHex _
  | badHex _ | strayHex _
  | hashWidth _ _ | byteRange | negativeCount | notInteger _ | tooManyDigits _ | numberTooLong
  | storedLeaves _ | rebuiltRoot _ _ _ | rebuiltDropped _ _ _ | variableName | embeddedNul
  | tooManyParts | notTruth _ | notReal _ | isolationLevel => .value
  | noParticipantCount _ | thresholdTooSmall _ | thresholdTooLarge _ _ => .threshold
  | tooManyCombinations _ _ _ _ => .tooManyCombinations
  | keyType _ | keyForm _ | keyOffCurve _ | keyLength _ | keyHex _ => .publicKey
  | noKeys | repeatedKeys _ | vanishingSum _ | tweakRange | tweakFailed | refusedKeys _
  | rejectedKeys _ | repeatedParticipant _ => .aggregation
  | noLeafCount | noLeaves => .emptyTree
  | levelRange _ _ | indexRange _ _ _ | leafIndexRange _ _ => .outOfRange
  | proofSize _ | proofDepth _ | proofWidth _ _ _ | proofPadding | proofHex _ => .proofEncoding
  | noParticipants | thresholdMismatch _ _ _ => .policy
  | signerRange _ | badSigner _ _ | notParticipant _ | repeatedSigner | signerCount _ _
  | notCommitted _ _ _ => .notCommitted
  | memberType _ | textExpected _ | wrongType => .wrongType
  | noSuchPosition => .noSuchPosition
  | lengthTooWide | selectionTooWide | countTooWide | columnTooWide | optionTooWide => .tooWide
  | outOfMemory => .outOfMemory
  | bytesExpected => .notBytes
  | noSuchField => .noSuchField
  | unknownName => .unknownName
  | nameTaken | missingColumn | notRowNumber => .conflict
  | notStorable => .notStorable
  | notEncodable => .notEncodable
  | databaseAddress => .address
  | unknownDatabase => .unknownDatabase
  | missingDriver => .missingDriver
  | notOpened | readOnly => .notOpened

/-- How much is shown of a text that spells no whole number, with its opening quote. -/
def maxQuotedLength : Nat := 200

def strayHexMessage (position : Nat) : String :=
  s!"non-hexadecimal number found in fromhex() arg at position {position}"

/-- The wording of a refusal; causes that only their kind describes have none. -/
def message? : Fault → Option String
  | leafKeyWidth width => s!"Expected a 32-byte x-only key, got {width} bytes"
  | branchWidth => "Branch children must be 32-byte hashes"
  | internalKeyWidth width => s!"Expected a 32-byte x-only internal key, got {width} bytes"
  | rootWidth width => s!"Expected a 32-byte root, got {width} bytes"
  | negativeLength length => s!"Length must not be negative, got {length}"
  | truncatedSize => "Unexpected end of data while reading compact size"
  | overlongSize value => s!"Non-canonical compact size encoding of {value}"
  | noParticipantCount n => s!"Participant count must be at least 1, got {n}"
  | thresholdTooSmall m => s!"Threshold must be at least 1, got {m}"
  | thresholdTooLarge m n => s!"Threshold {m} exceeds participant count {n}"
  | tooManyCombinations n m count ceiling =>
    s!"C({n}, {m}) = {count} combinations exceeds the ceiling of {ceiling}"
  | memberCount shown given => s!"Expected {shown} indices, got {given}"
  | memberType type => "Combination indices must be integers, got " ++ type
  | memberRange index shown => s!"Index {index} out of range for {shown} participants"
  | memberOrder combination =>
    "Combination indices must be strictly increasing: " ++ Text.bracketed combination
  | rankRange rank n m total => s!"Rank {rank} out of range for C({n}, {m}) = {total}"
  | negativeBinomial => "n must be a non-negative integer"
  | negativeBudget budget => s!"Prune budget must not be negative, got {budget}"
  | budgetTooLarge =>
    "Stop argument for islice() must be None or an integer: 0 <= x <= sys.maxsize."
  | negativeLimit => "Indices for islice() must be None or an integer: 0 <= x <= sys.maxsize."
  | keyType type => "Expected bytes, got " ++ type
  | keyForm bytes => "Not a compressed public key: " ++ Hex.encode bytes
  | keyOffCurve bytes => "Not a point on the curve: " ++ Hex.encode bytes
  | keyLength length => s!"Invalid public key length {length}"
  | keyHex text => "Invalid hex for public key: " ++ Text.quoted text
  | secretRange => s!"Secret scalar must be greater than 0 and less than {groupOrder}."
  | noKeys => "Cannot aggregate an empty key set"
  | repeatedKeys keys =>
    "Duplicate keys in aggregation set: " ++ String.intercalate ", " (keys.map Hex.encode)
  | vanishingSum count => s!"Key aggregation of {count} keys failed: the sum is no public key"
  | tweakRange => "Tweak hash is not a valid scalar"
  | tweakFailed => "Tweaking the internal key failed: the sum is no public key"
  | refusedKeys count => s!"refused {count} keys"
  | pointAtInfinity => "point at infinity"
  | rejectedKeys reason => "Aggregation primitive rejected the key set: " ++ reason
  | repeatedParticipant key => "Duplicate participant public key " ++ Hex.encode key
  | negativeCacheSize size => s!"Cache size must not be negative, got {size}"
  | noLeafCount => "A tree needs at least one leaf"
  | noLeaves => "Cannot build a MAST from zero leaves"
  | leafWidth index width => s!"Leaf {index} is {width} bytes, expected 32"
  | levelRange level depth => s!"Level {level} out of range for a tree of depth {depth}"
  | indexRange index level width =>
    s!"Index {index} out of range for level {level} of width {width}"
  | leafIndexRange shown leafCount =>
    s!"Leaf index {shown} out of range for a tree of {leafCount} leaves"
  | proofSize reason => reason
  | proofDepth steps => s!"Proof has {steps} steps, at most 128 allowed"
  | proofWidth expected steps given =>
    s!"Expected {expected} bytes for a {steps}-step proof, got {given}"
  | proofPadding => "Non-zero padding bits in proof"
  | proofHex position => "Invalid hex for proof: " ++ strayHexMessage position
  | stepSide shown => "Invalid proof step side " ++ shown
  | textExpected type => "Expected string, got " ++ type
  | oddHex text => "Odd-length hex string " ++ Text.quoted text
  | badHex text => "Invalid hex string " ++ Text.quoted text
  | strayHex position => strayHexMessage position
  | hashWidth width text => s!"Expected a 32-byte hash, got {width} bytes: " ++ Text.quoted text
  | byteRange => "bytes must be in range(0, 256)"
  | negativeCount => "negative count"
  | notInteger text =>
    "invalid literal for int() with base 10: " ++ Text.cut maxQuotedLength (Text.quoted text)
  | tooManyDigits count =>
    s!"Exceeds the limit (4300 digits) for integer string conversion: value has {count} digits; " ++
      "use sys.set_int_max_str_digits() to increase the limit"
  | numberTooLong =>
    "Exceeds the limit (4300 digits) for integer string conversion; " ++
      "use sys.set_int_max_str_digits() to increase the limit"
  | noParticipants => "At least one participant public key is required"
  | thresholdMismatch m n participants =>
    s!"Threshold {m}-of-{n} does not match {participants} participants"
  | signerRange index => s!"Participant index {index} out of range"
  | badSigner shown reason => "Invalid signer " ++ shown ++ ": " ++ reason
  | notParticipant key => Hex.encode key ++ " is not a participant"
  | repeatedSigner => "Signer subset contains the same participant more than once"
  | signerCount given shown =>
    s!"Signer subset has {given} members, leaves commit to exactly {shown}"
  | notCommitted combination rank leafCount =>
    "Combination " ++ Text.bracketed (combination.map Int.ofNat) ++
      s!" has rank {rank}, only the first {leafCount} combinations are committed"
  | storedLeaves name => s!"Stored leaves of MAST {name} do not hash to the stored root"
  | rebuiltRoot root name stored =>
    s!"Rebuilt root {Hex.encode root} of MAST {name} does not match the stored root {stored}"
  | rebuiltDropped name dropped stored =>
    s!"Rebuilt MAST {name} dropped {dropped} combinations, {stored} were stored"
  | variableName => "illegal environment variable name"
  | embeddedNul => "embedded null byte"
  | tooManyParts => "too many values to unpack (expected 2)"
  | notTruth text => "String is not true/false: " ++ Text.quoted text
  | notReal text => "could not convert string to float: " ++ Text.quoted text
  | isolationLevel =>
    "isolation_level string must be '', 'DEFERRED', 'IMMEDIATE', or 'EXCLUSIVE'"
  | lengthTooWide | selectionTooWide | noSuchPosition | countTooWide | columnTooWide | outOfMemory
  | bytesExpected | noSuchField | unknownName | nameTaken | missingColumn | notRowNumber
  | notStorable | notEncodable | databaseAddress | unknownDatabase | missingDriver | optionTooWide
  | notOpened | readOnly | wrongType => none

/-- The wording of a refusal as it is quoted in the wording of another. -/
def message (fault : Fault) : String :=
  fault.message?.getD ""

/-- A refusal whose wording tells the given numbers. Where one of them is too long to be written, it
is that which is refused. -/
def telling (numbers : List Number) (fault : Fault) : Fault :=
  if numbers.all Number.isWritable then fault else .numberTooLong

theorem telling_of_writable {numbers : List Number} {fault : Fault}
    (h : ∀ number ∈ numbers, number.isWritable = true) : telling numbers fault = fault :=
  if_pos (List.all_eq_true.mpr h)

theorem telling_of_unwritable {numbers : List Number} {fault : Fault} {number : Number}
    (hmem : number ∈ numbers) (h : number.isWritable = false) :
    telling numbers fault = .numberTooLong := by
  refine if_neg fun hall => ?_
  simp [List.all_eq_true.mp hall number hmem] at h

theorem telling_cases (numbers : List Number) (fault : Fault) :
    telling numbers fault = fault ∨
      telling numbers fault = .numberTooLong ∧ ∃ number ∈ numbers, number.isWritable = false := by
  unfold telling
  split
  · exact .inl rfl
  · next h => exact .inr ⟨rfl, by simpa using h⟩

/-- What holds of a refusal, and of one for a number that is too long, holds where numbers are told.
-/
theorem of_telling {P : Fault → Prop} {numbers : List Number} {fault : Fault} (h : P fault)
    (hlong : P .numberTooLong) : P (telling numbers fault) := by
  obtain heq | ⟨heq, -⟩ := telling_cases numbers fault
  · rwa [heq]
  · rwa [heq]

theorem kind_telling {numbers : List Number} {fault : Fault} (h : fault.kind = .value) :
    (telling numbers fault).kind = .value :=
  of_telling (P := (·.kind = .value)) h rfl

theorem isExpected_telling {numbers : List Number} {fault : Fault}
    (h : fault.kind.isExpected = true) : (telling numbers fault).kind.isExpected = true :=
  of_telling (P := (·.kind.isExpected = true)) h rfl

end Fault

end QuorumTree
