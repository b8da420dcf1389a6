import GenericSignature.Arena
import GenericSignature.Grammar
import GenericSignature.Scope.Member
import GenericSignature.Proofs.RoundTrip
import GenericSignature.Proofs.FirstOffence
import GenericSignature.Proofs.CursorHistory
import GenericSignature.Proofs.BoundChain
import GenericSignature.Proofs.NestingLimit
import GenericSignature.Proofs.Interning
import GenericSignature.Proofs.Occurrence
import GenericSignature.Proofs.ResolvedText
import GenericSignature.Proofs.CursorPlace
import GenericSignature.Proofs.SelfDelimiting
import GenericSignature.Proofs.RefusalPlace
import GenericSignature.Proofs.FixedPoint
import GenericSignature.Proofs.LayerwiseResolution
import GenericSignature.Proofs.LexicalScope
import GenericSignature.Proofs.FirstDeclaration
import GenericSignature.Proofs.Explanation
import GenericSignature.Proofs.ExposedVariable
import GenericSignature.Proofs.ArrayView
import GenericSignature.Proofs.LayerwiseReading
import GenericSignature.Proofs.ResolvedReference
import GenericSignature.Proofs.ReferencedName
import GenericSignature.Proofs.LookAhead
