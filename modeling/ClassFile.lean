import ClassFile.Main
import ClassFile.Client
import ClassFile.Guarded.Code
import ClassFile.Proofs.Isolation
import ClassFile.Proofs.Prefix
import ClassFile.Proofs.Safety
import ClassFile.Layout
import ClassFile.Proofs.Completeness
import ClassFile.Proofs.Transparency
import ClassFile.Proofs.Ownership
import ClassFile.Proofs.Rejected
import ClassFile.Proofs.Protocol
import ClassFile.Proofs.Agreement
import ClassFile.Proofs.Surface
import ClassFile.Proofs.Hidden
import ClassFile.Proofs.Invisible
import ClassFile.Proofs.Orphans
import ClassFile.Proofs.Signatures
import ClassFile.Proofs.Opaque
import ClassFile.Proofs.Origins
import ClassFile.Proofs.Permuted
import ClassFile.Proofs.Generics
import ClassFile.Proofs.Throwing
import ClassFile.Proofs.Loading
import ClassFile.Proofs.Idiom
import ClassFile.Proofs.Switches
import ClassFile.Proofs.Constants
import ClassFile.Proofs.Batches
import ClassFile.Proofs.Ancestry
import ClassFile.Proofs.Values
import ClassFile.Proofs.Negation
import ClassFile.Proofs.Globs
import ClassFile.Proofs.Registers
import ClassFile.Proofs.Descriptors
import ClassFile.Proofs.Results
import ClassFile.Proofs.TypeUses
import ClassFile.Proofs.Retained
import ClassFile.Proofs.Cursors
import ClassFile.Proofs.Resolved
import ClassFile.Proofs.Progress
