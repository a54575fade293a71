import BlobExchange.Buffer.Basic
import BlobExchange.Failure.Blob
import BlobExchange.Table
/-! # The registry of active blobs

The call that leaves no claim ends the blob: its entry goes and its cell is marked as disposed. The
cell outlives its entry, because handles still point to it. -/

namespace BlobExchange

/-- Who holds a blob: its producer while it is open, and so many consumers. -/
structure Claims where
  producerOpen : Bool
  consumers : Nat
  deriving DecidableEq, Repr

def Claims.released (c : Claims) : Bool := !c.producerOpen && c.consumers == 0

/-- A blob's buffer until it is taken away, and whether the blob is disposed. -/
structure Cell where
  buffer : Option Buffer
  disposed : Bool
  deriving DecidableEq, Repr

/-- What the end of a claim led to: others still hold the blob, it was the last claim, or there was
no such blob. -/
inductive Release where
  | retained
  | last
  | absent
  deriving DecidableEq, Repr

/-- The claims to the active blobs, and the cells of all blobs. -/
structure Registry where
  claims : Table BlobId Claims
  cells : Table BlobId Cell

namespace Registry

def empty : Registry := ⟨Table.empty, Table.empty⟩

def size (r : Registry) : Nat := r.claims.size

def register (r : Registry) (id : BlobId) (b : Buffer) : Registry where
  claims := r.claims.insert id ⟨true, 0⟩
  cells := r.cells.insert id ⟨some b, false⟩

def claim (r : Registry) (id : BlobId) : Option Registry :=
  match r.claims.get? id with
  | none => none
  | some c =>
    some { r with claims := r.claims.insert id { c with consumers := c.consumers + 1 } }

def markDisposed (r : Registry) (id : BlobId) : Registry :=
  match r.cells.get? id with
  | none => r
  | some cell => { r with cells := r.cells.insert id { cell with disposed := true } }

/-- Enters the claims that are left, or ends the blob if there are none. -/
def settle (r : Registry) (id : BlobId) (left : Claims) : Release × Registry :=
  if left.released then
    (.last, markDisposed { r with claims := r.claims.erase id } id)
  else (.retained, { r with claims := r.claims.insert id left })

/-- Ends one consumer's claim. A count of zero stays zero. -/
def endConsumer (r : Registry) (id : BlobId) : Release × Registry :=
  match r.claims.get? id with
  | none => (.absent, r)
  | some c => r.settle id { c with consumers := c.consumers - 1 }

def endProducer (r : Registry) (id : BlobId) : Release × Registry :=
  match r.claims.get? id with
  | none => (.absent, r)
  | some c => r.settle id { c with producerOpen := false }

def isDisposed (r : Registry) (id : BlobId) : Bool :=
  match r.cells.get? id with
  | some cell => cell.disposed
  | none => false

/-- A blob's buffer for an operation, which is refused if the blob is disposed or its buffer was
taken away. -/
def access (r : Registry) (id : BlobId) (operation : Operation) : Except BlobError Buffer :=
  match r.cells.get? id with
  | some ⟨some b, false⟩ => .ok b
  | _ => .error (.useAfterFinish id operation)

def setBuffer (r : Registry) (id : BlobId) (b : Buffer) : Registry :=
  match r.cells.get? id with
  | none => r
  | some cell => { r with cells := r.cells.insert id { cell with buffer := some b } }

def takeBuffer (r : Registry) (id : BlobId) : Option (Buffer × Registry) :=
  match r.cells.get? id with
  | some ⟨some b, disposed⟩ => some (b, { r with cells := r.cells.insert id ⟨none, disposed⟩ })
  | _ => none

end Registry

end BlobExchange
