import BlobExchange.Number.BigEndian
/-! # Blob identifiers

In a message an identifier is eight bytes, and every eight bytes are one (`decode_encode`,
`encode_decode`). -/

namespace BlobExchange

structure BlobId where
  raw : Int64
  deriving DecidableEq, Repr

namespace BlobId

def width : Nat := 8

def text (id : BlobId) : String := s!"blob#{id.raw.toInt}"

def encode (id : BlobId) : Bytes := BigEndian.ofInt64 id.raw

def decode (bytes : Bytes) : BlobId := ⟨BigEndian.toInt64 bytes⟩

def ascending (ids : List BlobId) : List BlobId :=
  (ids.mergeSort fun a b => decide (a.raw ≤ b.raw)).eraseDups

theorem decode_encode (id : BlobId) : decode id.encode = id := by
  have h : id.raw.toUInt64.toNat < BigEndian.span 8 := id.raw.toUInt64.toNat_lt
  simp [decode, encode, BigEndian.ofInt64, BigEndian.toInt64, BigEndian.toNat_ofNat h]

theorem encode_decode {bytes : Bytes} (h : bytes.length = width) :
    (decode bytes).encode = bytes := by
  have hlt : BigEndian.toNat bytes < BigEndian.span 8 := by
    have := BigEndian.toNat_lt bytes
    rwa [h] at this
  simp only [encode, decode, BigEndian.ofInt64, BigEndian.toInt64, UInt64.toUInt64_toInt64]
  rw [UInt64.toNat_ofNat_of_lt' hlt]
  exact BigEndian.ofNat_toNat h

end BlobId

/-- A counter that hands out the numbers 1, 2, 3 and so on, as far as 64 bits go. -/
structure Sequence where
  upcoming : Nat
  deriving DecidableEq, Repr

namespace Sequence

def start : Sequence := ⟨1⟩

/-- Whether the counter stands at the largest number, which it cannot hand out: it would have to
go on to the next one. -/
def isSpent (s : Sequence) : Bool := decide (Size.largest ≤ s.upcoming)

def next (s : Sequence) : Nat × Sequence := (s.upcoming, ⟨s.upcoming + 1⟩)

def nextId (s : Sequence) : BlobId × Sequence := (⟨Int64.ofNat s.upcoming⟩, ⟨s.upcoming + 1⟩)

end Sequence

end BlobExchange
