import BlobExchange.Buffer.Growth
/-! # Buffers that grow

A refusal and an oversized allocation give no buffer back: they leave it as it was. -/

namespace BlobExchange

structure Buffer where
  content : Bytes
  capacity : Nat
  policy : GrowthPolicy
  deriving DecidableEq, Repr

namespace Buffer

def create {ε : Type} (capacity : Nat) (policy : GrowthPolicy) : Except (Halt ε) Buffer :=
  if capacity ≤ Size.allocatable then .ok ⟨[], capacity, policy⟩ else .error .overflow

def length (b : Buffer) : Nat := b.content.length

def room (b : Buffer) : Nat := b.capacity - b.length

/-- Whether the policy permits so many further bytes. -/
def fits (b : Buffer) (additional : Nat) : Bool :=
  match Size.add? b.length additional with
  | some total => b.policy.permits total
  | none => false

/-- The buffer without its content. Its capacity stays. -/
def emptied (b : Buffer) : Buffer := { b with content := [] }

/-- The bytes from an offset on, none if it lies past the end. -/
def bytesFrom (b : Buffer) (offset : Nat) : Bytes := b.content.drop offset

def grow (b : Buffer) (required : Nat) : Except (Halt BufferError) Buffer :=
  match b.policy.target b.capacity required with
  | .error e => .error (.failed e)
  | .ok capacity =>
    if capacity ≤ Size.allocatable then .ok { b with capacity := capacity }
    else .error .overflow

/-- Makes room for so many further bytes. A total that is no size is refused as the largest. -/
def makeRoom (b : Buffer) (additional : Nat) : Except (Halt BufferError) Buffer :=
  match Size.add? b.length additional with
  | none => .error (.failed (.capacityExceeded Size.largest b.policy.limit))
  | some required =>
    if b.policy.limit < required then
      .error (.failed (.capacityExceeded required b.policy.limit))
    else if required ≤ b.capacity then .ok b
    else b.grow required

def put (b : Buffer) (bytes : Bytes) : Buffer := { b with content := b.content ++ bytes }

/-- Makes room and writes. Nothing to write needs no room. -/
def append (b : Buffer) (bytes : Bytes) : Except (Halt BufferError) Buffer :=
  if bytes.isEmpty then .ok b
  else
    match b.makeRoom bytes.length with
    | .error halt => .error halt
    | .ok grown => .ok (grown.put bytes)

@[simp] theorem put_nil (b : Buffer) : b.put [] = b := by simp [put]

@[simp] theorem length_put (b : Buffer) (bytes : Bytes) :
    (b.put bytes).length = b.length + bytes.length := by
  simp [put, length]

@[simp] theorem content_put (b : Buffer) (bytes : Bytes) :
    (b.put bytes).content = b.content ++ bytes := rfl

@[simp] theorem capacity_put (b : Buffer) (bytes : Bytes) :
    (b.put bytes).capacity = b.capacity := rfl

@[simp] theorem policy_put (b : Buffer) (bytes : Bytes) : (b.put bytes).policy = b.policy := rfl

@[simp] theorem policy_emptied (b : Buffer) : b.emptied.policy = b.policy := rfl

theorem fits_iff {b : Buffer} {additional : Nat} :
    b.fits additional = true ↔ b.length + additional ≤ b.policy.limit := by
  unfold fits
  have hl := b.policy.limit_le_largest
  cases h : Size.add? b.length additional with
  | none =>
    have := Size.add?_eq_none_iff.1 h
    simp
    omega
  | some total =>
    obtain ⟨_, rfl⟩ := Size.add?_eq_some_iff.1 h
    simp [GrowthPolicy.permits]

end Buffer

end BlobExchange
