import BlobExchange.Blob.Id
/-! # Messages that carry identifiers

A message comes in parts, and an identifier may lie across several of them. -/

namespace BlobExchange

abbrev Message := List Bytes

namespace Message

def remaining (parts : Message) : Nat := parts.foldr (fun part count => part.length + count) 0

/-- The first bytes of a message, as many as asked for and there, and what is left of it. -/
def split : Nat → Message → Bytes × Message
  | _, [] => ([], [])
  | n, part :: rest =>
    if n ≤ part.length then (part.take n, part.drop n :: rest)
    else
      let later := split (n - part.length) rest
      (part ++ later.1, later.2)

def readId? (parts : Message) : Option (BlobId × Message) :=
  if remaining parts < BlobId.width then none
  else
    let front := split BlobId.width parts
    some (BlobId.decode front.1, front.2)

theorem split_append (n : Nat) (parts : Message) :
    (split n parts).1 ++ (split n parts).2.flatten = parts.flatten := by
  induction parts generalizing n with
  | nil => rfl
  | cons part rest ih =>
    unfold split
    split
    · simp [← List.append_assoc]
    · simp [ih]

theorem length_split {n : Nat} {parts : Message} (h : n ≤ remaining parts) :
    (split n parts).1.length = n := by
  induction parts generalizing n with
  | nil => simp [remaining] at h; subst h; rfl
  | cons part rest ih =>
    unfold split
    split
    · simp; omega
    · have hr : n - part.length ≤ remaining rest := by
        simp [remaining] at h ⊢
        omega
      simp [ih hr]
      omega

theorem remaining_eq_length_flatten (parts : Message) :
    remaining parts = parts.flatten.length := by
  induction parts with
  | nil => rfl
  | cons part rest ih =>
    rw [List.flatten_cons, List.length_append, ← ih]
    rfl

/-- Reads identifiers until fewer than eight bytes are left. Each comes with the number of bytes
behind it, and what is left at the end comes last. -/
def readIds (parts : Message) : List (BlobId × Nat) × Message :=
  if remaining parts < BlobId.width then ([], parts)
  else
    let front := split BlobId.width parts
    let later := readIds front.2
    ((BlobId.decode front.1, remaining front.2) :: later.1, later.2)
termination_by remaining parts
decreasing_by
  rename_i h
  have hn : BlobId.width ≤ remaining parts := Nat.le_of_not_lt h
  have hl := length_split hn
  have hs := congrArg List.length (split_append BlobId.width parts)
  rw [List.length_append, hl, ← remaining_eq_length_flatten, ← remaining_eq_length_flatten] at hs
  have : BlobId.width = 8 := rfl
  omega

end Message

end BlobExchange
