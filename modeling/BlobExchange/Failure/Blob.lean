import BlobExchange.Blob.Message
import BlobExchange.Settings.Basic
/-! # Failures of blobs -/

namespace BlobExchange

inductive Operation where
  | fill
  | produce
  | held
  | capacity
  | accept
  | announce
  | drain
  | consume
  | length
  | rewind
  deriving DecidableEq, Repr

/-- The name under which an operation is refused. -/
def Operation.name : Operation → String
  | fill => "fill_from"
  | produce => "produce"
  | held => "bytes_held"
  | capacity => "capacity"
  | accept => "can_accept"
  | announce => "write_block"
  | drain => "drain_to"
  | consume => "consume"
  | length => "length"
  | rewind => "rewind_to_start"

/-- A failure: an identifier that names no active blob, an operation on a blob that is finished, a
message too short for an identifier, refused settings, or a buffer's failure. -/
inductive BlobError where
  | unknownIdentifier (id : BlobId)
  | useAfterFinish (id : BlobId) (operation : Operation)
  | truncatedIdentifier (available : Nat)
  | invalidSettings (fault : SettingsFault)
  | buffer (error : BufferError)
  deriving DecidableEq, Repr

namespace BlobError

def code : BlobError → String
  | unknownIdentifier _ => "blob.unknown_identifier"
  | useAfterFinish _ _ => "blob.use_after_finish"
  | truncatedIdentifier _ => "blob.truncated_identifier"
  | invalidSettings _ => "blob.invalid_config"
  | buffer error => error.code

def message : BlobError → String
  | unknownIdentifier id => "BLOB 标识 " ++ id.text ++ " 未登记或已处置"
  | useAfterFinish id operation =>
    "BLOB " ++ id.text ++ " 已结束，拒绝执行 \x60" ++ operation.name ++ "\x60"
  | truncatedIdentifier available =>
    "消息剩余 " ++ toString available ++ " 字节，不足以读出 8 字节 BLOB 标识"
  | invalidSettings fault => "BLOB 管理器配置无效：" ++ fault.message
  | buffer error => error.message

def ofChannel (error : ChannelError) : BlobError := .buffer error.opened

end BlobError

/-- Reads an identifier from the front of a message, or says how many bytes there were. -/
def Message.readId (parts : Message) : Except BlobError (BlobId × Message) :=
  match readId? parts with
  | some read => .ok read
  | none => .error (.truncatedIdentifier (remaining parts))

/-- An identifier is read from the front of a message, however the message is cut into parts. -/
theorem Message.readId_of_encode {message : Message} {id : BlobId} {behind : Bytes}
    (h : message.flatten = id.encode ++ behind) :
    ∃ rest, message.readId = .ok (id, rest) ∧ rest.flatten = behind := by
  have hwidth : id.encode.length = BlobId.width := BigEndian.length_ofInt64 _
  have hlength : BlobId.width ≤ message.remaining := by
    rw [remaining_eq_length_flatten, h, List.length_append, hwidth]
    exact Nat.le_add_right _ _
  have hfront : (message.split BlobId.width).1 ++ (message.split BlobId.width).2.flatten =
      id.encode ++ behind := (split_append _ _).trans h
  obtain ⟨hid, hrest⟩ := List.append_inj hfront ((length_split hlength).trans hwidth.symm)
  refine ⟨_, ?_, hrest⟩
  simp only [readId, readId?, Nat.not_lt.2 hlength, if_false, hid, BlobId.decode_encode]

end BlobExchange
