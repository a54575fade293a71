import BlobExchange.Proofs.Appending
/-! # What a script leaves behind

What an instruction does depends only on its bytes and on what the policy still permits. -/

namespace BlobExchange

/-- The bytes that an instruction is to write. -/
def Instruction.bytes : Instruction → Bytes
  | put bytes => bytes
  | putByte value => [value]
  | putWord value => BigEndian.ofInt64 value
  | writeAll bytes => bytes
  | writeOnce bytes => bytes
  | tryPut bytes => bytes
  | flush => []
  | fail _ => []

/-- What an instruction notes that has written its bytes: the length of the content behind them, or
for a single write the number of them. -/
def Instruction.noted : Instruction → (length : Nat) → Note
  | writeOnce bytes, _ => .accepted bytes.length
  | _, length => .written length

/-- The bytes that are kept of a completed instruction. -/
def Note.keeps (i : Instruction) : Note → Bytes
  | ignored _ => []
  | _ => i.bytes

/-- The bytes that are kept of completed instructions, in order. -/
def keptOf (completed : List (Instruction × Note)) : Bytes :=
  completed.flatMap fun c => c.2.keeps c.1

namespace Buffer

variable {b after mid : Buffer} {bytes : Bytes} {i : Instruction} {note : Note}

/-! ## Bytes that are taken or refused -/

/-- Whether bytes may be appended: the policy permits them, or there are none. -/
def Takes (b : Buffer) (bytes : Bytes) : Prop :=
  bytes = [] ∨ b.length + bytes.length ≤ b.policy.limit

/-- The refusal of bytes. -/
def refusal (b : Buffer) (bytes : Bytes) : BufferError :=
  .capacityExceeded (Size.addHeld b.length bytes.length) b.policy.limit

theorem append_refused (h : ¬ b.Takes bytes) :
    b.append bytes = .error (.failed (b.refusal bytes)) := by
  obtain ⟨hnil, hlarge⟩ := not_or.1 h
  rw [append_of_ne_nil hnil, makeRoom_refused (fun hfits => hlarge (fits_iff.1 hfits))]
  rfl

/-- Bytes that may be appended are, unless that takes an oversized allocation. -/
theorem append_cases (h : b.Takes bytes) :
    (∃ after, b.append bytes = .ok after) ∨ b.append bytes = .error .overflow := by
  by_cases hnil : bytes = []
  · subst hnil
    exact Or.inl ⟨b, rfl⟩
  · have hpermitted : b.length + bytes.length ≤ b.policy.limit := h.resolve_left hnil
    rw [append_of_ne_nil hnil]
    cases hroom : b.makeRoom bytes.length with
    | ok grown => exact Or.inl ⟨grown.put bytes, rfl⟩
    | error halt =>
      rw [makeRoom_error (fits_iff.2 hpermitted) hroom]
      exact Or.inr rfl

/-- In memory no total is so large that it would be held. -/
theorem Sound.refusal_eq (hb : b.Sound) (hbytes : bytes.length ≤ Size.allocatable) :
    b.refusal bytes = .capacityExceeded (b.length + bytes.length) b.policy.limit := by
  have hheld := hb.held
  have hallocatable := hb.allocatable
  have hsum : Size.addHeld b.length bytes.length = b.length + bytes.length := by
    unfold Size.addHeld Size.largest
    unfold Size.allocatable at hbytes hallocatable
    omega
  unfold refusal
  rw [hsum]

/-! ## One instruction -/

/-- What a completed instruction notes, and the buffer behind it. -/
inductive Completes (b : Buffer) : Instruction → Note → Buffer → Prop where
  | written {i : Instruction} {after : Buffer} (onward : ∀ e, i ≠ .fail e)
      (takes : b.Takes i.bytes) (appended : b.append i.bytes = .ok after) :
      b.Completes i (i.noted after.length) after
  | ignored {bytes : Bytes} (full : ¬ b.Takes bytes) :
      b.Completes (.tryPut bytes) (.ignored (b.refusal bytes)) b

/-- How an instruction ends a script. A failure of the script's own that carries a buffer's is taken
for that. -/
inductive Ends (b : Buffer) : Instruction → Halt BufferError → Prop where
  | refused {i : Instruction} (eager : ∀ bytes, i ≠ .tryPut bytes) (full : ¬ b.Takes i.bytes) :
      b.Ends i (.failed (b.refusal i.bytes))
  | failed {e : ChannelError} (own : ∀ kind cause, e ≠ BufferError.wrapped kind cause) :
      b.Ends (.fail e) (.failed (.channel e))
  | restored (kind : ErrorKind) (cause : BufferError) :
      b.Ends (.fail (cause.wrapped kind)) (.failed cause)
  | overflowed {i : Instruction} (takes : b.Takes i.bytes)
      (large : b.append i.bytes = .error .overflow) : b.Ends i .overflow

theorem ends_fail (b : Buffer) (e : ChannelError) : b.Ends (.fail e) (.failed e.opened) := by
  cases e with
  | bare kind =>
    apply Ends.failed
    rintro kind (_ | _) ⟨⟩
  | told kind text =>
    apply Ends.failed
    rintro kind (_ | _) ⟨⟩
  | refusal kind requested limit => exact .restored kind (.capacityExceeded requested limit)
  | relayed kind cause => exact .restored kind (.channel cause)

/-- An instruction completes or ends the script. -/
def Settles (b : Buffer) (i : Instruction) : Except (Halt ChannelError) (Buffer × Note) → Prop
  | .ok (after, note) => b.Completes i note after
  | .error halt => b.Ends i (halt.map ChannelError.opened)

/-- An instruction that passes its refusal on gives its bytes. -/
theorem perform_eq (onward : ∀ e, i ≠ .fail e) (eager : ∀ bytes, i ≠ .tryPut bytes) :
    b.perform i = (b.give i.bytes).map fun after => (after, i.noted after.length) := by
  cases i with
  | tryPut bytes => exact absurd rfl (eager bytes)
  | fail e => exact absurd rfl (onward e)
  | put | putByte | putWord | writeAll | writeOnce | flush => rfl

theorem settles_give (onward : ∀ e, i ≠ .fail e) (eager : ∀ bytes, i ≠ .tryPut bytes) :
    b.Settles i (b.perform i) := by
  rw [perform_eq onward eager]
  by_cases htakes : b.Takes i.bytes
  · rcases append_cases htakes with ⟨after, happended⟩ | hlarge
    · have hgive : b.give i.bytes = .ok after := by simp only [give, happended]
      rw [hgive]
      exact .written onward htakes happended
    · have hgive : b.give i.bytes = .error .overflow := by simp only [give, hlarge, Halt.map]
      rw [hgive]
      exact .overflowed htakes hlarge
  · have hgive : b.give i.bytes = .error (.failed (b.refusal i.bytes).toChannelError) := by
      simp only [give, append_refused htakes, Halt.map]
    rw [hgive]
    exact .refused eager htakes

theorem settles_tryPut (b : Buffer) (bytes : Bytes) :
    b.Settles (.tryPut bytes) (b.perform (.tryPut bytes)) := by
  by_cases htakes : b.Takes bytes
  · rcases append_cases htakes with ⟨after, happended⟩ | hlarge
    · simp only [perform, happended]
      exact .written (i := .tryPut bytes) (by rintro e ⟨⟩) htakes happended
    · simp only [perform, hlarge]
      exact .overflowed (i := .tryPut bytes) htakes hlarge
  · simp only [perform, append_refused htakes]
    exact .ignored htakes

theorem settles_perform (b : Buffer) (i : Instruction) : b.Settles i (b.perform i) := by
  by_cases hfail : ∃ e, i = .fail e
  · obtain ⟨e, rfl⟩ := hfail
    exact ends_fail b e
  · by_cases hlenient : ∃ bytes, i = .tryPut bytes
    · obtain ⟨bytes, rfl⟩ := hlenient
      exact settles_tryPut b bytes
    · exact settles_give (not_exists.1 hfail) (not_exists.1 hlenient)

/-! ## One instruction after the other -/

/-- Completed instructions, each with its note, from a buffer to the one that they leave. -/
inductive Course : Buffer → List (Instruction × Note) → Buffer → Prop where
  | idle (b : Buffer) : Course b [] b
  | next {b mid after : Buffer} {i : Instruction} {note : Note} {rest : List (Instruction × Note)}
      (first : b.Completes i note mid) (later : Course mid rest after) :
      Course b ((i, note) :: rest) after

theorem Completes.content (h : b.Completes i note after) :
    after.content = b.content ++ note.keeps i := by
  cases h with
  | written onward takes appended =>
    rw [content_append appended]
    cases i <;> rfl
  | ignored => exact (List.append_nil _).symm

/-- A note tells the length of the content behind the instruction, unless it tells something else. -/
theorem Completes.note_eq (h : b.Completes i note after) :
    (∃ e, note = .ignored e) ∨ note = i.noted after.length := by
  cases h with
  | written => exact Or.inr rfl
  | ignored => exact Or.inl ⟨_, rfl⟩

theorem keptOf_cons (c : Instruction × Note) (rest : List (Instruction × Note)) :
    keptOf (c :: rest) = c.2.keeps c.1 ++ keptOf rest :=
  List.flatMap_cons

theorem Course.content {completed : List (Instruction × Note)} (h : b.Course completed after) :
    after.content = b.content ++ keptOf completed := by
  induction h with
  | idle b => exact (List.append_nil _).symm
  | next first later ih => rw [ih, first.content, keptOf_cons, List.append_assoc]

theorem Course.split {front back : List (Instruction × Note)}
    (h : b.Course (front ++ back) after) : ∃ mid, b.Course front mid ∧ mid.Course back after := by
  induction front generalizing b with
  | nil => exact ⟨b, .idle b, h⟩
  | cons c front ih =>
    cases h with
    | next first later =>
      obtain ⟨mid, hfront, hback⟩ := ih later
      exact ⟨mid, .next first hfront, hback⟩

/-- Each note tells what the length was when its instruction was completed. -/
theorem Course.note_eq {completed front back : List (Instruction × Note)}
    (h : b.Course completed after) (hsplit : completed = front ++ (i, note) :: back) :
    (∃ e, note = .ignored e) ∨
      note = i.noted (b.length + (keptOf (front ++ [(i, note)])).length) := by
  subst hsplit
  obtain ⟨mid, hfront, hback⟩ := h.split
  cases hback with
  | @next _ next _ _ _ _ first later =>
    have hcontent : next.content = b.content ++ keptOf (front ++ [(i, note)]) := by
      rw [first.content, hfront.content, List.append_assoc]
      simp [keptOf]
    have hlength : next.length = b.length + (keptOf (front ++ [(i, note)])).length := by
      unfold length
      rw [hcontent, List.length_append]
    rw [← hlength]
    exact first.note_eq

/-- What a script comes to. Its instructions up to one that ends it are completed, and what is left of
it is that one and those behind it. -/
structure Recounts (b : Buffer) (script : List Instruction) (r : ScriptRun)
    (completed : List (Instruction × Note)) (left : List Instruction) : Prop where
  script : script = completed.map Prod.fst ++ left
  notes : r.notes = completed.map Prod.snd
  course : b.Course completed r.buffer
  content : r.buffer.content = b.content ++ keptOf completed
  lengths : ∀ front i note back, completed = front ++ (i, note) :: back →
    (∃ e, note = .ignored e) ∨
      note = i.noted (b.length + (keptOf (front ++ [(i, note)])).length)
  succeeds : r.outcome = .ok () ↔ left = []
  ends : ∀ i rest, left = i :: rest → ∃ halt, r.outcome = .error halt ∧ r.buffer.Ends i halt

theorem exists_course (b : Buffer) (script : List Instruction) :
    ∃ completed left, script = completed.map Prod.fst ++ left ∧
      (b.run script).notes = completed.map Prod.snd ∧ b.Course completed (b.run script).buffer ∧
      ((b.run script).outcome = .ok () ∧ left = [] ∨
        ∃ i rest halt, left = i :: rest ∧ (b.run script).outcome = .error halt ∧
          (b.run script).buffer.Ends i halt) := by
  induction script generalizing b with
  | nil => exact ⟨[], [], rfl, rfl, .idle b, Or.inl ⟨rfl, rfl⟩⟩
  | cons i rest ih =>
    have hsettles := settles_perform b i
    cases hp : b.perform i with
    | error halt =>
      rw [hp] at hsettles
      simp only [run, hp]
      exact ⟨[], i :: rest, rfl, rfl, .idle b, Or.inr ⟨i, rest, _, rfl, rfl, hsettles⟩⟩
    | ok performed =>
      obtain ⟨after, note⟩ := performed
      rw [hp] at hsettles
      obtain ⟨completed, left, hscript, hnotes, hcourse, hend⟩ := ih after
      simp only [run, hp]
      refine ⟨(i, note) :: completed, left, ?_, ?_, .next hsettles hcourse, hend⟩
      · simp [hscript]
      · simp [hnotes]

theorem recounts_run (b : Buffer) (script : List Instruction) :
    ∃ completed left, b.Recounts script (b.run script) completed left := by
  obtain ⟨completed, left, hscript, hnotes, hcourse, hend⟩ := exists_course b script
  refine ⟨completed, left, hscript, hnotes, hcourse, hcourse.content,
    fun _ _ _ _ => hcourse.note_eq, ?_, ?_⟩
  · rcases hend with ⟨hok, hnil⟩ | ⟨i, rest, halt, rfl, herror, -⟩
    · exact iff_of_true hok hnil
    · exact iff_of_false (by rw [herror]; nofun) nofun
  · rintro i rest rfl
    rcases hend with ⟨-, hnil⟩ | ⟨j, later, halt, hleft, herror, hends⟩
    · cases hnil
    · cases hleft
      exact ⟨halt, herror, hends⟩

/-- A script keeps just what its completed instructions wrote. A refusal that is ignored changes
nothing and keeps nothing that fits from being written later. A script that is ended changes nothing
with the instruction that ends it, and gives its refusal with the total that was asked for, or the
failure that it chose. -/
theorem scripts_keep_what_completed (b : Buffer) (script : List Instruction) :
    (∃ completed left, b.Recounts script (b.run script) completed left) ∧
      (b.run script).buffer.policy = b.policy ∧
      (b.Reachable → ∀ i ∈ script, i.bytes.length ≤ Size.allocatable →
        (b.run script).buffer.refusal i.bytes =
          .capacityExceeded ((b.run script).buffer.length + i.bytes.length) b.policy.limit) := by
  have hpolicy := (Grows.run b script).policy
  refine ⟨recounts_run b script, hpolicy, ?_⟩
  intro hb i _ hbytes
  rw [(hb.sound.run script).refusal_eq hbytes, hpolicy]

/-- With room for two bytes more, three are refused, which is ignored, two are written one by one, and
two more are refused as five. -/
theorem refused_as_five :
    let b : Buffer := ⟨[9], 3, ⟨Binary64.two, some 3⟩⟩
    let script : List Instruction :=
      [.put [1], .tryPut [2, 3, 4], .putByte 5, .writeOnce [], .flush, .writeAll [6, 7]]
    let r := b.run script
    b.Reachable ∧ (∃ completed left, b.Recounts script r completed left) ∧
      r.buffer.content = [9, 1, 5] ∧
      r.notes = [.written 2, .ignored (.capacityExceeded 5 3), .written 3, .accepted 0, .written 3] ∧
      r.outcome = .error (.failed (.capacityExceeded 5 3)) ∧
      r.buffer.refusal [6, 7] = .capacityExceeded 5 3 := by
  intro b script r
  have hcreated : (create 3 ⟨Binary64.two, some 3⟩ : Except (Halt BufferError) Buffer) =
      .ok ⟨[], 3, ⟨Binary64.two, some 3⟩⟩ := rfl
  have hb : b.Reachable := .after (.created hcreated) (.append [9])
  obtain ⟨hrecounts, -, hrefusal⟩ := scripts_keep_what_completed b script
  refine ⟨hb, hrecounts, rfl, rfl, rfl, ?_⟩
  exact hrefusal hb (.writeAll [6, 7]) (by decide) (by decide)

end Buffer

end BlobExchange
