import BlobExchange.Exchange.Producer
import Mathlib.Logic.Function.Iterate
/-! # Failures in wrappings

Opening undoes the outermost wrapping and no other (`opening_undoes_one_wrapping`). -/

namespace BlobExchange

namespace ChannelError

/-- How many wrappings a failure lies in. -/
def depth : ChannelError → Nat
  | bare _ => 0
  | told _ _ => 0
  | refusal _ _ _ => 1
  | relayed _ cause => cause.depth + 1

/-- What lies in the innermost wrapping: a refusal, or a failure that wraps nothing. -/
def origin : ChannelError → BufferError
  | refusal _ requested limit => .capacityExceeded requested limit
  | relayed _ cause => cause.origin
  | error => .channel error

end ChannelError

namespace BufferError

/-- How many wrappings are left around a failure that came out of one. -/
def depth : BufferError → Nat
  | channel error => error.depth
  | capacityExceeded _ _ => 0

/-- What lies in the innermost wrapping of a failure that came out of one. -/
def origin : BufferError → BufferError
  | channel error => error.origin
  | capacityExceeded requested limit => .capacityExceeded requested limit

/-- A failure handed to a channel and opened there again. -/
def reopened (e : BufferError) : BufferError := e.toChannelError.opened

variable {e : BufferError}

theorem depth_wrapped (kind : ErrorKind) (e : BufferError) :
    (e.wrapped kind).depth = e.depth + 1 := by
  cases e <;> rfl

theorem origin_wrapped (kind : ErrorKind) (e : BufferError) :
    (e.wrapped kind).origin = e.origin := by
  cases e <;> rfl

theorem eq_origin (h : e.depth = 0) : e = e.origin := by
  match e, h with
  | capacityExceeded _ _, _ => rfl
  | channel (.bare _), _ => rfl
  | channel (.told _ _), _ => rfl

theorem code_eq_iff :
    e.code = "buffer.capacity_exceeded" ↔
      ∃ requested limit, e = .capacityExceeded requested limit := by
  cases e with
  | channel error =>
    have hother : ¬ "buffer.io" = "buffer.capacity_exceeded" := by decide
    exact iff_of_false hother nofun
  | capacityExceeded requested limit => exact iff_of_true rfl ⟨requested, limit, rfl⟩

end BufferError

namespace ChannelError

theorem wrapped_or_bare (e : ChannelError) :
    e.depth = 0 ∧ e.origin = .channel e ∧ e.opened = .channel e ∨
      ∃ kind inner, e = BufferError.wrapped kind inner := by
  cases e with
  | bare kind => exact Or.inl ⟨rfl, rfl, rfl⟩
  | told kind text => exact Or.inl ⟨rfl, rfl, rfl⟩
  | refusal kind requested limit =>
    exact Or.inr ⟨kind, .capacityExceeded requested limit, rfl⟩
  | relayed kind cause => exact Or.inr ⟨kind, .channel cause, rfl⟩

theorem message_eq_origin (e : ChannelError) : e.message = e.origin.message := by
  induction e with
  | bare kind => rfl
  | told kind text => rfl
  | refusal kind requested limit => rfl
  | relayed kind cause ih => exact ih

/-- Opening leaves one wrapping less, around the same origin. -/
theorem depth_opened (e : ChannelError) :
    e.opened.depth = e.depth - 1 ∧ e.opened.origin = e.origin := by
  rcases e.wrapped_or_bare with ⟨hdepth, -, hopened⟩ | ⟨kind, inner, rfl⟩
  · rw [hopened, hdepth]
    exact ⟨hdepth, rfl⟩
  · rw [BufferError.opened_wrapped, BufferError.depth_wrapped, BufferError.origin_wrapped]
    exact ⟨rfl, rfl⟩

/-- A refusal comes out if it lay in a single wrapping. -/
theorem code_opened_iff (e : ChannelError) :
    e.opened.code = "buffer.capacity_exceeded" ↔
      e.depth = 1 ∧ ∃ requested limit, e.origin = .capacityExceeded requested limit := by
  rw [BufferError.code_eq_iff]
  rcases e.wrapped_or_bare with ⟨hdepth, -, hopened⟩ | ⟨kind, inner, rfl⟩
  · rw [hopened, hdepth]
    exact iff_of_false nofun nofun
  · rw [BufferError.opened_wrapped, BufferError.depth_wrapped, BufferError.origin_wrapped]
    constructor
    · rintro ⟨requested, limit, rfl⟩
      exact ⟨rfl, requested, limit, rfl⟩
    · rintro ⟨hdepth, requested, limit, horigin⟩
      rw [Nat.add_eq_right] at hdepth
      exact ⟨requested, limit, (BufferError.eq_origin hdepth).trans horigin⟩

end ChannelError

namespace BufferError

variable {e : BufferError}

theorem depth_reopened (e : BufferError) :
    e.reopened.depth = e.depth - 1 ∧ e.reopened.origin = e.origin := by
  cases e with
  | channel error => exact error.depth_opened
  | capacityExceeded requested limit => exact ⟨rfl, rfl⟩

/-- Opening changes nothing more just if there is no wrapping left. -/
theorem reopened_eq_iff : e.reopened = e ↔ e.depth = 0 := by
  obtain ⟨hdepth, horigin⟩ := e.depth_reopened
  constructor
  · intro hsame
    rw [hsame] at hdepth
    omega
  · intro hbare
    rw [hbare] at hdepth
    rw [eq_origin hdepth, horigin]
    exact (eq_origin hbare).symm

/-- Each time one more wrapping is undone, until the origin has come out. -/
theorem iterate_reopened {rounds : Nat} (h : e.depth ≤ rounds) :
    reopened^[rounds] e = e.origin := by
  induction rounds generalizing e with
  | zero => exact eq_origin (Nat.le_zero.1 h)
  | succ rounds ih =>
    obtain ⟨hdepth, horigin⟩ := e.depth_reopened
    rw [Function.iterate_succ_apply, ih (by omega), horigin]

end BufferError

/-- A script in which all is completed up to a failure of its own ends with what opening that failure
gives. -/
theorem Buffer.run_fail {b : Buffer} {before : List Instruction} (h : (b.run before).outcome = .ok ())
    (e : ChannelError) (after : List Instruction) :
    (b.run (before ++ .fail e :: after)).outcome = .error (.failed e.opened) := by
  induction before generalizing b with
  | nil => rfl
  | cons i rest ih =>
    cases hperformed : b.perform i with
    | error halt =>
      simp only [run, hperformed] at h
      cases h
    | ok performed =>
      simp only [run, hperformed] at h
      simp only [List.cons_append, run, hperformed]
      exact ih h

namespace ChannelError

/-- What opening makes of a failure, however deep it lies. A refusal comes out as it was from a single
wrapping; all else comes out as a channel's failure. The message is that of the innermost failure.
Opening again changes nothing just if there was no second wrapping, and repeated it ends with the
innermost failure. -/
structure OpensOnce (e : ChannelError) : Prop where
  nested : e.depth = 0 ∧ e.origin = .channel e ∧ e.opened = .channel e ∨
    ∃ kind inner, e = BufferError.wrapped kind inner ∧ e.depth = inner.depth + 1 ∧
      e.origin = inner.origin ∧ e.opened = inner
  refusal : e.opened.code = "buffer.capacity_exceeded" ↔
    e.depth = 1 ∧ ∃ requested limit, e.origin = .capacityExceeded requested limit
  original : e.opened.code = "buffer.capacity_exceeded" → e.opened = e.origin
  otherwise : e.opened.code ≠ "buffer.capacity_exceeded" → e.opened.code = "buffer.io"
  message : e.opened.message = e.origin.message
  stable : e.opened.reopened = e.opened ↔ e.depth ≤ 1
  settles : ∀ rounds, e.depth ≤ rounds + 1 → BufferError.reopened^[rounds] e.opened = e.origin

/-- A failure comes to the holder of a blob as opening leaves it, whether it is a channel's own or that
of a script. -/
structure SurfacesOpened (e : ChannelError) : Prop where
  code : (BlobError.ofChannel e).code = e.opened.code
  message : (BlobError.ofChannel e).message = e.opened.message
  script : ∀ (b : Buffer) before after, (b.run before).outcome = .ok () →
    (b.run (before ++ .fail e :: after)).outcome = .error (.failed e.opened)
  producer : ∀ (p : Producer) x b before after, p.access x .produce = .ok b →
    (b.run before).outcome = .ok () →
    (p.run x (before ++ .fail e :: after)).outcome = .error (.failed (.ofChannel e))

theorem opensOnce (e : ChannelError) : e.OpensOnce := by
  obtain ⟨hdepth, horigin⟩ := e.depth_opened
  refine ⟨?_, e.code_opened_iff, ?_, ?_, ?_, ?_, ?_⟩
  · rcases e.wrapped_or_bare with hbare | ⟨kind, inner, rfl⟩
    · exact Or.inl hbare
    · exact Or.inr ⟨kind, inner, rfl, BufferError.depth_wrapped kind inner,
        BufferError.origin_wrapped kind inner, BufferError.opened_wrapped kind inner⟩
  · intro hcode
    have hsingle := (e.code_opened_iff.1 hcode).1
    rw [hsingle] at hdepth
    rw [← horigin]
    exact BufferError.eq_origin hdepth
  · intro hcode
    cases hopened : e.opened with
    | channel error => rfl
    | capacityExceeded requested limit =>
      rw [hopened] at hcode
      exact absurd rfl hcode
  · rw [← horigin]
    cases e.opened with
    | channel error => exact error.message_eq_origin
    | capacityExceeded requested limit => rfl
  · rw [BufferError.reopened_eq_iff, hdepth]
    omega
  · intro rounds hrounds
    rw [BufferError.iterate_reopened (by omega), horigin]

theorem surfacesOpened (e : ChannelError) : e.SurfacesOpened := by
  refine ⟨rfl, rfl, ?_, ?_⟩
  · intro b before after hbefore
    exact Buffer.run_fail hbefore e after
  · intro p x b before after haccess hbefore
    simp only [Producer.run, haccess, Buffer.run_fail hbefore]
    rfl

/-- Opening undoes one wrapping of every failure, and that is how it comes to the holder of a blob. -/
theorem opening_undoes_one_wrapping (e : ChannelError) : e.OpensOnce ∧ e.SurfacesOpened :=
  ⟨e.opensOnce, e.surfacesOpened⟩

/-- A refusal in two wrappings does not come out as one, and opening it again gives another failure. -/
theorem refusal_in_two_wrappings :
    let e := BufferError.wrapped .other (.channel (BufferError.wrapped .other (.capacityExceeded 9 8)))
    e.origin = .capacityExceeded 9 8 ∧ e.opened.code = "buffer.io" ∧
      e.opened.code ≠ "buffer.capacity_exceeded" ∧ e.opened.reopened ≠ e.opened ∧
      e.opened.reopened = .capacityExceeded 9 8 := by
  decide

end ChannelError

end BlobExchange
