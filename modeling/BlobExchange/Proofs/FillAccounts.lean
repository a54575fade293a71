import BlobExchange.Proofs.FillRounds
/-! # Every byte of a filling

What a source gives is added in order, but for the one byte that a refusal costs
(`fillings_account_for_every_byte`). -/

namespace BlobExchange

namespace Round

variable {r w : Round}

/-! ## One round -/

/-- A round asks for at least one byte, and for no more than there is room, permission and budget
for. Only behind a full buffer it asks for a byte more. An answer of no bytes is the end of the
source. -/
structure IsProper (w : Round) : Prop where
  sound : w.buffer.Sound
  probes : w.probes = true ↔ w.buffer.length = w.buffer.policy.limit
  probe : w.probes = true → w.window = 1
  positive : 1 ≤ w.window
  room : w.probes = false → w.buffer.length + w.window ≤ w.buffer.capacity
  permitted : w.probes = false → w.buffer.length + w.window ≤ w.buffer.policy.limit
  budget : ∀ n, w.budget = some n → w.window ≤ n
  largest : w.window ≤ 64 * 1024
  given : w.given.length ≤ w.window
  ended : w.answer = .ok [] → ∀ window, (w.source.readOnce window).1 = .ok []

/-- The window of a read into a buffer is positive and within each of its four bounds. -/
theorem window_bounds (hprobes : w.probes = false) (due : w.budget ≠ some 0)
    (room : w.buffer.room ≠ 0) :
    1 ≤ w.window ∧ w.window ≤ w.buffer.room ∧
      w.window ≤ w.buffer.policy.limit - w.buffer.length ∧ w.window ≤ 64 * 1024 ∧
      ∀ n, w.budget = some n → w.window ≤ n := by
  have hwindow : w.window = w.buffer.window w.budget := by simp [window, hprobes]
  have hpositive := Buffer.window_pos due (probes_eq_false_iff.1 hprobes) (if_neg room)
  rw [← hwindow] at hpositive
  unfold Buffer.window largestWindow at hwindow
  have hroom := atMost_le w.budget w.buffer.room
  refine ⟨hpositive, by omega, by omega, by omega, ?_⟩
  intro n heq
  rw [heq, atMost_some] at hwindow
  omega

theorem Entered.isProper (h : r.Entered w) (hr : r.buffer.Sound) : w.IsProper := by
  have hw := h.sound hr
  have hone : w.probes = true → w.window = 1 := fun hprobes => by simp [window, hprobes]
  have hbounds := fun hprobes => window_bounds hprobes h.due (h.room hprobes)
  have hheld := hw.held
  have hpermitted := hw.permitted
  have hwindow : 1 ≤ w.window := by
    cases hprobes : w.probes with
    | true => exact Nat.le_of_eq (hone hprobes).symm
    | false => exact (hbounds hprobes).1
  refine ⟨hw, probes_iff hw, hone, hwindow, ?_, ?_, ?_, ?_, Source.length_readOnce _ _,
    Source.readOnce_ended hwindow⟩
  · intro hprobes
    have hroom := (hbounds hprobes).2.1
    unfold Buffer.room at hroom
    omega
  · intro hprobes
    have hlimit := (hbounds hprobes).2.2.1
    omega
  · intro n hn
    cases hprobes : w.probes with
    | true =>
      have hsome : n ≠ 0 := fun hzero => h.due (hzero ▸ hn)
      rw [hone hprobes]
      omega
    | false => exact (hbounds hprobes).2.2.2.2 n hn
  · cases hprobes : w.probes with
    | true =>
      rw [hone hprobes]
      omega
    | false => exact (hbounds hprobes).2.2.2.1

theorem IsProper.kept_le (hw : w.IsProper) {n : Nat} (hn : w.budget = some n) :
    w.kept.length ≤ n := by
  have hgiven := hw.given
  have hbudget := hw.budget n hn
  unfold kept
  split
  · exact Nat.zero_le n
  · omega

theorem kept_append_lost (w : Round) : w.kept ++ w.lost = w.given := by
  unfold kept lost
  split
  · exact List.nil_append _
  · exact List.append_nil _

theorem lost_of_onward (h : w.verdict = none) : w.lost = [] := by
  unfold verdict at h
  unfold lost given
  split at h
  · cases h
  · split at h
    · cases h
    · rename_i hprobes
      rw [if_neg hprobes]
  · rename_i hanswer
    rw [hanswer]
    split <;> rfl

theorem verdict_ended_iff : w.verdict = some (.ok ()) ↔ w.answer = .ok [] := by
  rcases hanswer : w.answer with e | _ | ⟨x, xs⟩
  · cases hagain : e.isInterruption <;> simp [verdict, hanswer, hagain]
  · simp [verdict, hanswer]
  · cases hprobes : w.probes <;> simp [verdict, hanswer, hprobes]

theorem verdict_failed_iff {e : ChannelError} :
    w.verdict = some (.error (.failed (.channel e))) ↔
      e.isInterruption = false ∧ w.answer = .error e := by
  rcases hanswer : w.answer with e' | _ | ⟨x, xs⟩
  · by_cases heq : e' = e
    · subst heq
      cases hagain : e'.isInterruption <;> simp [verdict, hanswer, hagain]
    · cases hagain : e'.isInterruption <;> simp [verdict, hanswer, hagain, heq]
  · simp [verdict, hanswer]
  · cases hprobes : w.probes <;> simp [verdict, hanswer, hprobes]

theorem verdict_refused_iff {requested limit : Nat} :
    w.verdict = some (.error (.failed (.capacityExceeded requested limit))) ↔
      (requested = w.buffer.length + 1 ∧ limit = w.buffer.policy.limit) ∧ w.probes = true ∧
        w.given ≠ [] := by
  rcases hanswer : w.answer with e | _ | ⟨x, xs⟩
  · cases hagain : e.isInterruption <;> simp [verdict, given, Source.given, hanswer, hagain]
  · simp [verdict, given, Source.given, hanswer]
  · cases hprobes : w.probes <;>
      simp [verdict, given, Source.given, hanswer, hprobes, eq_comm]

theorem verdict_ne_overflow : w.verdict ≠ some (.error .overflow) := by
  rcases hanswer : w.answer with e | _ | ⟨x, xs⟩
  · cases hagain : e.isInterruption <;> simp [verdict, hanswer, hagain]
  · simp [verdict, hanswer]
  · cases hprobes : w.probes <;> simp [verdict, hanswer, hprobes]

/-- Only a refusal costs a byte. -/
theorem length_lost {halt : Except (Halt BufferError) Unit} (hw : w.IsProper)
    (h : w.verdict = some halt) (moved : Nat) :
    w.lost.length = if Buffer.isRefusal (halt.map fun _ => moved) then 1 else 0 := by
  match halt with
  | .ok () =>
    have hanswer := verdict_ended_iff.1 h
    simp [lost, given, Source.given, hanswer, Except.map, Buffer.isRefusal]
  | .error .overflow => exact absurd h verdict_ne_overflow
  | .error (.failed (.channel e)) =>
    obtain ⟨-, hanswer⟩ := verdict_failed_iff.1 h
    simp [lost, given, Source.given, hanswer, Except.map, Buffer.isRefusal]
  | .error (.failed (.capacityExceeded requested limit)) =>
    obtain ⟨-, hprobes, hsome⟩ := verdict_refused_iff.1 h
    have hgiven := hw.given
    have hpositive := List.length_pos_iff.2 hsome
    rw [hw.probe hprobes] at hgiven
    show w.lost.length = 1
    rw [lost, if_pos hprobes]
    omega

/-! ## All rounds -/

variable {last : Round} {rounds : List Round} {stop : Option (Except (Halt BufferError) Unit)}

theorem content_of_leads (h : loop.Leads r rounds last) :
    last.buffer.content = r.buffer.content ++ added rounds := by
  induction h with
  | stay r => exact (List.append_nil _).symm
  | @round r w last rounds henter later ih =>
    have hput : w.next.buffer.content = r.buffer.content ++ w.kept := by
      rw [← (entered henter).content]
      rfl
    rw [ih, show loop.next w = w.next from rfl, hput, List.append_assoc]
    rfl

theorem policy_of_leads (h : loop.Leads r rounds last) : last.buffer.policy = r.buffer.policy := by
  induction h with
  | stay r => rfl
  | round henter later ih => exact ih.trans (entered henter).policy

/-- What the source gave in the rounds comes off the front of its data. -/
theorem data_of_leads (h : loop.Leads r rounds last) :
    r.source.data = (rounds.map given).flatten ++ last.source.data := by
  induction h with
  | stay r => rfl
  | @round r w last rounds henter later ih =>
    have hread : w.source.data = w.given ++ (loop.next w).source.data :=
      Source.data_readOnce w.window w.source
    rw [← (entered henter).source, hread, ih]
    simp

theorem asked_of_leads (h : loop.Leads r rounds last) :
    last.source.asked = r.source.asked ++ rounds.map window := by
  induction h with
  | stay r => exact (List.append_nil _).symm
  | @round r w last rounds henter later ih =>
    have hread : (loop.next w).source.asked = r.source.asked ++ [w.window] := by
      rw [← (entered henter).source]
      rfl
    rw [ih, hread, List.append_assoc]
    rfl

theorem proper_of_leads (h : loop.Leads r rounds last) (hr : r.buffer.Sound) :
    ∀ w ∈ rounds, w.IsProper := by
  have hkeeps := h.keeps (P := fun r => r.buffer.Sound) (Q := IsProper)
    (fun _ _ hr henter => (entered henter).isProper hr) (fun _ hw => sound_next hw.sound) hr
  exact hkeeps.1

/-- What is kept is taken off the budget, which is never overdrawn. -/
theorem budget_of_leads (h : loop.Leads r rounds last) (hr : r.buffer.Sound) :
    last.budget = r.budget.map (· - (added rounds).length) ∧
      ∀ n, r.budget = some n → (added rounds).length ≤ n := by
  induction h with
  | stay r => exact ⟨by cases r.budget <;> rfl, fun n _ => Nat.zero_le n⟩
  | @round r w last rounds henter later ih =>
    have hentered := entered henter
    have hproper := hentered.isProper hr
    obtain ⟨hlast, hwithin⟩ := ih (sound_next hproper.sound)
    have hlength : (added (w :: rounds)).length = w.kept.length + (added rounds).length := by
      simp [added]
    have hnext : (loop.next w).budget = r.budget.map (· - w.kept.length) := by
      rw [← hentered.budget]
      rfl
    rw [hlast, hnext, hlength]
    refine ⟨by cases r.budget <;> simp [Nat.sub_sub], ?_⟩
    intro n hn
    have hkept := hproper.kept_le (hentered.budget.trans hn)
    have hrest := hwithin (n - w.kept.length) (by rw [hnext, hn]; rfl)
    omega

/-- The budget is spent just when that many bytes were added. -/
theorem spent_iff (h : loop.Leads r rounds last) (hr : r.buffer.Sound) :
    last.budget = some 0 ↔ r.budget = some (added rounds).length := by
  obtain ⟨hlast, hwithin⟩ := budget_of_leads h hr
  rw [hlast]
  cases hb : r.budget with
  | none => simp
  | some n =>
    have hle := hwithin n hb
    simp only [Option.map_some, Option.some.injEq]
    omega

/-- What the rounds that go on are given is added. -/
theorem given_of_onward (onward : ∀ w ∈ rounds, w.verdict = none) :
    (rounds.map given).flatten = added rounds ∧ dropped rounds = [] := by
  induction rounds with
  | nil => exact ⟨rfl, rfl⟩
  | cons w rounds ih =>
    obtain ⟨hw, hrest⟩ := List.forall_mem_cons.1 onward
    obtain ⟨hgiven, hdropped⟩ := ih hrest
    have hlost := lost_of_onward hw
    have hkept : w.given = w.kept := by rw [← kept_append_lost, hlost, List.append_nil]
    constructor
    · simp only [added, List.map_cons, List.flatten_cons, hkept] at hgiven ⊢
      rw [hgiven]
    · simp only [dropped, List.map_cons, List.flatten_cons, hlost] at hdropped ⊢
      exact hdropped

/-! ## The end -/

namespace Ends

variable {moved : Nat} {outcome : Except (Halt BufferError) Nat}

/-- What the source gave was added, but for the one byte that a refusal costs. -/
theorem given_eq (h : Ends moved last stop outcome) (hstops : loop.Stops rounds last stop)
    (hproper : ∀ w ∈ rounds, w.IsProper) :
    (rounds.map given).flatten = added rounds ++ dropped rounds ∧
      (dropped rounds).length = if Buffer.isRefusal outcome then 1 else 0 := by
  cases hstops with
  | idle onward idle =>
    obtain ⟨hgiven, hdropped⟩ := given_of_onward onward
    rw [hgiven, hdropped, List.append_nil]
    cases h <;> exact ⟨rfl, rfl⟩
  | @ended rounds w halt onward verdict =>
    obtain ⟨hgiven, hdropped⟩ := given_of_onward onward
    have hlast : dropped (rounds ++ [w]) = w.lost := by
      simp only [dropped, List.map_append, List.flatten_append] at hdropped ⊢
      simp [hdropped]
    have hadded : added (rounds ++ [w]) = added rounds := by
      simp [added, kept_of_verdict verdict]
    have hlost : w.given = w.lost := by
      rw [← kept_append_lost, kept_of_verdict verdict, List.nil_append]
    rw [hlast, hadded, List.map_append, List.flatten_append, hgiven]
    refine ⟨by simp [hlost], ?_⟩
    cases h with
    | ended left halt => exact length_lost (hproper w (by simp)) verdict moved

theorem ok_iff (h : Ends moved last stop outcome) {n : Nat} :
    outcome = .ok n ↔ n = moved ∧ (last.budget = some 0 ∨ stop = some (.ok ())) := by
  cases h with
  | spent spent => simp [spent, eq_comm]
  | overflow left overflow => simp [left]
  | ended left halt => cases halt <;> simp [Except.map, left, eq_comm]

theorem failed_iff (h : Ends moved last stop outcome) {e : BufferError} :
    outcome = .error (.failed e) ↔ stop = some (.error (.failed e)) := by
  cases h with
  | spent spent => simp
  | overflow left overflow => simp
  | ended left halt => cases halt <;> simp [Except.map]

/-- A refusal is for one byte more than the full buffer holds, and the source has given it. -/
theorem refused_iff (h : Ends moved last stop outcome) (hstops : loop.Stops rounds last stop)
    {requested limit : Nat} :
    outcome = .error (.failed (.capacityExceeded requested limit)) ↔
      (requested = last.buffer.length + 1 ∧ limit = last.buffer.policy.limit) ∧
        last.probes = true ∧ last.budget ≠ some 0 ∧
          ∃ w ∈ rounds, w.probes = true ∧ w.given ≠ [] := by
  have hlast : ∀ {w halt}, w ∈ rounds → w.verdict = some halt →
      last.buffer = w.buffer ∧ stop = some halt := by
    intro w halt hw hverdict
    obtain ⟨rfl, hstop⟩ := hstops.of_verdict hw hverdict
    have hbuffer : w.next.buffer = w.buffer := by
      rw [next_of_kept_nil (kept_of_verdict hverdict)]
    exact ⟨hbuffer, hstop⟩
  rw [h.failed_iff]
  constructor
  · rintro rfl
    obtain ⟨w, hw, hverdict⟩ := hstops.verdict_iff.1 rfl
    obtain ⟨hsizes, hprobes, hgiven⟩ := verdict_refused_iff.1 hverdict
    obtain ⟨hbuffer, -⟩ := hlast hw hverdict
    cases h with
    | ended left =>
      rw [probes, hbuffer]
      exact ⟨hsizes, hprobes, left, w, hw, hprobes, hgiven⟩
  · rintro ⟨⟨rfl, rfl⟩, -, -, w, hw, hprobes, hgiven⟩
    have hverdict := verdict_refused_iff.2 ⟨⟨rfl, rfl⟩, hprobes, hgiven⟩
    obtain ⟨hbuffer, hstop⟩ := hlast hw hverdict
    rw [hbuffer]
    exact hstop

theorem of_overflow (h : Ends moved last stop outcome) (hstops : loop.Stops rounds last stop)
    (hover : outcome = .error .overflow) : last.buffer.makeRoom 1 = .error .overflow := by
  cases h with
  | spent spent => cases hover
  | overflow left overflow => exact overflow
  | ended left halt =>
    cases halt with
    | ok _ => cases hover
    | error halt =>
      cases hover
      obtain ⟨w, -, hverdict⟩ := hstops.verdict_iff.1 rfl
      exact absurd hverdict verdict_ne_overflow

end Ends

end Round

/-! ## The account of a filling -/

/-- The account of a filling: which reads were made, what became of the bytes that they gave, and
how that decides the outcome. -/
structure Accounts (b : Buffer) (s : Source) (budget : Option Nat) (f : Filled)
    (rounds : List Round) : Prop where
  /-- The rounds follow one another, and they are all the reads that were made. -/
  leads : ∃ left, Round.loop.Leads ⟨b, s, budget⟩ rounds ⟨f.buffer, f.source, left⟩
  asked : f.source.asked = s.asked ++ rounds.map Round.window
  proper : ∀ w ∈ rounds, w.IsProper
  /-- Each read is made with budget left, and into what the reads before have made of the buffer. -/
  along : ∀ front w back, rounds = front ++ w :: back →
    w.buffer.content = b.content ++ Round.added front ∧ w.buffer.policy = b.policy ∧
      ∀ n, budget = some n →
        (Round.added front).length < n ∧ w.budget = some (n - (Round.added front).length)
  onward : ∀ w ∈ rounds.dropLast, w.verdict = none
  finite : rounds.length ≤ s.extent + 1
  /-- Nothing that the source gave is lost, but for the byte that a refusal costs. -/
  content : f.buffer.content = b.content ++ Round.added rounds
  policy : f.buffer.policy = b.policy
  data : s.data = Round.added rounds ++ Round.dropped rounds ++ f.source.data
  dropped : (Round.dropped rounds).length = if Buffer.isRefusal f.outcome then 1 else 0
  sound : f.buffer.Sound
  within : ∀ n, budget = some n → (Round.added rounds).length ≤ n
  succeeds : ∀ n, f.outcome = .ok n ↔
    n = (Round.added rounds).length ∧ (budget = some n ∨ ∃ w ∈ rounds, w.answer = .ok [])
  fails : ∀ e, f.outcome = .error (.failed (.channel e)) ↔
    ∃ w ∈ rounds, e.isInterruption = false ∧ w.answer = .error e
  refuses : ∀ requested limit, f.outcome = .error (.failed (.capacityExceeded requested limit)) ↔
    (requested = f.buffer.length + 1 ∧ limit = b.policy.limit) ∧ f.buffer.length = b.policy.limit ∧
      budget ≠ some (Round.added rounds).length ∧ ∃ w ∈ rounds, w.probes = true ∧ w.given ≠ []
  overflows : f.outcome = .error .overflow → f.buffer.makeRoom 1 = .error .overflow

namespace Buffer

/-- Whatever has become of a buffer, a filling of it accounts for every byte that its source gave:
it was added in order, or it is the one by which a full buffer learned that there was more. -/
theorem fillings_account_for_every_byte {b : Buffer} (hb : b.Reachable) (s : Source)
    (budget : Option Nat) : ∃ rounds, Accounts b s budget (b.fill s budget) rounds := by
  obtain ⟨rounds, last, stop, hleads, hstops, hlength⟩ := Round.exists_rounds ⟨b, s, budget⟩
  obtain ⟨outcome, hfilled, hends⟩ := Round.fillOn_of_stops hleads hstops hb.sound 0
  change b.fill s budget = _ at hfilled
  rw [Nat.zero_add] at hends
  rw [hfilled]
  have hproper := Round.proper_of_leads hleads hb.sound
  have hsound := Round.sound_of_leads hleads hb.sound
  obtain ⟨hgiven, hdropped⟩ := hends.given_eq hstops hproper
  have hspent : last.budget = some 0 ↔ budget = some (Round.added rounds).length :=
    Round.spent_iff hleads hb.sound
  have hpolicy : last.buffer.policy = b.policy := Round.policy_of_leads hleads
  refine ⟨rounds, ⟨last.budget, hleads⟩, Round.asked_of_leads hleads, hproper, ?_, hstops.onward,
    hlength, Round.content_of_leads hleads, hpolicy, ?_, hdropped, hsound,
    (Round.budget_of_leads hleads hb.sound).2, ?_, ?_, ?_, hends.of_overflow hstops⟩
  · -- what a read finds is what the rounds before it have left
    rintro front w back rfl
    obtain ⟨q, hfront, henter⟩ := hleads.split
    have hentered := Round.entered henter
    refine ⟨hentered.content.trans (Round.content_of_leads hfront),
      hentered.policy.trans (Round.policy_of_leads hfront), ?_⟩
    intro n hn
    obtain ⟨hleft, hwithin⟩ := Round.budget_of_leads hfront hb.sound
    have hle := hwithin n hn
    have hw : w.budget = some (n - (Round.added front).length) := by
      rw [hentered.budget, hleft]
      exact congrArg (Option.map _) hn
    have hdue := hentered.due
    rw [hw] at hdue
    refine ⟨?_, hw⟩
    have hsome : n - (Round.added front).length ≠ 0 := fun hzero => hdue (congrArg some hzero)
    omega
  · rw [← hgiven]
    exact Round.data_of_leads hleads
  · intro n
    simp only [hends.ok_iff, hspent, hstops.verdict_iff, ← Round.verdict_ended_iff]
    constructor
    · rintro ⟨rfl, hwhy⟩
      exact ⟨rfl, hwhy⟩
    · rintro ⟨rfl, hwhy⟩
      exact ⟨rfl, hwhy⟩
  · intro e
    simp only [hends.failed_iff, hstops.verdict_iff, ← Round.verdict_failed_iff]
    rfl
  · intro requested limit
    rw [hends.refused_iff hstops, Round.probes_iff hsound, hpolicy, ne_eq, hspent]

/-- A buffer that may hold two bytes keeps the first two of three and loses the third. -/
theorem two_kept_and_one_lost :
    let b : Buffer := ⟨[], 1, ⟨Binary64.two, some 2⟩⟩
    let s := Source.ofSteps [.failure (.bare .interrupted), .data [1, 2, 3]] none
    b.Reachable ∧ isRefusal (b.fill s none).outcome = true ∧
      ∃ rounds, Accounts b s none (b.fill s none) rounds ∧ Round.added rounds = [1, 2] ∧
        Round.dropped rounds = [3] ∧ rounds.map Round.window = [1, 1, 1, 1] := by
  intro b s
  have hb : b.Reachable := .created (rfl : create 1 ⟨Binary64.two, some 2⟩ = .ok b)
  have hcontent : (b.fill s none).buffer.content = [1, 2] := by decide +kernel
  have hsource : (b.fill s none).source = ⟨[.data []], none, [1, 1, 1, 1]⟩ := by decide +kernel
  obtain ⟨rounds, haccounts⟩ := fillings_account_for_every_byte hb s none
  have hadded : [1, 2] = Round.added rounds := hcontent.symm.trans haccounts.content
  have hasked := haccounts.asked
  have hdata := haccounts.data
  rw [hsource] at hasked hdata
  rw [← hadded] at hdata
  refine ⟨hb, by decide +kernel, rounds, haccounts, hadded.symm, ?_, hasked.symm⟩
  have hrest : [1, 2] ++ [3] = [1, 2] ++ Round.dropped rounds := hdata.trans (List.append_nil _)
  exact (List.append_cancel_left hrest).symm

end Buffer

end BlobExchange
