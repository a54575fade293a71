import BlobExchange.Exchange.Consumer
import BlobExchange.Proofs.RegistryFrame
/-! # Moments at which others strike

The record of strikes tells whether the same buffers were reclaimed at the same moments on two ways
(`StruckAlike`). -/

namespace BlobExchange

namespace Exchange

/-- The same buffers were reclaimed at the same moments on the way from `x` to `x'` and on the way
from `y` to `y'`. -/
def StruckAlike (x x' y y' : Exchange) : Prop :=
  ∃ blows, x'.strikes = x.strikes ++ blows ∧ y'.strikes = y.strikes ++ blows

variable {x y x' y' : Exchange} {others others' : Interference}

section Struck

variable {first first' later later' : List (List Handle)}

theorem struckAlike_iff (hx : x'.strikes = x.strikes ++ first)
    (hy : y'.strikes = y.strikes ++ first') : StruckAlike x x' y y' ↔ first = first' := by
  constructor
  · rintro ⟨blows, hleft, hright⟩
    rw [hx] at hleft
    rw [hy] at hright
    exact (List.append_cancel_left hleft).trans (List.append_cancel_left hright).symm
  · rintro rfl
    exact ⟨first, hx, hy⟩

/-- Of strikes that come in two parts of the same lengths, each part is the same. -/
theorem StruckAlike.cut (h : StruckAlike x x' y y') (hx : x'.strikes = x.strikes ++ (first ++ later))
    (hy : y'.strikes = y.strikes ++ (first' ++ later')) (hlength : first.length = first'.length) :
    first = first' ∧ later = later' :=
  List.append_inj ((struckAlike_iff hx hy).1 h) hlength

end Struck

/-- What was reclaimed after the same first strikes is the same again. -/
theorem StruckAlike.rest {u v : Exchange} {first : List (List Handle)}
    (h : StruckAlike x x' y y') (hu : u.strikes = x.strikes ++ first)
    (hv : v.strikes = y.strikes ++ first) (hx : ∃ later, x'.strikes = u.strikes ++ later)
    (hy : ∃ later, y'.strikes = v.strikes ++ later) : StruckAlike u x' v y' := by
  obtain ⟨later, hlater⟩ := hx
  obtain ⟨later', hlater'⟩ := hy
  rw [struckAlike_iff hlater hlater']
  rw [hu, List.append_assoc] at hlater
  rw [hv, List.append_assoc] at hlater'
  exact (h.cut hlater hlater' rfl).2

/-- What changes no strikes on either side may be left out. -/
theorem StruckAlike.congr {u v : Exchange} (h : StruckAlike x x' y y')
    (hu : u.strikes = x.strikes) (hv : v.strikes = y.strikes) : StruckAlike u x' v y' := by
  unfold StruckAlike
  rw [hu, hv]
  exact h

/-! ## What each operation adds -/

theorem pool_fetch (x : Exchange) : x.fetch.2.pool = x.pool.fetch.2 := by
  simp only [Exchange.fetch]
  split <;> rfl

/-- The handles whose buffers others reclaim while an exchange catches up. -/
def blow (x : Exchange) (others : Interference) : List Handle :=
  x.pool.fetch.2.losses (others.afterFetch x.pool.reports)

theorem strikes_acknowledge (x : Exchange) (reports : List Handle) :
    (x.acknowledge reports).strikes = x.strikes := by
  induction reports generalizing x with
  | nil => rfl
  | cons h rest ih =>
    unfold acknowledge
    split
    · exact ih _
    · rfl

theorem strikes_catchUp (x : Exchange) (others : Interference) :
    (x.catchUp others).strikes = x.strikes ++ [x.blow others] := by
  have hfetch : x.fetch.2.strikes = x.strikes := by
    simp only [fetch]
    split <;> rfl
  unfold catchUp fetchAmid
  rw [strikes_acknowledge, strikes_amid, hfetch, pool_fetch]
  rfl

theorem strikes_issue (x : Exchange) (size : Nat) (b : Buffer) (reused : Bool) :
    (x.issue size b reused).2.strikes = x.strikes := by
  unfold issue
  split <;> rfl

/-- Others may strike once while a blob is constructed: when the reports were fetched. -/
theorem strikes_construct (x : Exchange) (size : Nat) (others : Interference) :
    (Producer.construct x size others).2.strikes = x.strikes ++ [x.blow others] := by
  have hconstructed : (x.construct size others).2.strikes = x.strikes ++ [x.blow others] := by
    -- once caught up, a construction gives others no further opening
    rw [← strikes_catchUp]
    unfold construct
    have htaken : ((x.catchUp others).takeIdle size).2.strikes = (x.catchUp others).strikes := rfl
    split
    · rename_i b u heq
      rw [heq] at htaken
      rw [strikes_issue]
      exact htaken
    · rename_i u heq
      rw [heq] at htaken
      have hasked : (u.requestBuffer size).2.strikes = u.strikes := rfl
      split
      · rename_i halt v heq
        rw [heq] at hasked
        exact hasked.trans htaken
      · rename_i b v heq
        rw [heq] at hasked
        rw [strikes_issue]
        exact hasked.trans htaken
  rw [← hconstructed]
  unfold Producer.construct
  split <;> (rename_i heq; rw [heq])

theorem strikes_keepBudget (x : Exchange) : x.keepBudget.strikes = x.strikes := by
  unfold keepBudget
  split
  · rfl
  · simp only
    split <;> rfl

/-- Others may strike before a buffer is parked and again before its handle is shelved. -/
theorem strikes_dispose {id : BlobId} {b : Buffer} {registry : Registry}
    (htaken : x.registry.takeBuffer id = some (b, registry)) (others : Interference) :
    (x.dispose id others).strikes = x.strikes ++ ([x.pool.losses others.beforePark] ++
      [((x.pool.sufferAll others.beforePark).park b).2.losses others.afterPark]) := by
  unfold dispose
  rw [htaken]
  simp only [strikes_keepBudget, note, shelve, strikes_amid, pool_amid, List.append_assoc]

theorem strikes_settle (x : Exchange) (id : BlobId) (release : Release) (others : Interference) :
    ∃ blows, (x.settle id release others).strikes = x.strikes ++ blows := by
  cases release with
  | retained => exact ⟨[], (List.append_nil _).symm⟩
  | absent => exact ⟨[], (List.append_nil _).symm⟩
  | last =>
    cases htaken : x.registry.takeBuffer id with
    | none =>
      refine ⟨[], ?_⟩
      rw [List.append_nil]
      exact congrArg Exchange.strikes (dispose_of_none htaken others)
    | some taken => exact ⟨_, strikes_dispose htaken others⟩

theorem strikes_run (p : Producer) (x : Exchange) (script : List Instruction) :
    (p.run x script).exchange.strikes = x.strikes := by
  unfold Producer.run
  split <;> rfl

theorem strikes_claim (x : Exchange) (id : BlobId) :
    (Consumer.claim x id).2.strikes = x.strikes := by
  have hclaimed : (x.claim id).2.strikes = x.strikes := by
    unfold claim
    split <;> rfl
  rw [← hclaimed]
  unfold Consumer.claim
  split <;> (rename_i heq; rw [heq])

theorem strikes_drop (p : Producer) (x : Exchange) : (p.drop x).strikes = x.strikes := by
  unfold Producer.drop
  split <;> rfl

theorem strikes_finish (p : Producer) (x : Exchange) (others : Interference) :
    ∃ blows, (p.finish x others).2.strikes = x.strikes ++ blows := by
  unfold Producer.finish
  split
  · exact ⟨[], (List.append_nil _).symm⟩
  · exact strikes_settle _ p.id _ others

/-- The exchange after a script ran through a producer that was just constructed. -/
def afterScript (x : Exchange) (p : Producer) (script : List Instruction) (others : Interference) :
    BlobWritten :=
  let ran := p.run x script
  match ran.outcome with
  | .error .overflow => ⟨p.drop ran.exchange, some p, ran.notes, .error .overflow⟩
  | .error (.failed e) =>
    let finished := p.finish ran.exchange others
    ⟨finished.2, some finished.1, ran.notes, .error (.failed e)⟩
  | .ok () =>
    let claimed := Consumer.claim ran.exchange p.id
    let finished := p.finish claimed.2 others
    ⟨finished.2, some finished.1, ran.notes, claimed.1.mapError .failed⟩

theorem ofScript_of_error {size : Nat} {halt : Halt BlobError}
    (hx : Producer.construct x size others = (.error halt, x')) (script : List Instruction) :
    Consumer.ofScript x size script others = ⟨x', none, [], .error halt⟩ := by
  unfold Consumer.ofScript
  rw [hx]

theorem ofScript_of_ok {size : Nat} {p : Producer}
    (hx : Producer.construct x size others = (.ok p, x')) (script : List Instruction) :
    Consumer.ofScript x size script others = x'.afterScript p script others := by
  unfold Consumer.ofScript
  rw [hx]
  rfl

theorem strikes_afterScript (x : Exchange) (p : Producer) (script : List Instruction)
    (others : Interference) :
    ∃ blows, (x.afterScript p script others).exchange.strikes = x.strikes ++ blows := by
  have hran := strikes_run p x script
  unfold afterScript
  simp only
  split
  · refine ⟨[], ?_⟩
    rw [strikes_drop, hran, List.append_nil]
  · obtain ⟨blows, hblows⟩ := strikes_finish p (p.run x script).exchange others
    exact ⟨blows, hblows.trans (by rw [hran])⟩
  · obtain ⟨blows, hblows⟩ :=
      strikes_finish p (Consumer.claim (p.run x script).exchange p.id).2 others
    exact ⟨blows, hblows.trans (by rw [strikes_claim, hran])⟩

/-- The first strike on the way through a script is the one on its construction. -/
theorem strikes_ofScript (x : Exchange) (size : Nat) (script : List Instruction)
    (others : Interference) :
    ∃ later, (Consumer.ofScript x size script others).exchange.strikes =
      x.strikes ++ ([x.blow others] ++ later) := by
  have hconstructed := strikes_construct x size others
  rcases hx : Producer.construct x size others with ⟨answer, u⟩
  rw [hx] at hconstructed
  cases answer with
  | error halt =>
    refine ⟨[], ?_⟩
    rw [ofScript_of_error hx, List.append_nil]
    exact hconstructed
  | ok p =>
    obtain ⟨later, hlater⟩ := strikes_afterScript u p script others
    refine ⟨later, ?_⟩
    rw [ofScript_of_ok hx, hlater, ← List.append_assoc]
    exact congrArg (· ++ later) hconstructed

theorem StruckAlike.blow_of_ofScript {size : Nat} {script : List Instruction}
    (h : StruckAlike x (Consumer.ofScript x size script others).exchange
      y (Consumer.ofScript y size script others').exchange) :
    x.blow others = y.blow others' := by
  obtain ⟨later, hlater⟩ := strikes_ofScript x size script others
  obtain ⟨later', hlater'⟩ := strikes_ofScript y size script others'
  exact List.head_eq_of_cons_eq (h.cut hlater hlater' rfl).1

theorem strikes_shrink (x : Exchange) (others : Interference) :
    (x.shrink others).2.strikes = x.strikes ++
      ([(x.pool.reclaimDownTo 0).2.losses others.afterShrink] ++
        [({ x with pool := (x.pool.reclaimDownTo 0).2 }.amid others.afterShrink).blow others]) := by
  show (Exchange.catchUp _ others).strikes = _
  rw [strikes_catchUp, strikes_amid, List.append_assoc]

end Exchange

end BlobExchange
