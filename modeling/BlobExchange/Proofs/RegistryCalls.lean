import BlobExchange.Blob.Registry
import Mathlib.Data.List.Induction
/-! # When a blob ends

The registry may be called in any order and about any blob. When a blob ends is still a matter of
the calls about it alone (`answers_follow_the_calls`). -/

namespace BlobExchange

/-- A call on the registry. -/
inductive RegistryCall where
  | register (id : BlobId) (b : Buffer)
  | acquire (id : BlobId)
  | release (id : BlobId)
  | finish (id : BlobId)

/-- What a call is answered. -/
inductive RegistryAnswer where
  | registered
  | acquired (done : Bool)
  | ended (release : Release)
  deriving DecidableEq, Repr

namespace RegistryCall

/-- The blob that a call is about. -/
def id : RegistryCall → BlobId
  | .register id _ => id
  | .acquire id => id
  | .release id => id
  | .finish id => id

/-- Whether a call ends a claim. -/
def endsClaim : RegistryCall → Bool
  | .release _ => true
  | .finish _ => true
  | _ => false

/-- The blob that a call registers. -/
def registers? : RegistryCall → Option BlobId
  | .register id _ => some id
  | _ => none

/-- The claims to the call's blob after the call, if it is known. A count of zero stays zero. -/
def count (claims : Option Claims) : RegistryCall → Option Claims
  | .register _ _ => some ⟨true, 0⟩
  | .acquire _ => claims.map fun c => { c with consumers := c.consumers + 1 }
  | .release _ => claims.map fun c => { c with consumers := c.consumers - 1 }
  | .finish _ => claims.map fun c => { c with producerOpen := false }

end RegistryCall

namespace Registry

/-! ## Calls and their history -/

/-- Answers a call. -/
def perform (r : Registry) : RegistryCall → RegistryAnswer × Registry
  | .register id b => (.registered, r.register id b)
  | .acquire id =>
    match r.claim id with
    | some after => (.acquired true, after)
    | none => (.acquired false, r)
  | .release id => (.ended (r.endConsumer id).1, (r.endConsumer id).2)
  | .finish id => (.ended (r.endProducer id).1, (r.endProducer id).2)

/-- Answers one call after the other. -/
def serve (r : Registry) : List RegistryCall → List RegistryAnswer × Registry
  | [] => ([], r)
  | call :: rest =>
    let later := (r.perform call).2.serve rest
    ((r.perform call).1 :: later.1, later.2)

/-- The answers to some calls, from the empty registry on. -/
def answers (calls : List RegistryCall) : List RegistryAnswer := (empty.serve calls).1

/-- The registry after some calls. -/
def after (calls : List RegistryCall) : Registry := (empty.serve calls).2

/-- The blobs of which an answer said that the last claim had ended, in that order. -/
def disposals (calls : List RegistryCall) : List BlobId :=
  (calls.zip (answers calls)).filterMap fun e => if e.2 = .ended .last then some e.1.id else none

/-- The blobs that are registered, in that order. -/
def registrations (calls : List RegistryCall) : List BlobId :=
  calls.filterMap RegistryCall.registers?

/-- The claims to a blob as the calls about it count them. None of them is passed over, whatever it
was answered. -/
def tally (id : BlobId) (calls : List RegistryCall) : Option Claims :=
  calls.foldl (fun claims call => if call.id = id then call.count claims else claims) none

/-- The producer is closed, and the count of consumers is zero. -/
def Unheld (id : BlobId) (calls : List RegistryCall) : Prop :=
  ∃ c, tally id calls = some c ∧ c.producerOpen = false ∧ c.consumers = 0

/-- The blob was without a holder after some of the calls. -/
def Over (id : BlobId) (calls : List RegistryCall) : Prop :=
  ∃ front, front <+: calls ∧ Unheld id front

/-- The blob was registered, and was never without a holder since. -/
def Active (id : BlobId) (calls : List RegistryCall) : Prop :=
  id ∈ registrations calls ∧ ¬ Over id calls

/-- How the end of a claim is answered after some calls: that it was the last one just if the blob
had a holder so far and now has none, that it was not if the blob still has one, and otherwise that
there is no such blob. -/
structure EndsAs (front : List RegistryCall) (call : RegistryCall) (release : Release) : Prop where
  last : release = .last ↔ Active call.id front ∧ Unheld call.id (front ++ [call])
  retained : release = .retained ↔ Active call.id front ∧ ¬ Unheld call.id (front ++ [call])
  absent : release = .absent ↔ ¬ Active call.id front

/-- What is known of some calls, of their answers and of the registry after them. No entry is left
that nobody holds. The active blobs are entered with the claims of their tally, others are not, and
the cells of those that came and went are marked. Only an active blob can be acquired, a claim ends
as said, no blob ends twice, and no call touches another blob. -/
structure FollowsCalls (calls : List RegistryCall) : Prop where
  held : ∀ id c, (after calls).claims.get? id = some c → c.producerOpen = true ∨ 0 < c.consumers
  entered : ∀ id, Active id calls →
    ∃ c, tally id calls = some c ∧ (after calls).claims.get? id = some c
  missing : ∀ id, ¬ Active id calls → (after calls).claims.get? id = none
  marked : ∀ id, (after calls).isDisposed id = true ↔
    id ∈ registrations calls ∧ (after calls).claims.get? id = none
  acquires : ∀ front id back, calls = front ++ .acquire id :: back →
    ∃ done, (answers calls)[front.length]? = some (.acquired done) ∧
      (done = true ↔ Active id front)
  ends : ∀ front call back, calls = front ++ call :: back → call.endsClaim = true →
    ∃ release, (answers calls)[front.length]? = some (.ended release) ∧ EndsAs front call release
  once : (disposals calls).Nodup
  others : ∀ front call back, calls = front ++ call :: back → ∀ id, id ≠ call.id →
    (after (front ++ [call])).claims.get? id = (after front).claims.get? id ∧
      (after (front ++ [call])).cells.get? id = (after front).cells.get? id

variable {id : BlobId} {calls : List RegistryCall} {call : RegistryCall} {r : Registry}
  {c left : Claims}

theorem released_iff : c.released = true ↔ c.producerOpen = false ∧ c.consumers = 0 := by
  simp [Claims.released]

theorem unheld_iff (htally : tally id calls = some c) : Unheld id calls ↔ c.released = true := by
  rw [released_iff]
  constructor
  · rintro ⟨d, hd, hheld⟩
    rw [htally] at hd
    cases hd
    exact hheld
  · exact fun hheld => ⟨c, htally, hheld⟩

/-! ## One more call -/

theorem serve_concat (r : Registry) (calls : List RegistryCall) (call : RegistryCall) :
    r.serve (calls ++ [call]) =
      ((r.serve calls).1 ++ [((r.serve calls).2.perform call).1],
        ((r.serve calls).2.perform call).2) := by
  induction calls generalizing r with
  | nil => rfl
  | cons first rest ih =>
    simp only [List.cons_append, serve, ih]

theorem answers_concat (calls : List RegistryCall) (call : RegistryCall) :
    answers (calls ++ [call]) = answers calls ++ [((after calls).perform call).1] := by
  unfold answers
  rw [serve_concat]
  rfl

theorem after_concat (calls : List RegistryCall) (call : RegistryCall) :
    after (calls ++ [call]) = ((after calls).perform call).2 := by
  unfold after
  rw [serve_concat]

@[simp] theorem length_answers (calls : List RegistryCall) :
    (answers calls).length = calls.length := by
  induction calls using List.reverseRecOn with
  | nil => rfl
  | append_singleton calls call ih => simp [answers_concat, ih]

theorem answers_append (front back : List RegistryCall) :
    answers front <+: answers (front ++ back) := by
  induction back using List.reverseRecOn with
  | nil => simp
  | append_singleton back call ih =>
    rw [← List.append_assoc, answers_concat]
    exact ih.trans (List.prefix_append _ _)

/-- The answer to a call depends on the calls before it. -/
theorem answer_at (front : List RegistryCall) (call : RegistryCall) (back : List RegistryCall) :
    (answers (front ++ call :: back))[front.length]? = some ((after front).perform call).1 := by
  have hfront := answers_append (front ++ [call]) back
  rw [List.append_assoc, List.singleton_append, answers_concat] at hfront
  obtain ⟨later, hlater⟩ := hfront
  rw [← hlater, List.append_assoc, List.getElem?_append_right (by simp)]
  simp

theorem disposals_concat (calls : List RegistryCall) (call : RegistryCall) :
    disposals (calls ++ [call]) =
      disposals calls ++ if ((after calls).perform call).1 = .ended .last then [call.id] else [] := by
  unfold disposals
  rw [answers_concat, List.zip_append (length_answers calls).symm, List.filterMap_append]
  congr 1
  simp only [List.zip_cons_cons, List.zip_nil_right, List.filterMap_cons, List.filterMap_nil]
  split <;> simp_all

theorem tally_concat (id : BlobId) (calls : List RegistryCall) (call : RegistryCall) :
    tally id (calls ++ [call]) =
      if call.id = id then call.count (tally id calls) else tally id calls := by
  simp [tally]

theorem over_concat : Over id (calls ++ [call]) ↔ Over id calls ∨ Unheld id (calls ++ [call]) := by
  unfold Over
  simp only [List.prefix_concat_iff, or_and_right, exists_or, exists_eq_left]
  exact or_comm

theorem registrations_concat (calls : List RegistryCall) (call : RegistryCall) :
    registrations (calls ++ [call]) = registrations calls ++ call.registers?.toList := by
  unfold registrations
  rw [List.filterMap_append]
  cases call <;> rfl

theorem mem_registrations_concat :
    id ∈ registrations (calls ++ [call]) ↔ id ∈ registrations calls ∨ call.registers? = some id := by
  rw [registrations_concat, List.mem_append, Option.mem_toList]

theorem Over.registered (hover : Over id calls) : id ∈ registrations calls := by
  -- the calls about a blob do not count before its registration
  have hknown : ∀ calls, id ∉ registrations calls → tally id calls = none := by
    intro calls
    induction calls using List.reverseRecOn with
    | nil => exact fun _ => rfl
    | append_singleton calls call ih =>
      rw [mem_registrations_concat, not_or, tally_concat]
      rintro ⟨hno, hcall⟩
      rw [ih hno]
      split
      · cases call <;> simp_all [RegistryCall.count, RegistryCall.registers?, RegistryCall.id]
      · rfl
  obtain ⟨front, hfront, c, htally, -⟩ := hover
  by_contra hno
  have hnone : id ∉ registrations front :=
    fun hmem => hno ((hfront.filterMap RegistryCall.registers?).subset hmem)
  rw [hknown front hnone] at htally
  cases htally

/-! ## What a call does -/

theorem settle_other (r : Registry) {id j : BlobId} (left : Claims) (hj : j ≠ id) :
    (r.settle id left).2.claims.get? j = r.claims.get? j ∧
      (r.settle id left).2.cells.get? j = r.cells.get? j := by
  unfold settle markDisposed
  split
  · have herased : (r.claims.erase id).get? j = r.claims.get? j :=
      (Table.get?_erase _ _ _).trans (if_neg hj)
    split
    · exact ⟨herased, rfl⟩
    · exact ⟨herased, (Table.get?_insert _ _ _ _).trans (if_neg hj)⟩
  · exact ⟨(Table.get?_insert _ _ _ _).trans (if_neg hj), rfl⟩

/-- A call changes nothing about other blobs. -/
theorem perform_other (r : Registry) (call : RegistryCall) (hid : id ≠ call.id) :
    (r.perform call).2.claims.get? id = r.claims.get? id ∧
      (r.perform call).2.cells.get? id = r.cells.get? id := by
  cases call with
  | register j b =>
    exact ⟨(Table.get?_insert _ _ _ _).trans (if_neg hid),
      (Table.get?_insert _ _ _ _).trans (if_neg hid)⟩
  | acquire j =>
    simp only [perform, claim]
    cases r.claims.get? j with
    | none => exact ⟨rfl, rfl⟩
    | some c => exact ⟨(Table.get?_insert _ _ _ _).trans (if_neg hid), rfl⟩
  | release j =>
    simp only [perform, endConsumer]
    cases r.claims.get? j with
    | none => exact ⟨rfl, rfl⟩
    | some c => exact settle_other r _ hid
  | finish j =>
    simp only [perform, endProducer]
    cases r.claims.get? j with
    | none => exact ⟨rfl, rfl⟩
    | some c => exact settle_other r _ hid

/-- A call about a blob that the registry does not have changes nothing, unless it registers it. -/
theorem perform_missing (hnone : r.claims.get? call.id = none) (hcall : call.registers? = none) :
    r.perform call = (if call.endsClaim then .ended .absent else .acquired false, r) := by
  cases call with
  | register j b => cases hcall
  | acquire j =>
    change r.claims.get? j = none at hnone
    simp [perform, claim, hnone, RegistryCall.endsClaim]
  | release j =>
    change r.claims.get? j = none at hnone
    simp [perform, endConsumer, hnone, RegistryCall.endsClaim]
  | finish j =>
    change r.claims.get? j = none at hnone
    simp [perform, endProducer, hnone, RegistryCall.endsClaim]

/-- What a call does about a blob with claims: it enters those that it leaves, or ends the blob when
it ends the last of them. -/
inductive Effect (r : Registry) (call : RegistryCall) (c : Claims) : RegistryAnswer × Registry → Prop
  | kept {left : Claims} (counted : call.count (some c) = some left)
    (held : left.released = false) :
    Effect r call c (if call.endsClaim then .ended .retained else .acquired true,
      { r with claims := r.claims.insert call.id left })
  | last {left : Claims} (counted : call.count (some c) = some left)
    (unheld : left.released = true) (ends : call.endsClaim = true) :
    Effect r call c (.ended .last,
      markDisposed { r with claims := r.claims.erase call.id } call.id)

theorem effect_settle (hends : call.endsClaim = true) (hcount : call.count (some c) = some left) :
    Effect r call c (.ended (r.settle call.id left).1, (r.settle call.id left).2) := by
  unfold settle
  cases hleft : left.released with
  | true => exact .last hcount hleft hends
  | false =>
    have hkept : Effect r call c _ := .kept hcount hleft
    rw [hends] at hkept
    exact hkept

theorem perform_claimed (hc : r.claims.get? call.id = some c) (hcall : call.registers? = none) :
    Effect r call c (r.perform call) := by
  cases call with
  | register j b => cases hcall
  | acquire j =>
    change r.claims.get? j = some c at hc
    have hcount : (RegistryCall.acquire j).count (some c) =
        some ⟨c.producerOpen, c.consumers + 1⟩ := rfl
    simp only [perform, claim, hc]
    exact .kept hcount (by simp [Claims.released])
  | release j =>
    change r.claims.get? j = some c at hc
    simp only [perform, endConsumer, hc]
    exact effect_settle (show (RegistryCall.release j).endsClaim = true from rfl) rfl
  | finish j =>
    change r.claims.get? j = some c at hc
    simp only [perform, endProducer, hc]
    exact effect_settle (show (RegistryCall.finish j).endsClaim = true from rfl) rfl

/-! ## How a blob stands after a history -/

/-- A blob is not registered yet, or active with the claims of its tally, or over. It was disposed
once if it is over, and its cell says so. -/
inductive Stage (calls : List RegistryCall) (id : BlobId) : Prop where
  | unknown (unregistered : id ∉ registrations calls)
    (claims : (after calls).claims.get? id = none) (cell : (after calls).cells.get? id = none)
    (disposals : (disposals calls).count id = 0)
  | active {c : Claims} {b : Buffer} (active : Active id calls) (tally : tally id calls = some c)
    (claims : (after calls).claims.get? id = some c)
    (cell : (after calls).cells.get? id = some ⟨some b, false⟩)
    (disposals : (disposals calls).count id = 0)
  | ended {b : Buffer} (gone : Over id calls) (claims : (after calls).claims.get? id = none)
    (cell : (after calls).cells.get? id = some ⟨some b, true⟩)
    (disposals : (disposals calls).count id = 1)

namespace Stage

theorem registers_self {id : BlobId} (hcall : call.registers? = some id) : call.id = id := by
  cases call <;> cases hcall
  rfl

/-- A blob stands as before when another one is called about. -/
theorem other (h : Stage calls id) (hid : id ≠ call.id) : Stage (calls ++ [call]) id := by
  obtain ⟨hclaims, hcell⟩ := perform_other (after calls) call hid
  rw [← after_concat] at hclaims hcell
  have hregistered : id ∈ registrations (calls ++ [call]) ↔ id ∈ registrations calls := by
    rw [mem_registrations_concat]
    exact or_iff_left fun hcall => hid (registers_self hcall).symm
  have htally : tally id (calls ++ [call]) = tally id calls := by
    rw [tally_concat, if_neg (Ne.symm hid)]
  have hover : Over id (calls ++ [call]) ↔ Over id calls := by
    rw [over_concat]
    refine or_iff_left_of_imp fun hunheld => ⟨calls, List.prefix_rfl, ?_⟩
    unfold Unheld at hunheld ⊢
    rwa [htally] at hunheld
  have hcount : (Registry.disposals (calls ++ [call])).count id =
      (Registry.disposals calls).count id := by
    rw [disposals_concat, List.count_append]
    split
    · rw [List.count_singleton, beq_eq_false_iff_ne.2 (Ne.symm hid)]
      rfl
    · rfl
  cases h with
  | unknown unregistered claims cell disposals =>
    exact .unknown (mt hregistered.1 unregistered) (hclaims.trans claims) (hcell.trans cell)
      (hcount.trans disposals)
  | active active tally claims cell disposals =>
    exact .active ⟨hregistered.2 active.1, mt hover.1 active.2⟩ (htally.trans tally)
      (hclaims.trans claims) (hcell.trans cell) (hcount.trans disposals)
  | ended gone claims cell disposals =>
    exact .ended (hover.2 gone) (hclaims.trans claims) (hcell.trans cell) (hcount.trans disposals)

theorem register (h : Stage calls id) (new : id ∉ registrations calls) (b : Buffer) :
    Stage (calls ++ [.register id b]) id := by
  have hdisposals : (Registry.disposals calls).count id = 0 := by
    cases h with
    | unknown unregistered claims cell disposals => exact disposals
    | active active tally claims cell disposals => exact disposals
    | ended gone claims cell disposals => exact absurd gone.registered new
  have htally : Registry.tally id (calls ++ [.register id b]) = some ⟨true, 0⟩ := by
    rw [tally_concat, if_pos (show (RegistryCall.register id b).id = id from rfl)]
    rfl
  have hactive : Active id (calls ++ [.register id b]) := by
    refine ⟨mem_registrations_concat.2 (Or.inr rfl), ?_⟩
    rw [over_concat, unheld_iff htally]
    rintro (hover | hreleased)
    · exact new hover.registered
    · cases hreleased
  refine .active (b := b) hactive htally ?_ ?_ ?_
  · rw [after_concat]
    exact Table.get?_insert_self _ _ _
  · rw [after_concat]
    exact Table.get?_insert_self _ _ _
  · rw [disposals_concat, List.count_append, hdisposals]
    rfl

/-- A call about the blob itself that does not register it. -/
theorem own (h : Stage calls call.id) (hcall : call.registers? = none) :
    Stage (calls ++ [call]) call.id := by
  have hregistered : call.id ∈ registrations (calls ++ [call]) ↔ call.id ∈ registrations calls := by
    rw [mem_registrations_concat, hcall]
    simp
  have hquiet : ((after calls).perform call).1 ≠ .ended .last →
      (Registry.disposals (calls ++ [call])).count call.id =
        (Registry.disposals calls).count call.id := by
    intro hanswer
    rw [disposals_concat, if_neg hanswer, List.append_nil]
  -- a blob that the registry does not have stays as it is, before its time and after it
  have hmissing : (after calls).claims.get? call.id = none →
      after (calls ++ [call]) = after calls ∧
        (Registry.disposals (calls ++ [call])).count call.id =
          (Registry.disposals calls).count call.id := by
    intro hnone
    have hperform := perform_missing hnone hcall
    refine ⟨by rw [after_concat, hperform], hquiet ?_⟩
    rw [hperform]
    split <;> simp
  cases h with
  | unknown unregistered claims cell disposals =>
    obtain ⟨hafter, hcount⟩ := hmissing claims
    rw [← hafter] at claims cell
    exact .unknown (mt hregistered.1 unregistered) claims cell (hcount.trans disposals)
  | ended gone claims cell disposals =>
    obtain ⟨hafter, hcount⟩ := hmissing claims
    rw [← hafter] at claims cell
    exact .ended (over_concat.2 (Or.inl gone)) claims cell (hcount.trans disposals)
  | @active c b active tally claims cell disposals =>
    have htally : Registry.tally call.id (calls ++ [call]) = call.count (some c) := by
      rw [tally_concat, if_pos rfl, tally]
    have hafter := after_concat calls call
    have hdisposals := disposals_concat calls call
    have heffect := perform_claimed claims hcall
    generalize (after calls).perform call = performed at heffect hafter hdisposals
    cases heffect with
    | kept counted held =>
      rw [counted] at htally
      have hactive : Active call.id (calls ++ [call]) := by
        refine ⟨hregistered.2 active.1, ?_⟩
        rw [over_concat, unheld_iff htally, held]
        simpa using active.2
      refine .active hactive htally ?_ (by rw [hafter]; exact cell) ?_
      · rw [hafter]
        exact Table.get?_insert_self _ _ _
      · rw [hdisposals, if_neg (by split <;> simp), List.append_nil]
        exact disposals
    | last counted unheld ends =>
      rw [counted] at htally
      have hover : Over call.id (calls ++ [call]) :=
        over_concat.2 (Or.inr ((unheld_iff htally).2 unheld))
      simp only [markDisposed, cell] at hafter
      refine .ended (b := b) hover ?_ ?_ ?_
      · rw [hafter]
        exact Table.get?_erase_self _ _
      · rw [hafter]
        exact Table.get?_insert_self _ _ _
      · rw [hdisposals, if_pos rfl, List.count_append, disposals, List.count_singleton_self]

theorem concat (h : Stage calls id) (new : call.registers? = some id → id ∉ registrations calls) :
    Stage (calls ++ [call]) id := by
  by_cases hid : id = call.id
  · subst hid
    cases hcall : call.registers? with
    | none => exact h.own hcall
    | some j =>
      cases call with
      | register i b => exact h.register (new rfl) b
      | acquire i => cases hcall
      | release i => cases hcall
      | finish i => cases hcall
  · exact h.other hid

/-- The registry has the claims of the blobs that are active. -/
theorem claims_eq (h : Stage calls id) :
    (Active id calls →
        ∃ c, Registry.tally id calls = some c ∧ (after calls).claims.get? id = some c) ∧
      (¬ Active id calls → (after calls).claims.get? id = none) := by
  cases h with
  | unknown unregistered claims cell disposals =>
    exact ⟨fun hactive => absurd hactive.1 unregistered, fun _ => claims⟩
  | active active tally claims cell disposals =>
    exact ⟨fun _ => ⟨_, tally, claims⟩, fun hno => absurd active hno⟩
  | ended gone claims cell disposals =>
    exact ⟨fun hactive => absurd gone hactive.2, fun _ => claims⟩

/-- An active blob has a holder. -/
theorem held (h : Stage calls id) (hc : (after calls).claims.get? id = some c) :
    c.producerOpen = true ∨ 0 < c.consumers := by
  cases h with
  | unknown unregistered claims cell disposals => simp [claims] at hc
  | active active tally claims cell disposals =>
    rw [claims] at hc
    cases hc
    have hheld := mt (fun hreleased => ⟨calls, List.prefix_rfl, hreleased⟩) active.2
    rw [unheld_iff tally, released_iff, not_and_or, Bool.not_eq_false] at hheld
    exact hheld.imp_right Nat.pos_of_ne_zero
  | ended gone claims cell disposals => simp [claims] at hc

/-- The cells that are marked are those of the blobs that came and went. -/
theorem isDisposed_iff (h : Stage calls id) :
    (after calls).isDisposed id = true ↔
      id ∈ registrations calls ∧ (after calls).claims.get? id = none := by
  unfold isDisposed
  cases h with
  | unknown unregistered claims cell disposals => simp [cell, unregistered]
  | active active tally claims cell disposals => simp [cell, claims]
  | ended gone claims cell disposals => simp [cell, claims, gone.registered]

/-- An acquisition succeeds while the blob is active. -/
theorem acquire (h : Stage calls id) :
    ∃ done, ((after calls).perform (.acquire id)).1 = .acquired done ∧
      (done = true ↔ Active id calls) := by
  cases h with
  | unknown unregistered claims cell disposals =>
    refine ⟨false, by simp [perform, claim, claims], ?_⟩
    exact iff_of_false Bool.false_ne_true fun hactive => unregistered hactive.1
  | active active tally claims cell disposals =>
    exact ⟨true, by simp [perform, claim, claims], iff_of_true rfl active⟩
  | ended gone claims cell disposals =>
    refine ⟨false, by simp [perform, claim, claims], ?_⟩
    exact iff_of_false Bool.false_ne_true fun hactive => hactive.2 gone

/-- The end of a claim is the last one when it leaves the blob without a holder for the first time,
and ends nothing when the blob is not active. -/
theorem ends (h : Stage calls call.id) (hends : call.endsClaim = true) :
    ∃ release, ((after calls).perform call).1 = .ended release ∧ EndsAs calls call release := by
  have hcall : call.registers? = none := by cases call <;> first | rfl | cases hends
  have habsent : ¬ Active call.id calls →
      ((after calls).perform call).1 = .ended .absent ∧ EndsAs calls call .absent := by
    intro hno
    rw [perform_missing (h.claims_eq.2 hno) hcall, if_pos hends]
    exact ⟨rfl, by simp [hno], by simp [hno], by simp [hno]⟩
  cases h with
  | unknown unregistered claims cell disposals =>
    exact ⟨.absent, habsent fun hactive => unregistered hactive.1⟩
  | ended gone claims cell disposals =>
    exact ⟨.absent, habsent fun hactive => hactive.2 gone⟩
  | active active tally claims cell disposals =>
    have htally := tally_concat call.id calls call
    rw [if_pos rfl, tally] at htally
    have heffect := perform_claimed claims hcall
    generalize (after calls).perform call = performed at heffect
    cases heffect with
    | kept counted held =>
      rw [counted] at htally
      have hheld : ¬ Unheld call.id (calls ++ [call]) := by
        rw [unheld_iff htally, held]
        exact Bool.false_ne_true
      rw [if_pos hends]
      exact ⟨.retained, rfl, by simp [hheld], by simp [active, hheld], by simp [active]⟩
    | last counted unheld ends =>
      rw [counted] at htally
      have hunheld : Unheld call.id (calls ++ [call]) := (unheld_iff htally).2 unheld
      exact ⟨.last, rfl, by simp [active, hunheld], by simp [hunheld], by simp [active]⟩

end Stage

theorem stage_after (once : (registrations calls).Nodup) (id : BlobId) : Stage calls id := by
  induction calls using List.reverseRecOn with
  | nil => exact .unknown List.not_mem_nil rfl rfl rfl
  | append_singleton calls call ih =>
    rw [registrations_concat, List.nodup_append] at once
    refine (ih once.1).concat ?_
    intro hcall hmem
    exact once.2.2 id hmem id (by simp [hcall]) rfl

/-- However the registry is called, as long as no blob is registered twice: its answers and its state
are as said. -/
theorem answers_follow_the_calls (once : (registrations calls).Nodup) : FollowsCalls calls := by
  have hstage : ∀ front, front <+: calls → ∀ id, Stage front id := fun front hfront =>
    stage_after (once.sublist (hfront.sublist.filterMap RegistryCall.registers?))
  have hlast := hstage calls List.prefix_rfl
  refine {
    held := fun id c hc => (hlast id).held hc
    entered := fun id => (hlast id).claims_eq.1
    missing := fun id => (hlast id).claims_eq.2
    marked := fun id => (hlast id).isDisposed_iff
    acquires := ?_
    ends := ?_
    once := ?_
    others := ?_ }
  · rintro front id back rfl
    rw [answer_at]
    simp only [Option.some.injEq]
    exact (hstage front (List.prefix_append _ _) id).acquire
  · rintro front call back rfl hends
    rw [answer_at]
    simp only [Option.some.injEq]
    exact (hstage front (List.prefix_append _ _) call.id).ends hends
  · rw [List.nodup_iff_count]
    intro id
    cases hlast id with
    | unknown unregistered claims cell disposals => omega
    | active active tally claims cell disposals => omega
    | ended gone claims cell disposals => omega
  · rintro front call back rfl id hid
    rw [after_concat]
    exact perform_other (after front) call hid

/-- Each kind of a call out of turn: the blob is released before it is registered and before anybody
claims it, finished twice, and released and claimed when it is over. -/
theorem answers_out_of_turn :
    let calls : List RegistryCall := [.release ⟨1⟩, .register ⟨1⟩ ⟨[], 16, .standard⟩, .release ⟨1⟩,
      .acquire ⟨1⟩, .finish ⟨1⟩, .finish ⟨1⟩, .acquire ⟨2⟩, .release ⟨1⟩, .release ⟨1⟩, .acquire ⟨1⟩]
    (registrations calls).Nodup ∧ FollowsCalls calls ∧
      answers calls = [.ended .absent, .registered, .ended .retained, .acquired true,
        .ended .retained, .ended .retained, .acquired false, .ended .last, .ended .absent,
        .acquired false] ∧
      disposals calls = [⟨1⟩] ∧ (after calls).isDisposed ⟨1⟩ = true := by
  intro calls
  have honce : (registrations calls).Nodup := by decide
  exact ⟨honce, answers_follow_the_calls honce, by decide, by decide, by decide⟩

end Registry

end BlobExchange
