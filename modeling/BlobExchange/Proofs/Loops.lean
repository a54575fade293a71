/-! # Loops with a verdict

A loop stops where no round is entered or behind a round that gives a verdict. It does stop if
rounds without a verdict use up something (`exists_stops`). -/

namespace BlobExchange

/-- A loop over states: the state in which a round is made, if one is entered, the state that the
round leaves, and its verdict, if it is the last one. -/
structure Loop (σ ε : Type) where
  enter : σ → Option σ
  next : σ → σ
  verdict : σ → Option ε

namespace Loop

variable {σ ε : Type}

/-- The rounds that lead from one state to another. -/
inductive Leads (l : Loop σ ε) : σ → List σ → σ → Prop where
  | stay (r : σ) : Leads l r [] r
  | round {r w last : σ} {rounds : List σ} (enter : l.enter r = some w)
    (later : Leads l (l.next w) rounds last) : Leads l r (w :: rounds) last

/-- How a loop stops behind its rounds: with the verdict of the last one, or without one. -/
inductive Stops (l : Loop σ ε) : List σ → σ → Option ε → Prop where
  | idle {rounds : List σ} {last : σ} (onward : ∀ w ∈ rounds, l.verdict w = none)
    (idle : l.enter last = none) : Stops l rounds last none
  | ended {rounds : List σ} {w : σ} {e : ε} (onward : ∀ v ∈ rounds, l.verdict v = none)
    (verdict : l.verdict w = some e) : Stops l (rounds ++ [w]) (l.next w) (some e)

variable {l : Loop σ ε} {r w last : σ} {rounds : List σ} {stop : Option ε}

namespace Leads

/-- A list of rounds can be broken off in front of any of them. -/
theorem split {front back : List σ} (h : l.Leads r (front ++ w :: back) last) :
    ∃ q, l.Leads r front q ∧ l.enter q = some w := by
  induction front generalizing r with
  | nil =>
    cases h with
    | round enter later => exact ⟨r, .stay r, enter⟩
  | cons v front ih =>
    cases h with
    | round enter later =>
      obtain ⟨q, hfront, hq⟩ := ih later
      exact ⟨q, .round enter hfront, hq⟩

/-- If entering a round turns `P` into `Q` and leaving it turns `Q` into `P`, then all rounds are
made with `Q` and lead to `P`. -/
theorem keeps {P Q : σ → Prop} (enters : ∀ r w, P r → l.enter r = some w → Q w)
    (leaves : ∀ w, Q w → P (l.next w)) (h : l.Leads r rounds last) (hr : P r) :
    (∀ w ∈ rounds, Q w) ∧ P last := by
  induction h with
  | stay r => exact ⟨fun _ hw => absurd hw List.not_mem_nil, hr⟩
  | round enter later ih =>
    have hw := enters _ _ hr enter
    obtain ⟨hrounds, hlast⟩ := ih (leaves _ hw)
    exact ⟨List.forall_mem_cons.2 ⟨hw, hrounds⟩, hlast⟩

end Leads

namespace Stops

theorem cons (hw : l.verdict w = none) (h : l.Stops rounds last stop) :
    l.Stops (w :: rounds) last stop := by
  cases h with
  | idle onward idle => exact .idle (List.forall_mem_cons.2 ⟨hw, onward⟩) idle
  | ended onward verdict => exact .ended (List.forall_mem_cons.2 ⟨hw, onward⟩) verdict

theorem onward (h : l.Stops rounds last stop) : ∀ w ∈ rounds.dropLast, l.verdict w = none := by
  cases h with
  | idle onward => exact fun w hw => onward w (List.dropLast_subset rounds hw)
  | ended onward =>
    rw [List.dropLast_concat]
    exact onward

theorem of_verdict {e : ε} (h : l.Stops rounds last stop) (hw : w ∈ rounds)
    (hverdict : l.verdict w = some e) : last = l.next w ∧ stop = some e := by
  have hno : ∀ {front : List σ}, (∀ v ∈ front, l.verdict v = none) → w ∉ front := by
    intro front onward hfront
    rw [onward w hfront] at hverdict
    cases hverdict
  cases h with
  | idle onward => exact absurd hw (hno onward)
  | ended onward verdict =>
    rw [List.mem_append, List.mem_singleton] at hw
    rcases hw with hw | rfl
    · exact absurd hw (hno onward)
    · exact ⟨rfl, verdict.symm.trans hverdict⟩

theorem verdict_iff (h : l.Stops rounds last stop) {e : ε} :
    stop = some e ↔ ∃ w ∈ rounds, l.verdict w = some e := by
  constructor
  · rintro rfl
    cases h with
    | @ended rounds w e onward verdict => exact ⟨w, by simp, verdict⟩
  · rintro ⟨w, hw, hverdict⟩
    exact (h.of_verdict hw hverdict).2

end Stops

/-- A loop stops if there is something left where a round is entered, and less of it behind a round
that goes on. There are at most as many rounds as there is of it. -/
theorem exists_stops (l : Loop σ ε) (extent : σ → Nat)
    (left : ∀ r w, l.enter r = some w → 0 < extent r)
    (less : ∀ r w, l.enter r = some w → l.verdict w = none → extent (l.next w) < extent r) (r : σ) :
    ∃ rounds last stop, l.Leads r rounds last ∧ l.Stops rounds last stop ∧
      rounds.length ≤ extent r := by
  induction hn : extent r using Nat.strongRecOn generalizing r with
  | ind n ih =>
    cases enter : l.enter r with
    | none =>
      refine ⟨[], r, none, .stay r, .idle (fun _ hw => absurd hw List.not_mem_nil) enter, ?_⟩
      exact Nat.zero_le n
    | some w =>
      cases hverdict : l.verdict w with
      | some e =>
        refine ⟨[w], l.next w, some e, .round enter (.stay _), ?_, hn ▸ left r w enter⟩
        show l.Stops ([] ++ [w]) (l.next w) (some e)
        exact .ended (fun _ hw => absurd hw List.not_mem_nil) hverdict
      | none =>
        have hless : extent (l.next w) < n := hn ▸ less r w enter hverdict
        obtain ⟨rounds, last, stop, hleads, hstops, hlength⟩ := ih _ hless (l.next w) rfl
        refine ⟨w :: rounds, last, stop, .round enter hleads, hstops.cons hverdict, ?_⟩
        rw [List.length_cons]
        omega

end Loop

end BlobExchange
