import BlobExchange.Proofs.Ending
import Mathlib.Algebra.Order.BigOperators.Group.List
import Mathlib.Algebra.Order.Group.Nat
/-! # The idle budget

Only a disposal adds to the idle buffers, and it gives up what exceeds the budget. -/

namespace BlobExchange

/-- What is left of idle buffers, listed by age, when the longest idle ones are given up until the
others take up no more than `keep` bytes, and no more of them than it takes. -/
structure GivesUpOldest (keep : Nat) (idle left : List (Handle × Buffer)) : Prop where
  light : weight left ≤ keep
  fewest : ∃ count, left = idle.drop count ∧ ∀ fewer, weight (idle.drop fewer) ≤ keep → count ≤ fewer

section GivesUp

variable {idle left : List (Handle × Buffer)}

theorem weight_sublist (h : left.Sublist idle) : weight left ≤ weight idle :=
  (h.map _).sum_le_sum fun _ _ => Nat.zero_le _

theorem givesUpOldest_lighter (keep : Nat) (idle : List (Handle × Buffer)) :
    GivesUpOldest keep idle (lighter keep idle) := by
  refine ⟨weight_lighter keep idle, ?_⟩
  induction idle with
  | nil => exact ⟨0, rfl, fun _ _ => Nat.zero_le _⟩
  | cons e rest ih =>
    rw [lighter]
    split
    · exact ⟨0, rfl, fun _ _ => Nat.zero_le _⟩
    · rename_i hheavy
      obtain ⟨count, hleft, hfewest⟩ := ih
      refine ⟨count + 1, hleft, ?_⟩
      intro fewer hfewer
      cases fewer with
      | zero => exact absurd hfewer hheavy
      | succ fewer => exact Nat.succ_le_succ (hfewest fewer hfewer)

end GivesUp

namespace Exchange

variable {x y : Exchange} {budget : Nat}

/-- The idle buffers are listed in the order in which they came back, their bytes are counted, and
the budget permits them. -/
structure WithinBudget (budget : Nat) (x : Exchange) : Prop where
  listed : ∀ h b, (h, b) ∈ x.pool.idle ↔ x.pool.claimed? h = some b
  once : (x.pool.idle.map Prod.fst).Nodup
  byAge : x.pool.idle.Pairwise fun d e => ∀ k l, (k, d.1) ∈ x.shelf.entries →
    (l, e.1) ∈ x.shelf.entries → k.insertion < l.insertion
  bytes : x.pool.idleBytes = weight x.pool.idle
  bound : x.pool.idleBytes ≤ budget

/-- What a disposal leaves idle: the buffers that came back last, as many as the budget permits. Each
has just one entry on the shelf, under its capacity. It is the entry that it had; the buffer that
came back just now has the next one. -/
structure KeepsYoungest (budget : Nat) (x : Exchange) (b : Buffer) (others : Interference)
    (after : Exchange) : Prop where
  left : GivesUpOldest budget (x.waiting b others) after.pool.idle
  findable : after.Findable
  own : ∀ e ∈ after.pool.idle, ∀ key, (key, e.1) ∈ after.shelf.entries →
    if e.1 = x.parkedAt b others then key = ⟨b.capacity, x.shelfIds.upcoming⟩
    else (key, e.1) ∈ x.shelf.entries

theorem Tallied.keepsYoungest {id : BlobId} {b : Buffer} {others : Interference}
    (hx : x.Tallied .empty) (h : Ends x y id b others) (hy : y.Findable)
    (hbudget : x.settings.idleBudget = some budget) : x.KeepsYoungest budget b others y := by
  have hidle := h.idle hx
  rw [hbudget] at hidle
  have hnew := hx.inOrder.sync.key_new b.capacity
  refine ⟨?_, hy, ?_⟩
  · show GivesUpOldest budget _ y.pool.idle
    rw [hidle]
    exact givesUpOldest_lighter budget _
  · intro e _ key hkey
    rw [h.shelf] at hkey
    rcases (Shelf.mem_place hnew _).1 hkey with heq | hold
    · rw [if_pos (congrArg Prod.snd heq)]
      exact congrArg Prod.fst heq
    · rw [if_neg]
      · exact hold
      · intro heq
        rw [heq] at hold
        exact h.unshelved hx key hold

end Exchange

namespace Session

variable {s : Session} {settings : Settings} {supplier : Supplier} {budget : Nat}

/-- A command ends no blob and takes idle buffers away at most, or it ends one and gives the longest
idle buffers up. -/
def KeepsBudget (budget : Nat) (s : Session) (others : Interference) (command : Command) : Prop :=
  let after := (s.step others command).2.exchange
  (after.ended = s.exchange.ended ∧ s.exchange.Wanes after) ∨
    ∃ id b, after.ended = s.exchange.ended ++ [id] ∧
      (s.ending others command).registry.cells.get? id = some ⟨some b, false⟩ ∧
      s.exchange.Wanes (s.ending others command) ∧
      (s.ending others command).KeepsYoungest budget b others after

theorem keepsBudget (hs : s.Consistent) (hx : s.exchange.Tallied .empty)
    (hbudget : s.exchange.settings.idleBudget = some budget) (others : Interference)
    (command : Command) : s.KeepsBudget budget others command := by
  have hacts : Acts False s.exchange (s.step others command).2.exchange :=
    acts_step hs others command False.elim
  obtain ⟨hbefore, hnone⟩ := acts_ending hs others command
  rcases ends_step hs others command with hended | ⟨id, b, hends⟩
  · exact Or.inl ⟨hended, hacts.wanes hended⟩
  · right
    have hsettings : (s.ending others command).settings.idleBudget = some budget := by
      rw [hbefore.fixed.1]
      exact hbudget
    have hfindable := (hx.acts hacts).inOrder.findable
    refine ⟨id, b, ?_, hends.there, hbefore.wanes hnone, ?_⟩
    · rw [hends.ended, hnone]
    · exact (hx.acts hbefore).keepsYoungest hends hfindable hsettings

/-- A move leaves no more bytes idle than the budget permits. -/
theorem KeepsBudget.weight_move {m : Move} (h : s.KeepsBudget budget m.others m.command)
    (hs : weight s.exchange.pool.idle ≤ budget) : weight (s.move m).exchange.pool.idle ≤ budget := by
  rcases h with ⟨-, hwanes⟩ | ⟨id, b, -, -, -, hyoungest⟩
  · obtain ⟨lost, hlost⟩ := hwanes.pool
    exact (weight_sublist hlost.sublist).trans hs
  · exact hyoungest.left.light

theorem weight_run (hbudget : settings.idleBudget = some budget) (moves : List Move) :
    weight ((start settings supplier).run moves).exchange.pool.idle ≤ budget := by
  let P : Session → Prop := fun s => s.Consistent ∧ s.exchange.Tallied .empty ∧
    s.exchange.settings.idleBudget = some budget ∧ weight s.exchange.pool.idle ≤ budget
  have hfirst : P (start settings supplier) :=
    ⟨.start settings supplier, .assemble settings supplier, hbudget, Nat.zero_le budget⟩
  have hkept : ∀ s m, P s → P (s.move m) := by
    rintro s m ⟨hs, hx, hsettings, hweight⟩
    have hacts : Acts False s.exchange (s.move m).exchange :=
      acts_step hs m.others m.command False.elim
    refine ⟨consistent_step hs m.others m.command, hx.acts hacts, ?_, ?_⟩
    · rw [hacts.fixed.1]
      exact hsettings
    · exact (keepsBudget hs hx hsettings m.others m.command).weight_move hweight
  exact (run_induction hfirst hkept moves).2.2.2

/-- In every session with a budget, the idle buffers take up no more bytes than it permits. To that
end a disposal gives up the longest idle ones, as few as will do. -/
theorem idle_budget_is_kept (settings : Settings) (supplier : Supplier) (budget : Nat)
    (hbudget : settings.idleBudget = some budget) (moves : List Move) :
    let s := (start settings supplier).run moves
    s.exchange.WithinBudget budget ∧ ∀ others command, s.KeepsBudget budget others command := by
  intro s
  have hs : s.Consistent := consistent_run settings supplier moves
  have hx : s.exchange.Tallied .empty := tallied_run settings supplier moves
  have hsettings : s.exchange.settings = settings := (fixed_run settings supplier moves).1
  have hweight : weight s.exchange.pool.idle ≤ budget := weight_run hbudget moves
  rw [← hsettings] at hbudget
  refine ⟨⟨?_, hx.inOrder.ranks.distinct, hx.inOrder.ranks.ranked, hx.idleBytes, ?_⟩, ?_⟩
  · intro h b
    exact hx.inOrder.complete.mem_idle
  · rw [hx.idleBytes]
    exact hweight
  · exact keepsBudget hs hx hbudget

/-- Two blobs of four bytes have ended, and one of two bytes is active. -/
def smallToEnd : List Move :=
  [⟨.construct 4, .absent⟩, ⟨.construct 4, .absent⟩, ⟨.construct 2, .absent⟩,
    ⟨.finishWriter 0, .absent⟩, ⟨.finishWriter 1, .absent⟩]

/-- Eight bytes are permitted and idle. When two more come back, the older four go. -/
theorem older_four_give_way :
    let s := (start frugal (.exact frugal.growth)).run smallToEnd
    frugal.idleBudget = some 8 ∧ s.exchange.WithinBudget 8 ∧
      (∀ others command, s.KeepsBudget 8 others command) ∧
      s.exchange.pool.idle.map (fun e => (e.1.index, e.2.capacity)) = [(0, 4), (1, 4)] ∧
      (s.step .absent (.finishWriter 2)).2.exchange.pool.idle.map
        (fun e => (e.1.index, e.2.capacity)) = [(1, 4), (2, 2)] := by
  intro s
  obtain ⟨hwithin, hkept⟩ :=
    idle_budget_is_kept frugal (.exact frugal.growth) 8 rfl smallToEnd
  exact ⟨rfl, hwithin, hkept, by decide +kernel, by decide +kernel⟩

end Session

end BlobExchange
