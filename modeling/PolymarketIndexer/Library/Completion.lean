import PolymarketIndexer.Library.Machine
import Mathlib.Tactic.Common

/-! # Runs that come to an end

Some inputs of a machine are work. When each of them lowers a measure that no other input
raises, the measure bounds how much work a run can do; when moreover some work is possible
until a goal is reached, work alone reaches it. Inputs that raise the measure by a fixed credit
pay for what is done with it later.
-/

namespace Machine

variable {σ ι : Type*}

structure Lowers (step : σ → ι → Option σ) (Inv : σ → Prop) (work : ι → Bool)
    (measure : σ → Nat) : Prop where
  keeps : ∀ s i t, Inv s → step s i = some t → Inv t
  lowers : ∀ s i t, Inv s → work i = true → step s i = some t → measure t < measure s

variable {step : σ → ι → Option σ} {Inv : σ → Prop} {work : ι → Bool} {measure : σ → Nat}
  {s t : σ} {is : List ι}

/-- No run does more work than the measure it starts with. -/
theorem Lowers.bounds (lowers : Lowers step Inv work measure)
    (idle : ∀ s i t, Inv s → work i = false → step s i = some t → measure t ≤ measure s)
    (start : Inv s) (run : exec step s is = some t) :
    is.countP work + measure t ≤ measure s := by
  induction is generalizing s with
  | nil =>
      cases run
      simp
  | cons i is ih =>
      obtain ⟨u, first, rest⟩ := (exec_cons step).mp run
      have later := ih (lowers.keeps s i u start first) rest
      cases kind : work i with
      | true =>
          have less := lowers.lowers s i u start kind first
          rw [List.countP_cons_of_pos kind]
          omega
      | false =>
          have le := idle s i u start kind first
          rw [List.countP_cons_of_neg (by simp [kind])]
          omega

/-- Work that is possible until the goal is reached reaches it. -/
theorem Lowers.reaches (lowers : Lowers step Inv work measure) {Goal : σ → Prop}
    (possible : ∀ s, Inv s → ¬Goal s → ∃ i t, work i = true ∧ step s i = some t)
    (start : Inv s) :
    ∃ is t, exec step s is = some t ∧ Goal t ∧ (∀ i ∈ is, work i = true) ∧
      is.length ≤ measure s := by
  induction left : measure s using Nat.strongRecOn generalizing s with
  | ind n ih =>
      by_cases reached : Goal s
      · exact ⟨[], s, rfl, reached, by simp, Nat.zero_le _⟩
      · obtain ⟨i, u, works, first⟩ := possible s start reached
        have less : measure u < n := left ▸ lowers.lowers s i u start works first
        obtain ⟨is, t, rest, goal, working, short⟩ :=
          ih (measure u) less (lowers.keeps s i u start first) rfl
        refine ⟨i :: is, t, (exec_cons step).mpr ⟨u, first, rest⟩, goal, ?_, ?_⟩
        · intro j member
          rcases List.mem_cons.mp member with rfl | later
          · exact works
          · exact working j later
        · rw [List.length_cons]
          omega

/-- Work is paid for by what the other inputs bring in, and by what there was at the start. -/
theorem amortised {earns : ι → Bool} {credit : Nat}
    (pays : ∀ s i t, step s i = some t → (if work i then 1 else 0) + measure t ≤
      measure s + if earns i then credit else 0)
    (run : exec step s is = some t) :
    is.countP work + measure t ≤ measure s + credit * is.countP earns := by
  induction is generalizing s with
  | nil =>
      cases run
      simp
  | cons i is ih =>
      obtain ⟨u, first, rest⟩ := (exec_cons step).mp run
      have now := pays s i u first
      have later := ih rest
      have count : credit * (is.countP earns + if earns i then 1 else 0) =
          credit * is.countP earns + if earns i then credit else 0 := by
        rw [Nat.mul_add]
        split <;> simp
      rw [List.countP_cons, List.countP_cons, count]
      omega

/-- A choice of inputs that lowers the measure until the goal is reached, reaches it. -/
theorem strategy_reaches {Goal : σ → Prop} {choice : σ → ι}
    (moves : ∀ s, Inv s → ¬Goal s → ∃ t, step s (choice s) = some t ∧ Inv t ∧ measure t < measure s)
    (start : Inv s) :
    ∃ is t, exec step s is = some t ∧ Goal t ∧ (∀ i ∈ is, ∃ u, Inv u ∧ ¬Goal u ∧ choice u = i) ∧
      is.length ≤ measure s := by
  induction left : measure s using Nat.strongRecOn generalizing s with
  | ind n ih =>
      by_cases reached : Goal s
      · exact ⟨[], s, rfl, reached, by simp, Nat.zero_le _⟩
      · obtain ⟨u, first, inv, less⟩ := moves s start reached
        obtain ⟨is, t, rest, goal, chosen, short⟩ := ih (measure u) (left ▸ less) inv rfl
        refine ⟨choice s :: is, t, (exec_cons step).mpr ⟨u, first, rest⟩, goal, ?_, ?_⟩
        · intro i member
          rcases List.mem_cons.mp member with rfl | later
          · exact ⟨s, start, reached, rfl⟩
          · exact chosen i later
        · rw [List.length_cons]
          omega

end Machine
