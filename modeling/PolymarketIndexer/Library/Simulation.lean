import PolymarketIndexer.Library.Machine

/-! # Simulation

When related states answer each step of one machine with some steps of another and stay
related, they do so along a whole run.
-/

namespace Machine

variable {σ ι σ' ι' : Type*} {step : σ → ι → Option σ} {step' : σ' → ι' → Option σ'}

theorem exec_simulates {R : σ → σ' → Prop} {shows : ι → List ι' → Prop}
    (simulates : ∀ s u i t, R s u → step s i = some t →
      ∃ js v, shows i js ∧ exec step' u js = some v ∧ R t v)
    {s t : σ} {u : σ'} {is : List ι} (start : R s u) (run : exec step s is = some t) :
    ∃ jss v, List.Forall₂ shows is jss ∧ exec step' u jss.flatten = some v ∧ R t v := by
  induction is generalizing s u with
  | nil =>
      cases run
      exact ⟨[], u, .nil, rfl, start⟩
  | cons i is ih =>
      obtain ⟨s', first, rest⟩ := (exec_cons step).mp run
      obtain ⟨js, u', shown, moves, related⟩ := simulates s u i s' start first
      obtain ⟨jss, v, shown', moves', related'⟩ := ih related rest
      exact ⟨js :: jss, v, .cons shown shown', (exec_append step').mpr ⟨u', moves, moves'⟩,
        related'⟩

end Machine
