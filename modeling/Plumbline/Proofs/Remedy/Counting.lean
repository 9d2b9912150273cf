/-
Counting how often the tests are run.

`Crew.counting` is the same crew with a number beside its state, which every run of the tests raises
by one and nobody else can see.  A run with it is step by step the run without it, so that the number
at its end says how often the run without it has run its tests, whoever runs them.
-/
import Plumbline.Proofs.Remedy.Mirror

namespace Plumbline

variable {σ : Type} {apply : Applier σ}

/-- The same work beside a number that it raises by `k`. -/
def counted (k : Nat) {α : Type} (work : StateT σ DiskM α) : StateT (σ × Nat) DiskM α :=
  fun x => do
    let (a, c) ← work.run x.1
    pure (a, (c, x.2 + k))

/-- The same crew, which counts how often it runs the tests. -/
def Crew.counting (crew : Crew σ) : Crew (σ × Nat) where
  tests := crew.tests.map (counted 1)
  confirm path plans := counted 0 (crew.confirm path plans)
  format files := counted 0 (crew.format files)

def Applier.counting (apply : Applier σ) : Applier (σ × Nat) :=
  fun path plans => counted 0 (apply path plans)

/-- The same run, with a crew that counts how often it runs the tests. -/
def Remediation.counting (r : Remediation σ apply) : Remediation (σ × Nat) apply.counting where
  root := r.root
  config := r.config
  registry := r.registry
  crew := r.crew.counting

def RunState.counting (s : RunState σ) (n : Nat) : RunState (σ × Nat) where
  disk := s.disk
  crew := (s.crew, n)
  store := s.store
  cache := s.cache
  summary := s.summary

theorem RunM.mirrors_counted {α : Type} (k : Nat) (work : StateT σ DiskM α) :
    Mirrors (byCrew (counted k work)) (byCrew work) := fun _ => rfl

/-- A run that counts its tests is the run without the count. -/
theorem Remediation.shadows_counting (r : Remediation σ apply) : r.counting.Shadows r where
  root := rfl
  config := rfl
  registry := rfl
  untested h := by
    show r.crew.tests.map (counted 1) = none
    rw [h]
    rfl
  tests work h := by
    refine ⟨counted 1 work, ?_, RunM.mirrors_counted 1 work⟩
    show r.crew.tests.map (counted 1) = some (counted 1 work)
    rw [h]
    rfl
  confirm _ _ := RunM.mirrors_counted 0 _
  format _ := RunM.mirrors_counted 0 _
  apply _ _ := RunM.mirrors_counted 0 _

end Plumbline
