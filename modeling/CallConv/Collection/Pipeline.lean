/-!
# Lazy pipelines

A pipeline tests elements one by one, applies a function to those that pass, and hands the results
to a consumer that may stop it. Nothing is tested or computed after the stop.
-/

namespace CallConv

/-- What a run of a pipeline did, each list in order. -/
structure PipelineTrace (α β : Type) where
  /-- The elements that were tested. -/
  tested : List α
  /-- The elements that passed, to which the function was applied. -/
  mapped : List α
  /-- The results that the consumer took. -/
  taken : List β
deriving DecidableEq, Repr

namespace PipelineTrace

/-- A trace with a test that failed in front. -/
def reject {α β : Type} (a : α) (t : PipelineTrace α β) : PipelineTrace α β :=
  { t with tested := a :: t.tested }

/-- A trace with an element that passed in front. -/
def accept {α β : Type} (a : α) (b : β) (t : PipelineTrace α β) : PipelineTrace α β :=
  ⟨a :: t.tested, a :: t.mapped, b :: t.taken⟩

end PipelineTrace

/-- The run of a pipeline whose consumer stops once it has taken at least `limit` results, which it
checks after each result. -/
def runPipeline {α β : Type} (test : α → Bool) (f : α → β) : (limit : Nat) → List α →
    PipelineTrace α β
  | _, [] => ⟨[], [], []⟩
  | limit, a :: as =>
    if test a then
      if limit ≤ 1 then ⟨[a], [a], [f a]⟩ else (runPipeline test f (limit - 1) as).accept a (f a)
    else (runPipeline test f limit as).reject a

end CallConv
