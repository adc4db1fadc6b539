/-
# Running through time

Something that changes at instants: it knows the next instant at which anything is due, and can
be brought to an instant, where everything that is due happens. Running it to a target visits
the instants on the way one after the other, so nothing happens late, and may stop early at the
first one where a condition holds. Instants are nanoseconds since its beginning.
-/

namespace Upkeep

/-- Something that changes at instants. -/
structure Timeline (α : Type) where
  now : α → Nat
  /-- The next instant at which something is due. -/
  next? : α → Option Nat
  /-- Brings it to an instant. -/
  arrive : Nat → α → α
  now_arrive : ∀ instant x, now (arrive instant x) = instant

namespace Timeline

variable {α : Type}

/-- The instant to be visited next on the way to a target. -/
def nextStop (line : Timeline α) (target : Nat) (x : α) : Nat :=
  match line.next? x with
  | some instant => if line.now x < instant ∧ instant < target then instant else target
  | none => target

/-- The next stop lies ahead, and not behind the target. -/
theorem lt_nextStop_le (line : Timeline α) {target : Nat} {x : α} (h : line.now x < target) :
    line.now x < line.nextStop target x ∧ line.nextStop target x ≤ target := by
  unfold nextStop
  split
  · split
    · omega
    · omega
  · omega

/-- Runs to a target, or to the first instant on the way where `halt` holds. -/
def runTo (line : Timeline α) (halt : α → Bool) (target : Nat) (x : α) : α :=
  if _h : halt x = false ∧ line.now x < target then
    line.runTo halt target (line.arrive (line.nextStop target x) x)
  else x
termination_by target - line.now x
decreasing_by
  have := line.lt_nextStop_le _h.2
  rw [line.now_arrive]
  omega

/-- What every arrival on the way keeps is kept by the whole run. -/
theorem runTo_induction (line : Timeline α) {halt : α → Bool} {target : Nat} {P : α → Prop}
    (harrive : ∀ x instant, P x → line.now x < instant → instant ≤ target →
      P (line.arrive instant x)) {x : α} (h : P x) : P (line.runTo halt target x) := by
  fun_induction line.runTo halt target x with
  | case1 x hcond ih =>
    obtain ⟨hahead, hreached⟩ := line.lt_nextStop_le hcond.2
    exact ih (harrive _ _ h hahead hreached)
  | case2 => exact h

/-- Runs to a target without stopping early. -/
def advance (line : Timeline α) (target : Nat) (x : α) : α :=
  line.runTo (fun _ => false) target x

end Timeline

end Upkeep
