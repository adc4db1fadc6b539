/-
# Ledgers that grow

What is written down in a ledger stays there, whatever else is entered. So the way of one job can
be followed from one state of the ledger to all later ones: it is in the slot, then it is known as
it ended, and in the end it is dropped. It never goes back.
-/

import Upkeep.Proofs.Store.Ledger

namespace Upkeep

namespace Ledger

/-- A ledger into which further operations have been entered. -/
def GrowsInto (ledger later : Ledger) : Prop :=
  ∃ deeds : List Store.Deed, later = deeds.foldl enter ledger

namespace GrowsInto

variable {ledger between later : Ledger}

theorem refl (ledger : Ledger) : ledger.GrowsInto ledger :=
  ⟨[], rfl⟩

theorem trans (hfirst : ledger.GrowsInto between) (hthen : between.GrowsInto later) :
    ledger.GrowsInto later := by
  obtain ⟨deeds, rfl⟩ := hfirst
  obtain ⟨further, rfl⟩ := hthen
  exact ⟨deeds ++ further, (List.foldl_append ..).symm⟩

theorem enter (ledger : Ledger) (deed : Store.Deed) : ledger.GrowsInto (ledger.enter deed) :=
  ⟨[deed], rfl⟩

theorem kept (hgrows : ledger.GrowsInto later) (hkept : ledger.Kept) : later.Kept := by
  obtain ⟨further, rfl⟩ := hgrows
  obtain ⟨maxHistory, deeds, rfl⟩ := hkept
  exact ⟨maxHistory, deeds ++ further, (run_append ..).symm⟩

theorem admitted (hgrows : ledger.GrowsInto later) : ledger.admitted <+: later.admitted := by
  obtain ⟨deeds, rfl⟩ := hgrows
  exact (prefix_foldl ledger deeds).1

theorem dropped (hgrows : ledger.GrowsInto later) : ledger.dropped <+: later.dropped := by
  obtain ⟨deeds, rfl⟩ := hgrows
  exact (prefix_foldl ledger deeds).2

theorem knows (hgrows : ledger.GrowsInto later) (hkept : ledger.Kept) {job : Job}
    (hknows : ledger.Knows job) : later.Knows job := by
  obtain ⟨deeds, rfl⟩ := hgrows
  exact hknows.foldl hkept.balanced deeds

end GrowsInto

/-! ## The way of a job -/

variable {ledger later : Ledger} {job : Job}

/-- The ledger follows a job that was in the slot at some time: it still is, or the ledger knows
how it ended. -/
def Follows (ledger : Ledger) (job : Job) : Prop :=
  ledger.store.current = some job ∨ ∃ ended, job.EndsAs ended ∧ ledger.Knows ended

theorem Follows.enter (hfollows : ledger.Follows job) (hbalanced : ledger.Balanced)
    (deed : Store.Deed) : (ledger.enter deed).Follows job := by
  rcases hfollows with hcurrent | ⟨ended, hends, hknows⟩
  · rcases (hbalanced.effect deed).of_current hcurrent with hstays | ⟨ended, hends, hkept⟩
    · exact .inl hstays
    · exact .inr ⟨ended, hends, hkept.imp_right (List.mem_append_right _)⟩
  · exact .inr ⟨ended, hends, hknows.enter hbalanced deed⟩

/-- A job is not lost sight of. -/
theorem Follows.growsInto (hfollows : ledger.Follows job) (hkept : ledger.Kept)
    (hgrows : ledger.GrowsInto later) : later.Follows job := by
  obtain ⟨deeds, rfl⟩ := hgrows
  induction deeds generalizing ledger with
  | nil => exact hfollows
  | cons deed deeds ih => exact ih (hfollows.enter hkept.balanced deed) (hkept.enter deed)

/-- The job in the slot is found under its identifier. -/
theorem find?_of_current (hcurrent : ledger.store.current = some job) :
    ledger.store.find? job.id = some job := by
  simp [Store.find?, hcurrent]

/-- If no identifier was used twice, that of a job which was dropped is not found. -/
theorem Balanced.find?_of_dropped (hbalanced : ledger.Balanced)
    (hdistinct : ledger.admitted.Nodup) (hdropped : job ∈ ledger.dropped) :
    ledger.store.find? job.id = none := by
  obtain ⟨-, -, hapart⟩ := List.nodup_append.1 (hbalanced.nodup hdistinct)
  rw [Store.find?_eq_none_iff]
  exact fun hmem => hapart _ hmem _ (List.mem_map_of_mem hdropped) rfl

end Ledger

end Upkeep
