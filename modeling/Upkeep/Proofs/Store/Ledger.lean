/-
# What becomes of every admitted job

A store forgets: a sweep drops old jobs, and a finished job that is one too many pushes the
oldest one out. A ledger goes along with a run of operations and writes down what the store
itself does not keep, namely which jobs were admitted and which ones were dropped.

The books of a ledger balance: what is held and what was dropped is exactly what was admitted. So
if no identifier is used twice, every admitted job is in exactly one place, and a look-up finds
the same record of a finished job until it is dropped.
-/

import Upkeep.Proofs.Store.Effect

namespace Upkeep

namespace Store

/-- A job whose identifier no store entry has is not found. -/
theorem find?_eq_none_iff {store : Store} {id : JobId} :
    store.find? id = none ↔ id ∉ store.ids := by
  simp only [find?, Option.or_eq_none_iff, Option.filter_eq_none_iff, List.find?_eq_none,
    List.mem_reverse, decide_eq_true_eq, ids, List.map_append, List.mem_append, List.mem_map,
    Option.mem_toList, not_or, not_exists, not_and]

/-- What is found is held by the store and has the identifier that was asked for. -/
theorem mem_of_find?_eq_some {store : Store} {id : JobId} {job : Job}
    (hfound : store.find? id = some job) :
    job ∈ store.current.toList ++ store.history ∧ job.id = id := by
  unfold find? at hfound
  rw [Option.or_eq_some_iff] at hfound
  rcases hfound with hcurrent | ⟨-, hhistory⟩
  · rw [Option.filter_eq_some_iff] at hcurrent
    exact ⟨List.mem_append_left _ (by simp [hcurrent.1]), by simpa using hcurrent.2⟩
  · have hmem := List.mem_of_find?_eq_some hhistory
    exact ⟨List.mem_append_right _ (List.mem_reverse.1 hmem),
      by simpa using List.find?_some hhistory⟩

/-- With distinct identifiers, exactly the jobs that the store holds are found. -/
theorem find?_eq_some_iff {store : Store} (hnodup : store.ids.Nodup) {id : JobId} {job : Job} :
    store.find? id = some job ↔ job ∈ store.current.toList ++ store.history ∧ job.id = id := by
  refine ⟨mem_of_find?_eq_some, ?_⟩
  rintro ⟨hheld, rfl⟩
  cases hfound : store.find? job.id with
  | none =>
      have hmem : job.id ∈ store.ids := List.mem_map_of_mem hheld
      exact absurd hmem (find?_eq_none_iff.1 hfound)
  | some found =>
      obtain ⟨hother, hsame⟩ := mem_of_find?_eq_some hfound
      rw [List.inj_on_of_nodup_map hnodup hother hheld hsame]

/-- With distinct identifiers, each job of the history is found as it is there. -/
theorem find?_of_mem_history {store : Store} (hnodup : store.ids.Nodup) {job : Job}
    (hjob : job ∈ store.history) : store.find? job.id = some job :=
  (find?_eq_some_iff hnodup).2 ⟨List.mem_append_right _ hjob, rfl⟩

end Store

/-- A store with what it does not keep itself. -/
structure Ledger where
  store : Store
  /-- The identifiers of the admitted jobs, in order. -/
  admitted : List JobId := []
  /-- The jobs that were dropped from the history, in order. -/
  dropped : List Job := []

namespace Ledger

/-- The ledger of an empty store. -/
def blank (maxHistory : Nat) : Ledger where
  store := ⟨maxHistory, none, []⟩

/-- The ledger after an operation. -/
def enter (ledger : Ledger) (deed : Store.Deed) : Ledger where
  store := ledger.store.apply deed.1 deed.2
  admitted := ledger.admitted ++ (ledger.store.admits deed.1).map Job.id
  dropped := ledger.dropped ++ ledger.store.drops deed.1 deed.2

/-- The ledger of a run of operations on a store that was empty at first. -/
def run (maxHistory : Nat) (deeds : List Store.Deed) : Ledger :=
  deeds.foldl enter (blank maxHistory)

/-- A ledger whose store is sound, and in which the jobs held and the jobs dropped are together
the jobs admitted. -/
structure Balanced (ledger : Ledger) : Prop where
  sound : ledger.store.Sound
  perm : (ledger.store.ids ++ ledger.dropped.map Job.id).Perm ledger.admitted

/-- A finished job that the ledger knows of, whether it is still in the history or not. -/
def Knows (ledger : Ledger) (job : Job) : Prop :=
  job ∈ ledger.store.history ∨ job ∈ ledger.dropped

/-- An operation on the store of a balanced ledger has one of the four effects. -/
theorem Balanced.effect {ledger : Ledger} (hbalanced : ledger.Balanced) (deed : Store.Deed) :
    Store.Effect ledger.store (ledger.store.admits deed.1) (ledger.store.drops deed.1 deed.2)
      (ledger.enter deed).store :=
  hbalanced.sound.effect deed.1 deed.2

theorem balanced_blank (maxHistory : Nat) : (blank maxHistory).Balanced :=
  ⟨⟨by simp [blank], Nat.zero_le _, by simp [blank]⟩, .refl _⟩

/-- No operation upsets the balance. -/
theorem Balanced.enter {ledger : Ledger} (hbalanced : ledger.Balanced) (deed : Store.Deed) :
    (ledger.enter deed).Balanced := by
  have heffect := hbalanced.effect deed
  refine ⟨heffect.sound hbalanced.sound, List.perm_iff_count.2 ?_⟩
  intro id
  have hmoved := heffect.perm.count_eq id
  have hbefore := hbalanced.perm.count_eq id
  simp only [Ledger.enter, List.map_append, List.count_append] at hmoved hbefore ⊢
  omega

theorem Balanced.foldl {ledger : Ledger} (hbalanced : ledger.Balanced)
    (deeds : List Store.Deed) : (deeds.foldl Ledger.enter ledger).Balanced := by
  induction deeds generalizing ledger with
  | nil => exact hbalanced
  | cons deed deeds ih => exact ih (hbalanced.enter deed)

/-- The ledger of every run is balanced. -/
theorem balanced_run (maxHistory : Nat) (deeds : List Store.Deed) :
    (run maxHistory deeds).Balanced :=
  (balanced_blank maxHistory).foldl deeds

theorem run_append (maxHistory : Nat) (earlier later : List Store.Deed) :
    run maxHistory (earlier ++ later) = later.foldl enter (run maxHistory earlier) :=
  List.foldl_append ..

/-- The number of jobs that are kept does not change in a run. -/
theorem maxHistory_run (maxHistory : Nat) (deeds : List Store.Deed) :
    (run maxHistory deeds).store.maxHistory = maxHistory := by
  suffices h : ∀ (deeds : List Store.Deed) (ledger : Ledger), ledger.Balanced →
      (deeds.foldl enter ledger).store.maxHistory = ledger.store.maxHistory from
    h deeds _ (balanced_blank maxHistory)
  intro deeds
  induction deeds with
  | nil => exact fun _ _ => rfl
  | cons deed deeds ih =>
      intro ledger hbalanced
      exact (ih _ (hbalanced.enter deed)).trans (hbalanced.effect deed).maxHistory_eq

/-- A run of operations only adds to what is written down. -/
theorem prefix_foldl (ledger : Ledger) (deeds : List Store.Deed) :
    ledger.admitted <+: (deeds.foldl enter ledger).admitted ∧
      ledger.dropped <+: (deeds.foldl enter ledger).dropped := by
  induction deeds generalizing ledger with
  | nil => exact ⟨List.prefix_rfl, List.prefix_rfl⟩
  | cons deed deeds ih =>
      obtain ⟨hadmitted, hdropped⟩ := ih (ledger.enter deed)
      exact ⟨(List.prefix_append ..).trans hadmitted, (List.prefix_append ..).trans hdropped⟩

/-- A finished job that a ledger knows of is not forgotten by an operation. -/
theorem Knows.enter {ledger : Ledger} (hbalanced : ledger.Balanced) {job : Job}
    (hknows : ledger.Knows job) (deed : Store.Deed) : (ledger.enter deed).Knows job := by
  rcases hknows with hkept | hdropped
  · rcases (hbalanced.effect deed).mem_history hkept with hstays | hleaves
    · exact .inl hstays
    · exact .inr (List.mem_append_right _ hleaves)
  · exact .inr (List.mem_append_left _ hdropped)

theorem Knows.foldl {ledger : Ledger} (hbalanced : ledger.Balanced) {job : Job}
    (hknows : ledger.Knows job) (deeds : List Store.Deed) :
    (deeds.foldl Ledger.enter ledger).Knows job := by
  induction deeds generalizing ledger with
  | nil => exact hknows
  | cons deed deeds ih => exact ih (hbalanced.enter deed) (hknows.enter hbalanced deed)

/-- A ledger that was kept from an empty store on. -/
def Kept (ledger : Ledger) : Prop :=
  ∃ maxHistory deeds, ledger = run maxHistory deeds

theorem Kept.balanced {ledger : Ledger} (hkept : ledger.Kept) : ledger.Balanced := by
  obtain ⟨maxHistory, deeds, rfl⟩ := hkept
  exact balanced_run maxHistory deeds

theorem Kept.enter {ledger : Ledger} (hkept : ledger.Kept) (deed : Store.Deed) :
    (ledger.enter deed).Kept := by
  obtain ⟨maxHistory, deeds, rfl⟩ := hkept
  exact ⟨maxHistory, deeds ++ [deed], by simp [run_append]⟩

/-- A pending job that meets a free slot is admitted. -/
theorem enter_tryStart_of_free {ledger : Ledger} (hfree : ledger.store.current = none) {job : Job}
    (hpending : job.status = .pending) (now : Timestamp) :
    ledger.enter (.tryStart job, now) =
      { ledger with
        store := { ledger.store with current := some { job with state := .running } }
        admitted := ledger.admitted ++ [job.id] } := by
  simp [enter, Store.apply, Store.admits, Store.drops, Store.ends?,
    Store.tryStart_of_free hfree hpending]

/-- Ending the job that holds the slot frees the slot, and the ledger knows from then on how the
job ended. -/
theorem Balanced.enter_conclude {ledger : Ledger} (hbalanced : ledger.Balanced) {id : JobId}
    (hcurrent : ledger.store.current.map Job.id = some id) (failure : Option String)
    (now : Timestamp) :
    (ledger.enter (.conclude id failure, now)).store.current = none ∧
      (ledger.enter (.conclude id failure, now)).admitted = ledger.admitted ∧
      ∃ job, (ledger.enter (.conclude id failure, now)).Knows job ∧ job.id = id ∧
        job.EndedWith failure := by
  obtain ⟨job, hjob, rfl⟩ := Option.map_eq_some_iff.1 hcurrent
  obtain ⟨ended, hends, hended, happly, hdrops⟩ := hbalanced.sound.conclude hjob failure now
  have hstore : (ledger.enter (.conclude job.id failure, now)).store =
      ⟨ledger.store.maxHistory, none,
        Store.keepNewest ledger.store.maxHistory (ledger.store.history ++ [ended])⟩ := happly
  have hmem : ended ∈ ledger.store.history ++ [ended] := by simp
  rw [← Store.overflow_append_keepNewest ledger.store.maxHistory (_ ++ _), List.mem_append]
    at hmem
  refine ⟨congrArg Store.current hstore, ?_, ended, ?_, hends.same_id, hended⟩
  · cases failure <;> exact List.append_nil _
  · rcases hmem with hdropped | hkept
    · exact .inr (List.mem_append_right _ (hdrops ▸ hdropped))
    · exact .inl (hstore ▸ hkept)

/-- If no identifier was used twice, no two of the jobs held and dropped share one. -/
theorem Balanced.nodup {ledger : Ledger} (hbalanced : ledger.Balanced)
    (hdistinct : ledger.admitted.Nodup) :
    (ledger.store.ids ++ ledger.dropped.map Job.id).Nodup :=
  hbalanced.perm.nodup_iff.2 hdistinct

/-- If no identifier was used twice, a finished job that the ledger knows of is found as it
ended until it is dropped, and is not found from then on. -/
theorem Balanced.find?_of_knows {ledger : Ledger} (hbalanced : ledger.Balanced)
    (hdistinct : ledger.admitted.Nodup) {job : Job} (hknows : ledger.Knows job) :
    ledger.store.find? job.id = some job ∨
      ledger.store.find? job.id = none ∧ job ∈ ledger.dropped := by
  obtain ⟨hheld, -, hapart⟩ := List.nodup_append.1 (hbalanced.nodup hdistinct)
  rcases hknows with hkept | hdropped
  · exact .inl (Store.find?_of_mem_history hheld hkept)
  · refine .inr ⟨Store.find?_eq_none_iff.2 ?_, hdropped⟩
    intro hmem
    exact hapart _ hmem _ (List.mem_map_of_mem hdropped) rfl

/-- The store keeps its integrity over every run of operations at whatever clock readings. The
slot holds a running job, the history a bounded number of finished ones, and only a free slot is
given away, to a pending job. If the admitted jobs have distinct identifiers, each of them is
in exactly one place, where being dropped is for good, and a look-up answers with the same
record of a finished job until it is dropped. -/
theorem integrity_of_run (maxHistory : Nat) (deeds : List Store.Deed) :
    let ledger := run maxHistory deeds
    ledger.store.Sound ∧ ledger.store.maxHistory = maxHistory ∧
    (∀ job, (ledger.store.tryStart job).1 = true ↔
      ledger.store.current = none ∧ job.status = .pending) ∧
    (ledger.admitted.Nodup →
      (∀ id ∈ ledger.admitted,
        (ledger.store.current.toList.map Job.id).count id +
          (ledger.store.history.map Job.id).count id +
          (ledger.dropped.map Job.id).count id = 1) ∧
      ∀ earlier later, deeds = earlier ++ later →
        (run maxHistory earlier).dropped <+: ledger.dropped ∧
        ∀ job ∈ (run maxHistory earlier).store.history,
          (run maxHistory earlier).store.find? job.id = some job ∧
          (ledger.store.find? job.id = some job ∨
            ledger.store.find? job.id = none ∧ job ∈ ledger.dropped)) := by
  intro ledger
  have hbalanced : ledger.Balanced := balanced_run maxHistory deeds
  refine ⟨hbalanced.sound, maxHistory_run maxHistory deeds, hbalanced.sound.tryStart_iff,
    fun hdistinct => ⟨?_, ?_⟩⟩
  · intro id hid
    have hcount := hbalanced.perm.count_eq id
    rw [List.count_eq_one_of_mem hdistinct hid] at hcount
    simpa only [Store.ids, List.map_append, List.count_append] using hcount
  · intro earlier later hdeeds
    have hbefore := balanced_run maxHistory earlier
    have hledger : ledger = later.foldl enter (run maxHistory earlier) := by
      rw [← run_append, ← hdeeds]
    obtain ⟨hadmitted, hdropped⟩ := prefix_foldl (run maxHistory earlier) later
    rw [← hledger] at hadmitted hdropped
    refine ⟨hdropped, fun job hjob => ⟨?_, ?_⟩⟩
    · have hnodup := hbefore.nodup (hdistinct.sublist hadmitted.sublist)
      exact Store.find?_of_mem_history (List.nodup_append.1 hnodup).1 hjob
    · have hknows : ledger.Knows job := hledger ▸ Knows.foldl hbefore (.inl hjob) later
      exact hbalanced.find?_of_knows hdistinct hknows

end Ledger

end Upkeep
