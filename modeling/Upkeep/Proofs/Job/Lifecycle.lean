/-
# A job goes one way

A job waits, runs, and ends well or badly. Every call is meant for one step of this way, and at any
other place it is refused: the refusal names the status that the job has, and nothing has been
written by then. What a call may answer on a record and what it leaves there is said once, by
`Step`, and everything else is read off it.

The end of a job and the reason of its failure are written by one call at most, for behind a call
that has ended the job there is no status left from which another could start. As long as there was
no such call, there is neither an end nor a reason.
-/

import Mathlib.Data.List.Induction
import Mathlib.Logic.Relation
import Upkeep.Job.Record

namespace Upkeep

/-- The later of two moments has the larger number of nanoseconds. -/
theorem Timestamp.nanos_later (s t : Timestamp) : (s.later t).nanos = max t.nanos s.nanos := by
  by_cases hle : s ≤ t
  · rw [later, if_pos hle]
    exact (Int.max_eq_left hle).symm
  · rw [later, if_neg hle]
    exact (Int.max_eq_right (Int.le_of_not_le hle)).symm

namespace Job

/-- The steps on the way of a job. -/
inductive Follows : JobStatus → JobStatus → Prop
  | runs : Follows .pending .running
  | endsWell : Follows .running .completed
  | endsBadly : Follows .running .failed

/-- The status that a call starts from. -/
def Call.source : Call → JobStatus
  | .run => .pending
  | .complete _ | .fail _ _ => .running

/-- The status that a call leads to. -/
def Call.target : Call → JobStatus
  | .run => .running
  | .complete _ => .completed
  | .fail _ _ => .failed

/-- The moment at which a call is to end a job. -/
def Call.now? : Call → Option Timestamp
  | .run => none
  | .complete now | .fail _ now => some now

/-- The reason for which a call is to end a job. -/
def Call.reason? : Call → Option String
  | .run | .complete _ => none
  | .fail reason _ => some reason

/-- From the end of the way no call starts. -/
theorem Call.source_ne_of_terminal {status : JobStatus} (hover : status.isTerminal = true)
    (call : Call) : status ≠ call.source := by
  rintro rfl
  cases call <;> cases hover

namespace Record

/-- What a call answers on a record, and the record that it leaves. -/
inductive Step (record : Record) : Call → Except InvalidTransition Unit → Record → Prop
  | run (hpending : record.status = .pending) :
      Step record .run (.ok ()) { record with status := .running }
  | complete {now ended : Timestamp} (hrunning : record.status = .running)
      (hended : ended.nanos = max now.nanos record.started.nanos) :
      Step record (.complete now) (.ok ())
        { record with status := .completed, ended? := some ended }
  | fail {reason : String} {now ended : Timestamp} (hrunning : record.status = .running)
      (hended : ended.nanos = max now.nanos record.started.nanos) :
      Step record (.fail reason now) (.ok ())
        { record with status := .failed, ended? := some ended, reason? := some reason }
  | refused {call : Call} (hother : record.status ≠ call.source) :
      Step record call (.error ⟨record.id, record.status, call.target⟩) record

/-! ## One call -/

section Steps

variable {record after : Record} {source target : JobStatus} {first : Change}
  {next : Unit → Change}

/-- A status that is the one to start from is moved. -/
theorem transition_of_eq (hsource : record.status = source) :
    transition source target record = .ok () { record with status := target } := by
  show (transition source target).run record = _
  simp [transition, hsource]

/-- The status is looked at before anything is written. -/
theorem transition_of_ne (hother : record.status ≠ source) :
    transition source target record = .error ⟨record.id, record.status, target⟩ record := by
  show (transition source target).run record = _
  simp [transition, hother]

theorem bind_of_ok (hfirst : first record = .ok () after) :
    (first >>= next) record = next () after := by
  show (first >>= next).run record = _
  rw [EStateM.run_bind, EStateM.run, hfirst]
  rfl

theorem bind_of_error {refused : InvalidTransition} (hfirst : first record = .error refused after) :
    (first >>= next) record = .error refused after := by
  show (first >>= next).run record = _
  rw [EStateM.run_bind, EStateM.run, hfirst]

end Steps

section Call

variable (record : Record) {call : Call}

/-- Every call looks at the status first, so one that is refused has written nothing. -/
theorem perform_of_ne (hother : record.status ≠ call.source) :
    record.perform call = (.error ⟨record.id, record.status, call.target⟩, record) := by
  have hchange : change call record = .error ⟨record.id, record.status, call.target⟩ record := by
    cases call with
    | run => exact transition_of_ne hother
    | complete now => exact bind_of_error (transition_of_ne hother)
    | fail reason now => exact bind_of_error (transition_of_ne hother)
  rw [perform, hchange]

theorem perform_run (hpending : record.status = .pending) :
    record.perform .run = (.ok (), { record with status := .running }) := by
  rw [perform, change, transition_of_eq hpending]

theorem perform_complete (hrunning : record.status = .running) (now : Timestamp) :
    record.perform (.complete now) = (.ok (),
      { record with status := .completed, ended? := some (record.started.later now) }) := by
  rw [perform, change, bind_of_ok (transition_of_eq hrunning)]
  rfl

theorem perform_fail (hrunning : record.status = .running) (reason : String) (now : Timestamp) :
    record.perform (.fail reason now) = (.ok (),
      { record with
        status := .failed
        ended? := some (record.started.later now)
        reason? := some reason }) := by
  rw [perform, change, bind_of_ok (transition_of_eq hrunning)]
  rfl

end Call

/-- What a call does is one of the steps. -/
theorem step_perform (record : Record) (call : Call) :
    record.Step call (record.perform call).1 (record.perform call).2 := by
  by_cases hsource : record.status = call.source
  · cases call with
    | run =>
        rw [record.perform_run hsource]
        exact .run hsource
    | complete now =>
        rw [record.perform_complete hsource]
        exact .complete hsource (Timestamp.nanos_later ..)
    | fail reason now =>
        rw [record.perform_fail hsource]
        exact .fail hsource (Timestamp.nanos_later ..)
  · rw [record.perform_of_ne hsource]
    exact .refused hsource

section Step

variable {record after : Record} {call : Call} {answer : Except InvalidTransition Unit}

/-- No step writes what was known of a job at its beginning. -/
theorem Step.same (hstep : record.Step call answer after) :
    after.id = record.id ∧ after.action = record.action ∧ after.started = record.started := by
  cases hstep <;> exact ⟨rfl, rfl, rfl⟩

/-- A step goes on along the way, or it leaves the job where it is. -/
theorem Step.onward (hstep : record.Step call answer after) :
    Follows record.status after.status ∨ after.status = record.status := by
  cases hstep with
  | run hpending => exact .inl (hpending ▸ .runs)
  | complete hrunning => exact .inl (hrunning ▸ .endsWell)
  | fail hrunning => exact .inl (hrunning ▸ .endsBadly)
  | refused => exact .inr rfl

/-- A call that is accepted leads to its status. -/
theorem Step.status_eq (hstep : record.Step call answer after) (haccepted : answer = .ok ()) :
    after.status = call.target := by
  cases hstep with
  | refused => cases haccepted
  | run | complete | fail => rfl

/-- Only a call that ends the job writes an end or a reason. -/
theorem Step.ended_eq (hstep : record.Step call answer after)
    (hending : ¬(call.target.isTerminal = true ∧ answer = .ok ())) :
    after.ended? = record.ended? ∧ after.reason? = record.reason? := by
  cases hstep with
  | run | refused => exact ⟨rfl, rfl⟩
  | complete | fail => exact absurd ⟨rfl, rfl⟩ hending

end Step

/-! ## Calls one after the other -/

/-- With these calls before it, a call ends the job. -/
structure Ends (first : Record) (front : List Call) (call : Call) : Prop where
  ending : call.target.isTerminal = true
  accepted : ((first.performAll front).perform call).1 = .ok ()

section Calls

variable (first : Record)

theorem performAll_append (front back : List Call) :
    first.performAll (front ++ back) = (first.performAll front).performAll back :=
  List.foldl_append

theorem performAll_concat (calls : List Call) (call : Call) :
    first.performAll (calls ++ [call]) = ((first.performAll calls).perform call).2 :=
  performAll_append first calls [call]

/-- The record after one more call comes from the one before it by a step. -/
theorem step_performAll (calls : List Call) (call : Call) :
    (first.performAll calls).Step call ((first.performAll calls).perform call).1
      (first.performAll (calls ++ [call])) := by
  rw [performAll_concat]
  exact step_perform ..

theorem same_performAll (calls : List Call) :
    (first.performAll calls).id = first.id ∧ (first.performAll calls).action = first.action ∧
      (first.performAll calls).started = first.started := by
  induction calls using List.reverseRecOn with
  | nil => exact ⟨rfl, rfl, rfl⟩
  | append_singleton calls call ih =>
      obtain ⟨hid, haction, hstarted⟩ := (first.step_performAll calls call).same
      exact ⟨hid.trans ih.1, haction.trans ih.2.1, hstarted.trans ih.2.2⟩

theorem onward_performAll (front back : List Call) :
    Relation.ReflTransGen Follows (first.performAll front).status
      (first.performAll (front ++ back)).status := by
  induction back using List.reverseRecOn with
  | nil => rw [List.append_nil]
  | append_singleton back call ih =>
      rw [← List.append_assoc]
      obtain hfollows | hsame := (first.step_performAll (front ++ back) call).onward
      · exact ih.tail hfollows
      · rwa [hsame]

/-- As long as no call has ended the job, nothing is written of an end. -/
theorem ended_performAll {calls : List Call}
    (hnone : ∀ front call back, calls = front ++ call :: back → ¬first.Ends front call) :
    (first.performAll calls).ended? = first.ended? ∧
      (first.performAll calls).reason? = first.reason? := by
  induction calls using List.reverseRecOn with
  | nil => exact ⟨rfl, rfl⟩
  | append_singleton calls call ih =>
      have hlast : ¬first.Ends calls call := hnone calls call [] rfl
      have hbefore := ih fun front other back hsplit =>
        hnone front other (back ++ [call]) (by simp [hsplit])
      obtain ⟨hended, hreason⟩ := (first.step_performAll calls call).ended_eq
        fun hends => hlast ⟨hends.1, hends.2⟩
      exact ⟨hended.trans hbefore.1, hreason.trans hbefore.2⟩

/-- Calls find nothing to do once the job is over. -/
theorem performAll_of_terminal {record : Record} (hover : record.status.isTerminal = true)
    (calls : List Call) : record.performAll calls = record := by
  induction calls with
  | nil => rfl
  | cons call calls ih =>
      have hrefused := record.perform_of_ne (Call.source_ne_of_terminal hover call)
      rw [performAll, List.foldl_cons, hrefused]
      exact ih

end Calls

section Ends

variable {first : Record} {front : List Call} {call : Call}

/-- The call that ends a job leaves it at the end of its way. -/
theorem Ends.status_eq (hends : first.Ends front call) :
    (first.performAll (front ++ [call])).status = call.target :=
  (first.step_performAll front call).status_eq hends.accepted

theorem Ends.isTerminal (hends : first.Ends front call) :
    (first.performAll (front ++ [call])).status.isTerminal = true := by
  rw [hends.status_eq]
  exact hends.ending

/-- Behind a call that ends the job nothing changes. -/
theorem Ends.performAll_eq (hends : first.Ends front call) (back : List Call) :
    first.performAll (front ++ call :: back) = first.performAll (front ++ [call]) := by
  rw [List.append_cons, performAll_append]
  exact performAll_of_terminal hends.isTerminal back

theorem Ends.refused (hends : first.Ends front call) (back : List Call) (next : Call) :
    ((first.performAll (front ++ call :: back)).perform next).1 =
      .error ⟨first.id, call.target, next.target⟩ := by
  rw [hends.performAll_eq, perform_of_ne _ (Call.source_ne_of_terminal hends.isTerminal next),
    hends.status_eq, (first.same_performAll _).1]

/-- There is no call that ends the job in front of another one. -/
theorem Ends.not_before (hends : first.Ends front call) (before : List Call) (other : Call)
    (between : List Call) (hsplit : front = before ++ other :: between) :
    ¬first.Ends before other := by
  intro hearlier
  have hrefused := hearlier.refused between call
  rw [← hsplit, hends.accepted] at hrefused
  cases hrefused

/-- The call that ends a job writes the later one of its moment and the start, and its reason. -/
theorem Ends.told (hends : first.Ends front call) (hreason : first.reason? = none) :
    (∃ ended now, (first.performAll (front ++ [call])).ended? = some ended ∧
      call.now? = some now ∧ ended.nanos = max now.nanos first.started.nanos) ∧
      (first.performAll (front ++ [call])).reason? = call.reason? := by
  have hbefore := first.ended_performAll hends.not_before
  have hstarted := (first.same_performAll front).2.2
  have hstep := first.step_performAll front call
  rw [hends.accepted] at hstep
  have hending := hends.ending
  generalize first.performAll front = before at hbefore hstarted hstep
  generalize first.performAll (front ++ [call]) = after at hstep ⊢
  cases hstep with
  | run => cases hending
  | complete _ hended =>
      exact ⟨⟨_, _, rfl, rfl, hstarted ▸ hended⟩, hbefore.2.trans hreason⟩
  | fail _ hended => exact ⟨⟨_, _, rfl, rfl, hstarted ▸ hended⟩, rfl⟩

end Ends

/-! ## Jobs and their records -/

/-- A call does to the record of a job what it does to the job. -/
theorem perform_record (job : Job) (call : Call) :
    job.record.perform call =
      ((job.heed call).map fun _ => (), ((job.heed call).toOption.getD job).record) := by
  obtain ⟨id, action, started, _ | _ | _ | _⟩ := job <;> cases call <;> rfl

theorem performAll_record (job : Job) (calls : List Call) :
    job.record.performAll calls = (job.heedAll calls).record := by
  induction calls generalizing job with
  | nil => rfl
  | cons call calls ih =>
      rw [performAll, List.foldl_cons, perform_record]
      exact ih _

end Record

/-- How a job that is kept fares through any calls. -/
structure Lifecycle (job : Job) : Prop where
  /-- The record is that of the job, and the job is answered in the same way. -/
  kept : ∀ calls call, job.record.performAll calls = (job.heedAll calls).record ∧
    ((job.record.performAll calls).perform call).1 =
      ((job.heedAll calls).heed call).map fun _ => ()
  /-- Every call is a step, or it is refused and changes nothing. -/
  step : ∀ calls call, (job.record.performAll calls).Step call
    ((job.record.performAll calls).perform call).1 (job.record.performAll (calls ++ [call]))
  /-- The status moves along the way and never back. -/
  onward : ∀ front back, Relation.ReflTransGen Follows (job.record.performAll front).status
    (job.record.performAll (front ++ back)).status
  /-- What was known of the job at its beginning stays. -/
  same : ∀ calls, (job.record.performAll calls).id = job.id ∧
    (job.record.performAll calls).action = job.action ∧
      (job.record.performAll calls).started = job.started
  /-- Without a call that ends the job there is neither an end nor a reason. -/
  unended : ∀ calls,
    (∀ front call back, calls = front ++ call :: back → ¬job.record.Ends front call) →
      (job.record.performAll calls).ended? = none ∧ (job.record.performAll calls).reason? = none
  /-- The end and the reason are those of the call that ends the job. -/
  told : ∀ front call, job.record.Ends front call →
    (∃ ended now, (job.record.performAll (front ++ [call])).ended? = some ended ∧
      call.now? = some now ∧ ended.nanos = max now.nanos job.started.nanos) ∧
      (job.record.performAll (front ++ [call])).reason? = call.reason?
  /-- Behind a call that ends the job nothing changes, and every further call is refused. -/
  final : ∀ front call, job.record.Ends front call → ∀ back next,
    job.record.performAll (front ++ call :: back) = job.record.performAll (front ++ [call]) ∧
      ((job.record.performAll (front ++ call :: back)).perform next).1 =
        .error ⟨job.id, call.target, next.target⟩

/-- Every job that begins has this lifecycle: its status moves from waiting over running to one of
the two ends, what is refused changes nothing, and one call at most writes an end and a reason. -/
theorem lifecycle_of_calls (id : JobId) (action : Action) (started : Timestamp) :
    Lifecycle ⟨id, action, started, .pending⟩ where
  kept calls call := by
    rw [Record.performAll_record, Record.perform_record]
    exact ⟨rfl, rfl⟩
  step := Record.step_performAll _
  onward := Record.onward_performAll _
  same := Record.same_performAll _
  unended _ hnone := Record.ended_performAll _ hnone
  told _ _ hends := hends.told rfl
  final _ _ hends back next := ⟨hends.performAll_eq back, hends.refused back next⟩

/-- A call that comes too early and one that comes too late leave no trace. -/
example (id : JobId) (action : Action) :
    (record ⟨id, action, .epoch, .pending⟩).performAll
      [.complete .epoch, .run, .fail "disk full" .epoch, .complete .epoch] =
        ⟨id, action, .failed, .epoch, some .epoch, some "disk full"⟩ := by
  rfl

end Job

end Upkeep
