/-
# What is shown of a job can be read back

The text that shows a job is decoded as an object, and what its members say is all that there is
to say: the texts are those of the job, whatever characters they have, the moments are read to the
nanosecond, and the duration comes from whole milliseconds. That the text of the duration is a
number at all rests on the calendar being bounded, for a span within it is never so long that the
arithmetic of doubles would leave the finite ones.
-/

import Upkeep.Job.View
import Upkeep.Proofs.Decimal.Range
import Upkeep.Proofs.Json.Decimal
import Upkeep.Proofs.Json.Decoding
import Upkeep.Proofs.Time.Rfc3339

namespace Upkeep.Job

/-- The names of the members that an object shows of a job. -/
def memberNames (job : Job) : List String :=
  ["job_id", "action", "status", "started"] ++ (if job.isTerminal then ["ended"] else []) ++
    ["duration"] ++ (if job.status = .failed then ["error"] else [])

/-- The whole milliseconds from the start of a job to its end, or to now while it is not over. There
are none if that lies before the start. -/
def wholeMillis (job : Job) (now : Timestamp) : Nat :=
  (((job.ended?.getD now).nanos - job.started.nanos) / nanosPerMilli).toNat

/-- The members of an object say of a job what there is to say at a moment. -/
structure Tells (members : List (String × Json.Value)) (job : Job) (now : Timestamp) : Prop where
  names : members.map Prod.fst = job.memberNames
  id : members.lookup "job_id" = some (.text job.id.text)
  action : members.lookup "action" = some (.text job.action.tag)
  status : members.lookup "status" = some (.text job.status.word)
  started : ∃ text, members.lookup "started" = some (.text text) ∧
    Timestamp.readRfc3339 text = some job.started.nanos
  ended : ∀ ended, job.ended? = some ended → ∃ text,
    members.lookup "ended" = some (.text text) ∧ Timestamp.readRfc3339 text = some ended.nanos
  duration : members.lookup "duration" =
    some (.number (Decimal.Layout.data.text (Float.ofNat (job.wholeMillis now) / 1000.0)))
  error : ∀ reason, job.reason? = some reason → members.lookup "error" = some (.text reason)

/-- What a reader finds under a name in the text that shows a job. -/
def shown? (job : Job) (now : Timestamp) (name : String) : Option Json.Value :=
  match Json.decode (Text.Utf8.encode (job.view now).render) with
  | some (.object members) => members.lookup name
  | _ => none

section View

variable (job : Job) (now : Timestamp)

theorem duration_div_nanosPerMilli : job.duration now / nanosPerMilli = job.wholeMillis now := by
  simp only [duration, wholeMillis, Timestamp.elapsed, nanosPerMilli]
  omega

/-- The calendar is too short for a span that does not fit 64 bits. -/
theorem wholeMillis_lt : job.wholeMillis now < 2 ^ 64 := by
  have hlow := job.started.earliest_le
  have hhigh := (job.ended?.getD now).le_latest
  simp only [Timestamp.earliest, Timestamp.latest] at hlow hhigh
  simp only [wholeMillis, nanosPerMilli]
  omega

theorem secondsText_duration : secondsText (job.duration now) =
    Decimal.Layout.data.text (Float.ofNat (job.wholeMillis now) / 1000.0) := by
  rw [secondsText, duration_div_nanosPerMilli]

theorem isNumber_secondsText :
    Json.IsNumber (Text.Utf8.encode (secondsText (job.duration now))) := by
  obtain ⟨mantissa, exponent, hparts⟩ :=
    Decimal.Dyadic.exists_ofFloat_thousandths (job.wholeMillis_lt now)
  rw [secondsText_duration]
  exact Json.isNumber_text (by decide) hparts

/-- What is shown of a job is made of texts and one number. -/
theorem wellFormed_view : (job.view now).WellFormed := by
  refine .object fun member hmember => ?_
  simp only [viewMembers, JobId.toJson, Action.toJson, List.mem_append, List.mem_cons,
    List.not_mem_nil, or_false, List.mem_map] at hmember
  rcases hmember with ((hfirst | ⟨_, -, rfl⟩) | rfl) | ⟨_, -, rfl⟩
  · rcases hfirst with rfl | rfl | rfl | rfl <;> exact .text _
  · exact .text _
  · exact .number (job.isNumber_secondsText now)
  · exact .text _

theorem decode_view : Json.decode (Text.Utf8.encode (job.view now).render) =
    some (.object (job.viewMembers now)) :=
  (job.wellFormed_view now).decode_render

theorem shown?_eq (name : String) : job.shown? now name = (job.viewMembers now).lookup name := by
  rw [shown?, decode_view]

theorem lookup_started : (job.viewMembers now).lookup "started" =
    some (.text job.started.rfc3339Offset) :=
  rfl

theorem lookup_ended : (job.viewMembers now).lookup "ended" =
    job.ended?.map fun ended => .text ended.rfc3339Offset := by
  cases hended : job.ended? <;> cases hreason : job.reason? <;>
    simp [viewMembers, hended, hreason, List.lookup]

theorem tells_viewMembers : Tells (job.viewMembers now) job now where
  names := by
    obtain ⟨id, action, started, _ | _ | ended | ⟨ended, reason⟩⟩ := job <;> rfl
  id := rfl
  action := rfl
  status := rfl
  started := ⟨_, rfl, Timestamp.readRfc3339_rfc3339Offset _⟩
  ended ended hended := by
    rw [lookup_ended, hended]
    exact ⟨_, rfl, Timestamp.readRfc3339_rfc3339Offset ended⟩
  duration := by
    rw [← secondsText_duration]
    cases hended : job.ended? <;> simp [viewMembers, hended, List.lookup]
  error reason hreason := by
    cases hended : job.ended? <;> simp [viewMembers, hended, hreason, List.lookup]

/-- A moment is shown by a text of its own, whether as the start or as the end of a job. -/
theorem moment_of_shown? (other : Job) (later : Timestamp) :
    (other.shown? later "started" = job.shown? now "started" → other.started = job.started) ∧
      (other.shown? later "ended" = job.shown? now "ended" → other.ended? = job.ended?) ∧
      (other.shown? later "ended" = job.shown? now "started" →
        other.ended? = some job.started) := by
  have hinjective : Function.Injective fun moment : Timestamp =>
      Json.Value.text moment.rfc3339Offset :=
    fun _ _ hsame => Timestamp.rfc3339Offset_injective (Json.Value.text.inj hsame)
  simp only [shown?_eq, lookup_started, lookup_ended]
  refine ⟨fun hsame => hinjective (Option.some.inj hsame),
    fun hsame => Option.map_injective hinjective hsame, fun hsame => ?_⟩
  obtain ⟨ended, hended, htext⟩ := Option.map_eq_some_iff.1 hsame
  rw [hended, hinjective htext]

/-- The text that shows a job is decoded as an object that tells all there is to tell; different
moments look different in it, and once the job is over it always is the same. -/
theorem decode_view_tells :
    (∃ members, Json.decode (Text.Utf8.encode (job.view now).render) = some (.object members) ∧
      Tells members job now) ∧
    (∀ (other : Job) (later : Timestamp),
      (other.shown? later "started" = job.shown? now "started" → other.started = job.started) ∧
      (other.shown? later "ended" = job.shown? now "ended" → other.ended? = job.ended?) ∧
      (other.shown? later "ended" = job.shown? now "started" →
        other.ended? = some job.started)) ∧
    (job.isTerminal = true → ∀ later, (job.view later).render = (job.view now).render) := by
  refine ⟨⟨_, job.decode_view now, job.tells_viewMembers now⟩, job.moment_of_shown? now,
    fun hover later => ?_⟩
  rw [← isSome_ended?] at hover
  obtain ⟨ended, hended⟩ := Option.isSome_iff_exists.1 hover
  rw [view_of_ended hended later now]

end View

end Upkeep.Job
