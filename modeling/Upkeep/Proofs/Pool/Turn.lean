/-
# Turns and what the log tells of them

A worker pool has no secrets about its tasks: which of them were started, and with which
context, and everything that they said stands in the log, from which nothing is ever removed.
`Turned` says all that the turn of a task does to the pool, apart from places in line.
-/

import Mathlib.Data.List.Nodup
import Upkeep.Proofs.Pool.Step

namespace Upkeep.Pool

variable {τ σ ω ε : Type}

/-- The word that an event is about. -/
def Event.word? : Event ε → Option ε
  | .said _ _ word => some word
  | _ => none

namespace Machine

/-- Everything that the tasks of a pool have said, in order. -/
def words (m : Machine τ σ ω ε) : List ε :=
  m.log.filterMap (·.event.word?)

/-- A worker has taken up the task with a ticket, in this context. -/
def HasStarted (m : Machine τ σ ω ε) (ticket : Nat) (context : Context) : Prop :=
  (ticket, context) ∈ m.starts

/-- The task with a ticket was refused, for this reason. -/
def HasRefused (m : Machine τ σ ω ε) (ticket : Nat) (error : PoolError) : Prop :=
  ∃ entry ∈ m.log, entry.event = .refused ticket error

/-- What is left after the turn of a task, where `queue` and `others` are the tasks that it does
not concern. -/
structure Turned (m : Machine τ σ ω ε) (queue : List (Queued τ)) (others : List (Running σ))
    (ticket : Nat) (turn : Turn σ ω ε) (after : Machine τ σ ω ε) : Prop where
  settings : after.settings = m.settings
  world : after.world = turn.world
  queue : after.queue = queue
  running : ∃ deadline rung place,
    after.running = others ++ paused ticket deadline rung place turn
  admitted : after.admitted = m.admitted
  waiting : after.waiting = m.waiting
  words : after.words = m.words ++ turn.said
  started : ∀ ticket context, m.HasStarted ticket context → after.HasStarted ticket context
  refused : ∀ ticket error, after.HasRefused ticket error → m.HasRefused ticket error

theorem HasStarted.of_prefix {m m' : Machine τ σ ω ε} {ticket : Nat} {context : Context}
    (hstarted : m.HasStarted ticket context) (hlog : m.log <+: m'.log) :
    m'.HasStarted ticket context :=
  (hlog.filterMap _).subset hstarted

/-- A task is started at most once. -/
theorem Tidy.hasStarted_unique {m : Machine τ σ ω ε} (htidy : m.Tidy) {ticket : Nat}
    {context other : Context} (hstarted : m.HasStarted ticket context)
    (hagain : m.HasStarted ticket other) : other = context := by
  have hstarts : (m.starts.map (·.1)).Nodup := (List.nodup_append.1 htidy.nodup).1
  exact (Prod.mk.inj (List.inj_on_of_nodup_map hstarts hagain hstarted rfl)).2

/-- Events that are no refusals refuse nothing. -/
theorem HasRefused.of_log_eq {m m' : Machine τ σ ω ε} {ticket : Nat} {error : PoolError}
    (hrefused : m'.HasRefused ticket error) {entries : List (Entry ε)}
    (hlog : m'.log = m.log ++ entries)
    (hother : ∀ entry ∈ entries, entry.event ≠ .refused ticket error) :
    m.HasRefused ticket error := by
  obtain ⟨entry, hmem, hevent⟩ := hrefused
  rw [hlog, List.mem_append] at hmem
  rcases hmem with hold | hnew
  · exact ⟨entry, hold, hevent⟩
  · exact absurd hevent (hother entry hnew)

theorem words_of_log_eq {m m' : Machine τ σ ω ε} {events : List (Event ε)}
    (hlog : m'.log = m.log ++ events.map fun event => ⟨m.now, event⟩) :
    m'.words = m.words ++ events.filterMap Event.word? := by
  rw [words, hlog, List.filterMap_append, List.filterMap_map]
  rfl

/-- An event that is not a word of a task adds no word. -/
theorem words_eq_of_log {m m' : Machine τ σ ω ε} {entry : Entry ε}
    (hlog : m'.log = m.log ++ [entry]) (hword : entry.event.word? = none) :
    m'.words = m.words := by
  rw [words, hlog, List.filterMap_append]
  simp [words, hword]

theorem words_turnEvents (m : Machine τ σ ω ε) (ticket deadline : Nat) (rung : Bool)
    (turn : Turn σ ω ε) :
    (m.turnEvents ticket deadline rung turn).filterMap Event.word? = turn.said := by
  have hended : (if turn.waits.isNone then [Event.ended ticket] else [] :
      List (Event ε)).filterMap Event.word? = [] := by
    split <;> rfl
  rw [turnEvents, List.filterMap_append, hended, List.append_nil, List.filterMap_map]
  exact List.filterMap_some

theorem ne_refused_of_mem_turnEvents {m : Machine τ σ ω ε} {ticket deadline : Nat}
    {rung : Bool} {turn : Turn σ ω ε} {event : Event ε}
    (hevent : event ∈ m.turnEvents ticket deadline rung turn) {other : Nat} {error : PoolError} :
    event ≠ .refused other error := by
  rcases List.mem_append.1 hevent with hsaid | hended
  · obtain ⟨word, _, rfl⟩ := List.mem_map.1 hsaid
    nofun
  · split at hended
    · rw [List.mem_singleton.1 hended]
      nofun
    · cases hended

theorem turned_finishTurn (m : Machine τ σ ω ε) (ticket deadline : Nat) (rung : Bool)
    (place : Nat) (turn : Turn σ ω ε) :
    Turned m m.queue m.running ticket turn
      (m.finishTurn ticket deadline rung place turn) := by
  obtain ⟨ownPlace, nextPlace, heq⟩ := m.finishTurn_eq ticket deadline rung place turn
  rw [heq]
  refine ⟨rfl, rfl, rfl, ⟨deadline, rung, ownPlace, rfl⟩, rfl, rfl, ?_, ?_, ?_⟩
  · rw [words_of_log_eq rfl, words_turnEvents]
  · intro ticket context hstarted
    exact hstarted.of_prefix (List.prefix_append ..)
  · intro ticket error hrefused
    apply hrefused.of_log_eq rfl
    intro entry hentry
    obtain ⟨event, hevent, rfl⟩ := List.mem_map.1 hentry
    exact ne_refused_of_mem_turnEvents hevent

/-- A worker takes up the first task of the queue and gives it a turn. -/
theorem turned_launch (b : Behaviour τ σ ω ε) {m : Machine τ σ ω ε} (first : Queued τ)
    (rest : List (Queued τ)) (hnobody : m.waiting = []) :
    let context := m.context m.deadline (m.ringsFirst first.ticket)
    Turned m rest m.running first.ticket (b.start first.task context m.world)
        ((m.vacate rest).launch b first) ∧
      ((m.vacate rest).launch b first).HasStarted first.ticket context := by
  intro context
  let opened : Machine τ σ ω ε :=
    { note { m with queue := rest } (.started first.ticket context) with
      nextPlace := m.nextPlace + 1 }
  have hturned := opened.turned_finishTurn first.ticket m.deadline (m.ringsFirst first.ticket)
    m.nextPlace (b.start first.task context m.world)
  have htaken : (m.vacate rest).launch b first = opened.finishTurn first.ticket m.deadline
      (m.ringsFirst first.ticket) m.nextPlace (b.start first.task context m.world) := by
    have hroom : m.vacate rest = { m with queue := rest } := by
      simp [vacate, admitNext, hnobody]
    rw [hroom]
    rfl
  have hwords : opened.words = m.words := words_eq_of_log rfl rfl
  rw [htaken]
  refine ⟨{ hturned with
    words := hwords ▸ hturned.words
    started := fun _ _ hstarted => hturned.started _ _ ?_
    refused := fun _ _ hrefused => (hturned.refused _ _ hrefused).of_log_eq rfl ?_ },
    hturned.started _ _ ?_⟩
  · exact hstarted.of_prefix (List.prefix_append ..)
  · simp
  · rw [HasStarted, starts, List.mem_filterMap]
    exact ⟨_, List.mem_append_right _ List.mem_cons_self, rfl⟩

/-- A started task gets its next turn. -/
theorem turned_resume (b : Behaviour τ σ ω ε) (m : Machine τ σ ω ε) (task : Running σ)
    (cue : Cue) :
    Turned m m.queue (m.running.filter (·.ticket ≠ task.ticket)) task.ticket
      (b.resume task.state cue (m.context task.deadline task.rung) m.world)
      (m.resume b task cue) := by
  have hturned := turned_finishTurn { m with running := m.running.filter (·.ticket ≠ task.ticket) }
    task.ticket task.deadline task.rung task.place
    (b.resume task.state cue (m.context task.deadline task.rung) m.world)
  exact { hturned with }

end Machine

end Upkeep.Pool
