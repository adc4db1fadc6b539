/-
# Who runs and who waits

Between two calls everything that can happen has happened, so what a pool does with its workers
and its queue can be told from the numbers alone: nobody waits for a worker while one is idle,
nobody waits for room while there is some, and tasks are started first come, first served. The
size that a pool tells is the number of the accepted tasks that have not been started, and it
turns a task away when, and only when, that number has come to the capacity.

A worker that has been lost with a task is neither idle nor does it run anything. As long as
another one is left the numbers are those of a pool with fewer workers; after the last one there
is no queue.
-/

import Upkeep.Proofs.Pool.Run

namespace Upkeep.Pool.Machine

variable {τ σ ω ε : Type} {m : Machine τ σ ω ε}

/-- The tickets of the accepted tasks that no worker has taken up. -/
def unstarted (m : Machine τ σ ω ε) : List Nat :=
  m.accepted.filter fun ticket => ticket ∉ m.starts.map (·.1)

/-- As long as a worker is left, the accepted tasks that no worker has taken up are those in the
queue, in their order. -/
theorem Sound.unstarted_eq (hsound : m.Sound) (hthere : m.isDeserted = false) :
    m.unstarted = m.queue.map (·.ticket) := by
  have hworkers : m.lost.length < m.settings.workers := by simpa [isDeserted] using hthere
  have hdropped : m.dropped = [] := hsound.dropped_eq_nil hworkers
  have horder : m.accepted = m.starts.map (·.1) ++ (m.dropped ++ m.queue.map (·.ticket)) :=
    hsound.in_order
  rw [hdropped, List.nil_append] at horder
  have hapart : ∀ ticket ∈ m.queue.map (·.ticket), ticket ∉ m.starts.map (·.1) := by
    intro ticket hqueued hstarted
    have hfront : ticket ∈ m.frontTickets := List.mem_append_left _ hqueued
    exact (List.nodup_append.1 hsound.tidy.nodup).2.2 _ hstarted _ hfront rfl
  have hgone : (m.starts.map (·.1)).filter (fun ticket => ticket ∉ m.starts.map (·.1)) = [] := by
    rw [List.filter_eq_nil_iff]
    intro ticket hstarted
    simpa using hstarted
  have hstay : (m.queue.map (·.ticket)).filter (fun ticket => ticket ∉ m.starts.map (·.1)) =
      m.queue.map (·.ticket) := by
    rw [List.filter_eq_self]
    intro ticket hqueued
    exact decide_eq_true (hapart ticket hqueued)
  rw [unstarted, horder, List.filter_append, hgone, hstay, List.nil_append]

/-- The numbers of a settled pool that has so many workers and room for so many tasks. -/
structure Scheduled (m : Machine τ σ ω ε) (workers capacity : Nat) : Prop where
  running_le : m.running.length ≤ workers
  queue_le : m.queue.length ≤ capacity
  /-- No worker stands idle in front of a task. -/
  busy : m.queue ≠ [] → m.running.length = workers
  full : ∀ ticket, m.isWaiting ticket = true → m.queue.length = capacity
  in_order : m.starts.map (·.1) <+: m.accepted
  size_eq : m.isOpen = true → 0 < workers → m.size = m.unstarted.length
  queueFull_iff : m.isOpen = true → 0 < workers → ∀ task,
    (m.submit task).1 = .error .queueFull ↔ m.unstarted.length = capacity
  /-- Without a worker nothing is left in front of the workers, and nothing comes there. -/
  deserted : workers = 0 → m.queue = [] ∧ (∀ ticket, m.isWaiting ticket = false) ∧
    m.size = 0 ∧ ∀ task, (m.submit task).1 = .error .shutdown

section Settled

variable (hsettled : m.Settled) (hsound : m.Sound)

include hsettled

theorem Settled.busy (hbusy : m.running.length + m.lost.length ≤ m.settings.workers)
    (hqueue : m.queue ≠ []) : m.running.length + m.lost.length = m.settings.workers := by
  have hnobody := hsettled.nobody_idles hqueue
  rw [hasIdleWorker, decide_eq_false_iff_not, Nat.not_lt] at hnobody
  exact Nat.le_antisymm hbusy hnobody

/-- Nobody is about to put a task in, so whoever waits does so for a full queue. -/
theorem Settled.taken_eq : m.tally.taken = m.queue.length := by
  simp [Tally.taken, tally, hsettled.nobody_enters]

include hsound

theorem Settled.full {ticket : Nat} (hwaits : m.isWaiting ticket = true) :
    m.queue.length = m.settings.capacity := by
  rw [← hsettled.taken_eq]
  apply hsound.full_of_waiting
  intro hnobody
  have hnone : m.waiting = [] := List.map_eq_nil_iff.1 hnobody
  simp [isWaiting, hsettled.nobody_enters, hnone] at hwaits

/-- A pool that takes tasks turns one away exactly when its queue is full. -/
theorem Settled.queueFull_iff (htakes : m.takesTasks = true) (task : τ) :
    (m.submit task).1 = .error .queueFull ↔ m.queue.length = m.settings.capacity := by
  have hle : m.queue.length ≤ m.settings.capacity := hsettled.taken_eq ▸ hsound.taken_le
  rw [submit_eq, htakes, hasRoom_eq, hsettled.taken_eq]
  by_cases hless : m.queue.length < m.settings.capacity
  · simp [hless, Nat.ne_of_lt hless]
  · simp [Nat.le_antisymm hle (Nat.le_of_not_lt hless)]

omit hsettled in
/-- Once the last worker is lost, nobody stands in front of the workers any more. -/
theorem Sound.deserted (hnone : m.settings.workers ≤ m.lost.length) :
    m.queue = [] ∧ (∀ ticket, m.isWaiting ticket = false) ∧ m.size = 0 ∧
      ∀ task, (m.submit task).1 = .error .shutdown := by
  obtain ⟨hqueue, hadmitted, hwaiting⟩ := hsound.front_deserted hnone
  simp only [tally, List.map_eq_nil_iff] at hqueue hadmitted hwaiting
  refine ⟨hqueue, fun ticket => by simp [isWaiting, hadmitted, hwaiting], ?_, fun task => ?_⟩
  · simp [size, hqueue, hadmitted]
  · have hrefuses : m.takesTasks = false := by simp [takesTasks, isDeserted, hnone]
    rw [submit_eq, hrefuses]
    rfl

/-- A settled pool is scheduled as one with the workers that are left. -/
theorem Settled.scheduled :
    m.Scheduled (m.settings.workers - m.lost.length) m.settings.capacity := by
  have hbusy : m.running.length + m.lost.length ≤ m.settings.workers := by
    simpa [tally] using hsound.busy_le
  have htakes : m.isOpen = true → 0 < m.settings.workers - m.lost.length → m.takesTasks = true :=
    fun hopen hleft => takesTasks_iff.2 ⟨hopen, Nat.lt_of_sub_pos hleft⟩
  have hunstarted : m.takesTasks = true → m.unstarted.length = m.queue.length := by
    intro htakes
    have hthere : m.isDeserted = false := by
      rw [takesTasks, Bool.and_eq_true] at htakes
      simpa using htakes.2
    rw [hsound.unstarted_eq hthere, List.length_map]
  constructor
  · exact Nat.le_sub_of_add_le hbusy
  · exact hsettled.taken_eq ▸ hsound.taken_le
  · intro hqueue
    exact Nat.eq_sub_of_add_eq (hsettled.busy hbusy hqueue)
  · intro ticket hwaits
    exact hsettled.full hsound hwaits
  · have horder : m.accepted = m.starts.map (·.1) ++ (m.dropped ++ m.queue.map (·.ticket)) :=
      hsound.in_order
    rw [horder]
    exact List.prefix_append ..
  · intro hopen hleft
    rw [hunstarted (htakes hopen hleft)]
    simp [size, hopen, hsettled.nobody_enters]
  · intro hopen hleft task
    rw [hunstarted (htakes hopen hleft)]
    exact hsettled.queueFull_iff hsound (htakes hopen hleft) task
  · intro hnone
    exact hsound.deserted (Nat.le_of_sub_eq_zero hnone)

end Settled

end Upkeep.Pool.Machine
