/-
# Messages that are sent again

Whoever overhears an accepted request can send its bytes again. They carry their own timestamp, and
no hand on the clock changes what it says. So each time they are accepted the clock shows a time
near this one timestamp, and any two such times are near each other, whatever the clock did between
them.

Nearness is meant for whole numbers without bounds. The service computes with numbers of 64 bits;
where a difference does not fit in them it is far too large for the window anyway.
-/

import Upkeep.Proofs.Service.Gates

namespace Upkeep.Service

/-- A request is fresh exactly if its timestamp is no further than five minutes from now. -/
theorem checkFresh_eq_ok_iff (timestamp now : Int64) :
    checkFresh timestamp now = .ok () ↔ (now.toInt - timestamp.toInt).natAbs ≤ 300 := by
  rw [checkFresh_eq]
  split
  next hnear => exact ⟨fun _ => hnear, fun _ => rfl⟩
  next hfar => exact ⟨nofun, fun hnear => absurd hnear hfar⟩

/-- Every gate is open to a request for an action that is accepted. -/
theorem open_of_accepted {state : State} {message : Http.Request} (hasks : AsksForAction message)
    (haccepted : (state.handle message).1.status = .accepted) (gate : Gate) :
    gate.Open state message := by
  apply (verdict_eq_accepted_iff state message).1
  cases hpasses : (state.count message).1 with
  | true => rw [← status_handle_of_passes hasks hpasses, haccepted]
  | false =>
      have hlimited : (state.handle message).1.status = .tooManyRequests := by
        rw [State.handle_eq, answer_of_limited state hasks.1 rfl, answerLimited_eq, hpasses]
        simp [Route.methods, hasks.2]
      rw [hlimited] at haccepted
      cases haccepted

namespace State

/-- The exchanges of a run, in order, each with what the calendar clock showed when its message
came. -/
def datedExchanges (state : State) : List Stimulus → List (Timestamp × Exchange)
  | [] => []
  | .message message :: stimuli =>
    (state.clock, ⟨message, (state.handle message).1⟩) ::
      (state.respond (.message message)).datedExchanges stimuli
  | stimulus :: stimuli => (state.respond stimulus).datedExchanges stimuli

theorem map_snd_datedExchanges (state : State) (stimuli : List Stimulus) :
    (state.datedExchanges stimuli).map Prod.snd = state.exchanges stimuli := by
  induction stimuli generalizing state with
  | nil => rfl
  | cons stimulus stimuli ih =>
      cases stimulus with
      | message message => exact congrArg (_ :: ·) (ih _)
      | elapse | release | occupy | closePool | setClock => exact ih _

/-- A message that is accepted holds a request with a timestamp near the time at which it came. -/
theorem near_of_mem_datedExchanges {state : State} {stimuli : List Stimulus} {clock : Timestamp}
    {exchange : Exchange} (hmem : (clock, exchange) ∈ state.datedExchanges stimuli)
    (haccepted : exchange.isAcceptance = true) :
    ∃ request ∈ written? exchange.message,
      (clock.seconds - request.timestamp.toInt).natAbs ≤ 300 := by
  induction stimuli generalizing state with
  | nil => cases hmem
  | cons stimulus stimuli ih =>
      cases stimulus with
      | message message =>
          rcases List.mem_cons.1 hmem with hfirst | hlater
          · cases hfirst
            obtain ⟨hasks, hstatus⟩ := Exchange.isAcceptance_iff.1 haccepted
            exact open_of_accepted hasks hstatus .fresh
          · exact ih hlater
      | elapse | release | occupy | closePool | setClock => exact ih hmem

end State

/-- The window for replays is exact, and it bounds how long a message can be used. A timestamp
passes the check if and only if it is no further than 300 seconds from now, for all numbers of 64
bits. So in every run, two requests with the same bytes that were both accepted came at readings of
the clock no more than 600 whole seconds apart, whatever was done to the clock between them. -/
theorem replay_window_of_run :
    (∀ timestamp now : Int64, checkFresh timestamp now = .ok () ↔
      (now.toInt - timestamp.toInt).natAbs ≤ 300) ∧
    ∀ (start : Start) (stimuli : List Stimulus),
      let dated := start.state.datedExchanges stimuli
      dated.map Prod.snd = start.state.exchanges stimuli ∧
      ∀ first ∈ dated, ∀ second ∈ dated,
        first.2.isAcceptance = true → second.2.isAcceptance = true →
        first.2.message.content = second.2.message.content →
        (second.1.seconds - first.1.seconds).natAbs ≤ 600 := by
  refine ⟨checkFresh_eq_ok_iff, fun start stimuli => ?_⟩
  intro dated
  refine ⟨start.state.map_snd_datedExchanges stimuli, ?_⟩
  rintro ⟨firstClock, first⟩ hfirst ⟨secondClock, second⟩ hsecond hfirstAccepted hsecondAccepted
    hsame
  obtain ⟨request, hrequest, hnear⟩ :=
    State.near_of_mem_datedExchanges hfirst hfirstAccepted
  obtain ⟨again, hagain, hnearAgain⟩ :=
    State.near_of_mem_datedExchanges hsecond hsecondAccepted
  -- What a message holds depends on its bytes alone, so both carry one timestamp.
  have hwritten : written? first.message = written? second.message := by
    rw [written?, written?, show first.message.content = second.message.content from hsame]
  obtain rfl : request = again := Option.some.inj (hrequest.symm.trans (hwritten.trans hagain))
  show (secondClock.seconds - firstClock.seconds).natAbs ≤ 600
  omega

end Upkeep.Service
