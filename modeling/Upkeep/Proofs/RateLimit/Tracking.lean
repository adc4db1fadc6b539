/-
# Which keys are remembered

A limiter forgets a key in two ways: too many other keys are called after it, or a sweep comes too
long after its last call. Its entries, however, are the outcome of all earlier evictions and
sweeps, and an eviction looks for the smallest of the instants that are left. What makes the two
agree is that the entries stand in the order of their last calls: then the entries behind one are
of just those keys that were called after its last call, and the one that an eviction drops is the
first.
-/

import Upkeep.Proofs.RateLimit.Run

namespace Upkeep.RateLimit

/-! ## What a history tells of a key -/

/-- The last call for a key was at an instant, and these calls came after it. -/
structure LastCalled (history : List Call) (key : String) (instant : Int) (since : List Call) :
    Prop where
  split : ∃ earlier, history = earlier ++ .allow key instant :: since
  not_again : key ∉ Call.keys since

/-- A key that was last called at an instant is to be remembered: since then fewer than `maxKeys`
other keys were called, and no sweep came later than `idleTime` after it. -/
def Remembered (maxKeys idleTime : Nat) (history : List Call) (key : String) (instant : Int) :
    Prop :=
  ∃ since, LastCalled history key instant since ∧
    (Call.keys since).toFinset.card < maxKeys ∧
    ∀ sweptAt ∈ Call.sweeps since, sweptAt - instant ≤ idleTime

section Histories

variable {history : List Call} {key other : String} {instant now : Int} {since : List Call}

theorem lastCalled_concat_iff {call : Call} :
    LastCalled (history ++ [call]) key instant since ↔
      call = .allow key instant ∧ since = [] ∨
        ∃ before, since = before ++ [call] ∧ call.key? ≠ some key ∧
          LastCalled history key instant before := by
  constructor
  · rintro ⟨⟨earlier, hsplit⟩, hnot⟩
    rcases since.eq_nil_or_concat' with rfl | ⟨before, last, rfl⟩
    · exact .inl ⟨(List.append_singleton_inj.1 hsplit).2, rfl⟩
    · right
      rw [← List.cons_append, ← List.append_assoc] at hsplit
      obtain ⟨hhistory, rfl⟩ := List.append_singleton_inj.1 hsplit
      rw [Call.keys_append, List.mem_append, not_or] at hnot
      refine ⟨before, rfl, fun hkey => hnot.2 ?_, ⟨earlier, hhistory⟩, hnot.1⟩
      exact List.mem_filterMap.2 ⟨_, List.mem_singleton_self _, hkey⟩
  · rintro (⟨rfl, rfl⟩ | ⟨before, rfl, hkey, ⟨earlier, rfl⟩, hnot⟩)
    · exact ⟨⟨history, rfl⟩, List.not_mem_nil⟩
    · refine ⟨⟨earlier, by simp⟩, ?_⟩
      rw [Call.keys_append, List.mem_append, not_or]
      refine ⟨hnot, fun hlast => ?_⟩
      obtain ⟨call, hcall, hsame⟩ := List.mem_filterMap.1 hlast
      exact hkey (List.mem_singleton.1 hcall ▸ hsame)

/-- A key that was called was called a last time. -/
theorem exists_lastCalled {calls : List Call} (hkey : key ∈ Call.keys calls) :
    ∃ instant since, LastCalled calls key instant since := by
  induction calls using List.reverseRecOn with
  | nil => cases hkey
  | append_singleton calls call ih =>
      by_cases hcall : call.key? = some key
      · cases call with
        | sweep instant => cases hcall
        | allow other instant =>
            obtain rfl := Option.some.inj hcall
            exact ⟨instant, [], lastCalled_concat_iff.2 (.inl ⟨rfl, rfl⟩)⟩
      · rw [Call.keys_append, List.mem_append] at hkey
        rcases hkey with hbefore | hlast
        · obtain ⟨instant, since, hlast⟩ := ih hbefore
          exact ⟨instant, _, lastCalled_concat_iff.2 (.inr ⟨since, rfl, hcall, hlast⟩)⟩
        · obtain ⟨last, hmem, hsame⟩ := List.mem_filterMap.1 hlast
          exact absurd (List.mem_singleton.1 hmem ▸ hsame) hcall

theorem LastCalled.mem (hlast : LastCalled history key instant since) :
    .allow key instant ∈ history := by
  obtain ⟨earlier, rfl⟩ := hlast.split
  simp

theorem LastCalled.since_subset (hlast : LastCalled history key instant since) :
    since ⊆ history := by
  obtain ⟨earlier, rfl⟩ := hlast.split
  intro call hcall
  exact List.mem_append_right _ (List.mem_cons_of_mem _ hcall)

/-- What was called since the last call for a key was called later. -/
theorem LastCalled.lt_of_mem_since (hlast : LastCalled history key instant since)
    (hforward : (Call.askings history).Pairwise (· < ·)) (hmem : .allow other now ∈ since) :
    instant < now := by
  obtain ⟨earlier, rfl⟩ := hlast.split
  rw [Call.askings, List.filterMap_append, List.pairwise_append] at hforward
  exact (List.pairwise_cons.1 hforward.2.1).1 now (List.mem_filterMap.2 ⟨_, hmem, rfl⟩)

/-- What was called later than a key was last called was called since then. -/
theorem LastCalled.mem_since_of_lt (hlast : LastCalled history key instant since)
    (hforward : (Call.askings history).Pairwise (· < ·)) (hmem : .allow other now ∈ history)
    (hlater : instant < now) : .allow other now ∈ since := by
  obtain ⟨earlier, rfl⟩ := hlast.split
  rw [Call.askings, List.filterMap_append, List.pairwise_append] at hforward
  rcases List.mem_append.1 hmem with hbefore | hhere
  · have hless := hforward.2.2 now (List.mem_filterMap.2 ⟨_, hbefore, rfl⟩) instant
      List.mem_cons_self
    exact absurd hlater (not_lt_of_gt hless)
  · rcases List.mem_cons.1 hhere with hsame | hsince
    · cases hsame
      exact absurd hlater (lt_irrefl _)
    · exact hsince

variable {maxKeys idleTime : Nat}

/-- Whoever was called after a key that is remembered is remembered as well: not as many keys and
sweeps have come since. -/
theorem Remembered.of_called_since (hlast : LastCalled history key instant since)
    (hforward : (Call.askings history).Pairwise (· < ·))
    (hfew : (Call.keys since).toFinset.card < maxKeys)
    (hfresh : ∀ sweptAt ∈ Call.sweeps since, sweptAt - instant ≤ idleTime)
    (hother : other ∈ Call.keys since) :
    ∃ later, instant < later ∧ Remembered maxKeys idleTime history other later := by
  obtain ⟨later, after, hcalled⟩ := exists_lastCalled hother
  have hless := hlast.lt_of_mem_since hforward hcalled.mem
  obtain ⟨earlier, rfl⟩ := hlast.split
  obtain ⟨between, hbetween⟩ := hcalled.split
  refine ⟨later, hless, after, ⟨⟨earlier ++ .allow key instant :: between, ?_⟩, hcalled.not_again⟩,
    ?_, ?_⟩
  · simp [hbetween]
  · have hsubset : (Call.keys after).toFinset ⊆ (Call.keys since).toFinset := by
      intro key hkey
      rw [List.mem_toFinset] at hkey ⊢
      exact Call.keys_subset hcalled.since_subset hkey
    exact (Finset.card_le_card hsubset).trans_lt hfew
  · intro sweptAt hswept
    have hbefore := hfresh sweptAt (Call.sweeps_subset hcalled.since_subset hswept)
    omega

/-- A key that is called now is remembered from now on. -/
theorem remembered_allow_self_iff (hpos : 0 < maxKeys) :
    Remembered maxKeys idleTime (history ++ [.allow key now]) key instant ↔ instant = now := by
  simp only [Remembered, lastCalled_concat_iff]
  constructor
  · rintro ⟨since, ⟨hcall, -⟩ | ⟨before, -, hkey, -⟩, -, -⟩
    · cases hcall
      rfl
    · exact absurd rfl hkey
  · rintro rfl
    exact ⟨[], .inl ⟨rfl, rfl⟩, by simpa [Call.keys] using hpos, by simp [Call.sweeps]⟩

/-- A call for another key is one more key to be remembered with it. -/
theorem remembered_allow_other_iff (hother : key ≠ other) :
    Remembered maxKeys idleTime (history ++ [.allow other now]) key instant ↔
      ∃ since, LastCalled history key instant since ∧
        (insert other (Call.keys since).toFinset).card < maxKeys ∧
        ∀ sweptAt ∈ Call.sweeps since, sweptAt - instant ≤ idleTime := by
  have hkeys : ∀ before : List Call, (Call.keys (before ++ [.allow other now])).toFinset =
      insert other (Call.keys before).toFinset := by
    intro before
    simp [Call.keys, Call.key?]
  have hsweeps : ∀ before : List Call,
      Call.sweeps (before ++ [.allow other now]) = Call.sweeps before := by
    intro before
    simp [Call.sweeps, Call.sweptAt?]
  simp only [Remembered, lastCalled_concat_iff]
  constructor
  · rintro ⟨since, ⟨hcall, -⟩ | ⟨before, rfl, -, hlast⟩, hfew, hfresh⟩
    · cases hcall
      exact absurd rfl hother
    · rw [hkeys] at hfew
      rw [hsweeps] at hfresh
      exact ⟨before, hlast, hfew, hfresh⟩
  · rintro ⟨before, hlast, hfew, hfresh⟩
    refine ⟨_, .inr ⟨before, rfl, ?_, hlast⟩, ?_, ?_⟩
    · exact fun hsame => hother (Option.some.inj hsame).symm
    · rwa [hkeys]
    · rwa [hsweeps]

/-- A sweep makes forget what has been idle for too long. -/
theorem remembered_sweep_iff :
    Remembered maxKeys idleTime (history ++ [.sweep now]) key instant ↔
      Remembered maxKeys idleTime history key instant ∧ now - instant ≤ idleTime := by
  have hkeys : ∀ before : List Call, Call.keys (before ++ [.sweep now]) = Call.keys before := by
    intro before
    simp [Call.keys, Call.key?]
  have hsweeps : ∀ before : List Call,
      Call.sweeps (before ++ [.sweep now]) = Call.sweeps before ++ [now] := by
    intro before
    simp [Call.sweeps, Call.sweptAt?]
  simp only [Remembered, lastCalled_concat_iff]
  constructor
  · rintro ⟨since, ⟨hcall, -⟩ | ⟨before, rfl, -, hlast⟩, hfew, hfresh⟩
    · cases hcall
    · rw [hkeys] at hfew
      rw [hsweeps] at hfresh
      exact ⟨⟨before, hlast, hfew, fun sweptAt hswept => hfresh _ (List.mem_append_left _ hswept)⟩,
        hfresh _ (List.mem_append_right _ List.mem_cons_self)⟩
  · rintro ⟨⟨before, hlast, hfew, hfresh⟩, hnow⟩
    have hother : (Call.sweep now).key? ≠ some key := Option.some_ne_none key |>.symm
    refine ⟨_, .inr ⟨before, rfl, hother, hlast⟩, ?_, ?_⟩
    · rwa [hkeys]
    · rw [hsweeps]
      intro sweptAt hswept
      rcases List.mem_append.1 hswept with hbefore | hlast
      · exact hfresh _ hbefore
      · rwa [List.mem_singleton.1 hlast]

end Histories

namespace Limiter

variable {α : Type}

/-! ## Entries in the order of their last calls -/

/-- Each entry was last seen before those behind it. -/
abbrev Sorted (limiter : Limiter α) : Prop :=
  limiter.tracked.Pairwise (·.lastSeen < ·.lastSeen)

theorem stalest_of_pairwise {first : Tracked α} {rest : List (Tracked α)}
    (hsorted : (first :: rest).Pairwise (·.lastSeen < ·.lastSeen)) :
    stalest (first :: rest) = some first := by
  rw [stalest]
  split
  · rfl
  next other hrest =>
    have hlater := (List.pairwise_cons.1 hsorted).1 other (mem_of_stalest hrest)
    rw [if_neg (not_lt_of_gt hlater)]

/-- At the bound it is the first entry that makes room. -/
theorem Sorted.roomFor_eq {limiter : Limiter α} (hsorted : limiter.Sorted)
    (hdistinct : limiter.Distinct) (key : String) :
    limiter.roomFor key =
      if limiter.contains key = true ∨ limiter.size < limiter.limits.maxKeys then limiter.tracked
      else limiter.tracked.tail := by
  rw [roomFor]
  cases htracked : limiter.tracked with
  | nil => simp [stalest]
  | cons first rest =>
      rw [Sorted, htracked] at hsorted
      rw [Distinct, htracked, List.map_cons, List.nodup_cons] at hdistinct
      have hrest : without first.key (first :: rest) = rest := by
        rw [without, List.filter_cons_of_neg (by simp), List.filter_eq_self]
        intro other hother
        have hne : other.key ≠ first.key := fun hsame =>
          hdistinct.1 (hsame ▸ List.mem_map_of_mem hother)
        simpa using hne
      rw [stalest_of_pairwise hsorted]
      simp only [hrest, List.tail_cons]

/-- The entries of a limiter are what its history tells to remember. -/
structure Faithful (limiter : Limiter α) (history : List Call) : Prop where
  distinct : limiter.Distinct
  sorted : limiter.Sorted
  size_le : limiter.size ≤ limiter.limits.maxKeys
  tracked_iff : ∀ key instant,
    (∃ entry ∈ limiter.tracked, entry.key = key ∧ entry.lastSeen = instant) ↔
      Remembered limiter.limits.maxKeys limiter.limits.idleTime history key instant

namespace Faithful

variable {limiter : Limiter α} {history : List Call}

/-- The keys that were called after the last call for an entry are the keys of the entries behind
it. -/
theorem card_keys_since (hfaithful : limiter.Faithful history)
    (hforward : (Call.askings history).Pairwise (· < ·)) {front back : List (Tracked α)}
    {entry : Tracked α} (hsplit : limiter.tracked = front ++ entry :: back) {since : List Call}
    (hlast : LastCalled history entry.key entry.lastSeen since)
    (hfew : (Call.keys since).toFinset.card < limiter.limits.maxKeys)
    (hfresh : ∀ sweptAt ∈ Call.sweeps since, sweptAt - entry.lastSeen ≤ limiter.limits.idleTime) :
    (Call.keys since).toFinset = (back.map (·.key)).toFinset ∧
      (Call.keys since).toFinset.card = back.length := by
  have hsorted := hfaithful.sorted
  have hdistinct := hfaithful.distinct
  rw [Sorted, hsplit, List.pairwise_append, List.pairwise_cons] at hsorted
  rw [Distinct, hsplit, List.map_append, List.map_cons, List.nodup_append, List.nodup_cons]
    at hdistinct
  have hsame : (Call.keys since).toFinset = (back.map (·.key)).toFinset := by
    ext key
    rw [List.mem_toFinset, List.mem_toFinset, List.mem_map]
    constructor
    · intro hkey
      obtain ⟨later, hlater, hremembered⟩ :=
        Remembered.of_called_since hlast hforward hfew hfresh hkey
      obtain ⟨other, hother, hsame, hseen⟩ := (hfaithful.tracked_iff key later).2 hremembered
      rw [hsplit, List.mem_append, List.mem_cons] at hother
      rcases hother with hfront | rfl | hback
      · have hbefore := hsorted.2.2 other hfront entry List.mem_cons_self
        omega
      · omega
      · exact ⟨other, hback, hsame⟩
    · rintro ⟨other, hother, rfl⟩
      have htracked : other ∈ limiter.tracked := by simp [hsplit, hother]
      obtain ⟨after, hcalled, -⟩ := (hfaithful.tracked_iff _ _).1 ⟨other, htracked, rfl, rfl⟩
      exact Call.mem_keys.2 ⟨_, hlast.mem_since_of_lt hforward hcalled.mem
        (hsorted.2.1.1 other hother)⟩
  refine ⟨hsame, ?_⟩
  rw [hsame, List.toFinset_card_of_nodup hdistinct.2.1.2, List.length_map]

/-- The entry of another key has its room when a key is called, unless that makes one key too
many since its own last call. -/
theorem mem_roomFor_iff (hfaithful : limiter.Faithful history)
    (hforward : (Call.askings history).Pairwise (· < ·)) {entry : Tracked α}
    (hentry : entry ∈ limiter.tracked) {key : String} (hother : entry.key ≠ key)
    {since : List Call} (hlast : LastCalled history entry.key entry.lastSeen since)
    (hfew : (Call.keys since).toFinset.card < limiter.limits.maxKeys)
    (hfresh : ∀ sweptAt ∈ Call.sweeps since, sweptAt - entry.lastSeen ≤ limiter.limits.idleTime) :
    entry ∈ limiter.roomFor key ↔
      (insert key (Call.keys since).toFinset).card < limiter.limits.maxKeys := by
  obtain ⟨front, back, hsplit⟩ := List.append_of_mem hentry
  obtain ⟨hkeys, hcard⟩ := hfaithful.card_keys_since hforward hsplit hlast hfew hfresh
  have hsize : limiter.size = front.length + (back.length + 1) := by simp [size, hsplit]
  have hbound := hfaithful.size_le
  rw [hfaithful.sorted.roomFor_eq hfaithful.distinct]
  by_cases hcontains : limiter.contains key = true
  · rw [if_pos (.inl hcontains)]
    refine iff_of_true hentry ?_
    rw [contains_iff, hsplit, List.map_append, List.map_cons, List.mem_append, List.mem_cons]
      at hcontains
    rcases hcontains with hfront | hself | hback
    · have hpos := List.length_pos_of_mem hfront
      have hinsert := Finset.card_insert_le key (Call.keys since).toFinset
      rw [List.length_map] at hpos
      omega
    · exact absurd hself.symm hother
    · rwa [Finset.insert_eq_of_mem (by rw [hkeys]; exact List.mem_toFinset.2 hback)]
  · have hnew : key ∉ (Call.keys since).toFinset := by
      rw [hkeys, List.mem_toFinset]
      intro hback
      apply hcontains
      rw [contains_iff, hsplit, List.map_append]
      exact List.mem_append_right _ (List.mem_cons_of_mem _ hback)
    rw [Finset.card_insert_of_notMem hnew, hcard]
    by_cases hroom : limiter.size < limiter.limits.maxKeys
    · rw [if_pos (.inr hroom)]
      exact iff_of_true hentry (by omega)
    · rw [if_neg (not_or.2 ⟨hcontains, hroom⟩)]
      -- The limiter is full, so only the first of its entries has to go.
      cases front with
      | nil =>
          have hdistinct := hfaithful.distinct
          rw [Distinct, hsplit, List.nil_append, List.map_cons, List.nodup_cons] at hdistinct
          rw [hsplit, List.nil_append, List.tail_cons]
          refine iff_of_false (fun hback => hdistinct.1 (List.mem_map_of_mem hback)) ?_
          rw [List.length_nil] at hsize
          omega
      | cons first front =>
          rw [hsplit, List.cons_append, List.tail_cons]
          rw [List.length_cons] at hsize
          exact iff_of_true (by simp) (by omega)

/-- There is room for the key that is called. -/
theorem length_roomFor_lt (hfaithful : limiter.Faithful history)
    (hpos : 0 < limiter.limits.maxKeys) (key : String) :
    (without key (limiter.roomFor key)).length < limiter.limits.maxKeys := by
  have hbound : limiter.tracked.length ≤ limiter.limits.maxKeys := hfaithful.size_le
  have hothers :=
    List.length_filter_le (fun entry => decide (entry.key ≠ key)) (limiter.roomFor key)
  rw [hfaithful.sorted.roomFor_eq hfaithful.distinct] at hothers ⊢
  by_cases hcontains : limiter.contains key = true
  · obtain ⟨entry, hentry, hkey⟩ := List.mem_map.1 (contains_iff.1 hcontains)
    rw [if_pos (.inl hcontains)]
    refine Nat.lt_of_lt_of_le ?_ hbound
    exact List.length_filter_lt_length_iff_exists.2 ⟨entry, hentry, by simpa using hkey⟩
  · by_cases hroom : limiter.size < limiter.limits.maxKeys
    · rw [if_pos (.inr hroom)] at hothers ⊢
      exact Nat.lt_of_le_of_lt hothers hroom
    · rw [if_neg (not_or.2 ⟨hcontains, hroom⟩)] at hothers ⊢
      rw [List.length_tail] at hothers
      exact Nat.lt_of_le_of_lt hothers (by omega)

variable [Arithmetic α]

/-- The key that is called has an entry of that moment, and no other one. -/
theorem tracked_allow_self_iff (limiter : Limiter α) (key : String) (now instant : Int) :
    (∃ entry ∈ (limiter.allow key now).2.tracked, entry.key = key ∧ entry.lastSeen = instant) ↔
      instant = now := by
  obtain ⟨bucket, htracked⟩ := limiter.exists_tracked_allow key now
  rw [htracked]
  constructor
  · rintro ⟨entry, hentry, hkey, rfl⟩
    rcases List.mem_append.1 hentry with hothers | hself
    · exact absurd hkey (mem_without.1 hothers).2
    · rw [List.mem_singleton.1 hself]
  · rintro rfl
    exact ⟨_, List.mem_append_right _ List.mem_cons_self, rfl, rfl⟩

/-- Of the other keys those have entries that are still to be remembered. -/
theorem tracked_allow_other_iff (hfaithful : limiter.Faithful history)
    (hforward : (Call.askings history).Pairwise (· < ·)) {key other : String}
    (hother : other ≠ key) (now instant : Int) :
    (∃ entry ∈ (limiter.allow key now).2.tracked, entry.key = other ∧ entry.lastSeen = instant) ↔
      Remembered limiter.limits.maxKeys limiter.limits.idleTime (history ++ [.allow key now]) other
        instant := by
  obtain ⟨bucket, htracked⟩ := limiter.exists_tracked_allow key now
  rw [htracked, remembered_allow_other_iff hother]
  constructor
  · rintro ⟨entry, hentry, rfl, rfl⟩
    have hroom : entry ∈ limiter.roomFor key := by
      rcases List.mem_append.1 hentry with hothers | hself
      · exact (mem_without.1 hothers).1
      · rw [List.mem_singleton.1 hself] at hother
        exact absurd rfl hother
    have hstill := (limiter.roomFor_sublist key).subset hroom
    obtain ⟨since, hlast, hfew, hfresh⟩ :=
      (hfaithful.tracked_iff _ _).1 ⟨entry, hstill, rfl, rfl⟩
    exact ⟨since, hlast,
      (hfaithful.mem_roomFor_iff hforward hstill hother hlast hfew hfresh).1 hroom, hfresh⟩
  · rintro ⟨since, hlast, hfew, hfresh⟩
    have hless := (Finset.card_le_card (Finset.subset_insert key _)).trans_lt hfew
    obtain ⟨entry, hentry, rfl, rfl⟩ :=
      (hfaithful.tracked_iff other instant).2 ⟨since, hlast, hless, hfresh⟩
    have hroom := (hfaithful.mem_roomFor_iff hforward hentry hother hlast hless hfresh).2 hfew
    exact ⟨entry, List.mem_append_left _ (mem_without.2 ⟨hroom, hother⟩), rfl, rfl⟩

theorem allow (hfaithful : limiter.Faithful history) (hpos : 0 < limiter.limits.maxKeys)
    {key : String} {now : Int}
    (hforward : (Call.askings (history ++ [.allow key now])).Pairwise (· < ·)) :
    (limiter.allow key now).2.Faithful (history ++ [.allow key now]) := by
  rw [Call.askings, List.filterMap_append, List.pairwise_append] at hforward
  obtain ⟨hbefore, -, hnow⟩ := hforward
  obtain ⟨bucket, htracked⟩ := limiter.exists_tracked_allow key now
  have hothers : (without key (limiter.roomFor key)).Sublist limiter.tracked :=
    (without_sublist ..).trans (limiter.roomFor_sublist key)
  have hearlier : ∀ entry ∈ limiter.tracked, entry.lastSeen < now := by
    intro entry hentry
    obtain ⟨since, hlast, -⟩ := (hfaithful.tracked_iff _ _).1 ⟨entry, hentry, rfl, rfl⟩
    exact hnow _ (List.mem_filterMap.2 ⟨_, hlast.mem, rfl⟩) now List.mem_cons_self
  refine ⟨hfaithful.distinct.perform (.allow key now), ?_, ?_, ?_⟩
  · rw [Sorted, htracked, List.pairwise_append]
    refine ⟨hfaithful.sorted.sublist hothers, List.pairwise_singleton .., ?_⟩
    intro entry hentry last hlast
    rw [List.mem_singleton.1 hlast]
    exact hearlier entry (hothers.subset hentry)
  · rw [size, htracked, List.length_append]
    exact hfaithful.length_roomFor_lt hpos key
  · intro other instant
    by_cases hsame : other = key
    · rw [hsame, tracked_allow_self_iff]
      exact (remembered_allow_self_iff hpos).symm
    · exact hfaithful.tracked_allow_other_iff hbefore hsame now instant

theorem sweep (hfaithful : limiter.Faithful history) (now : Int) :
    (limiter.sweep now).Faithful (history ++ [.sweep now]) := by
  refine ⟨hfaithful.distinct.perform (.sweep now), hfaithful.sorted.sublist List.filter_sublist,
    (List.length_filter_le ..).trans hfaithful.size_le, ?_⟩
  intro key instant
  rw [show (limiter.sweep now).limits = limiter.limits from rfl, remembered_sweep_iff,
    ← hfaithful.tracked_iff]
  simp only [Limiter.sweep, List.mem_filter, isFresh, decide_eq_true_eq, Int.toNat_le]
  constructor
  · rintro ⟨entry, ⟨hentry, hfresh⟩, rfl, rfl⟩
    exact ⟨⟨entry, hentry, rfl, rfl⟩, hfresh⟩
  · rintro ⟨⟨entry, hentry, rfl, rfl⟩, hfresh⟩
    exact ⟨entry, ⟨hentry, hfresh⟩, rfl, rfl⟩

end Faithful

/-- However a limiter was set up: if the instants of the calls for keys go up, then after every run
its entries are what the history tells to remember. -/
theorem faithful_run [Arithmetic α] (limits : Limits α) (calls : List Call)
    (hforward : (Call.askings calls).Pairwise (· < ·)) :
    ((ofLimits limits).run calls).Faithful calls := by
  induction calls using List.reverseRecOn with
  | nil =>
      refine ⟨List.nodup_nil, List.Pairwise.nil, Nat.zero_le _, fun key instant => ?_⟩
      refine iff_of_false (fun ⟨_, hentry, _⟩ => List.not_mem_nil hentry) ?_
      rintro ⟨since, ⟨⟨earlier, hsplit⟩, -⟩, -⟩
      simp at hsplit
  | append_singleton calls call ih =>
      have hbefore : (Call.askings calls).Pairwise (· < ·) :=
        hforward.sublist ((List.sublist_append_left ..).filterMap _)
      rw [run_concat]
      cases call with
      | sweep now => exact (ih hbefore).sweep now
      | allow key now =>
          refine (ih hbefore).allow ?_ hforward
          rw [limits_run]
          exact Nat.lt_of_lt_of_le Nat.zero_lt_one (Nat.le_max_right ..)

/-- A call for a key that is tracked drops no other key. -/
theorem contains_allow_of_contains [Arithmetic α] {limiter : Limiter α} {key : String}
    (hcontains : limiter.contains key = true) (now : Int) (other : String) :
    (limiter.allow key now).2.contains other = limiter.contains other := by
  obtain ⟨bucket, htracked⟩ := limiter.exists_tracked_allow key now
  have hroom : limiter.roomFor key = limiter.tracked := by
    rw [roomFor, if_pos (.inl hcontains)]
  rw [Bool.eq_iff_iff, contains_iff, contains_iff, htracked, hroom, List.map_append,
    List.mem_append]
  by_cases hsame : other = key
  · subst hsame
    exact iff_of_true (.inr List.mem_cons_self) (contains_iff.1 hcontains)
  · constructor
    · rintro (hothers | hself)
      · exact ((without_sublist ..).map _).subset hothers
      · exact absurd (List.mem_singleton.1 hself) hsame
    · intro hmem
      obtain ⟨entry, hentry, rfl⟩ := List.mem_map.1 hmem
      exact .inl (List.mem_map_of_mem (mem_without.2 ⟨hentry, hsame⟩))

/-- A sweep counts the keys that are tracked before it and not after it. -/
theorem Distinct.sweepCount_eq {limiter : Limiter α} (hdistinct : limiter.Distinct) (now : Int) :
    limiter.sweepCount now =
      ((limiter.tracked.map (·.key)).filter fun key =>
        !(limiter.sweep now).contains key).length := by
  have hgone : limiter.tracked.filter (fun entry => !(limiter.sweep now).contains entry.key) =
      limiter.tracked.filter fun entry => !limiter.isFresh now entry :=
    List.filter_congr fun entry hentry => by rw [hdistinct.contains_sweep now hentry]
  rw [List.filter_map, List.length_map, Function.comp_def, hgone]
  rfl

/-- However a limiter was set up, and whatever calls and sweeps it has seen: if the instants of the
calls for keys go up, a key is tracked if and only if its history tells to remember it. So no more
keys are tracked than are allowed, a call for a tracked key drops none, and a sweep counts the keys
that it drops. -/
theorem tracking_of_run [Arithmetic α] (limits : Limits α) (calls : List Call)
    (hforward : (Call.askings calls).Pairwise (· < ·)) :
    let limiter := (ofLimits limits).run calls
    (∀ key, limiter.contains key = true ↔
        ∃ instant, Remembered (max limits.maxKeys 1) limits.idleTime calls key instant) ∧
      limiter.size ≤ max limits.maxKeys 1 ∧
      (∀ key now, limiter.contains key = true →
        ∀ other, (limiter.allow key now).2.contains other = limiter.contains other) ∧
      ∀ now, limiter.sweepCount now =
        ((limiter.tracked.map (·.key)).filter fun key =>
          !(limiter.sweep now).contains key).length := by
  intro limiter
  have hfaithful : limiter.Faithful calls := faithful_run limits calls hforward
  have hlimits : limiter.limits = { limits with maxKeys := max limits.maxKeys 1 } :=
    limits_run _ calls
  have htracked := hfaithful.tracked_iff
  have hsize := hfaithful.size_le
  rw [hlimits] at htracked hsize
  refine ⟨fun key => ?_, hsize, fun _ now hcontains => contains_allow_of_contains hcontains now,
    hfaithful.distinct.sweepCount_eq⟩
  rw [contains_iff, List.mem_map]
  constructor
  · rintro ⟨entry, hentry, hkey⟩
    exact ⟨_, (htracked key entry.lastSeen).1 ⟨entry, hentry, hkey, rfl⟩⟩
  · rintro ⟨instant, hremembered⟩
    obtain ⟨entry, hentry, hkey, -⟩ := (htracked key instant).2 hremembered
    exact ⟨entry, hentry, hkey⟩

/-- Calls for four keys, and a sweep that comes too late for the first of them. -/
def fourKeys : List Call :=
  [.allow "a" 0, .allow "b" 5, .sweep 11, .allow "c" 12, .allow "d" 13]

/-- With room for two keys, the first one falls to the sweep and the second one to the two that
come after it, so neither is to be remembered. -/
theorem tracking_of_fourKeys :
    (Call.askings fourKeys).Pairwise (· < ·) ∧
      (∀ instant, ¬ Remembered 2 10 fourKeys "a" instant) ∧
      (∀ instant, ¬ Remembered 2 10 fourKeys "b" instant) ∧
      ∃ instant, Remembered 2 10 fourKeys "c" instant := by
  have hforward : (Call.askings fourKeys).Pairwise (· < ·) := by decide
  obtain ⟨htracked, -⟩ := tracking_of_run (⟨1, 1, 2, 10⟩ : Limits Rat) fourKeys hforward
  refine ⟨hforward, fun instant hremembered => ?_, fun instant hremembered => ?_,
    (htracked "c").1 (by decide)⟩
  · exact absurd ((htracked "a").2 ⟨instant, hremembered⟩) (by decide)
  · exact absurd ((htracked "b").2 ⟨instant, hremembered⟩) (by decide)

end Limiter

end Upkeep.RateLimit
