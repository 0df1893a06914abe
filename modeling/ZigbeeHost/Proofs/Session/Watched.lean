import ZigbeeHost.Proofs.Session.Ledger
/-!
# Watchers and tracked operations

An operation may be carried by a subscriber, a watcher, and is then listed among the
tracked operations, so that a teardown finds it. `WatchersFit ts s` says that the tracked
operations `ts` are those of the watchers of `s` : each watcher is listed under its
connection, and whatever is listed without a watcher is decided.
-/

namespace ZigbeeHost

variable {η : Type}

/-- The operation that a subscriber is to complete. -/
def Subscriber.operation? : Subscriber → Option OperationId
  | application _ => none
  | watcher _ op => some op

/-- The tracked operations `ts` are those of the watchers of `s`. -/
structure WatchersFit (ts : List Tracked) (s : Session η) : Prop where
  tracked_lt : ∀ t ∈ ts, t.connection < s.freshConnection
  tracked_nodup : (ts.map Tracked.connection).Nodup
  /-- Each watcher is listed. -/
  listed : ∀ slot ∈ s.slots, ∀ op, slot.subscriber.operation? = some op →
    ⟨slot.connection, op⟩ ∈ ts
  /-- A listed connection is that of a watcher, if it is connected. -/
  watcher : ∀ t ∈ ts, ∀ slot ∈ s.slots, slot.connection = t.connection →
    slot.subscriber.operation? = some t.operation
  issued : ∀ t ∈ ts, t.operation < s.operations.size
  /-- A listed operation has its watcher as long as it is pending. -/
  attached : ∀ t ∈ ts, s.pending t.operation = true → s.isConnected t.connection = true

namespace Session

theorem pending_lt {s : Session η} {op : OperationId} (h : s.pending op = true) :
    op < s.operations.size :=
  (Array.getElem?_eq_some_iff.1 (pending_iff.1 h)).1

end Session

namespace WatchersFit

variable {ts ts' : List Tracked} {s : Session η}

theorem congr {t : Session η} (h : WatchersFit ts s) (hs : t.slots = s.slots)
    (hc : t.freshConnection = s.freshConnection) (ho : t.operations = s.operations) :
    WatchersFit ts t := by
  obtain ⟨h1, h2, h3, h4, h5, h6⟩ := h
  refine ⟨?_, h2, ?_, ?_, ?_, ?_⟩
  · rwa [hc]
  · rwa [hs]
  · rwa [hs]
  · rwa [ho]
  · simpa only [Session.pending_of_eq ho, Session.isConnected_of_eq hs] using h6

theorem perm (h : WatchersFit ts s) (hp : ts.Perm ts') : WatchersFit ts' s where
  tracked_lt t ht := h.tracked_lt t (hp.mem_iff.2 ht)
  tracked_nodup := h.tracked_nodup.perm (hp.map _)
  listed slot hslot op hop := hp.mem_iff.1 (h.listed slot hslot op hop)
  watcher t ht := h.watcher t (hp.mem_iff.2 ht)
  issued t ht := h.issued t (hp.mem_iff.2 ht)
  attached t ht := h.attached t (hp.mem_iff.2 ht)

theorem complete (h : WatchersFit ts s) (op : OperationId) (outcome : Except Failure Outcome) :
    WatchersFit ts (s.complete op outcome) where
  tracked_lt := by simpa using h.tracked_lt
  tracked_nodup := h.tracked_nodup
  listed := by simpa using h.listed
  watcher := by simpa using h.watcher
  issued t ht := by
    rw [Session.size_operations_complete]
    exact h.issued t ht
  attached t ht hp := by
    rw [Session.pending_complete, Bool.and_eq_true] at hp
    rw [Session.isConnected_of_eq (Session.complete_slots ..)]
    exact h.attached t ht hp.1

theorem issue (h : WatchersFit ts s) : WatchersFit ts s.issue.2 where
  tracked_lt := h.tracked_lt
  tracked_nodup := h.tracked_nodup
  listed := h.listed
  watcher := h.watcher
  issued t ht := by
    have hlt := h.issued t ht
    simp only [Session.issue, Array.size_push]
    exact Nat.lt_succ_of_lt hlt
  attached t ht hp := by
    rw [Session.pending_issue, Bool.or_eq_true] at hp
    rcases hp with hp | hp
    · exact h.attached t ht hp
    · exact absurd (beq_iff_eq.1 hp) (Nat.ne_of_lt (h.issued t ht))

theorem expire (h : WatchersFit ts s) : WatchersFit ts s.expireTimers := by
  have heq := s.expireTimers_eq
  have hslots : s.expireTimers.slots = s.slots := by
    rw [heq]
    rfl
  have hfresh : s.expireTimers.freshConnection = s.freshConnection := by
    rw [heq]
    rfl
  obtain ⟨h1, h2, h3, h4, h5, h6⟩ := h
  refine ⟨?_, h2, ?_, ?_, ?_, ?_⟩
  · rwa [hfresh]
  · rwa [hslots]
  · rwa [hslots]
  · rwa [Session.size_operations_expireTimers]
  · intro t ht hp
    rw [Session.pending_expireTimers, Bool.and_eq_true] at hp
    rw [Session.isConnected_of_eq hslots]
    exact h6 t ht hp.1

/-- A new subscriber is listed if it is a watcher. -/
theorem subscribe (h : WatchersFit ts s) (event : Event) (subscriber : Subscriber)
    (hissued : ∀ op, subscriber.operation? = some op → op < s.operations.size) :
    WatchersFit ((subscriber.operation?.toList.map fun op => ⟨s.freshConnection, op⟩) ++ ts)
      (s.subscribe event subscriber).2 := by
  have hnew : ∀ t ∈ ts, t.connection ≠ s.freshConnection := fun t ht =>
    Nat.ne_of_lt (h.tracked_lt t ht)
  refine ⟨?_, ?_, ?_, ?_, ?_, ?_⟩
  · intro t ht
    rw [Session.freshConnection_subscribe]
    rcases List.mem_append.1 ht with ht | ht
    · obtain ⟨op, -, rfl⟩ := List.mem_map.1 ht
      exact Nat.lt_succ_self _
    · exact Nat.lt_succ_of_lt (h.tracked_lt t ht)
  · cases subscriber with
    | application callback => exact h.tracked_nodup
    | watcher watch op =>
      refine List.nodup_cons.2 ⟨?_, h.tracked_nodup⟩
      intro hc
      obtain ⟨t, ht, heq⟩ := List.mem_map.1 hc
      exact hnew t ht heq
  · intro slot hslot op hop
    rw [Session.slots_subscribe] at hslot
    rcases List.mem_append.1 hslot with hslot | hslot
    · exact List.mem_append_right _ (h.listed slot hslot op hop)
    · rw [List.mem_singleton.1 hslot] at hop ⊢
      exact List.mem_append_left _ (by simp [hop])
  · intro t ht slot hslot heq
    rw [Session.slots_subscribe] at hslot
    rcases List.mem_append.1 ht with ht | ht
    · obtain ⟨op, hop, rfl⟩ := List.mem_map.1 ht
      rcases List.mem_append.1 hslot with hslot | hslot
      · exact absurd heq (Nat.ne_of_lt (Session.lt_freshConnection hslot))
      · rw [List.mem_singleton.1 hslot]
        simpa using hop
    · rcases List.mem_append.1 hslot with hslot | hslot
      · exact h.watcher t ht slot hslot heq
      · rw [List.mem_singleton.1 hslot] at heq
        exact absurd heq.symm (hnew t ht)
  · intro t ht
    rcases List.mem_append.1 ht with ht | ht
    · obtain ⟨op, hop, rfl⟩ := List.mem_map.1 ht
      exact hissued op (by simpa using hop)
    · exact h.issued t ht
  · intro t ht hp
    rw [Session.isConnected_iff, Session.slots_subscribe]
    rcases List.mem_append.1 ht with ht | ht
    · obtain ⟨op, -, rfl⟩ := List.mem_map.1 ht
      exact ⟨_, List.mem_append_right _ (List.mem_singleton.2 rfl), rfl⟩
    · obtain ⟨slot, hslot, heq⟩ := Session.isConnected_iff.1 (h.attached t ht hp)
      exact ⟨slot, List.mem_append_left _ hslot, heq⟩

/-- A subscriber may be detached if no pending operation depends on it. -/
theorem disconnect (h : WatchersFit ts s) (connection : Connection)
    (hfree : ∀ t ∈ ts, t.connection = connection → s.pending t.operation = false) :
    WatchersFit ts (s.disconnect connection) where
  tracked_lt t ht := by
    rw [Session.freshConnection_disconnect]
    exact h.tracked_lt t ht
  tracked_nodup := h.tracked_nodup
  listed slot hslot := h.listed slot (Session.mem_slots_disconnect.1 hslot).1
  watcher t ht slot hslot := h.watcher t ht slot (Session.mem_slots_disconnect.1 hslot).1
  issued := h.issued
  attached t ht hp := by
    obtain ⟨slot, hslot, heq⟩ := Session.isConnected_iff.1 (h.attached t ht hp)
    refine Session.isConnected_iff.2 ⟨slot, Session.mem_slots_disconnect.2 ⟨hslot, ?_⟩, heq⟩
    intro hc
    have hp' : s.pending t.operation = true := hp
    rw [hfree t ht (heq.symm.trans hc)] at hp'
    cases hp'

/-- Entries of the list that are done may go. -/
theorem sublist (h : WatchersFit ts s) (hsub : ts'.Sublist ts)
    (hpending : ∀ slot ∈ s.slots, ∀ op, slot.subscriber.operation? = some op →
      s.pending op = true)
    (hdone : ∀ t ∈ ts, t ∉ ts' → s.isDone t = true) : WatchersFit ts' s where
  tracked_lt t ht := h.tracked_lt t (hsub.subset ht)
  tracked_nodup := h.tracked_nodup.sublist (hsub.map _)
  listed slot hslot op hop := by
    have hmem := h.listed slot hslot op hop
    by_cases hin : ⟨slot.connection, op⟩ ∈ ts'
    · exact hin
    · have hd := hdone _ hmem hin
      have hout := Session.outcome?_of_pending (hpending slot hslot op hop)
      have hcon : s.isConnected slot.connection = true :=
        Session.isConnected_iff.2 ⟨slot, hslot, rfl⟩
      simp [Session.isDone, hout, hcon] at hd
  watcher t ht := h.watcher t (hsub.subset ht)
  issued t ht := h.issued t (hsub.subset ht)
  attached t ht := h.attached t (hsub.subset ht)

end WatchersFit

end ZigbeeHost
