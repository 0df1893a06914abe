import ZigbeeHost.Proofs.Roster
import ZigbeeHost.Session.Emission
/-!
# Subscribers that are stored, and those that are connected

What a session does with its subscribers, told as what becomes of the connected ones
(`Session.slots`). The end of an emission takes off the list who is not connected, which the
connected ones do not see (`Session.slots_retain`), and for its event leaves nobody else
(`Session.stored_retain`, `Session.stored_emit`). That holds of every emission, the ones that
callbacks make inside another one among them.
-/

namespace ZigbeeHost.Session

variable {η : Type} {s : Session η}

/-! ## The operations -/

@[simp] theorem slots_subscribe (s : Session η) (event : Event) (subscriber : Subscriber) :
    (s.subscribe event subscriber).2.slots =
      s.slots ++ [⟨s.freshConnection, event, subscriber⟩] :=
  s.subscribers.live_add ⟨s.freshConnection, event, subscriber⟩ rfl

@[simp] theorem freshConnection_subscribe (s : Session η) (event : Event)
    (subscriber : Subscriber) :
    (s.subscribe event subscriber).2.freshConnection = s.freshConnection + 1 :=
  s.subscribers.fresh_add ⟨s.freshConnection, event, subscriber⟩ rfl

theorem slots_subset_subscribe (s : Session η) (event : Event) (subscriber : Subscriber) :
    s.slots ⊆ (s.subscribe event subscriber).2.slots := by
  rw [slots_subscribe]
  exact List.subset_append_left ..

theorem mem_slots_subscribe (s : Session η) (event : Event) (subscriber : Subscriber) :
    ⟨s.freshConnection, event, subscriber⟩ ∈ (s.subscribe event subscriber).2.slots := by
  simp

@[simp] theorem slots_disconnect (s : Session η) (connection : Connection) :
    (s.disconnect connection).slots = s.slots.filter (·.connection != connection) :=
  Roster.live_lower ..

@[simp] theorem freshConnection_disconnect (s : Session η) (connection : Connection) :
    (s.disconnect connection).freshConnection = s.freshConnection := Roster.fresh_lower ..

@[simp] theorem slots_retain (event : Event) (s : Session η) :
    (s.retain event).slots = s.slots := Roster.live_sweep ..

/-- A connection is there as long as its subscriber is attached. -/
theorem isConnected_iff {connection : Connection} :
    s.isConnected connection = true ↔ ∃ slot ∈ s.slots, slot.connection = connection :=
  Roster.raised_iff_live

theorem isConnected_of_eq {t : Session η} (h : t.slots = s.slots) (connection : Connection) :
    t.isConnected connection = s.isConnected connection := by
  rw [Bool.eq_iff_iff, isConnected_iff, isConnected_iff, h]

theorem isConnected_of_mem {slot : Slot} (h : slot ∈ s.slots) :
    s.isConnected slot.connection = true := isConnected_iff.2 ⟨slot, h, rfl⟩

/-- To disconnect parts one subscriber from the session, and no other. -/
theorem mem_slots_disconnect {slot : Slot} {connection : Connection} :
    slot ∈ (s.disconnect connection).slots ↔ slot ∈ s.slots ∧ slot.connection ≠ connection := by
  rw [slots_disconnect, List.mem_filter, bne_iff_ne]

theorem isConnected_disconnect_self (s : Session η) (connection : Connection) :
    (s.disconnect connection).isConnected connection = false := by
  rw [Bool.eq_false_iff, Ne, isConnected_iff]
  rintro ⟨slot, hslot, hsame⟩
  exact (mem_slots_disconnect.1 hslot).2 hsame

/-- To detach whoever is not attached changes nothing. -/
theorem disconnect_of_not_isConnected {connection : Connection}
    (h : s.isConnected connection = false) : s.disconnect connection = s := by
  unfold disconnect
  rw [Roster.lower_of_down h]

/-! ## The list -/

/-- No two subscribers have the same connection. -/
theorem slots_nodup (s : Session η) : (s.slots.map Slot.connection).Nodup :=
  s.subscribers.live_nodup

/-- Connections are counted upwards. -/
theorem lt_freshConnection {slot : Slot} (h : slot ∈ s.slots) :
    slot.connection < s.freshConnection := Roster.lt_fresh h

/-- A subscriber is told apart by its connection. -/
theorem eq_of_connection {x y : Slot} (hx : x ∈ s.slots) (hy : y ∈ s.slots)
    (h : x.connection = y.connection) : x = y :=
  List.inj_on_of_nodup_map s.slots_nodup hx hy h

/-- The audience of an event are those attached to it. -/
theorem mem_audience {slot : Slot} {event : Event} :
    slot ∈ s.audience event ↔ slot ∈ s.slots ∧ slot.event = event := by
  simp [audience]

/-- The audience are those stored for the event who are connected. -/
theorem filter_stored (s : Session η) (event : Event) :
    (s.stored event).filter (fun slot => s.isConnected slot.connection) = s.audience event := by
  simp only [stored, audience, slots, Roster.live, List.filter_filter, isConnected, Bool.and_comm]

/-- Whoever is not connected is passed over. -/
theorem notify_of_not_isConnected {slot : Slot} (h : s.isConnected slot.connection = false)
    (app : Application η) (i : Indication) : s.notify app i slot = s := by
  simp [notify, h]

/-- At the end of an emission those who are stored for its event are those who are connected. -/
theorem stored_retain (event : Event) (s : Session η) :
    (s.retain event).stored event = (s.retain event).audience event := Roster.stored_sweep ..

/-- At the end of an emission nobody is stored but the audience. -/
theorem stored_emit (app : Application η) (i : Indication) (s : Session η) :
    (s.emit app i).stored i.event = (s.emit app i).audience i.event := stored_retain ..

end ZigbeeHost.Session
