import ZigbeeHost.Scenario.Play
import ZigbeeHost.Proofs.Serial.Reading
/-!
# What a link writes

A link may stop anywhere : the line takes part of a frame, or none of it, or fails, or fails
to flush. What holds all along is a balance. The bytes written so far, and behind them what
the buffer has not sent yet, are the bytes of the frames that were taken from the queue, one
after the other (`Journal.stream_intact`).

A write keeps the balance (`Outbound.write_balances`), and so does everything that is sent in
a round (`Link.send_balances`) and whatever else happens to a link and its session
(`Journal.step_extends`). The application may do with the session what it likes between and
during the rounds, since the balance is about the frames that the pump takes.
-/

namespace ZigbeeHost

/-! ## Frames and their bytes -/

/-- The bytes of frames, one after the other. A frame that is too long has none. -/
def wires (frames : List Frame) : Bytes :=
  (frames.filter fun f => f.payload.length ≤ maxPayloadLength).flatMap Frame.wire

theorem wires_append (frames more : List Frame) :
    wires (frames ++ more) = wires frames ++ wires more := by
  simp [wires]

/-- How an empty buffer answers to a frame. -/
def Frame.admission (f : Frame) : Except TransportFailure Unit :=
  if f.payload.length ≤ maxPayloadLength then .ok () else .error (.invalidFrame .payloadTooLong)

/-- A frame within the limit is taken as it is laid out. -/
theorem Outbound.push_of_le {buffer : Outbound} (hempty : buffer.unsent = []) {f : Frame}
    (hf : f.payload.length ≤ maxPayloadLength) : buffer.push f = .ok ⟨f.wire⟩ := by
  rw [Outbound.push, if_pos (List.isEmpty_iff.2 hempty), Frame.encode_eq, if_pos hf]
  rfl

/-- A frame beyond the limit is refused. -/
theorem Outbound.push_of_not_le {buffer : Outbound} (hempty : buffer.unsent = []) {f : Frame}
    (hf : ¬f.payload.length ≤ maxPayloadLength) :
    buffer.push f = .error (.invalidFrame .payloadTooLong) := by
  rw [Outbound.push, if_pos (List.isEmpty_iff.2 hempty), Frame.encode_eq, if_neg hf]
  rfl

/-! ## One write -/

/-- What the line takes of some bytes goes behind those written before. -/
theorem Line.written_write_of_ok {line line' : Line} {bytes : Bytes} {count : Nat}
    (h : line.write bytes = (.ok count, line')) :
    line'.written ++ bytes.drop count = line.written ++ bytes := by
  unfold Line.write at h
  split at h
  · obtain ⟨hcount, rfl⟩ := Prod.mk.inj h
    obtain rfl := Except.ok.inj hcount
    simp
  · cases h
  · obtain ⟨hcount, rfl⟩ := Prod.mk.inj h
    obtain rfl := Except.ok.inj hcount
    rw [List.append_assoc, List.prefix_iff_eq_append.1 (List.take_prefix _ bytes)]

/-- A line that fails has taken nothing. -/
theorem Line.written_write_of_error {line line' : Line} {bytes : Bytes} {e : TransportFailure}
    (h : line.write bytes = (.error e, line')) : line'.written = line.written := by
  unfold Line.write at h
  split at h
  · cases h
  · obtain ⟨-, rfl⟩ := Prod.mk.inj h
    rfl
  · cases h

/-- To flush writes nothing. -/
theorem Line.written_flush (line : Line) : line.flush.2.written = line.written := by
  unfold Line.flush
  split <;> rfl

/-- A write moves bytes from the buffer to the line, wherever it stops. If it says that it has
written all, nothing is left. -/
theorem Outbound.write_balances (buffer : Outbound) (line : Line) :
    (buffer.write line).2.2.written ++ (buffer.write line).2.1.unsent =
        line.written ++ buffer.unsent ∧
      ((buffer.write line).1 = .ok true → (buffer.write line).2.1.unsent = []) := by
  unfold write
  split
  · rename_i hempty
    exact ⟨rfl, fun _ => List.isEmpty_iff.1 hempty⟩
  · split
    · rename_i count line' hline
      have hwritten := Line.written_write_of_ok hline
      split
      · rename_i hdone
        rw [hdone] at hwritten
        exact ⟨(congrArg (· ++ []) line'.written_flush).trans hwritten, fun _ => rfl⟩
      · exact ⟨hwritten, nofun⟩
    · rename_i line' hline
      exact ⟨congrArg (· ++ _) (Line.written_write_of_error hline), nofun⟩
    · rename_i e line' _ hline
      exact ⟨congrArg (· ++ _) (Line.written_write_of_error hline), nofun⟩

/-! ## Sending -/

namespace Link

/-- What was sent from a queue, when `balance` were the bytes written and not sent yet. -/
structure Sent.Balances (sent : Sent) (balance : Bytes) (queue : List Frame) : Prop where
  bytes : sent.line.written ++ sent.outbound.unsent =
    balance ++ wires (sent.pushed.map Prod.fst)
  queue : queue = sent.pushed.map Prod.fst ++ sent.queue
  answers : ∀ push ∈ sent.pushed, push.2 = push.1.admission

/-- A frame that the buffer took or refused, and what was sent behind it. -/
theorem Sent.Balances.after {sent : Sent} {balance : Bytes} {queue : List Frame} {f : Frame}
    (h : sent.Balances (balance ++ wires [f]) queue) :
    (sent.after f f.admission).Balances balance (f :: queue) where
  bytes := by
    have happend := wires_append [f] (sent.pushed.map Prod.fst)
    simp only [Sent.after, List.map_cons]
    rw [h.bytes, List.append_assoc, ← happend, List.singleton_append]
  queue := by
    simp only [Sent.after, List.map_cons, List.cons_append]
    rw [← h.queue]
  answers := List.forall_mem_cons.2 ⟨rfl, h.answers⟩

/-- A frame that is still in transit when sending stops. -/
theorem balances_of_stop {outbound : Outbound} {line : Line} {balance : Bytes} {f : Frame}
    (hf : f.payload.length ≤ maxPayloadLength)
    (hbytes : line.written ++ outbound.unsent = balance ++ f.wire)
    (result : Except TransportFailure Bool) (queue : List Frame) :
    Sent.Balances { result, outbound, line, queue, pushed := [(f, .ok ())] } balance
      (f :: queue) where
  bytes := by
    rw [hbytes]
    simp [wires, hf]
  queue := rfl
  answers := by simp [Frame.admission, hf]

/-- The induction is on the queue. The buffer is empty whenever a frame is taken. -/
theorem sendQueue_balances (outbound : Outbound) (line : Line) (busy : Bool)
    (queue : List Frame) (hempty : outbound.unsent = []) :
    (sendQueue outbound line busy queue).Balances line.written queue := by
  induction queue generalizing outbound line busy with
  | nil => exact ⟨by simp [sendQueue, hempty, wires], rfl, by simp [sendQueue]⟩
  | cons f queue ih =>
    by_cases hf : f.payload.length ≤ maxPayloadLength
    · have hwires : wires [f] = f.wire := by simp [wires, hf]
      have hadmitted : f.admission = .ok () := if_pos hf
      obtain ⟨hbytes, hdone⟩ := Outbound.write_balances ⟨f.wire⟩ line
      simp only [sendQueue, Outbound.push_of_le hempty hf]
      rcases hwrite : Outbound.write ⟨f.wire⟩ line with ⟨result, outbound', line'⟩
      rw [hwrite] at hbytes hdone
      match result with
      | .ok true =>
        have hsent := ih outbound' line' true (hdone rfl)
        rw [hdone rfl, List.append_nil] at hbytes
        rw [hbytes, ← hwires] at hsent
        exact hadmitted ▸ hsent.after
      | .ok false => exact balances_of_stop hf hbytes _ queue
      | .error e => exact balances_of_stop hf hbytes _ queue
    · have hwires : wires [f] = [] := by simp [wires, hf]
      have hrefused : f.admission = .error (.invalidFrame .payloadTooLong) := if_neg hf
      simp only [sendQueue, Outbound.push_of_not_le hempty hf]
      have hsent := ih outbound line busy hempty
      rw [← List.append_nil line.written, ← hwires] at hsent
      exact hrefused ▸ hsent.after

/-- What is sent behind the frame in transit. -/
theorem send_balances (link : Link) (busy : Bool) (queue : List Frame) :
    (link.send busy queue).Balances (link.line.written ++ link.outbound.unsent) queue := by
  unfold send
  split
  · rename_i hidle
    have hempty : link.outbound.unsent = [] := List.isEmpty_iff.1 hidle
    rw [hempty, List.append_nil]
    exact sendQueue_balances link.outbound link.line busy queue hempty
  · obtain ⟨hbytes, hdone⟩ := Outbound.write_balances link.outbound link.line
    rcases hwrite : link.outbound.write link.line with ⟨result, outbound', line'⟩
    rw [hwrite] at hbytes hdone
    have hstop (result : Except TransportFailure Bool) :
        Sent.Balances { result, outbound := outbound', line := line', queue }
          (link.line.written ++ link.outbound.unsent) queue :=
      ⟨by simpa [wires] using hbytes, rfl, nofun⟩
    match result with
    | .ok true =>
      rw [← hbytes, hdone rfl, List.append_nil]
      exact sendQueue_balances outbound' line' true queue (hdone rfl)
    | .ok false => exact hstop _
    | .error e => exact hstop _

end Link

/-! ## Runs of a link -/

variable {η : Type}

/-- Something that happens to a link and its session. -/
inductive LinkStep (η : Type) where
  /-- Something happens at the serial line. -/
  | line (step : Scenario.LineStep)
  /-- The application uses the session. -/
  | use (change : Session η → Session η)
  | round (app : Application η)
  /-- The second half of a round, in which timers fire and frames are written. -/
  | finish (app : Application η) (busy : Bool)

/-- What a link sends in a round, with the queue that it finds, unless the line fails for good
while it reads. -/
def Link.sending? (app : Application η) (link : Link) (s : Session η) :
    Option (List Frame × Link.Sent) :=
  match link.receive app s with
  | (.ok busy, link, s) =>
    some (s.expireTimers.outbound, link.send busy s.expireTimers.outbound)
  | (.error _, _, _) => none

/-- A round that goes well leaves queued what it did not take. -/
theorem Link.outbound_finish {app : Application η} {busy busy' : Bool} {link : Link}
    {s : Session η} (h : (link.finish app busy s).1 = .ok busy') :
    (link.finish app busy s).2.2.outbound = (link.send busy s.expireTimers.outbound).queue := by
  unfold finish at h ⊢
  cases hresult : (link.send busy s.expireTimers.outbound).result with
  | ok => simp only [hresult]
  | error e =>
    simp only [hresult] at h
    cases h

/-- What a round finds queued is what it takes and what it leaves. -/
theorem Link.queue_sending? {app : Application η} {link : Link} {s : Session η}
    {queue : List Frame} {sent : Sent} (h : link.sending? app s = some (queue, sent)) :
    queue = sent.pushed.map Prod.fst ++ sent.queue ∧
      ∀ busy, (link.runOnce app s).1 = .ok busy →
        (link.runOnce app s).2.2.outbound = sent.queue := by
  unfold sending? at h
  rcases hreceive : link.receive app s with ⟨answer, link', s'⟩
  rw [hreceive] at h
  match answer with
  | .ok busy =>
    obtain ⟨rfl, rfl⟩ := Prod.mk.inj (Option.some.inj h)
    refine ⟨(send_balances ..).queue, fun busy' hbusy => ?_⟩
    unfold runOnce at hbusy ⊢
    rw [hreceive] at hbusy ⊢
    exact outbound_finish hbusy
  | .error e => cases h

/-- A link and its session in the course of a run. -/
structure Journal (η : Type) where
  link : Link
  session : Session η
  /-- The bytes that the other side has taken off the line. -/
  collected : Bytes := []
  /-- The frames that were taken from the queue, with the buffer's answers. -/
  pushed : List (Frame × Except TransportFailure Unit) := []

namespace Journal

/-- All bytes written so far. -/
def written (j : Journal η) : Bytes := j.collected ++ j.link.line.written

/-- The bytes written so far, and then those that the buffer still holds. -/
def balance (j : Journal η) : Bytes := j.written ++ j.link.outbound.unsent

/-- One more thing happens. -/
def step (j : Journal η) : LinkStep η → Journal η
  | .line step =>
    { j with
      link := { j.link with line := (step.apply j.link.line).2 }
      collected := j.collected ++
        match step with
        | .written => j.link.line.written
        | _ => [] }
  | .use change => { j with session := change j.session }
  | .round app =>
    let (_, link, session) := j.link.runOnce app j.session
    { j with
      link, session
      pushed := j.pushed ++ ((j.link.sending? app j.session).elim [] fun found => found.2.pushed) }
  | .finish app busy =>
    let (_, link, session) := j.link.finish app busy j.session
    { j with
      link, session
      pushed := j.pushed ++ (j.link.send busy j.session.expireTimers.outbound).pushed }

/-- A run. -/
def run (j : Journal η) (steps : List (LinkStep η)) : Journal η := steps.foldl step j

/-- A fresh link for a session. -/
def start (s : Session η) : Journal η := { link := {}, session := s }

/-- From one journal to a later one, the frames `new` were taken from the queue and their bytes
went to the line or to the buffer. -/
structure Extends (new : List (Frame × Except TransportFailure Unit)) (j j' : Journal η) :
    Prop where
  pushed : j'.pushed = j.pushed ++ new
  balance : j'.balance = j.balance ++ wires (new.map Prod.fst)
  answers : ∀ push ∈ new, push.2 = push.1.admission

theorem Extends.of_eq {j j' : Journal η} (hpushed : j'.pushed = j.pushed)
    (hbalance : j'.balance = j.balance) : Extends [] j j' :=
  ⟨hpushed.trans (List.append_nil _).symm, hbalance.trans (List.append_nil _).symm, nofun⟩

theorem Extends.refl (j : Journal η) : Extends [] j j := .of_eq rfl rfl

theorem Extends.trans {new new' : List (Frame × Except TransportFailure Unit)}
    {j j' j'' : Journal η} (h : Extends new j j') (h' : Extends new' j' j'') :
    Extends (new ++ new') j j'' where
  pushed := by rw [h'.pushed, h.pushed, List.append_assoc]
  balance := by
    rw [h'.balance, h.balance, List.map_append, wires_append, List.append_assoc]
  answers push hp := (List.mem_append.1 hp).elim (h.answers push) (h'.answers push)

/-- The second half of a round sends what `Link.send` sends, even if it ends in a teardown. -/
theorem finish_extends (j : Journal η) (app : Application η) (busy : Bool) :
    Extends (j.link.send busy j.session.expireTimers.outbound).pushed j
      (j.step (.finish app busy)) := by
  have hsent := j.link.send_balances busy j.session.expireTimers.outbound
  have hlink : (j.link.finish app busy j.session).2.1 =
      { j.link with
        outbound := (j.link.send busy j.session.expireTimers.outbound).outbound
        line := (j.link.send busy j.session.expireTimers.outbound).line } := by
    unfold Link.finish
    simp only
    split <;> rfl
  refine ⟨rfl, ?_, hsent.answers⟩
  simp only [balance, written, step, hlink, List.append_assoc]
  rw [hsent.bytes]
  simp only [List.append_assoc]

/-- A round whose reading goes well is its second half, behind what the reading did. -/
theorem step_round_of_ok {j : Journal η} {app : Application η} {busy : Bool} {link : Link}
    {s : Session η} (h : j.link.receive app j.session = (.ok busy, link, s)) :
    j.step (.round app) = { j with link, session := s }.step (.finish app busy) := by
  simp [step, Link.runOnce, Link.sending?, h]

/-- A round whose reading fails tears the session down. -/
theorem step_round_of_error {j : Journal η} {app : Application η} {e : TransportFailure}
    {link : Link} {s : Session η} (h : j.link.receive app j.session = (.error e, link, s)) :
    j.step (.round app) = { j with link, session := s.shutdown app (.transport e) } := by
  simp [step, Link.runOnce, Link.sending?, Link.fail, h]

/-- What happens after the reading of a round happens after what was before it. -/
theorem Extends.of_receive {j j' : Journal η} {app : Application η}
    {answer : Except TransportFailure Bool} {link : Link} {s t : Session η}
    {new : List (Frame × Except TransportFailure Unit)}
    (hreceive : j.link.receive app j.session = (answer, link, s))
    (h : Extends new { j with link, session := t } j') : Extends new j j' := by
  have hwritten := j.link.inbound.written_readFrame j.link.line
  have hlink : link = { j.link with
      inbound := (j.link.inbound.readFrame j.link.line).2.1
      line := (j.link.inbound.readFrame j.link.line).2.2 } := by
    have hlink : (j.link.receive app j.session).2.1 = link := by rw [hreceive]
    rw [← hlink, Link.receive]
    simp only
    split <;> rfl
  have hbalance : Journal.balance { j with link, session := t } = j.balance := by
    simp only [Journal.balance, written, hlink, hwritten]
  exact ⟨h.pushed, hbalance ▸ h.balance, h.answers⟩

/-- Each step writes what it pushes, after what is there. -/
theorem step_extends (j : Journal η) (step : LinkStep η) : ∃ new, Extends new j (j.step step) := by
  cases step with
  | line step =>
    refine ⟨[], .of_eq rfl ?_⟩
    cases step <;> simp [balance, written, Journal.step, Scenario.LineStep.apply, Line.feed,
      Line.close, Line.takeWritten]
  | use change => exact ⟨[], .of_eq rfl rfl⟩
  | round app =>
    rcases hreceive : j.link.receive app j.session with ⟨answer, link, s⟩
    match answer with
    | .ok busy =>
      rw [step_round_of_ok hreceive]
      exact ⟨_, .of_receive hreceive (finish_extends _ app busy)⟩
    | .error e =>
      rw [step_round_of_error hreceive]
      exact ⟨[], .of_receive hreceive (.refl _)⟩
  | finish app busy => exact ⟨_, finish_extends j app busy⟩

/-- And so does a run. -/
theorem run_extends (j : Journal η) (steps : List (LinkStep η)) :
    ∃ new, Extends new j (j.run steps) := by
  induction steps generalizing j with
  | nil => exact ⟨[], .refl j⟩
  | cons step steps ih =>
    obtain ⟨new, hstep⟩ := step_extends j step
    obtain ⟨new', hrun⟩ := ih (j.step step)
    exact ⟨new ++ new', hstep.trans hrun⟩

/-- In every run of a link, with the line taking as little as it will, failing to write or to
flush, and the application using the session as it likes : the bytes written so far, and
behind them what the buffer still holds, are the bytes of the frames that were taken from the
queue, in order and but for those that are too long. The buffer refuses these alone, and no
frame because of one before it. What a round finds queued is what it takes, in order, and
behind that what it leaves. -/
theorem stream_intact (s : Session η) (steps : List (LinkStep η)) :
    ((start s).run steps).written ++ ((start s).run steps).link.outbound.unsent =
        ((((start s).run steps).pushed.map Prod.fst).filter fun f =>
          f.payload.length ≤ maxPayloadLength).flatMap Frame.wire ∧
      (∀ f answer, (f, answer) ∈ ((start s).run steps).pushed →
        answer ≠ .error .bufferNotEmpty ∧
          (answer = .ok () ↔ f.payload.length ≤ maxPayloadLength)) ∧
      ∀ app queue sent,
        ((start s).run steps).link.sending? app ((start s).run steps).session =
          some (queue, sent) →
        queue = sent.pushed.map Prod.fst ++ sent.queue ∧
          ∀ busy, (((start s).run steps).link.runOnce app ((start s).run steps).session).1 =
              .ok busy →
            (((start s).run steps).link.runOnce app ((start s).run steps).session).2.2.outbound =
              sent.queue := by
  obtain ⟨new, hrun⟩ := run_extends (start s) steps
  have hpushed : ((start s).run steps).pushed = new := hrun.pushed
  refine ⟨?_, fun f answer hp => ?_, fun app queue sent hsending => ?_⟩
  · rw [hpushed]
    exact hrun.balance
  · rw [hpushed] at hp
    obtain rfl : answer = f.admission := hrun.answers (f, answer) hp
    unfold Frame.admission
    split
    · rename_i hf
      exact ⟨nofun, iff_of_true rfl hf⟩
    · rename_i hf
      exact ⟨nofun, iff_of_false nofun hf⟩
  · exact Link.queue_sending? hsending

end Journal

end ZigbeeHost
