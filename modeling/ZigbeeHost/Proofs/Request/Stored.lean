import ZigbeeHost.Proofs.Request.Conventions
/-!
# Configuration that is written and read back

A device keeps what it was told to, and gives it back behind a status. Writer and reader do
not share their code : a value is wrapped behind its length and its option number by the one,
and by the other the status is taken off, the number compared and the value read on its own.

Between the two stands the value of an option as bytes. `optionValue_write` says what the
reader makes of what was written under any number, and `optionValue_spoilt` that it makes
nothing of an answer with another length, without its end, or with something behind it.
Items and raw options are read through it, so both come back as they were written and in no
other way (`Lawful.configuration_reads_back`).
-/

namespace ZigbeeHost

/-! ## The value of an option -/

theorem write_optionCodec (number : UInt8) (value : Bytes) :
    optionCodec.write (number, value) = number :: UInt8.ofNat value.length :: value := by
  simp [optionCodec, Codec.byteString, Codec.list, Codec.counted, Codec.pair, Codec.u8,
    Codec.word, littleEndian]

/-- A value of this length comes back as it is, and is refused under another number. -/
theorem optionValue_write (option number : UInt8) {value : Bytes} (h : value.length < 256) :
    optionValue option (statusSuccess :: optionCodec.write (number, value)) =
      if number = option then .ok value else .error (.mismatch .configurationOption) := by
  have hdecode : optionCodec.decode (optionCodec.write (number, value)) = .ok (number, value) :=
    optionCodec.prefixCode_of_exact.decode_write _ ⟨trivial, h, fun _ _ => trivial⟩
  show (optionCodec.decode _ >>= fun found => if found.1 = option then _ else _) = _
  rw [hdecode]
  rfl

/-- An answer of success about the written bytes `p`, with something amiss in it. -/
inductive Spoilt (p : Bytes) : Bytes → Prop
  /-- The length of the value is another one. -/
  | length {number len other : UInt8} {value : Bytes} : p = number :: len :: value →
      other ≠ len → Spoilt p (statusSuccess :: number :: other :: value)
  /-- Something is missing at the end, or all of it. -/
  | truncated {front missing : Bytes} : statusSuccess :: p = front ++ missing → missing ≠ [] →
      Spoilt p front
  /-- Something stands behind it. -/
  | extended {rest : Bytes} : rest ≠ [] → Spoilt p (statusSuccess :: p ++ rest)

/-- Nothing is read from a spoilt answer, whatever was asked for. -/
theorem optionValue_spoilt {number : UInt8} {value b : Bytes} (hvalue : value.length < 256)
    (h : Spoilt (optionCodec.write (number, value)) b) :
    ∃ e, ∀ option, optionValue option b = .error e := by
  have hcode := optionCodec.prefixCode_of_exact
  have hdecode : optionCodec.decode (optionCodec.write (number, value)) = .ok (number, value) :=
    hcode.decode_write _ ⟨trivial, hvalue, fun _ _ => trivial⟩
  -- Behind the status, all depends on whether the option can be decoded at all.
  have hfails : ∀ {bytes e}, optionCodec.decode bytes = .error e →
      ∃ e, ∀ option, optionValue option (statusSuccess :: bytes) = .error e := by
    intro bytes e he
    refine ⟨e, fun option => ?_⟩
    show (optionCodec.decode bytes >>= fun found => if found.1 = option then _ else _) = _
    rw [he]
    rfl
  cases h with
  | @length number' len other value' hp hother =>
    rw [write_optionCodec] at hp
    obtain ⟨rfl, rfl, rfl⟩ : number = number' ∧ UInt8.ofNat value.length = len ∧
        value = value' := by simpa using hp
    cases hread : optionCodec.decode (number :: other :: value) with
    | error e => exact hfails hread
    | ok found =>
      obtain ⟨found, bytes⟩ := found
      have hwrite := (hcode.write_decode _ _ hread).2
      rw [write_optionCodec] at hwrite
      obtain ⟨rfl, hlen, rfl⟩ : found = number ∧ UInt8.ofNat bytes.length = other ∧
          bytes = value := by simpa using hwrite
      exact absurd hlen.symm hother
  | @truncated _ missing hsplit hmissing =>
    rcases b with _ | ⟨status, front⟩
    · exact ⟨.emptyResponse, fun _ => rfl⟩
    · obtain ⟨rfl, hfront⟩ := List.cons_eq_cons.1 hsplit
      have hshorter : front ≠ optionCodec.write (number, value) := by
        intro hall
        rw [hall] at hfront
        exact hmissing (List.self_eq_append_right.1 hfront)
      obtain ⟨bits, hshort, -⟩ := hcode.truncated _ _ hdecode front ⟨missing, hfront.symm⟩ hshorter
      exact hfails hshort
  | @extended rest hrest => exact hfails (hcode.trailing _ _ hdecode rest hrest).1

/-! ## Requests for configuration -/

namespace ConfigItem

theorem consistent (item : ConfigItem) (v : item.Value) : item.layout.Consistent v := by
  cases item <;> trivial

end ConfigItem

namespace ConfigurationRequest

/-- The request is never refused : it gets the next operation, its handler waits behind all
others for an answer under its own command, and `p` is sent behind all frames. -/
def Queues (r : ConfigurationRequest) (p : Bytes) : Prop :=
  ∀ (η : Type) (s : Session η), s.call (.request (.configuration r)) =
    (.ok s.issue.1, { s.issue.2 with
      chain := s.chain ++ [.response [r.command] (.settle s.issue.1)]
      outbound := s.outbound ++ [⟨.sreq, r.command, p⟩] })

theorem queues_payload (r : ConfigurationRequest) (h : r.payload.length ≤ maxPayloadLength) :
    r.Queues r.payload := by
  intro η s
  have hfits : r.exchange.refusal? = none := by
    simp [exchange, Exchange.simple, Exchange.refusal?, Nat.not_lt.2 h]
  simp only [Session.call, Session.request, Request.exchange, Session.exchange, hfits]
  rfl

section Yields

variable {η : Type} (L : Licence η) (app : Application η)

/-- An answer with the bytes `b` that comes to the handler of the request resolves it to `o`,
whoever else uses the session and wherever in its chain the handler is. -/
def Yields (r : ConfigurationRequest) (b : Bytes) (o : Except Failure r.Answer) : Prop :=
  ∀ (s u : Session η) (away : List Handler) (owed : List Tracked) (op : OperationId)
    (waits : List Wait), Sound L away owed s →
    s.Reaches app ⟨.srsp, r.command, b⟩ (.response [r.command] (.settle op)) waits u →
    (s.deliver app ⟨.srsp, r.command, b⟩).resolution (.configuration r) op = some o

variable {L app}

theorem yields_of_read (happ : Lawful L app) {r : ConfigurationRequest} {b : Bytes}
    {o : Except Failure r.Answer} (h : r.read b = o) : r.Yields L app b o := by
  intro s u away owed op waits hs hreaches
  rw [← h]
  exact Session.resolution_of_payload (hs.resolves_answered happ hreaches rfl rfl)

end Yields

/-- The requests that ask for configuration, by item or by number. -/
inductive Asks : ConfigurationRequest → UInt8 → Prop
  | item (item : ConfigItem) : Asks (.readItem item) item.option
  | option (option : UInt8) : Asks (.readOption option) option

theorem Asks.payload_eq {r : ConfigurationRequest} {option : UInt8} (h : r.Asks option) :
    r.payload = [option] := by
  cases h <;> simp [payload, Codec.u8, Codec.word, littleEndian]

theorem Asks.queues {r : ConfigurationRequest} {option : UInt8} (h : r.Asks option) :
    r.Queues [option] := by
  rw [← h.payload_eq]
  refine queues_payload r ?_
  rw [h.payload_eq]
  exact Nat.le_of_ble_eq_true rfl

/-- What cannot be taken off the answer is not read either. -/
theorem Asks.read_error {r : ConfigurationRequest} {option : UInt8} (h : r.Asks option)
    {b : Bytes} {e : Failure} (he : optionValue option b = .error e) : r.read b = .error e := by
  cases h with
  | item item => simp only [read, he]; rfl
  | option => exact he

end ConfigurationRequest

open ConfigurationRequest

section ReadBack

variable {η : Type} {L : Licence η} {app : Application η}

/-- What a written value, `p` as it was queued, means to those that ask for configuration
later : under another number it is a mismatch, and a spoilt answer is a failure to all. -/
structure ReadStrictly (L : Licence η) (app : Application η) (number : UInt8) (p : Bytes) :
    Prop where
  fits : (statusSuccess :: p).length ≤ maxPayloadLength
  mismatch : ∀ {r : ConfigurationRequest} {option}, r.Asks option → option ≠ number →
    r.Yields L app (statusSuccess :: p) (.error (.mismatch .configurationOption))
  spoilt : ∀ {b}, Spoilt p b → ∃ e, ∀ {r : ConfigurationRequest} {option}, r.Asks option →
    r.Yields L app b (.error e)

theorem Lawful.readStrictly (happ : Lawful L app) (number : UInt8) {value : Bytes}
    (h : value.length ≤ 247) :
    ReadStrictly L app number (optionCodec.write (number, value)) where
  fits := by
    rw [write_optionCodec]
    simp only [List.length_cons, maxPayloadLength]
    omega
  mismatch {_ option} hasks hne := by
    have hvalue := optionValue_write option number (Nat.lt_of_le_of_lt h (by decide))
    rw [if_neg hne.symm] at hvalue
    exact yields_of_read happ (hasks.read_error hvalue)
  spoilt hb := by
    obtain ⟨e, he⟩ := optionValue_spoilt (Nat.lt_of_le_of_lt h (by decide)) hb
    exact ⟨e, fun hasks => yields_of_read happ (hasks.read_error (he _))⟩

/-- **Configuration reads back.** The value of an item that was written, answered as it was
queued, is the value that is read under the same item; bytes that were written under a number
are the bytes read under it. Whoever asks for something else gets a mismatch, and of a spoilt
answer nobody gets a value. -/
theorem Lawful.configuration_reads_back (happ : Lawful L app) :
    (∀ (item : ConfigItem) (v : item.Value), ∃ p, (writeItem item v).Queues p ∧
      (readItem item).Queues [item.option] ∧
      (readItem item).Yields L app (statusSuccess :: p) (.ok v) ∧
      ReadStrictly L app item.option p) ∧
    ∀ (option : UInt8) (bytes : Bytes), bytes.length ≤ 247 → ∃ p,
      (writeOption option bytes).Queues p ∧ (readOption option).Queues [option] ∧
      (readOption option).Yields L app (statusSuccess :: p) (.ok bytes) ∧
      ReadStrictly L app option p := by
  refine ⟨fun item v => ?_, fun option bytes hbytes => ?_⟩
  · have hlength : (item.layout.write v).length ≤ 247 :=
      Nat.le_trans (item.length_write_le v) (by decide)
    have hstrict := happ.readStrictly item.option hlength
    have hvalue := optionValue_write item.option item.option
      (Nat.lt_of_le_of_lt hlength (by decide))
    have hread : (readItem item).read
        (statusSuccess :: optionCodec.write (item.option, item.layout.write v)) = .ok v := by
      simp only [ConfigurationRequest.read, hvalue, if_true]
      exact item.layout.prefixCode_of_exact.decode_write v (item.consistent v)
    exact ⟨_, queues_payload (writeItem item v) (Nat.le_of_succ_le hstrict.fits),
      (Asks.item item).queues, yields_of_read happ hread, hstrict⟩
  · have hstrict := happ.readStrictly option hbytes
    have hvalue := optionValue_write option option (Nat.lt_of_le_of_lt hbytes (by decide))
    rw [if_pos rfl] at hvalue
    have hread : (readOption option).read
        (statusSuccess :: optionCodec.write (option, bytes)) = .ok bytes := hvalue
    exact ⟨_, queues_payload (writeOption option bytes) (Nat.le_of_succ_le hstrict.fits),
      (Asks.option option).queues, yields_of_read happ hread, hstrict⟩

end ReadBack

/-- A session that has asked a device for what is under a number. -/
def Session.askedFor (r : ConfigurationRequest) : Session Unit :=
  ((Session.start {} ()).call (.request (.configuration r))).2

theorem Reachable.askedFor (r : ConfigurationRequest) : Reachable .facade (.askedFor r) :=
  (Reachable.start .facade {} ()).deed (.silent fun _ => trivial)
    (d := .call (.request (.configuration r))) ⟨trivial, trivial⟩ trivial

/-- The answer to the first request of a session comes to its handler, for nobody else waits
for answers. -/
theorem ConfigurationRequest.Yields.askedFor {r : ConfigurationRequest} {b : Bytes}
    {o : Except Failure r.Answer} (h : r.Yields .facade (.silent : Application Unit) b o)
    (hfits : r.payload.length ≤ maxPayloadLength) :
    ((Session.askedFor r).deliver .silent ⟨.srsp, r.command, b⟩).resolution
      (.configuration r) 0 = some o := by
  have hchain : (Session.askedFor r).chain =
      (Session.start {} ()).chain ++ .response [r.command] (.settle 0) :: [] := by
    rw [Session.askedFor, queues_payload r hfits]
    rfl
  exact h _ _ _ _ _ _ (Reachable.askedFor r).sound
    ⟨(Session.start {} ()).chain, [], _, [], hchain, rfl⟩

/-- What is queued for a request is determined. -/
theorem ConfigurationRequest.Queues.eq {r : ConfigurationRequest} {p q : Bytes}
    (hp : r.Queues p) (hq : r.Queues q) : p = q := by
  have hcall := (hp Unit (Session.start {} ())).symm.trans (hq Unit (Session.start {} ()))
  have hsent : ([⟨.sreq, r.command, p⟩] : List Frame) = [⟨.sreq, r.command, q⟩] :=
    congrArg (fun called => called.2.outbound) hcall
  cases hsent
  rfl

/-- The set of channels, with the eleventh in it, is written and comes back, as a value and as
bytes. For the network's number it is none, and it is no longer one if its length is
another. -/
theorem channels_read_back :
    let answer (r : ConfigurationRequest) (b : Bytes) :=
      ((Session.askedFor r).deliver .silent ⟨.srsp, r.command, b⟩).resolution (.configuration r) 0
    (writeItem .channelList 0x800).Queues [0x84, 4, 0, 8, 0, 0] ∧
      answer (.readItem .channelList) [0, 0x84, 4, 0, 8, 0, 0] = some (.ok 0x800) ∧
      answer (.readOption 0x84) [0, 0x84, 4, 0, 8, 0, 0] = some (.ok [0, 8, 0, 0]) ∧
      answer (.readItem .panId) [0, 0x84, 4, 0, 8, 0, 0] =
        some (.error (.mismatch .configurationOption)) ∧
      ∃ e, answer (.readItem .channelList) [0, 0x84, 5, 0, 8, 0, 0] = some (.error e) := by
  intro answer
  have hsilent : Lawful .facade (.silent : Application Unit) := .silent fun _ => trivial
  have hfits : ∀ {n : Nat}, n = 1 → n ≤ maxPayloadLength := by
    rintro n rfl
    exact Nat.le_of_ble_eq_true rfl
  obtain ⟨p, hp, -, hvalue, hstrict⟩ := hsilent.configuration_reads_back.1 .channelList 0x800
  obtain ⟨q, hq, -, hbytes, -⟩ :=
    hsilent.configuration_reads_back.2 0x84 [0, 8, 0, 0] (by decide)
  have hchannels : (writeItem .channelList 0x800).Queues [0x84, 4, 0, 8, 0, 0] :=
    queues_payload (writeItem .channelList 0x800) (Nat.le_of_ble_eq_true rfl)
  have hraw : (writeOption 0x84 [0, 8, 0, 0]).Queues [0x84, 4, 0, 8, 0, 0] :=
    queues_payload (writeOption 0x84 [0, 8, 0, 0]) (Nat.le_of_ble_eq_true rfl)
  obtain rfl := hp.eq hchannels
  obtain rfl := hq.eq hraw
  have hlength : Spoilt [0x84, 4, 0, 8, 0, 0] [0, 0x84, 5, 0, 8, 0, 0] :=
    .length rfl (by decide)
  obtain ⟨e, he⟩ := hstrict.spoilt hlength
  refine ⟨hchannels, hvalue.askedFor (hfits rfl), hbytes.askedFor (hfits rfl), ?_, e, ?_⟩
  · exact (hstrict.mismatch (Asks.item .panId) (by decide)).askedFor (hfits rfl)
  · exact (he (Asks.item .channelList)).askedFor (hfits rfl)

end ZigbeeHost
