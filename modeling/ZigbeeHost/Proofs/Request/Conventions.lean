import ZigbeeHost.Request
import ZigbeeHost.Proofs.Bytes.Utf8
import ZigbeeHost.Proofs.Payload.Catalogue
import ZigbeeHost.Proofs.Session.Confirmation
/-!
# How values are answered

A request that yields a value is answered by a `Convention` of its own : whether a status
stands in front, what is echoed of the request, how the value is laid out, what becomes of
bytes behind it, and whether all this is in the answer itself or in the confirmation after
it. `Request.convention?` is the table of them.

`Convention.Governs` has the laws that such a convention stands for. They hold of the way a
request reads its bytes (`Request.governs`), which is put together from three pieces : a value
that fills the bytes, a status in front of what is read (`Governs.checked`), and an echo.
A frame that comes to the handler of the request hands its bytes on to be read
(`Sound.resolves_answered`, `Sound.resolves_confirmed`), so the laws hold of frames as well.
-/

namespace ZigbeeHost

/-! ## Conventions -/

/-- What becomes of bytes behind a value. -/
inductive Surplus where
  | refused
  | ignored
  /-- They are part of the value. -/
  | taken
  deriving DecidableEq

/-- How a value is answered. -/
structure Convention (α : Type) where
  value : α → Bytes
  /-- The value can be written so : its counts agree with its lists. -/
  Fits : α → Prop
  /-- A status stands in front. -/
  status : Bool := false
  /-- What is echoed of the request, and what it is called if another thing is echoed. -/
  echo : Option (Bytes × Mismatch) := none
  surplus : Surplus := .refused
  /-- The answer says no more than that the request succeeded, and a confirmation with this
  opening has the value. -/
  confirmed : Option Bytes := none

namespace Convention

variable {α : Type} (c : Convention α)

/-- The value as the layout has it, and nothing else. -/
def bare (layout : Codec α) : Convention α where
  value := layout.write
  Fits := layout.Consistent

/-- The convention with a status in front. -/
def checked : Convention α := { c with status := true }

/-- The status in front, if there is to be one. -/
def front : Bytes := if c.status then [statusSuccess] else []

/-- The bytes of an answer with an echo in front of the value. -/
def echoing (echo : Bytes) (v : α) : Bytes := c.front ++ (echo ++ c.value v)

/-- The bytes of the answer. -/
def answer (v : α) : Bytes := c.echoing (c.echo.elim [] Prod.fst) v

/-- The laws of a convention; `Leads b o` says that the bytes `b` resolve a request to `o`. -/
structure Governs (Leads : Bytes → Except Failure α → Prop) : Prop where
  value : ∀ v, c.Fits v → ∀ rest, rest = [] ∨ c.surplus = .ignored →
    Leads (c.answer v ++ rest) (.ok v)
  /-- Whatever follows. -/
  status : c.status = true → ∀ s, s ≠ statusSuccess → ∀ rest,
    Leads (s :: rest) (.error (.status s))
  echo : ∀ echo what, c.echo = some (echo, what) → ∀ other, other.length = echo.length →
    other ≠ echo → ∀ v, c.Fits v → ∀ rest, rest = [] ∨ c.surplus ≠ .refused →
      Leads (c.echoing other v ++ rest) (.error (.mismatch what))
  surplus : c.surplus = .refused → ∀ v, c.Fits v → ∀ rest, rest ≠ [] →
    Leads (c.answer v ++ rest) (.error (.trailingBytes rest.length))

theorem Governs.mono {c : Convention α} {Leads Leads' : Bytes → Except Failure α → Prop}
    (h : c.Governs Leads) (himp : ∀ b o, Leads b o → Leads' b o) : c.Governs Leads' where
  value v hv rest hrest := himp _ _ (h.value v hv rest hrest)
  status hc s hs rest := himp _ _ (h.status hc s hs rest)
  echo echo what hc other hlength hne v hv rest hrest :=
    himp _ _ (h.echo echo what hc other hlength hne v hv rest hrest)
  surplus hc v hv rest hrest := himp _ _ (h.surplus hc v hv rest hrest)

/-! ## Reading by a convention -/

theorem governs_bare (layout : Codec α) [hexact : layout.Exact] :
    (bare layout).Governs fun b o => layout.decode b = o := by
  have hcode := layout.prefixCode_of_exact
  have hwritten (v : α) (hv : layout.Consistent v) :
      layout.decode ((bare layout).answer v) = .ok v := hcode.decode_write v hv
  exact {
    value := by
      rintro v hv rest (rfl | hignored)
      · rw [List.append_nil]
        exact hwritten v hv
      · cases hignored
    status := nofun
    echo := nofun
    surplus := fun _ v hv rest hrest => (hcode.trailing _ v (hwritten v hv) rest hrest).1 }

/-- A status in front of what is read. -/
theorem Governs.checked {c : Convention α} {read : Bytes → Except Failure α}
    (h : c.Governs fun b o => read b = o) (hfront : c.status = false) :
    c.checked.Governs fun b o => checkStatus b >>= read = o := by
  have hbytes (echo : Bytes) (v : α) (rest : Bytes) :
      c.checked.echoing echo v ++ rest = statusSuccess :: (c.echoing echo v ++ rest) := by
    simp [echoing, front, Convention.checked, hfront]
  have hread (b : Bytes) : checkStatus (statusSuccess :: b) >>= read = read b := rfl
  exact {
    value := fun v hv rest hrest => by
      rw [answer, hbytes, hread]
      exact h.value v hv rest hrest
    status := fun _ s hs rest => by
      rw [checkStatus, if_neg hs]
      rfl
    echo := fun echo what hecho other hlength hne v hv rest hrest => by
      rw [hbytes, hread]
      exact h.echo echo what hecho other hlength hne v hv rest hrest
    surplus := fun hrefused v hv rest hrest => by
      rw [answer, hbytes, hread]
      exact h.surplus hrefused v hv rest hrest }

/-- The convention for an option : its number is echoed, and its value stands behind its
length. -/
def option (option : UInt8) (write : α → Bytes) (Fits : α → Prop) : Convention α where
  value v := Codec.byteString.write (write v)
  Fits := Fits
  echo := some ([option], .configurationOption)

theorem governs_option (option : UInt8) (read : Bytes → Except Failure α) {write : α → Bytes}
    {Fits : α → Prop} (hread : ∀ v, Fits v → read (write v) = .ok v)
    (hlength : ∀ v, Fits v → (write v).length < 256) :
    (Convention.option option write Fits).checked.Governs
      fun b o => optionValue option b >>= read = o := by
  let check (found : UInt8 × Bytes) : Except Failure Bytes :=
    if found.1 = option then .ok found.2 else .error (.mismatch .configurationOption)
  have hcode := optionCodec.prefixCode_of_exact
  have hwrite (echo : UInt8) (bytes : Bytes) :
      [echo] ++ Codec.byteString.write bytes = optionCodec.write (echo, bytes) := by
    simp [optionCodec, Codec.pair, Codec.u8, Codec.word, littleEndian]
  have hdecode (echo : UInt8) (v : α) (hv : Fits v) :
      optionCodec.decode ([echo] ++ Codec.byteString.write (write v)) = .ok (echo, write v) := by
    rw [hwrite]
    exact hcode.decode_write _ ⟨trivial, hlength v hv, fun _ _ => trivial⟩
  have hinner : (Convention.option option write Fits).Governs
      fun b o => (optionCodec.decode b >>= check) >>= read = o :=
    { value := by
        rintro v hv rest (rfl | hignored)
        · rw [List.append_nil]
          let answer := [option] ++ Codec.byteString.write (write v)
          calc (optionCodec.decode answer >>= check) >>= read
              = check (option, write v) >>= read := by rw [hdecode option v hv]; rfl
            _ = read (write v) := by simp only [check, if_true]; rfl
            _ = .ok v := hread v hv
        · cases hignored
      status := nofun
      echo := by
        rintro echo what ⟨⟩ other hlength hne v hv rest (rfl | hkept)
        · obtain ⟨found, rfl⟩ := List.length_eq_one_iff.1 hlength
          have hfound : found ≠ option := fun h => hne (by rw [h])
          rw [List.append_nil]
          calc (optionCodec.decode ([found] ++ Codec.byteString.write (write v)) >>= check) >>= read
              = check (found, write v) >>= read := by rw [hdecode found v hv]; rfl
            _ = .error (.mismatch .configurationOption) := by
                simp only [check, if_neg hfound]
                rfl
        · exact absurd rfl hkept
      surplus := by
        intro _ v hv rest hrest
        have htrailing := (hcode.trailing _ _ (hdecode option v hv) rest hrest).1
        calc (optionCodec.decode ([option] ++ Codec.byteString.write (write v) ++ rest) >>= check)
              >>= read
            = .error (.trailingBytes rest.length) := by rw [htrailing]; rfl }
  refine (hinner.checked rfl).mono fun b o h => ?_
  rw [← h, optionValue]
  cases checkStatus b <;> rfl

/-- The convention for an item of information : its number is echoed. -/
def info (info : UInt8) (write : α → Bytes) (Fits : α → Prop) (surplus : Surplus) :
    Convention α where
  value := write
  Fits := Fits
  echo := some ([info], .deviceInfo)
  surplus := surplus

theorem governs_info (info : UInt8) (read : Bytes → Except Failure α) {write : α → Bytes}
    {Fits : α → Prop} {surplus : Surplus} (hkept : surplus ≠ .refused)
    (hread : ∀ v, Fits v → ∀ rest, rest = [] ∨ surplus = .ignored →
      read (write v ++ rest) = .ok v) :
    (Convention.info info write Fits surplus).Governs
      fun b o => deviceInfoValue info b >>= read = o where
  value v hv rest hrest := by
    have hsame : deviceInfoValue info (info :: (write v ++ rest)) = .ok (write v ++ rest) :=
      if_pos rfl
    exact (congrArg (· >>= read) hsame).trans (hread v hv rest hrest)
  status := nofun
  echo := by
    rintro echo what ⟨⟩ other hlength hne v hv rest -
    obtain ⟨found, rfl⟩ := List.length_eq_one_iff.1 hlength
    have hfound : found ≠ info := fun h => hne (by rw [h])
    have hother : deviceInfoValue info (found :: (write v ++ rest)) =
        .error (.mismatch .deviceInfo) := if_neg hfound
    exact congrArg (· >>= read) hother
  surplus hrefused := absurd hrefused hkept

/-- The convention for the name of a group : the group is echoed, and the name stands behind
its length. -/
def groupName (group : UInt16) : Convention String where
  value name := Codec.byteString.write name.toUTF8.toList
  Fits name := name.toUTF8.toList.length < 256
  echo := some (Codec.u16.write group, .group)
  surplus := .ignored

/-- Any two bytes are a word. -/
theorem exists_u16_write {bytes : Bytes} (hlength : bytes.length = 2) :
    ∃ w, bytes = Codec.u16.write w := by
  have hread : Codec.u16.read bytes =
      .ok (.ofNat (ofLittleEndian (bytes.take 2)), bytes.drop 2) := by
    simp [Codec.u16, Codec.word, hlength]
  have hdrop : bytes.drop 2 = [] := List.drop_eq_nil_of_le (Nat.le_of_eq hlength)
  obtain ⟨-, hbytes⟩ := Codec.Exact.write_read hread
  rw [hdrop, List.append_nil] at hbytes
  exact ⟨_, hbytes.symm⟩

theorem governs_groupName (endpoint : UInt8) (group : UInt16) :
    (groupName group).checked.Governs fun b o =>
      NetworkRequest.read (.groupName endpoint group) b = o := by
  let layout := Codec.u16.pair Codec.byteString
  let name (found : UInt16 × Bytes) : Except Failure String :=
    if found.1 = group then .ok (lossyText found.2) else .error (.mismatch .group)
  have hstart (echo : UInt16) (bytes rest : Bytes) (hlength : bytes.length < 256) :
      layout.decodeStart (Codec.u16.write echo ++ Codec.byteString.write bytes ++ rest) =
        .ok (echo, bytes) := by
    have hread := Codec.Exact.read_write (c := layout) (v := (echo, bytes)) rest
      ⟨trivial, hlength, fun _ _ => trivial⟩
    simp only [Codec.decodeStart]
    rw [show Codec.u16.write echo ++ Codec.byteString.write bytes ++ rest =
      layout.write (echo, bytes) ++ rest from rfl, hread]
  have hinner : (groupName group).Governs
      fun b o => layout.decodeStart b >>= name = o :=
    { value := by
        intro v hv rest _
        calc layout.decodeStart (Codec.u16.write group ++
                Codec.byteString.write v.toUTF8.toList ++ rest) >>= name
            = name (group, v.toUTF8.toList) := by rw [hstart group _ rest hv]; rfl
          _ = .ok v := by simp only [name, if_true, lossyText_toUTF8]
      status := fun h => by cases h
      echo := by
        rintro echo what ⟨⟩ other hlength hne v hv rest -
        obtain ⟨found, rfl⟩ := exists_u16_write (hlength.trans rfl)
        have hfound : found ≠ group := fun h => hne (by rw [h])
        calc layout.decodeStart (Codec.u16.write found ++
                Codec.byteString.write v.toUTF8.toList ++ rest) >>= name
            = name (found, v.toUTF8.toList) := by rw [hstart found _ rest hv]; rfl
          _ = .error (.mismatch .group) := if_neg hfound
      surplus := fun h => by cases h }
  exact (hinner.checked rfl).mono fun b o h => h

/-- The confirmation has the value, behind an opening. -/
def behind {α : Type} (c : Convention α) (opening : Bytes) : Convention α :=
  { c with confirmed := some opening }

theorem Governs.behind {c : Convention α} {Leads : Bytes → Except Failure α → Prop}
    (h : c.Governs Leads) (opening : Bytes) : (c.behind opening).Governs Leads where
  value := h.value
  status := h.status
  echo := h.echo
  surplus := h.surplus

end Convention

/-! ## The table -/

section Table

open Convention

/-- How requests to the system are answered, if the answer is all there is to them. -/
def SystemRequest.convention? : (r : SystemRequest) → Option (Convention r.Answer)
  | ping => some (bare Capability.codec)
  | version => some (bare VersionInfo.codec)
  | itemLength _ => some (bare Codec.u16)
  | readItem .. => some (bare Codec.byteString).checked
  | _ => none

/-- How requests to the network are answered. -/
def NetworkRequest.convention? : (r : NetworkRequest) → Option (Convention r.Answer)
  | startup _ => some (bare StartupOutcome.codec)
  | groupsOf _ => some (bare Codec.u16.list)
  | countGroups => some (bare Codec.u8)
  | linkKey _ => some (bare LinkKey.codec).checked
  | groupName _ group => some (Convention.groupName group).checked
  | ieeeAddress .. => some ((bare IeeeAddressResponse.codec).checked.behind [])
  | bindTable dst _ => some ((bare BindTable.codec).checked.behind (Codec.u16.write dst))
  | _ => none

/-- How requests about the stored configuration are answered. -/
def ConfigurationRequest.convention? : (r : ConfigurationRequest) → Option (Convention r.Answer)
  | readOption option => some (Convention.option option id fun value => value.length < 256).checked
  | readItem item =>
    some (Convention.option item.option item.layout.write item.layout.Consistent).checked
  | deviceInfo info => some (Convention.info info id (fun _ => True) .taken)
  | infoItem item =>
    some (Convention.info item.id item.layout.write item.layout.Consistent .ignored)
  | _ => none

/-- How requests for what the co-processor knows are answered. -/
def LookupRequest.convention? : (r : LookupRequest) → Option (Convention r.Answer)
  | ieeeOf _ => some (bare Codec.u64)
  | shortOf _ => some (bare Codec.u16)

/-- The convention of a request, if it yields a value that is more than an address or its
success. -/
def Request.convention? : (r : Request) → Option (Convention r.Answer)
  | system r => r.convention?
  | network r => r.convention?
  | configuration r => r.convention?
  | lookup r => r.convention?
  | _ => none

instance : Capability.codec.Exact := inferInstanceAs Capability.layout.toCodec.Exact
instance : VersionInfo.codec.Exact := inferInstanceAs VersionInfo.layout.toCodec.Exact
instance : StartupOutcome.codec.Exact := inferInstanceAs StartupOutcome.layout.toCodec.Exact
instance : LinkKey.codec.Exact := inferInstanceAs LinkKey.layout.toCodec.Exact
instance : BindTable.codec.Exact := inferInstanceAs BindTable.layout.toCodec.Exact
instance : IeeeAddressResponse.codec.Exact :=
  inferInstanceAs IeeeAddressResponse.layout.toCodec.Exact

theorem SystemRequest.governs {r : SystemRequest} {c : Convention r.Answer}
    (hc : r.convention? = some c) : c.Governs fun b o => r.read b = o := by
  cases r with
  | ping | version | itemLength =>
    cases hc
    exact governs_bare _
  | readItem =>
    cases hc
    exact (governs_bare _).checked rfl
  | _ => cases hc

theorem NetworkRequest.governs {r : NetworkRequest} {c : Convention r.Answer}
    (hc : r.convention? = some c) : c.Governs fun b o => r.read b = o := by
  cases r with
  | startup | groupsOf | countGroups =>
    cases hc
    exact governs_bare _
  | linkKey =>
    cases hc
    exact (governs_bare _).checked rfl
  | groupName endpoint group =>
    cases hc
    exact governs_groupName endpoint group
  | ieeeAddress | bindTable =>
    cases hc
    exact ((governs_bare _).checked rfl).behind _
  | _ => cases hc

/-- The value of an item of configuration is short : the longest is a key. -/
theorem ConfigItem.length_write_le (item : ConfigItem) (v : item.Value) :
    (item.layout.write v).length ≤ 16 := by
  cases item with
  | preConfigKey => exact Nat.le_of_eq v.length_toList
  | startupOption | preConfigKeysEnable | logicalType | zdoDirectCb =>
    exact (by decide : 1 ≤ 16)
  | panId => exact (by decide : 2 ≤ 16)
  | channelList => exact (by decide : 4 ≤ 16)
  | extendedPanId => exact (by decide : 8 ≤ 16)

theorem ConfigurationRequest.governs {r : ConfigurationRequest} {c : Convention r.Answer}
    (hc : r.convention? = some c) : c.Governs fun b o => r.read b = o := by
  cases r with
  | readOption option =>
    cases hc
    refine (governs_option option .ok (fun _ _ => rfl) fun _ hv => hv).mono ?_
    rintro b o rfl
    simp only [read]
    cases optionValue option b <;> rfl
  | readItem item =>
    cases hc
    exact governs_option _ _ item.layout.prefixCode_of_exact.decode_write
      fun v _ => Nat.lt_of_le_of_lt (item.length_write_le v) (by decide)
  | deviceInfo info =>
    cases hc
    have hkept : Surplus.taken ≠ .refused := nofun
    refine (governs_info info .ok hkept fun v _ rest hrest => ?_).mono ?_
    · rcases hrest with rfl | hignored
      · rw [List.append_nil]; rfl
      · cases hignored
    · rintro b o rfl
      simp only [read]
      cases deviceInfoValue info b <;> rfl
  | infoItem item =>
    cases hc
    have hkept : Surplus.ignored ≠ .refused := nofun
    refine governs_info _ _ hkept fun v hv rest _ => ?_
    simp only [Codec.decodeStart, Codec.Exact.read_write rest hv]
  | _ => cases hc

theorem LookupRequest.governs {r : LookupRequest} {c : Convention r.Answer}
    (hc : r.convention? = some c) : c.Governs fun b o => r.read b = o := by
  cases r <;> cases hc <;> exact governs_bare _

/-- A request reads its bytes by its convention. -/
theorem Request.governs {r : Request} {c : Convention r.Answer} (hc : r.convention? = some c) :
    c.Governs fun b o => r.read b = o := by
  cases r with
  | system r => exact r.governs hc
  | network r => exact r.governs hc
  | configuration r => exact r.governs hc
  | lookup r => exact r.governs hc
  | _ => cases hc

end Table

/-! ## Frames that answer -/

variable {η : Type} {L : Licence η}

/-- What has become of a request, if its operation is decided. -/
def Session.resolution (r : Request) (op : OperationId) (s : Session η) :
    Option (Except Failure r.Answer) :=
  (s.outcome? op).map (·.bind (Call.request r).read)

section Frames

variable {app : Application η} {s u : Session η} {away : List Handler} {owed : List Tracked}
  {op : OperationId} {waits : List Wait} {f : Frame}

theorem Session.resolution_of_payload {r : Request} {b : Bytes}
    (h : s.outcome? op = some (.ok (.payload b))) : s.resolution r op = some (r.read b) := by
  rw [resolution, h]
  rfl

theorem Session.resolution_of_error {r : Request} {e : Failure}
    (h : s.outcome? op = some (.error e)) : s.resolution r op = some (.error e) := by
  rw [resolution, h]
  rfl

variable (happ : Lawful L app) (hs : Sound L away owed s)
include happ hs

/-- An answer that comes to the handler of a request is its outcome. -/
theorem Sound.resolves_answered {command : Command}
    (hreaches : s.Reaches app f (.response [command] (.settle op)) waits u)
    (hkind : f.kind = .srsp) (hcommand : f.command = command) :
    (s.deliver app f).outcome? op = some (.ok (.payload f.payload)) := by
  obtain ⟨before, behind, left, tracked, hchain, hpassed⟩ := hreaches
  have hmem : f.command ∈ [command] := List.mem_singleton.2 hcommand
  have hyes : (Handler.response [command] (.settle op)).Accepts u.timers f := ⟨hkind, .inl hmem⟩
  obtain ⟨answer, hgets, hout⟩ := hs.completes happ hchain hpassed hyes rfl
  have hanswer : answer = .ok f.payload := by
    cases hgets with
    | answer => rfl
    | rejection hnot => exact absurd hmem hnot
  rw [hanswer] at hout
  exact Session.outlives_dispatched happ f s op _ hout

/-- A confirmation that comes to the wait for it, and that the wait takes, is its outcome but
for the opening. -/
theorem Sound.resolves_confirmed {h : Handler} {p : Pattern} {b : Bytes}
    (hreaches : s.Reaches app f h waits u) (hp : h.awaits? = some p)
    (hop : h.operation? = some op) (hyes : h.Accepts u.timers f)
    (hpayload : f.payload = p.opening ++ b) :
    (s.deliver app f).outcome? op = some (.ok (.payload b)) := by
  obtain ⟨before, behind, left, tracked, hchain, hpassed⟩ := hreaches
  obtain ⟨answer, hgets, hout⟩ :=
    hs.completes happ hchain hpassed hyes (Handler.settles?_of_awaits hp hop)
  rw [hgets.eq_of_awaits hp hpayload] at hout
  exact Session.outlives_dispatched happ f s op _ hout

end Frames

/-- A request with the exchange `x` goes by the convention `c`, whoever else uses the session,
and wherever in its chain the handlers of the request are. -/
structure Answered (L : Licence η) (app : Application η) (config : SessionConfig) (r : Request)
    (c : Convention r.Answer) (x : Exchange) : Prop where
  opening : x.confirmation.map Confirmation.opening = c.confirmed
  /-- The handler for the answer goes behind all others, and the frame behind all frames. -/
  issued : ∀ s : Session η, s.config = config →
    s.call (.request r) = (.ok s.issue.1, { s.issue.2 with
      chain := s.chain ++ [.response [x.command] (x.aftermath s.issue.1)]
      outbound := s.outbound ++ [⟨.sreq, x.command, x.payload⟩] })
  /-- The bytes of the answer that the handler takes. -/
  answered : x.confirmation = none → c.Governs fun b o => ∀ {s u away owed op waits},
    Sound L away owed s →
    s.Reaches app ⟨.srsp, x.command, b⟩ (.response [x.command] (x.aftermath op)) waits u →
    (s.deliver app ⟨.srsp, x.command, b⟩).resolution r op = some o
  /-- An answer of success has the confirmation waited for. Any other status ends the request,
  and so does anything behind the status. -/
  acknowledged : ∀ k, x.confirmation = some k → ∀ {s u away owed op waits}, Sound L away owed s →
    ∀ b, s.Reaches app ⟨.srsp, x.command, b⟩ (.response [x.command] (x.aftermath op)) waits u →
    (b = [statusSuccess] → (s.dispatched app ⟨.srsp, x.command, b⟩).pending op = true ∧
      ∃ h ∈ (s.dispatched app ⟨.srsp, x.command, b⟩).chain, h.awaits? = some k.pattern ∧
        h.Holds (s.dispatched app ⟨.srsp, x.command, b⟩).timers op (k.window.map (u.now + ·))) ∧
    (∀ status rest, b = status :: rest → status ≠ statusSuccess →
      (s.deliver app ⟨.srsp, x.command, b⟩).resolution r op = some (.error (.status status))) ∧
    ∀ rest, rest ≠ [] → b = statusSuccess :: rest →
      (s.deliver app ⟨.srsp, x.command, b⟩).resolution r op =
        some (.error (.unexpectedData rest.length))
  /-- The bytes behind the opening of the confirmation that the wait takes. -/
  confirmed : ∀ k, x.confirmation = some k → c.Governs fun b o => ∀ {s u away owed h op waits},
    Sound L away owed s → s.Reaches app ⟨.areq, k.command, k.opening ++ b⟩ h waits u →
    h.awaits? = some k.pattern → h.operation? = some op →
    h.Accepts u.timers ⟨.areq, k.command, k.opening ++ b⟩ →
    (s.deliver app ⟨.areq, k.command, k.opening ++ b⟩).resolution r op = some o

/-- What a request that yields a value is exchanged for. -/
theorem Request.exchange_of_convention {r : Request} {c : Convention r.Answer}
    (hc : r.convention? = some c) (config : SessionConfig) :
    ∃ x, r.exchange config = .ok x ∧ x.responses = [x.command] ∧
      x.payload.length ≤ maxPayloadLength ∧
      x.confirmation.map Confirmation.opening = c.confirmed := by
  cases r with
  | endpoint | commissioning | bare => cases hc
  | system r | network r | configuration r | lookup r =>
    cases r <;> cases hc <;> exact ⟨_, rfl, rfl, Nat.le_of_ble_eq_true rfl, rfl⟩

/-- **How requests are answered.** Every value comes back as it was written by the convention
of the request, a status other than success and the echo of another thing are failures, and
so are bytes behind the value, where they are not ignored. -/
theorem Lawful.answered_by_convention {app : Application η} (happ : Lawful L app) {r : Request}
    {c : Convention r.Answer} (hc : r.convention? = some c) (config : SessionConfig) :
    ∃ x, r.exchange config = .ok x ∧ Answered L app config r c x := by
  obtain ⟨x, hx, hresponses, hlength, hopening⟩ := Request.exchange_of_convention hc config
  refine ⟨x, hx, hopening, ?_, ?_, ?_, ?_⟩
  · rintro s rfl
    have hfits : x.refusal? = none := by
      simp [Exchange.refusal?, hresponses, Nat.not_lt.2 hlength]
    simp only [Session.call, Session.request, hx, Session.exchange, hfits, hresponses]
    rfl
  · intro hnone
    refine (Request.governs hc).mono ?_
    rintro b o rfl s u away owed op waits hs hreaches
    have haftermath : x.aftermath op = .settle op := by rw [Exchange.aftermath, hnone]
    rw [haftermath] at hreaches
    exact Session.resolution_of_payload (hs.resolves_answered happ hreaches rfl rfl)
  · intro k hk s u away owed op waits hs b hreaches
    have haftermath : x.aftermath op = .confirm k op := by rw [Exchange.aftermath, hk]
    rw [haftermath] at hreaches
    refine ⟨?_, ?_, ?_⟩
    · rintro rfl
      obtain ⟨hpending, hwait, -⟩ := hs.installs_wait happ hreaches rfl (.success rfl rfl)
      exact ⟨hpending, hwait⟩
    · rintro status rest rfl hstatus
      exact Session.resolution_of_error
        (hs.fails_asking happ hreaches rfl (.status rfl rfl hstatus)).1
    · rintro rest hrest rfl
      obtain ⟨b, others, rfl⟩ := List.exists_cons_of_ne_nil hrest
      exact Session.resolution_of_error
        (hs.fails_asking happ hreaches rfl (.surplus rfl rfl)).1
  · intro k hk
    refine (Request.governs hc).mono ?_
    rintro b o rfl s u away owed h op waits hs hreaches hp hop hyes
    exact Session.resolution_of_payload
      (hs.resolves_confirmed happ hreaches hp hop hyes rfl)

/-- A question for the bindings of a device, from the first on. -/
def bindingsOf (dst : ShortAddress) : Request := .network (.bindTable dst 0)

/-- A session that has asked a device for its bindings, and whose co-processor has accepted
that. -/
def Session.askedForBindings : Session Unit :=
  (((Session.start {} ()).call (.request (bindingsOf 0x1234))).2).deliver .silent
    ⟨.srsp, ⟨.zdo, 0x33⟩, [0]⟩

theorem Reachable.askedForBindings : Reachable .facade .askedForBindings := by
  have hsilent : Lawful .facade (.silent : Application Unit) := .silent fun _ => trivial
  have hasked := (Reachable.start .facade {} ()).deed hsilent
    (d := .call (.request (bindingsOf 0x1234))) ⟨trivial, trivial⟩ trivial
  exact hasked.deed hsilent (d := .deliver ⟨.srsp, ⟨.zdo, 0x33⟩, [0]⟩) ⟨trivial, trivial⟩ trivial

/-- The device has one binding. Its confirmation yields the table, with a byte behind the
table it is refused, and without the table it may say why there is none. -/
theorem bindings_answered :
    let table : BindTable := ⟨1, 0, 1, [⟨7, 1, 6, .ieee 9 1⟩]⟩
    let confirm (b : Bytes) : Session Unit :=
      Session.askedForBindings.deliver .silent ⟨.areq, ⟨.zdo, 0xB3⟩, [0x34, 0x12] ++ b⟩
    (confirm (0 :: BindTable.codec.write table)).resolution (bindingsOf 0x1234) 0 =
        some (.ok table) ∧
      (confirm (0 :: BindTable.codec.write table ++ [5])).resolution (bindingsOf 0x1234) 0 =
        some (.error (.trailingBytes 1)) ∧
      (confirm [0x84]).resolution (bindingsOf 0x1234) 0 = some (.error (.status 0x84)) := by
  intro table confirm
  have hsilent : Lawful .facade (.silent : Application Unit) := .silent fun _ => trivial
  have hc : (bindingsOf 0x1234).convention? =
      some ((Convention.bare BindTable.codec).checked.behind [0x34, 0x12]) := rfl
  obtain ⟨x, hx, laws⟩ := hsilent.answered_by_convention hc {}
  cases hx
  have hsound := Reachable.askedForBindings.sound
  have hfits : BindTable.codec.Consistent table :=
    ⟨trivial, trivial, rfl, fun _ _ => ⟨trivial, trivial, trivial, trivial, trivial, trivial⟩⟩
  have hgoverns := laws.confirmed ⟨⟨.zdo, 0xB3⟩, some 15000, [0x34, 0x12]⟩ rfl
  let waiting : Handler := .timed 0 (.wait ⟨.areq, ⟨.zdo, 0xB3⟩, [0x34, 0x12]⟩ 0)
  have hreaches (b : Bytes) : Session.askedForBindings.Reaches .silent
      ⟨.areq, ⟨.zdo, 0xB3⟩, [0x34, 0x12] ++ b⟩ waiting [] Session.askedForBindings.enter :=
    ⟨(Session.start {} ()).chain, [], _, [], rfl, rfl⟩
  have haccepts (b : Bytes) : waiting.Accepts Session.askedForBindings.enter.timers
      ⟨.areq, ⟨.zdo, 0xB3⟩, [0x34, 0x12] ++ b⟩ := ⟨rfl, rfl, rfl, List.prefix_append _ b⟩
  refine ⟨?_, ?_, ?_⟩
  · exact hgoverns.value table hfits [] (.inl rfl) hsound (hreaches _) rfl rfl (haccepts _)
  · exact hgoverns.surplus rfl table hfits [5] (List.cons_ne_nil _ _) hsound (hreaches _) rfl rfl
      (haccepts _)
  · exact hgoverns.status rfl 0x84 (by decide) [] hsound (hreaches _) rfl rfl (haccepts _)

end ZigbeeHost
