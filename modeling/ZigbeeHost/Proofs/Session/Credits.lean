import ZigbeeHost.Proofs.Session.Confirmees
import ZigbeeHost.Proofs.Session.Drift
import ZigbeeHost.Proofs.Session.Logbook
/-!
# Who is credited with a confirmation

An application writes down its requests that send data, the frames that handlers take, the expiries
of timers and the teardowns. What a part of a run adds to such a log says what became of the
operations meanwhile (`Session.Credits`) : who came to wait for a confirmation and in which order,
who got one, and that nobody else has a payload to show for an outcome.

The handlers that are out during the part bide, and a part that is done while they are out is as
good as one done with them put back (`Session.Credits.frame`). So a dispatch goes on from turn to
turn as if the chain had never been taken out.
-/

namespace ZigbeeHost

/-! ## The log -/

/-- Something that concerns requests that send data. -/
inductive DataSign where
  | called (op : OperationId) (request : DataRequest)
  /-- A handler took a frame. When the frame was delivered so many others were being dispatched,
  and the log had so many entries. -/
  | took (depth since : Nat) (f : Frame) (h : Handler)
  /-- Timers expired, for the operations. -/
  | expired (late : List OperationId)
  /-- The operations were failed. -/
  | torn

namespace DataSign

/-- The operation that is to wait for its confirmation now, because its request succeeded. -/
def accepted? : DataSign → Option OperationId
  | took _ _ f (.response commands (.confirm c op)) =>
    if c.pattern = .dataConfirm ∧ answer? commands f = some (.ok [0]) then some op else none
  | _ => none

/-- The operation that gets a frame as its confirmation. -/
def credit? : DataSign → Option (OperationId × Frame)
  | took _ _ f h => h.confirmee?.map (·, f)
  | _ => none

/-- The operations in the order in which their requests succeeded. -/
def accepted (log : List DataSign) : List OperationId := log.filterMap accepted?

/-- The operations that were confirmed, in order. -/
def confirmed (log : List DataSign) : List OperationId := (log.filterMap credit?).map Prod.fst

/-- Nothing intervenes between the operations and their confirmations : no frame was taken in the
midst of a dispatch that confirms one, no timer of theirs fired, and none was failed. -/
def InTurn (ops : List OperationId) : DataSign → Prop
  | called .. => True
  | took depth _ _ h => depth = 0 ∨ h.confirmee? = none
  | expired late => ∀ op ∈ late, op ∉ ops
  | torn => False

/-- In a log that comes behind `base` signs, a frame that confirms an operation was delivered before
it was taken. The operation was among `ops`, or accepted before the frame was delivered. -/
def Timely (base : Nat) (ops : List OperationId) (log : List DataSign) : Prop :=
  ∀ (j depth since : Nat) (f : Frame) (h : Handler) (op : OperationId),
    log[j]? = some (.took depth since f h) → h.confirmee? = some op →
      base ≤ since ∧ since ≤ base + j ∧ op ∈ ops ++ accepted (log.take (since - base))

variable {ops ops' : List OperationId} {log log' : List DataSign} {sign : DataSign}

theorem accepted_append (log log' : List DataSign) :
    accepted (log ++ log') = accepted log ++ accepted log' := List.filterMap_append

theorem confirmed_append (log log' : List DataSign) :
    confirmed (log ++ log') = confirmed log ++ confirmed log' := by
  rw [confirmed, List.filterMap_append, List.map_append, confirmed, confirmed]

theorem InTurn.mono (h : sign.InTurn ops) (hsub : ops' ⊆ ops) : sign.InTurn ops' := by
  cases sign with
  | expired late => exact fun op hop hmem => h op hop (hsub hmem)
  | _ => exact h

variable {base : Nat}

/-- Signs come in time, also if they come later. -/
theorem Timely.append (h : Timely base ops log) (h' : Timely (base + log.length) ops' log')
    (hsub : ops' ⊆ ops ++ accepted log) : Timely base ops (log ++ log') := by
  intro j depth since f g op hj hop
  rcases Nat.lt_or_ge j log.length with hlt | hge
  · rw [List.getElem?_append_left hlt] at hj
    obtain ⟨hbase, hsince, hmem⟩ := h j depth since f g op hj hop
    rw [List.take_append_of_le_length (by omega)]
    exact ⟨hbase, hsince, hmem⟩
  · rw [List.getElem?_append_right hge] at hj
    obtain ⟨hbase, hsince, hmem⟩ := h' _ depth since f g op hj hop
    have hwhole : since - base = log.length + (since - (base + log.length)) := by omega
    rw [hwhole, List.take_length_add_append, accepted_append, ← List.append_assoc]
    refine ⟨by omega, by omega, ?_⟩
    exact (List.mem_append.1 hmem).elim (fun hold => List.mem_append_left _ (hsub hold))
      (List.mem_append_right _)

/-- The more are there to wait, the more signs are in time. -/
theorem Timely.mono (h : Timely base ops log) (hsub : ops ⊆ ops') : Timely base ops' log := by
  have hnothing : Timely base ops' [] := nofun
  exact hnothing.append h (List.subset_append_of_subset_left _ hsub)

/-- The last sign is in time if its handler waited then. -/
theorem timely_concat_iff : Timely base ops (log ++ [sign]) ↔ Timely base ops log ∧
    ∀ depth since f h op, sign = .took depth since f h → h.confirmee? = some op →
      base ≤ since ∧ since ≤ base + log.length ∧
        op ∈ ops ++ accepted (log.take (since - base)) := by
  constructor
  · intro h
    refine ⟨fun j depth since f g op hj hop => ?_, fun depth since f g op hsign hop => ?_⟩
    · have hlt : j < log.length := (List.getElem?_eq_some_iff.1 hj).1
      obtain ⟨hbase, hsince, hmem⟩ :=
        h j depth since f g op (by rw [List.getElem?_append_left hlt, hj]) hop
      rw [List.take_append_of_le_length (by omega)] at hmem
      exact ⟨hbase, hsince, hmem⟩
    · obtain ⟨hbase, hsince, hmem⟩ :=
        h log.length depth since f g op (by rw [List.getElem?_concat_length, hsign]) hop
      rw [List.take_append_of_le_length (by omega)] at hmem
      exact ⟨hbase, hsince, hmem⟩
  · rintro ⟨hfirst, hlast⟩ j depth since f g op hj hop
    rcases Nat.lt_or_ge j log.length with hlt | hge
    · rw [List.getElem?_append_left hlt] at hj
      obtain ⟨hbase, hsince, hmem⟩ := hfirst j depth since f g op hj hop
      rw [List.take_append_of_le_length (by omega)]
      exact ⟨hbase, hsince, hmem⟩
    · rw [List.getElem?_append_right hge] at hj
      have hsign : sign = .took depth since f g :=
        (List.mem_singleton.1 (List.mem_of_getElem? hj)).symm
      obtain ⟨hbase, hsince, hmem⟩ := hlast depth since f g op hsign hop
      rw [List.take_append_of_le_length (by omega)]
      exact ⟨hbase, by omega, hmem⟩

/-- A sign that is no confirmation is timely. -/
theorem timely_singleton
    (hnone : ∀ depth since f h, sign = .took depth since f h → h.confirmee? = none) :
    Timely base ops [sign] := by
  intro j depth since f h op hj hop
  have hsign := List.mem_singleton.1 (List.mem_of_getElem? hj)
  rw [hnone depth since f h hsign.symm] at hop
  cases hop

/-- Something comes in between, before the last sign. -/
theorem Timely.insert {xs : List DataSign} (h : Timely base ops (log ++ xs)) (hxs : xs.length ≤ 1)
    (h' : Timely (base + log.length) ops' log') (hsub : ops' ⊆ ops ++ accepted log) :
    Timely base ops (log ++ log' ++ (xs ++ [.torn])) := by
  match xs with
  | [] =>
    rw [List.append_nil] at h
    exact timely_concat_iff.2 ⟨h.append h' hsub, nofun⟩
  | [sign] =>
    -- The frame of the last sign was delivered before what comes in between.
    obtain ⟨hfirst, hlast⟩ := timely_concat_iff.1 h
    rw [← List.append_assoc]
    refine timely_concat_iff.2 ⟨timely_concat_iff.2 ⟨hfirst.append h' hsub, ?_⟩, nofun⟩
    intro depth since f g op hsign hop
    obtain ⟨hbase, hsince, hmem⟩ := hlast depth since f g op hsign hop
    rw [List.take_append_of_le_length (by omega), List.length_append]
    exact ⟨hbase, by omega, hmem⟩

/-- In turn, nobody is confirmed while a frame is dispatched. -/
theorem confirmed_eq_nil
    (hdeep : ∀ depth since f h, .took depth since f h ∈ log → 0 < depth)
    (hturn : ∀ sign ∈ log, sign.InTurn ops) : confirmed log = [] := by
  refine List.map_eq_nil_iff.2 (List.filterMap_eq_nil_iff.2 fun sign hsign => ?_)
  cases sign with
  | took depth since f h =>
    have hnone := (hturn _ hsign).resolve_left (Nat.ne_of_gt (hdeep depth since f h hsign))
    rw [credit?, hnone]
    rfl
  | _ => rfl

end DataSign

/-! ## From whom handlers have their operations -/

/-- The handler is the other one, or asks for what the other one waits for. -/
def Handler.LeadsTo (g h : Handler) : Prop :=
  g = h ∨ ∃ commands c op, g = .response commands (.confirm c op) ∧
    h.awaits? = some c.pattern ∧ h.operation? = some op

/-- The handler serves a request that sends data : it awaits the answer, or the confirmation. -/
def Handler.Serves (op : OperationId) (h : Handler) : Prop :=
  (∃ window, h = .asking ⟨.af, 0x01⟩ ⟨EndpointRequest.dataConfirm, window, []⟩ op) ∨
    h.confirmee? = some op

namespace Handler.LeadsTo

variable {g h k : Handler} {op : OperationId}

/-- Who leads to whom has the same operation. -/
theorem operation?_eq (hgh : g.LeadsTo h) : h.operation? = g.operation? := by
  rcases hgh with rfl | ⟨commands, c, op, rfl, -, hop⟩
  · rfl
  · exact hop

theorem trans (hgh : g.LeadsTo h) (hhk : h.LeadsTo k) : g.LeadsTo k := by
  rcases hhk with rfl | ⟨commands, c, op, rfl, hawaits, hop⟩
  · exact hgh
  · rcases hgh with rfl | ⟨_, _, _, -, hnone, -⟩
    · exact Or.inr ⟨commands, c, op, rfl, hawaits, hop⟩
    · cases hnone

/-- Whoever is led to by a handler that serves a request serves it too. -/
theorem serves (hgh : g.LeadsTo h) (hg : g.Serves op) (hop : g.operation? = some op) :
    h.Serves op := by
  rcases hgh with rfl | ⟨commands, c, op', rfl, hawaits, hop'⟩
  · exact hg
  · obtain rfl := Option.some.inj hop
    refine Or.inr ?_
    rcases hg with ⟨window, heq⟩ | hnone
    · cases heq
      exact Handler.confirmee?_eq_some_iff.2 ⟨hawaits, hop'⟩
    · cases hnone

end Handler.LeadsTo

namespace Session

/-- If the operation of the handler was issued in the session, the handler has it from one of the
chain. -/
def Vouches {η : Type} (s : Session η) (h : Handler) : Prop :=
  ∀ op, h.operation? = some op → op < s.operations.size → ∃ g ∈ s.chain, g.LeadsTo h

section Vouches

variable {η : Type} {s t : Session η} {h : Handler}

theorem Vouches.of_mem (hh : h ∈ s.chain) : s.Vouches h := fun _ _ _ => ⟨h, hh, Or.inl rfl⟩

/-- An operation that is new has no handler to come from. -/
theorem Vouches.of_fresh (hfresh : ∀ op, h.operation? = some op → s.operations.size ≤ op) :
    s.Vouches h := fun op hop hlt => absurd (hfresh op hop) (Nat.not_le_of_lt hlt)

/-- What comes from a handler comes from where that one came from. -/
theorem Vouches.trans (ht : t.Vouches h) (hchain : ∀ g ∈ t.chain, s.Vouches g)
    (hsize : s.operations.size ≤ t.operations.size) : s.Vouches h := by
  intro op hop hlt
  obtain ⟨g, hg, hgh⟩ := ht op hop (Nat.lt_of_lt_of_le hlt hsize)
  obtain ⟨k, hk, hkg⟩ := hchain g hg op (hgh.operation?_eq ▸ hop) hlt
  exact ⟨k, hk, hkg.trans hgh⟩

/-- Without a chain, handlers have operations of their own. -/
theorem Vouches.fresh (hv : s.Vouches h) (hchain : s.chain = []) {op : OperationId}
    (hop : h.operation? = some op) : s.operations.size ≤ op := by
  refine Nat.le_of_not_lt fun hlt => ?_
  obtain ⟨g, hg, -⟩ := hv op hop hlt
  rw [hchain] at hg
  cases hg

end Vouches

/-- No operation has come to a payload. -/
def Unpaid {η : Type} (s t : Session η) : Prop :=
  ∀ op b, t.outcome? op = some (.ok (.payload b)) → s.outcome? op = some (.ok (.payload b))

theorem Unpaid.of_eq {η : Type} {s t : Session η} (h : t.operations = s.operations) :
    s.Unpaid t := fun op b hb => by rwa [outcome?, h] at hb

theorem Unpaid.trans {η : Type} {s t u : Session η} (h : s.Unpaid t) (h' : t.Unpaid u) :
    s.Unpaid u := fun op b hb => h op b (h' op b hb)

/-- An outcome without a payload pays nobody. -/
theorem unpaid_complete {η : Type} {outcome : Except Failure Outcome}
    (hno : ∀ b, outcome ≠ .ok (.payload b)) (s : Session η) (op : OperationId) :
    s.Unpaid (s.complete op outcome) := by
  intro i b hb
  rw [outcome?_eq_some_iff, operations_complete] at hb
  split at hb
  · exact absurd (Option.some.inj (Option.some.inj hb)) (hno b)
  · exact outcome?_eq_some_iff.2 hb

theorem unpaid_issue {η : Type} (s : Session η) : s.Unpaid s.issue.2 := by
  intro i b hb
  rw [outcome?_eq_some_iff, operations_issue] at hb
  split at hb
  · cases hb
  · exact outcome?_eq_some_iff.2 hb

/-! ## Credits -/

section Credits

open DataSign

variable {θ : Type} {s t u : Session (θ × List DataSign)} {away away' : List Handler}
  {ws ws' : List Wait} {log log' : List DataSign} {floor floor' : Nat}

/-- What a part of a run that leads from `s` to `t` adds to the log, while the handlers `away` are
out and at least `floor` frames are being dispatched. The waits `ws` are yet to be installed. -/
structure Credits (floor : Nat) (away : List Handler) (s : Session (θ × List DataSign))
    (ws : List Wait) (t : Session (θ × List DataSign)) (log : List DataSign) : Prop where
  pages : t.pages = s.pages ++ log
  size : s.operations.size ≤ t.operations.size
  outlives : s.Outlives t
  /-- The waits have operations of their own. -/
  waits : ∀ w ∈ ws, w.handler.confirmee? = none ∧ s.operations.size ≤ w.operation ∧
    w.operation < t.operations.size
  vouches : ∀ h ∈ t.chain, s.Vouches h
  took : ∀ depth since f h, .took depth since f h ∈ log → floor ≤ depth ∧ s.Vouches h ∧
    ∀ op, h.operation? = some op → op < t.operations.size
  /-- The operation of a request is a new one, and nobody has it but those that serve the
  request. -/
  called : ∀ op r, .called op r ∈ log → s.operations.size ≤ op ∧ op < t.operations.size ∧
    (∀ w ∈ ws, w.operation ≠ op) ∧
    ∀ h, (h ∈ t.chain ∨ ∃ depth since f, .took depth since f h ∈ log) →
      h.operation? = some op → h.Serves op
  /-- Those who wait were there before, or were accepted, in this order. -/
  order : t.expecting.Sublist (s.expecting ++ accepted log)
  /-- What the handlers carry that are out is theirs, unless their timers fired. -/
  spares : ∀ h ∈ away, ∀ op, h.carried? s.timers = some op →
    h.carried? t.timers = some op ∨ ∃ late, .expired late ∈ log ∧ op ∈ late
  /-- If nothing intervenes, the first to wait are the first to be confirmed. -/
  turns : (∀ sign ∈ log, sign.InTurn (s.expecting ++ accepted log)) →
    s.expecting ++ accepted log = confirmed log ++ t.expecting
  /-- Whoever waits or is accepted goes on waiting until it is decided. -/
  bides : ∀ op ∈ s.expecting ++ accepted log,
    op ∈ t.expecting ∨ (t.outcome? op).isSome = true
  timely : Timely s.pages.length s.expecting log
  /-- A payload is due to a handler that took a frame. -/
  earned : ∀ op b, t.outcome? op = some (.ok (.payload b)) →
    s.outcome? op = some (.ok (.payload b)) ∨
      ∃ depth since f h, .took depth since f h ∈ log ∧ h.settles? = some op
  /-- A confirmation is the outcome of whoever got it. -/
  paid : ∀ depth since f h op, .took depth since f h ∈ log → h.confirmee? = some op →
    f.ConfirmsData ∧ t.outcome? op = some (.ok (.payload f.payload))

namespace Credits

theorem mono (h : Credits floor away s ws t log) (haway : away' ⊆ away) (hfloor : floor' ≤ floor) :
    Credits floor' away' s ws t log :=
  { h with
    spares := fun g hg => h.spares g (haway hg)
    took := fun depth since f g hg => (h.took depth since f g hg).imp_left (Nat.le_trans hfloor) }

section Trans

variable (h : Credits floor away s ws t log)
  (h' : Credits floor (ws.map Wait.handler ++ away) t ws' u log')
include h h'

/-- Whoever has the operation of a request from the first of two parts serves the request, also in
the second. -/
theorem serves_trans {op : OperationId} {r : DataRequest} (hcalled : .called op r ∈ log)
    {g : Handler} (hg : g ∈ u.chain ∨ ∃ depth since f, .took depth since f g ∈ log ++ log')
    (hop : g.operation? = some op) : g.Serves op := by
  obtain ⟨-, hlt, -, hserves⟩ := h.called op r hcalled
  have hheir (hv : t.Vouches g) : g.Serves op := by
    obtain ⟨k, hk, hkg⟩ := hv op hop hlt
    have hkop : k.operation? = some op := hkg.operation?_eq ▸ hop
    exact hkg.serves (hserves k (Or.inl hk) hkop) hkop
  rcases hg with hg | ⟨depth, since, f, hg⟩
  · exact hheir (h'.vouches g hg)
  · rcases List.mem_append.1 hg with hg | hg
    · exact hserves g (Or.inr ⟨depth, since, f, hg⟩) hop
    · exact hheir (h'.took depth since f g hg).2.1

/-- Nobody from the first part has the operation of a request from the second. -/
theorem serves_trans_later {op : OperationId} {r : DataRequest} (hcalled : .called op r ∈ log')
    {g : Handler} (hg : g ∈ u.chain ∨ ∃ depth since f, .took depth since f g ∈ log ++ log')
    (hop : g.operation? = some op) : g.Serves op := by
  obtain ⟨hnew, -, -, hserves⟩ := h'.called op r hcalled
  rcases hg with hg | ⟨depth, since, f, hg⟩
  · exact hserves g (Or.inl hg) hop
  · rcases List.mem_append.1 hg with hg | hg
    · exact absurd ((h.took depth since f g hg).2.2 op hop) (Nat.not_lt_of_le hnew)
    · exact hserves g (Or.inr ⟨depth, since, f, hg⟩) hop

/-- Parts of a run that come one after the other. The waits of the first are out in the
second. -/
theorem trans : Credits floor away s (ws ++ ws') u (log ++ log') where
  pages := by rw [h'.pages, h.pages, List.append_assoc]
  size := Nat.le_trans h.size h'.size
  outlives := narrow_outlives.trans h.outlives h'.outlives
  waits w hw := by
    rcases List.mem_append.1 hw with hw | hw
    · obtain ⟨hnone, hnew, hlt⟩ := h.waits w hw
      exact ⟨hnone, hnew, Nat.lt_of_lt_of_le hlt h'.size⟩
    · obtain ⟨hnone, hnew, hlt⟩ := h'.waits w hw
      exact ⟨hnone, Nat.le_trans h.size hnew, hlt⟩
  vouches g hg := (h'.vouches g hg).trans h.vouches h.size
  took depth since f g hg := by
    rcases List.mem_append.1 hg with hg | hg
    · obtain ⟨hdepth, hvouches, hlt⟩ := h.took depth since f g hg
      exact ⟨hdepth, hvouches, fun op hop => Nat.lt_of_lt_of_le (hlt op hop) h'.size⟩
    · obtain ⟨hdepth, hvouches, hlt⟩ := h'.took depth since f g hg
      exact ⟨hdepth, hvouches.trans h.vouches h.size, hlt⟩
  called op r hop := by
    rcases List.mem_append.1 hop with hop | hop
    · obtain ⟨hnew, hlt, hwaits, -⟩ := h.called op r hop
      refine ⟨hnew, Nat.lt_of_lt_of_le hlt h'.size, fun w hw => ?_, fun g => h.serves_trans h' hop⟩
      rcases List.mem_append.1 hw with hw | hw
      · exact hwaits w hw
      · exact Nat.ne_of_gt (Nat.lt_of_lt_of_le hlt (h'.waits w hw).2.1)
    · obtain ⟨hnew, hlt, hwaits, -⟩ := h'.called op r hop
      refine ⟨Nat.le_trans h.size hnew, hlt, fun w hw => ?_, fun g => h.serves_trans_later h' hop⟩
      rcases List.mem_append.1 hw with hw | hw
      · exact Nat.ne_of_lt (Nat.lt_of_lt_of_le (h.waits w hw).2.2 hnew)
      · exact hwaits w hw
  order := by
    rw [accepted_append, ← List.append_assoc]
    exact h'.order.trans (h.order.append (List.Sublist.refl _))
  spares g hg op hop := by
    rcases h.spares g hg op hop with hop | ⟨late, hlate, hmem⟩
    · refine (h'.spares g (List.mem_append_right _ hg) op hop).imp_right ?_
      exact fun ⟨late, hlate, hmem⟩ => ⟨late, List.mem_append_right log hlate, hmem⟩
    · exact Or.inr ⟨late, List.mem_append_left log' hlate, hmem⟩
  turns hturn := by
    rw [accepted_append, ← List.append_assoc] at hturn ⊢
    have hfirst := h.turns fun sign hsign => (hturn sign (List.mem_append_left log' hsign)).mono
      (List.subset_append_left ..)
    have hsecond := h'.turns fun sign hsign =>
      (hturn sign (List.mem_append_right log hsign)).mono fun op hop => by
        rcases List.mem_append.1 hop with hop | hop
        · exact List.mem_append_left _ (h.order.mem hop)
        · exact List.mem_append_right _ hop
    rw [hfirst, List.append_assoc, hsecond, confirmed_append, List.append_assoc]
  bides op hop := by
    rw [accepted_append, ← List.append_assoc] at hop
    have hmeanwhile : op ∈ t.expecting ++ accepted log' ∨ (t.outcome? op).isSome = true := by
      rcases List.mem_append.1 hop with hop | hop
      · exact (h.bides op hop).imp_left (List.mem_append_left _)
      · exact Or.inl (List.mem_append_right _ hop)
    exact hmeanwhile.elim (h'.bides op) fun hsome => Or.inr (h'.outlives.isSome hsome)
  timely := by
    have hlater := h'.timely
    rw [h.pages, List.length_append] at hlater
    exact h.timely.append hlater h.order.subset
  earned op b hb := by
    rcases h'.earned op b hb with hb | ⟨depth, since, f, g, hg, hop⟩
    · refine (h.earned op b hb).imp_right ?_
      exact fun ⟨depth, since, f, g, hg, hop⟩ =>
        ⟨depth, since, f, g, List.mem_append_left log' hg, hop⟩
    · exact Or.inr ⟨depth, since, f, g, List.mem_append_right log hg, hop⟩
  paid depth since f g op hg hop := by
    rcases List.mem_append.1 hg with hg | hg
    · exact (h.paid depth since f g op hg hop).imp_right (h'.outlives op _)
    · exact h'.paid depth since f g op hg hop

end Trans

/-- Nothing is written, and nobody comes or goes who waits for a confirmation. -/
theorem quiet (hpages : t.pages = s.pages) (hsize : s.operations.size ≤ t.operations.size)
    (houtlives : s.Outlives t) (hunpaid : s.Unpaid t) (hvouches : ∀ h ∈ t.chain, s.Vouches h)
    (hexpecting : t.expecting = s.expecting)
    (hcarried : ∀ h ∈ away, h.carried? t.timers = h.carried? s.timers) :
    Credits floor away s [] t [] where
  pages := by rw [hpages, List.append_nil]
  size := hsize
  outlives := houtlives
  waits := nofun
  vouches := hvouches
  took _ _ _ := nofun
  called _ _ := nofun
  order := by
    rw [hexpecting]
    exact List.sublist_append_left ..
  spares h hh op hop := Or.inl ((hcarried h hh).trans hop)
  turns _ := by
    rw [hexpecting]
    exact List.append_nil _
  bides op hop := by
    rw [hexpecting]
    exact Or.inl ((List.append_nil _ : s.expecting ++ accepted [] = s.expecting) ▸ hop)
  timely := nofun
  earned op b hb := Or.inl (hunpaid op b hb)
  paid _ _ _ _ := nofun

/-- The chain, the timers and the operations stay. -/
theorem of_eq (hpages : t.pages = s.pages) (hchain : t.chain = s.chain)
    (htimers : t.timers = s.timers) (hops : t.operations = s.operations) :
    Credits floor away s [] t [] := by
  refine .quiet hpages (Nat.le_of_eq (by rw [hops])) (fun op outcome ho => ?_) (.of_eq hops)
    (fun h hh => .of_mem (hchain ▸ hh)) ?_ fun h _ => by rw [htimers]
  · rwa [outcome?, hops]
  · rw [expecting, expected, hchain, htimers]
    rfl

theorem refl (floor : Nat) (away : List Handler) (s : Session (θ × List DataSign)) :
    Credits floor away s [] s [] := of_eq rfl rfl rfl rfl

/-- Handlers with operations of their own come to the chain, and wait for something else. -/
theorem of_grown {new : List Handler} (hchain : t.chain = s.chain ++ new)
    (hnew : ∀ h ∈ new, h.confirmee? = none ∧
      ∀ op, h.operation? = some op → s.operations.size ≤ op)
    (hcarried : ∀ h ∈ away ++ s.chain, h.carried? t.timers = h.carried? s.timers)
    (hpages : t.pages = s.pages) (hsize : s.operations.size ≤ t.operations.size)
    (houtlives : s.Outlives t) (hunpaid : s.Unpaid t) : Credits floor away s [] t [] := by
  refine .quiet hpages hsize houtlives hunpaid (fun h hh => ?_) ?_
    fun h hh => hcarried h (List.mem_append_left _ hh)
  · rw [hchain] at hh
    rcases List.mem_append.1 hh with hh | hh
    · exact .of_mem hh
    · exact .of_fresh (hnew h hh).2
  · have hold : t.expected s.chain = s.expecting :=
      expected_congr fun h hh => hcarried h (List.mem_append_right _ hh)
    rw [expecting, hchain, expected_append, hold, expected_eq_nil fun h hh => (hnew h hh).1,
      List.append_nil]

/-- A handler that has no operation comes to the chain. -/
theorem of_idle {g : Handler} (hop : g.operation? = none) (hpages : t.pages = s.pages)
    (hchain : t.chain = s.chain ++ [g]) (htimers : t.timers = s.timers)
    (hops : t.operations = s.operations) : Credits floor away s [] t [] := by
  refine .of_grown hchain (fun h hh => ?_) (fun h _ => by rw [htimers]) hpages
    (Nat.le_of_eq (by rw [hops])) (fun op outcome ho => ?_) (.of_eq hops)
  · rw [List.mem_singleton.1 hh, Handler.confirmee?, hop]
    exact ⟨ite_self _, nofun⟩
  · rwa [outcome?, hops]

/-- An operation is issued to a wait for something else. -/
theorem ask_wait {p : Pattern} (hp : p ≠ .dataConfirm) (window : Option Nat)
    (s : Session (θ × List DataSign)) :
    Credits floor away s [⟨p, window, s.issue.1⟩] s.issue.2 [] := by
  have hsize : s.issue.2.operations.size = s.operations.size + 1 := Array.size_push ..
  have hissued : Credits floor away s [] s.issue.2 [] :=
    .of_grown (List.append_nil _).symm nofun (fun _ _ => rfl) rfl
      (hsize ▸ Nat.le_succ _) (outlives_issue s) (unpaid_issue s)
  exact { hissued with
    waits := fun w hw => by
      obtain rfl := List.mem_singleton.1 hw
      refine ⟨if_neg fun hpattern => hp (Option.some.inj hpattern), Nat.le_refl _, ?_⟩
      rw [hsize]
      exact Nat.lt_succ_self _
    called := nofun }

/-- An operation is decided, but not with a payload. -/
theorem complete {outcome : Except Failure Outcome} (hno : ∀ b, outcome ≠ .ok (.payload b))
    (s : Session (θ × List DataSign)) (op : OperationId) :
    Credits floor away s [] (s.complete op outcome) [] := by
  refine .quiet (congrArg Prod.snd (complete_host ..)) ?_ (outlives_complete s op outcome)
    (unpaid_complete hno s op) (fun h hh => .of_mem ?_) ?_ fun h _ => by rw [complete_timers]
  · exact Nat.le_of_eq (size_operations_complete ..).symm
  · rwa [complete_chain] at hh
  · rw [expecting, expected, complete_chain, complete_timers]
    rfl

theorem fail (e : Failure) (s : Session (θ × List DataSign)) (op : OperationId) :
    Credits floor away s [] (s.complete op (.error e)) [] := by
  refine complete (fun b heq => ?_) s op
  cases heq

/-- Operations are failed one after the other. -/
theorem foldl {α : Type} {f : Session (θ × List DataSign) → α → Session (θ × List DataSign)}
    (hf : ∀ s x, Credits floor away s [] (f s x) []) (xs : List α)
    (s : Session (θ × List DataSign)) : Credits floor away s [] (xs.foldl f s) [] :=
  List.foldlRecOn xs f (motive := fun t => Credits floor away s [] t []) (refl floor away s)
    fun t ht x _ => ht.trans (hf t x)

/-- A part of a run in the midst of a dispatch, with handlers put back that were out. -/
theorem frame {L : Licence (θ × List DataSign)} {hs : List Handler} {owed owed' : List Tracked}
    (h : Credits floor (hs ++ away) s ws t log) (hfloor : 0 < floor)
    (hsound : Sound L (hs ++ away) owed s)
    (hsound' : Sound L (ws.map Wait.handler ++ (hs ++ away)) owed' t) :
    Credits floor away (s.restore hs) ws (t.restore hs) log := by
  have hmono {g : Handler} (hv : s.Vouches g) : (s.restore hs).Vouches g := fun op hop hlt => by
    obtain ⟨k, hk, hkg⟩ := hv op hop hlt
    exact ⟨k, List.mem_append_right hs hk, hkg⟩
  have hback : (t.expected hs).Sublist (s.expected hs) := by
    refine expected_sublist fun g hg op hop => ?_
    exact hsound.wanes hsound' h.outlives (by simp [hg]) (by simp [hg]) hop
  refine {
    h with
    vouches := fun g hg => ?_
    took := fun depth since f g hg =>
      (h.took depth since f g hg).imp_right fun hg => ⟨hmono hg.1, hg.2⟩
    called := fun op r hop => ?_
    order := ?_
    spares := fun g hg => h.spares g (List.mem_append_right hs hg)
    turns := fun hturn => ?_
    bides := fun op hop => ?_
    timely := ?_ }
  · rcases List.mem_append.1 hg with hg | hg
    · exact .of_mem (List.mem_append_left _ hg)
    · exact hmono (h.vouches g hg)
  · obtain ⟨hnew, hlt, hwaits, hserves⟩ := h.called op r hop
    refine ⟨hnew, hlt, hwaits, fun g hg hgop => ?_⟩
    rcases hg with hg | hg
    · rcases List.mem_append.1 hg with hg | hg
      · have hold := (hsound.loyal g (by simp [hg]) op hgop).1
        exact absurd hold (Nat.not_lt_of_le hnew)
      · exact hserves g (Or.inl hg) hgop
    · exact hserves g (Or.inr hg) hgop
  · rw [expecting_restore, expecting_restore, List.append_assoc]
    exact hback.append h.order
  · rw [expecting_restore, expecting_restore, List.append_assoc] at *
    have hnobody : confirmed log = [] := confirmed_eq_nil
      (fun depth since f g hg => Nat.lt_of_lt_of_le hfloor (h.took depth since f g hg).1) hturn
    have hthere := h.turns fun sign hsign =>
      (hturn sign hsign).mono (List.subset_append_right ..)
    have hsame : t.expected hs = s.expected hs := by
      refine expected_eq_of_stays (fun g hg op hop => ?_) fun g hg op hexpects => ?_
      · exact hsound.wanes hsound' h.outlives (by simp [hg]) (by simp [hg]) hop
      · have hcarried := (Handler.expects?_eq_some_iff.1 hexpects).2
        refine (h.spares g (List.mem_append_left away hg) op hcarried).resolve_right ?_
        rintro ⟨late, hl, hop⟩
        refine absurd ?_ (hturn _ hl op hop)
        exact List.mem_append_left _ (List.mem_filterMap.2 ⟨g, hg, hexpects⟩)
    rw [hsame, hthere, hnobody]
    rfl
  · rw [expecting_restore, List.append_assoc] at hop
    rw [expecting_restore]
    rcases List.mem_append.1 hop with hop | hop
    · obtain ⟨g, hg, hexpects⟩ := List.mem_filterMap.1 hop
      have hstays := hsound'.expects_or_decided (h := g) (by simp [hg])
        (Handler.confirmee?_of_expects hexpects)
      exact hstays.imp_left fun hexpects =>
        List.mem_append_left _ (List.mem_filterMap.2 ⟨g, hg, hexpects⟩)
    · exact (h.bides op hop).imp_left (List.mem_append_right _)
  · rw [expecting_restore]
    exact h.timely.mono (List.subset_append_right ..)

/-- Of the handlers that are put back, those may be left out, or come besides, that have nothing to
do with operations. -/
theorem put_back {hs hs' : List Handler} (hsame : s.expected hs' = s.expected hs)
    (hmem : ∀ h ∈ hs', h ∈ hs ∨ h.operation? = none) :
    Credits floor away (s.restore hs) [] (s.restore hs') [] := by
  refine .quiet rfl (Nat.le_refl _) (fun _ _ ho => ho) (fun _ _ hb => hb) (fun h hh => ?_) ?_
    fun _ _ => rfl
  · rcases List.mem_append.1 hh with hh | hh
    · rcases hmem h hh with hh | hnone
      · exact .of_mem (List.mem_append_left _ hh)
      · refine .of_fresh fun op hop => ?_
        rw [hnone] at hop
        cases hop
    · exact .of_mem (List.mem_append_right _ hh)
  · rw [expecting_restore, expecting_restore, hsame]

/-- Waits that go nowhere. -/
theorem forget (h : Credits floor away s ws t log) : Credits floor away s [] t log :=
  { h with
    waits := nofun
    called := fun op r hop => (h.called op r hop).imp_right fun hop =>
      hop.imp_right fun hop => ⟨nofun, hop.2⟩ }

/-- A timer is disarmed whose handler is gone. -/
theorem disarm {L : Licence (θ × List DataSign)} {owed : List Tracked} {id : TimerId}
    {inner : Handler} (hsound : Sound L (.timed id inner :: away) owed s) :
    Credits floor away s [] (s.disarm id) [] := by
  have hcarried : ∀ h ∈ away ++ s.chain, h.carried? (s.disarm id).timers = h.carried? s.timers :=
    fun h hh => hsound.timers.carried?_disarm hh
  exact .of_grown (List.append_nil _).symm nofun hcarried rfl (Nat.le_refl _) (fun _ _ ho => ho)
    (.of_eq rfl)

/-- A handler that has no operation took a frame. -/
theorem sign {g : Handler} (hop : g.operation? = none) {depth : Nat} (hdepth : floor ≤ depth)
    (since : Nat) (f : Frame) (s : Session (θ × List DataSign)) :
    Credits floor away s [] (s.write [.took depth since f g]) [.took depth since f g] := by
  have hnone : g.confirmee? = none := by rw [Handler.confirmee?, hop, ite_self]
  have haccepted : accepted [.took depth since f g] = [] := by
    cases g with
    | response commands a =>
      cases a with
      | confirm => cases hop
      | _ => rfl
    | _ => rfl
  have hfresh {i : OperationId} (hi : g.operation? = some i) : False := by
    rw [hop] at hi
    cases hi
  exact {
    pages := rfl
    size := Nat.le_refl _
    outlives := fun _ _ ho => ho
    waits := nofun
    vouches := fun h hh => .of_mem hh
    took := fun depth' since' f' h hh => by
      cases List.mem_singleton.1 hh
      exact ⟨hdepth, fun i hi => (hfresh hi).elim, fun i hi => (hfresh hi).elim⟩
    called := fun op r hop => by cases List.mem_singleton.1 hop
    order := List.sublist_append_left ..
    spares := fun h _ i hi => Or.inl hi
    turns := fun _ => by
      rw [haccepted, List.append_nil]
      simp [confirmed, credit?, hnone]
      rfl
    bides := fun i hi => by
      rw [haccepted, List.append_nil] at hi
      exact Or.inl hi
    timely := timely_singleton fun depth' since' f' h hsign => by
      cases hsign
      exact hnone
    earned := fun i b hb => Or.inl hb
    paid := fun depth' since' f' h i hh hi => by
      cases List.mem_singleton.1 hh
      rw [hnone] at hi
      cases hi }

/-- A request that sends data was started, with an operation of its own. -/
theorem book {op : OperationId} (h : Credits floor away s [] t [])
    (hnew : s.operations.size ≤ op) (hlt : op < t.operations.size)
    (hserves : ∀ g ∈ t.chain, g.operation? = some op → g.Serves op) (r : DataRequest) :
    Credits floor away s [] (t.write [.called op r]) [.called op r] :=
  { h with
    pages := by rw [pages_write, h.pages, List.append_nil]
    took := fun depth since f g hg => by cases List.mem_singleton.1 hg
    called := fun i r' hi => by
      cases List.mem_singleton.1 hi
      refine ⟨hnew, hlt, nofun, fun g hg hop => ?_⟩
      rcases hg with hg | ⟨depth, since, f, hg⟩
      · exact hserves g hg hop
      · cases List.mem_singleton.1 hg
    spares := fun g hg i hi => (h.spares g hg i hi).imp_right fun ⟨_, hlate, _⟩ => by cases hlate
    turns := fun _ => h.turns nofun
    timely := timely_singleton nofun
    earned := fun i b hb => (h.earned i b hb).imp_right fun ⟨_, _, _, _, hg, _⟩ => by cases hg
    paid := fun depth since f g i hg => by cases List.mem_singleton.1 hg }

/-- At the end of a dispatch the waits are installed. -/
theorem leave {L : Licence (θ × List DataSign)} {chain : List Handler} {owed tracked : List Tracked}
    (h : Credits floor away s ws (t.restore chain) log)
    (hsound : Sound L (chain ++ (ws.map Wait.handler ++ away)) (tracked ++ owed) t) :
    Credits floor away s [] (t.leave chain ws tracked) log := by
  let u := t.leave chain ws tracked
  obtain ⟨hexpecting, hcarried⟩ := hsound.leave_expects
  have hnobody : ws.filterMap (·.handler.confirmee?) = [] :=
    List.filterMap_eq_nil_iff.2 fun w hw => (h.waits w hw).1
  rw [hnobody, List.append_nil, ← expecting_restore] at hexpecting
  have hops : u.operations = (t.restore chain).operations := by
    simp only [u]
    rw [leave_eq]
    rfl
  have hout (op : OperationId) : u.outcome? op = (t.restore chain).outcome? op :=
    outcome?_of_eq (by rw [hops])
  have hhost : u.host = t.host := by
    simp only [u]
    rw [leave_eq]
  have hwait {g : Handler} {w : Wait} (hw : w ∈ ws) (hg : g.operation? = some w.operation) :
      s.Vouches g := .of_fresh fun op hop => by
    rw [hg] at hop
    exact Option.some.inj hop ▸ (h.waits w hw).2.1
  exact {
    pages := (congrArg Prod.snd hhost).trans h.pages
    size := hops ▸ h.size
    outlives := fun op outcome ho => (hout op).trans (h.outlives op outcome ho)
    waits := fun _ hw => by cases hw
    vouches := fun g hg => by
      rcases mem_leave hg with hg | ⟨w, hw, -, hop⟩
      · exact h.vouches g hg
      · exact hwait hw hop
    took := fun depth since f g hg => hops ▸ h.took depth since f g hg
    called := fun op r hop => by
      obtain ⟨hnew, hlt, hwaits, hserves⟩ := h.called op r hop
      refine ⟨hnew, hops ▸ hlt, (fun _ hw => by cases hw), fun g hg hgop => ?_⟩
      rcases hg with hg | hg
      · rcases mem_leave hg with hg | ⟨w, hw, -, hop⟩
        · exact hserves g (Or.inl hg) hgop
        · exact absurd (Option.some.inj (hop.symm.trans hgop)) (hwaits w hw)
      · exact hserves g (Or.inr hg) hgop
    order := hexpecting ▸ h.order
    spares := fun g hg op hop => (h.spares g hg op hop).imp_left (hcarried g hg).trans
    turns := hexpecting ▸ h.turns
    bides := fun op hop => by
      rw [hexpecting, hout]
      exact h.bides op hop
    timely := h.timely
    earned := fun op b hb => h.earned op b ((hout op).symm.trans hb)
    paid := fun depth since f g op hg hop =>
      (h.paid depth since f g op hg hop).imp_right (hout op).trans }

/-! ### A handler takes a frame -/

section Take

variable {depth since : Nat} {f : Frame} {g : Handler} {op : OperationId}

/-- Nobody is confirmed with a frame that a handler took, but the handler's own operation. -/
theorem eq_of_mem_confirmed (hop : g.operation? = some op) {i : OperationId}
    (hi : i ∈ confirmed [.took depth since f g]) : g.confirmee? = some op ∧ i = op := by
  obtain ⟨⟨j, f'⟩, hcredit, rfl⟩ := List.mem_map.1 hi
  obtain ⟨x, hx, hcredit⟩ := List.mem_filterMap.1 hcredit
  cases List.mem_singleton.1 hx
  obtain ⟨j, hj, heq⟩ := Option.map_eq_some_iff.1 hcredit
  cases heq
  obtain rfl := Option.some.inj ((Handler.confirmee?_eq_some_iff.1 hj).2.symm.trans hop)
  exact ⟨hj, rfl⟩

variable (h : Credits floor away s ws t log) (hmem : g ∈ t.chain)
  (hchain : ∀ k ∈ u.chain, k ∈ t.chain ∨ g.LeadsTo k ∨ ∃ w ∈ ws, k.operation? = some w.operation)
include h hmem hchain

/-- Whoever is in the chain when a handler took a frame has its operation from the chain before,
or it is a new one. -/
theorem vouches_take {k : Handler} (hk : k ∈ u.chain) : s.Vouches k := by
  rcases hchain k hk with hk | hgk | ⟨w, hw, hwop⟩
  · exact h.vouches k hk
  · intro i hi hold
    obtain ⟨x, hx, hxg⟩ := h.vouches g hmem i (hgk.operation?_eq ▸ hi) hold
    exact ⟨x, hx, hxg.trans hgk⟩
  · refine .of_fresh fun i hi => ?_
    rw [hwop] at hi
    exact Option.some.inj hi ▸ (h.waits w hw).2.1

/-- Whoever has the operation of a request then serves the request. -/
theorem serves_take {i : OperationId} {r : DataRequest} (hi : .called i r ∈ log) {k : Handler}
    (hk : k ∈ u.chain ∨
      ∃ depth' since' f', .took depth' since' f' k ∈ log ++ [.took depth since f g])
    (hkop : k.operation? = some i) : k.Serves i := by
  obtain ⟨-, -, hwaits, hserves⟩ := h.called i r hi
  rcases hk with hk | ⟨depth', since', f', hk⟩
  · rcases hchain k hk with hk | hgk | ⟨w, hw, hwop⟩
    · exact hserves k (Or.inl hk) hkop
    · have hgop : g.operation? = some i := hgk.operation?_eq ▸ hkop
      exact hgk.serves (hserves g (Or.inl hmem) hgop) hgop
    · exact absurd (Option.some.inj (hwop.symm.trans hkop)) (hwaits w hw)
  · rcases List.mem_append.1 hk with hk | hk
    · exact hserves k (Or.inr ⟨depth', since', f', hk⟩) hkop
    · cases List.mem_singleton.1 hk
      exact hserves g (Or.inl hmem) hkop

omit hmem hchain

/-- Whoever waits then goes on waiting, unless the frame is his confirmation. -/
theorem bides_take (hop : g.operation? = some op) (houtlives : t.Outlives u)
    (hexpecting : t.expecting ++ accepted [.took depth since f g] =
      confirmed [.took depth since f g] ++ u.expecting)
    (hdecided : g.confirmee? = some op → (u.outcome? op).isSome = true) {i : OperationId}
    (hi : i ∈ s.expecting ++ accepted (log ++ [.took depth since f g])) :
    i ∈ u.expecting ∨ (u.outcome? i).isSome = true := by
  rw [accepted_append, ← List.append_assoc] at hi
  have hmeanwhile : i ∈ t.expecting ++ accepted [.took depth since f g] ∨
      (t.outcome? i).isSome = true := by
    rcases List.mem_append.1 hi with hi | hi
    · exact (h.bides i hi).imp_left (List.mem_append_left _)
    · exact Or.inl (List.mem_append_right _ hi)
  rcases hmeanwhile with hi | hsome
  · rw [hexpecting] at hi
    refine (List.mem_append.1 hi).symm.imp_right fun hi => ?_
    obtain ⟨hconfirmee, rfl⟩ := eq_of_mem_confirmed hop hi
    exact hdecided hconfirmee
  · exact Or.inr (houtlives.isSome hsome)

/-- A handler takes a frame that has an operation. Whoever is first to wait may be confirmed with
it, or one more comes to wait. -/
theorem take (hdepth : floor ≤ depth) (hmem : g ∈ t.chain) (hop : g.operation? = some op)
    (hlt : op < t.operations.size) (hpages : u.pages = t.pages)
    (hsize : t.operations.size ≤ u.operations.size) (houtlives : t.Outlives u)
    (hchain : ∀ k ∈ u.chain, k ∈ t.chain ∨ g.LeadsTo k ∨
      ∃ w ∈ ws, k.operation? = some w.operation)
    (hcarried : ∀ k ∈ away, k.carried? u.timers = k.carried? t.timers)
    (hexpecting : t.expecting ++ accepted [.took depth since f g] =
      confirmed [.took depth since f g] ++ u.expecting)
    (hearned : ∀ i b, u.outcome? i = some (.ok (.payload b)) →
      t.outcome? i = some (.ok (.payload b)) ∨ g.settles? = some i)
    (hwaited : g.confirmee? = some op → since = s.pages.length ∧ op ∈ s.expecting)
    (hpaid : g.confirmee? = some op →
      f.ConfirmsData ∧ u.outcome? op = some (.ok (.payload f.payload))) :
    Credits floor away s [] (u.write [.took depth since f g]) (log ++ [.took depth since f g]) := by
  have hconfirmee {i : OperationId} (hi : g.confirmee? = some i) : i = op :=
    Option.some.inj ((Handler.confirmee?_eq_some_iff.1 hi).2.symm.trans hop)
  exact {
    pages := by rw [pages_write, hpages, h.pages, List.append_assoc]
    size := Nat.le_trans h.size hsize
    outlives := narrow_outlives.trans h.outlives houtlives
    waits := nofun
    vouches := fun k hk => h.vouches_take hmem hchain hk
    took := fun depth' since' f' k hk => by
      rcases List.mem_append.1 hk with hk | hk
      · obtain ⟨hfloor, hvouches, hold⟩ := h.took depth' since' f' k hk
        exact ⟨hfloor, hvouches, fun i hi => Nat.lt_of_lt_of_le (hold i hi) hsize⟩
      · cases List.mem_singleton.1 hk
        refine ⟨hdepth, h.vouches g hmem, fun i hi => ?_⟩
        rw [hop] at hi
        exact Option.some.inj hi ▸ Nat.lt_of_lt_of_le hlt hsize
    called := fun i r hi => by
      have hi : .called i r ∈ log := by simpa using hi
      obtain ⟨hnew, hold, -, -⟩ := h.called i r hi
      exact ⟨hnew, Nat.lt_of_lt_of_le hold hsize, nofun, fun k => h.serves_take hmem hchain hi⟩
    order := by
      have hlater : u.expecting.Sublist (t.expecting ++ accepted [.took depth since f g]) := by
        rw [hexpecting]
        exact List.sublist_append_right ..
      rw [accepted_append, ← List.append_assoc]
      exact hlater.trans (h.order.append (List.Sublist.refl _))
    spares := fun k hk i hi => by
      rcases h.spares k hk i hi with hi | ⟨late, hlate, hmem⟩
      · exact Or.inl ((hcarried k hk).trans hi)
      · exact Or.inr ⟨late, List.mem_append_left _ hlate, hmem⟩
    turns := fun hturn => by
      rw [accepted_append, ← List.append_assoc] at hturn ⊢
      have hfirst := h.turns fun sign hsign =>
        (hturn sign (List.mem_append_left _ hsign)).mono (List.subset_append_left ..)
      rw [hfirst, List.append_assoc, hexpecting, confirmed_append, List.append_assoc]
      rfl
    bides := fun i hi => h.bides_take hop houtlives hexpecting
      (fun hi => Option.isSome_of_eq_some (hpaid hi).2) hi
    timely := timely_concat_iff.2 ⟨h.timely, fun depth' since' f' k i hsign hi => by
      cases hsign
      obtain rfl := hconfirmee hi
      obtain ⟨rfl, hwaits⟩ := hwaited hi
      exact ⟨Nat.le_refl _, Nat.le_add_right .., List.mem_append_left _ hwaits⟩⟩
    earned := fun i b hb => by
      rcases hearned i b hb with hb | hi
      · refine (h.earned i b hb).imp_right ?_
        exact fun ⟨depth', since', f', k, hk, hi⟩ =>
          ⟨depth', since', f', k, List.mem_append_left _ hk, hi⟩
      · exact Or.inr ⟨depth, since, f, g, by simp, hi⟩
    paid := fun depth' since' f' k i hk hi => by
      rcases List.mem_append.1 hk with hk | hk
      · exact (h.paid depth' since' f' k i hk hi).imp_right (houtlives i _)
      · cases List.mem_singleton.1 hk
        exact hconfirmee hi ▸ hpaid (hconfirmee hi ▸ hi) }

end Take

/-! ### A teardown -/

/-- A session whose handlers, tracked operations and frames are out to be torn down. -/
abbrev cleared (s : Session (θ × List DataSign)) : Session (θ × List DataSign) :=
  { s with chain := [], tracked := [], outbound := [] }

section Torn

variable {xs : List DataSign} {kept : List Handler}

/-- The log of a teardown has the signs `xs` from before it and the signs `log'` from amid it. -/
theorem mem_torn_iff {sign : DataSign} : sign ∈ log ++ log' ++ (xs ++ [.torn]) ↔
    sign ∈ log ++ xs ∨ sign ∈ log' ∨ sign = .torn := by
  simp only [List.mem_append, List.mem_singleton]
  tauto

/-- What those have who come while the chain is out is new. -/
theorem le_of_vouches_cleared {g : Handler} {op : OperationId} (hv : (cleared t).Vouches g)
    (hop : g.operation? = some op) : t.operations.size ≤ op := hv.fresh rfl hop

variable (h : Credits floor away s [] (t.write xs) (log ++ xs))
  (hdrained : Credits floor away (cleared t) [] u log')
  (hkept : ∀ g ∈ kept, g ∈ t.chain ∧ g.operation? = none)
include h hdrained hkept

/-- Whoever has the operation of a request from before a teardown, and is there when it is over or
took a frame, serves the request. -/
theorem serves_torn {op : OperationId} {r : DataRequest} (hcalled : .called op r ∈ log ++ xs)
    {g : Handler} (hg : g ∈ kept ++ u.chain ∨
      ∃ depth since f, .took depth since f g ∈ log ++ log' ++ (xs ++ [.torn]))
    (hop : g.operation? = some op) : g.Serves op := by
  obtain ⟨-, hlt, -, hserves⟩ := h.called op r hcalled
  have hstranger {k : Handler} (hv : (cleared t).Vouches k) (hk : k.operation? = some op) : False :=
    Nat.not_lt_of_le (le_of_vouches_cleared hv hk) hlt
  rcases hg with hg | ⟨depth, since, f, hg⟩
  · rcases List.mem_append.1 hg with hg | hg
    · exact hserves g (Or.inl (hkept g hg).1) hop
    · exact (hstranger (hdrained.vouches g hg) hop).elim
  · rcases mem_torn_iff.1 hg with hg | hg | hg
    · exact hserves g (Or.inr ⟨depth, since, f, hg⟩) hop
    · exact (hstranger (hdrained.took depth since f g hg).2.1 hop).elim
    · cases hg

/-- And so does whoever has the operation of a request that was made amid the teardown. -/
theorem serves_torn_amid {op : OperationId} {r : DataRequest} (hcalled : .called op r ∈ log')
    {g : Handler} (hg : g ∈ kept ++ u.chain ∨
      ∃ depth since f, .took depth since f g ∈ log ++ log' ++ (xs ++ [.torn]))
    (hop : g.operation? = some op) : g.Serves op := by
  obtain ⟨hissued, -, -, hserves⟩ := hdrained.called op r hcalled
  rcases hg with hg | ⟨depth, since, f, hg⟩
  · rcases List.mem_append.1 hg with hg | hg
    · rw [(hkept g hg).2] at hop
      cases hop
    · exact hserves g (Or.inl hg) hop
  · rcases mem_torn_iff.1 hg with hg | hg | hg
    · exact absurd ((h.took depth since f g hg).2.2 op hop) (Nat.not_lt_of_le hissued)
    · exact hserves g (Or.inr ⟨depth, since, f, hg⟩) hop
    · cases hg

omit hkept

/-- Whoever waited before a teardown is decided. Whoever came to wait amid it may go on waiting. -/
theorem bides_torn (hdecided : ∀ op ∈ t.expecting, (u.outcome? op).isSome = true)
    {op : OperationId} (hop : op ∈ s.expecting ++ accepted (log ++ log' ++ (xs ++ [.torn]))) :
    op ∈ u.expecting ∨ (u.outcome? op).isSome = true := by
  have hend : op ∈ s.expecting ++ accepted (log ++ xs) ∨ op ∈ accepted log' := by
    have hnobody : op ∉ accepted [.torn] := nofun
    simp only [accepted_append, List.mem_append] at hop ⊢
    tauto
  rcases hend with hop | hop
  · refine Or.inr ?_
    rcases h.bides op hop with hop | hsome
    · exact hdecided op hop
    · exact hdrained.outlives.isSome hsome
  · exact hdrained.bides op (List.mem_append_right _ hop)

omit hdrained

/-- What was written before the signs was written in the part of the run. -/
theorem pages_of_write : t.pages = s.pages ++ log := by
  have hwritten := h.pages
  rw [pages_write, ← List.append_assoc] at hwritten
  exact List.append_cancel_right hwritten

include hdrained hkept

/-- A teardown that is written down behind the signs `xs`. The handlers `kept` are put back. -/
theorem torn (hxs : xs.length ≤ 1)
    (hdecided : ∀ op ∈ t.expecting, (u.outcome? op).isSome = true) :
    Credits floor away s [] ((u.restore kept).write (xs ++ [.torn]))
      (log ++ log' ++ (xs ++ [.torn])) := by
  have hpages : t.pages = s.pages ++ log := h.pages_of_write
  have hexpecting : (u.restore kept).expecting = u.expecting := by
    rw [expecting_restore, expected_eq_nil fun g hg => ?_, List.nil_append]
    rw [Handler.confirmee?, (hkept g hg).2, ite_self]
  have hfresh {g : Handler} (hv : (cleared t).Vouches g) : s.Vouches g := .of_fresh fun op hop =>
    Nat.le_trans h.size (le_of_vouches_cleared hv hop)
  exact {
    pages := by
      show u.pages ++ _ = _
      rw [hdrained.pages]
      show t.pages ++ _ ++ _ = _
      rw [hpages]
      simp only [List.append_assoc]
    size := Nat.le_trans h.size hdrained.size
    outlives := narrow_outlives.trans h.outlives hdrained.outlives
    waits := nofun
    vouches := fun g hg => (List.mem_append.1 hg).elim (fun hg => h.vouches g (hkept g hg).1)
      fun hg => hfresh (hdrained.vouches g hg)
    took := fun depth since f g hg => by
      rcases mem_torn_iff.1 hg with hg | hg | hg
      · obtain ⟨hdepth, hvouches, hlt⟩ := h.took depth since f g hg
        exact ⟨hdepth, hvouches, fun op hop => Nat.lt_of_lt_of_le (hlt op hop) hdrained.size⟩
      · exact (hdrained.took depth since f g hg).imp_right fun hg => ⟨hfresh hg.1, hg.2⟩
      · cases hg
    called := fun op r hop => by
      rcases mem_torn_iff.1 hop with hop | hop | hop
      · obtain ⟨hissued, hlt, -, -⟩ := h.called op r hop
        exact ⟨hissued, Nat.lt_of_lt_of_le hlt hdrained.size, nofun,
          fun g => h.serves_torn hdrained hkept hop⟩
      · obtain ⟨hissued, hlt, -, -⟩ := hdrained.called op r hop
        exact ⟨Nat.le_trans h.size hissued, hlt, nofun,
          fun g => h.serves_torn_amid hdrained hkept hop⟩
      · cases hop
    order := by
      show (u.restore kept).expecting.Sublist _
      have hlater : u.expecting.Sublist (accepted log') := hdrained.order
      rw [hexpecting, accepted_append, accepted_append]
      exact hlater.trans ((List.sublist_append_right ..).trans
        ((List.sublist_append_left ..).trans (List.sublist_append_right ..)))
    spares := fun g hg op hop => by
      rcases h.spares g hg op hop with hop | ⟨late, hlate, hmem⟩
      · refine (hdrained.spares g hg op hop).imp_right ?_
        exact fun ⟨late, hlate, hmem⟩ => ⟨late, mem_torn_iff.2 (Or.inr (Or.inl hlate)), hmem⟩
      · exact Or.inr ⟨late, mem_torn_iff.2 (Or.inl hlate), hmem⟩
    turns := fun hturn => (hturn .torn (by simp)).elim
    bides := fun op hop => by
      show op ∈ (u.restore kept).expecting ∨ (u.outcome? op).isSome = true
      rw [hexpecting]
      exact h.bides_torn hdrained hdecided hop
    timely := by
      have hmeanwhile : Timely t.pages.length [] log' := hdrained.timely
      rw [hpages, List.length_append] at hmeanwhile
      exact h.timely.insert hxs hmeanwhile (List.nil_subset _)
    earned := fun op b hb => by
      rcases hdrained.earned op b hb with hb | ⟨depth, since, f, g, hg, hop⟩
      · refine (h.earned op b hb).imp_right ?_
        exact fun ⟨depth, since, f, g, hg, hop⟩ =>
          ⟨depth, since, f, g, mem_torn_iff.2 (Or.inl hg), hop⟩
      · exact Or.inr ⟨depth, since, f, g, mem_torn_iff.2 (Or.inr (Or.inl hg)), hop⟩
    paid := fun depth since f g op hg hop => by
      rcases mem_torn_iff.1 hg with hg | hg | hg
      · exact (h.paid depth since f g op hg hop).imp_right (hdrained.outlives op _)
      · exact hdrained.paid depth since f g op hg hop
      · cases hg }

end Torn

end Credits

end Credits

end Session

end ZigbeeHost
