import ZigbeeHost.Proofs.Session.Stable
/-!
# Requests in order

An application that keeps a `Diary` notes there which requests it asked and which frames
were taken from the queue to be sent, at any depth of callbacks. `Licence.paired` is the
licence of such an application that, besides, never tears the session down, leaves answers
to the session and does not make up requests.

A run under this licence asks some requests, one after the other, and each of them goes to
the end of three lists at once : the diary's, that of the handlers that await an answer,
and that of the request frames that were taken or are queued (`Session.Asks`). While a
frame is dispatched the chain is out of the session and new handlers form a second one,
but this goes behind the first when the dispatch is done, so the order is the same.
-/

namespace ZigbeeHost

variable {η θ : Type}

/-! ## The diary -/

/-- A request that was asked. -/
structure Asked where
  frame : Frame
  /-- The commands that may answer. -/
  commands : List Command
  aftermath : Aftermath
  deriving DecidableEq

/-- The handler that awaits the answer. -/
def Asked.handler (q : Asked) : Handler := .response q.commands q.aftermath

/-- The requests that were asked, and the frames that were taken to be sent. -/
structure Diary where
  asked : List Asked := []
  taken : List Frame := []

/-- The request of an exchange, unless it is refused. -/
def Exchange.asked (x : Exchange) (aftermath : Aftermath) : List Asked :=
  match x.refusal? with
  | some _ => []
  | none => [⟨x.frame, x.responses, aftermath⟩]

namespace Deed

/-- The requests that the deed asks. -/
def asked (s : Session η) : Deed η → List Asked
  | call (.request r) =>
    match r.exchange s.config with
    | .ok x => x.asked (x.aftermath s.issue.1)
    | .error _ => []
  | call (.reachState ends allowed) =>
    let question := ConfigurationRequest.infoItem .deviceState
    [⟨question.exchange.frame, [question.command], .follow ends allowed s.issue.1⟩]
  | ask x callback => x.asked (.application callback)
  | _ => []

/-- The frames that the deed takes. -/
def taken (s : Session η) : Deed η → List Frame
  | next => s.outbound.take 1
  | takeAll => s.outbound
  | _ => []

end Deed

/-- No teardown, no handlers that take answers, and no request frames but those of requests.
The application keeps a diary. -/
def Licence.paired (θ : Type) : Licence (θ × Diary) where
  deed
    | .shutdown _ => False
    | .deliver f => f.kind ≠ .srsp
    | .send f => f.kind ≠ .sreq
    | .think change => ∀ host, (change host).2 = host.2
    | _ => True
  pattern p := p.kind ≠ .srsp
  verdict f v := f.kind = .srsp → v.stop = false
  note d s host := (host.1, ⟨host.2.asked ++ d.asked s, host.2.taken ++ d.taken s⟩)

/-! ## Requests asked by a run -/

/-- The handler awaits the answer to a request. -/
def Handler.isResponse : Handler → Bool
  | response .. => true
  | _ => false

theorem Handler.eq_of_isResponse {h : Handler} (hr : h.isResponse = true) :
    ∃ commands a, h = .response commands a := by
  cases h with
  | response commands a => exact ⟨commands, a, rfl⟩
  | indication | wait | timed | custom => cases hr

namespace Session

/-- The handlers that await an answer, in order. -/
def awaiting (s : Session η) : List Handler := s.chain.filter Handler.isResponse

/-- The application's diary. -/
def diary (s : Session (θ × Diary)) : Diary := s.host.2

/-- The request frames that were taken or are queued, in order. -/
def requests (s : Session (θ × Diary)) : List Frame :=
  (s.diary.taken ++ s.outbound).filter fun f => f.kind = .sreq

/-- The requests `new` were asked from `s` to `t`. -/
structure Asks (new : List Asked) (s t : Session (θ × Diary)) : Prop where
  asked : t.diary.asked = s.diary.asked ++ new
  taken : s.diary.taken <+: t.diary.taken
  awaiting : t.awaiting = s.awaiting ++ new.map Asked.handler
  requests : t.requests = s.requests ++ new.map Asked.frame
  deferred : t.deferred = s.deferred

/-- Some requests were asked from `s` to `t`, if no teardown was deferred. -/
def Proceeds (s t : Session (θ × Diary)) : Prop := s.deferred = none → ∃ new, Asks new s t

variable {s t u : Session (θ × Diary)}

theorem Asks.trans {new new' : List Asked} (h : Asks new s t) (h' : Asks new' t u) :
    Asks (new ++ new') s u where
  asked := by rw [h'.asked, h.asked, List.append_assoc]
  taken := h.taken.trans h'.taken
  awaiting := by rw [h'.awaiting, h.awaiting, List.map_append, List.append_assoc]
  requests := by rw [h'.requests, h.requests, List.map_append, List.append_assoc]
  deferred := h'.deferred.trans h.deferred

theorem Asks.of_eq (hawaiting : t.awaiting = s.awaiting) (hhost : t.host = s.host)
    (houtbound : t.outbound = s.outbound) (hdeferred : t.deferred = s.deferred) :
    Asks [] s t where
  asked := by simp [diary, hhost]
  taken := by simp [diary, hhost]
  awaiting := by simp [hawaiting]
  requests := by simp [Session.requests, diary, hhost, houtbound]
  deferred := hdeferred

theorem Proceeds.of_eq (hawaiting : t.awaiting = s.awaiting) (hhost : t.host = s.host)
    (houtbound : t.outbound = s.outbound) (hdeferred : t.deferred = s.deferred) :
    Proceeds s t := fun _ => ⟨[], .of_eq hawaiting hhost houtbound hdeferred⟩

theorem Proceeds.trans (h : Proceeds s t) (h' : Proceeds t u) : Proceeds s u := by
  intro hdeferred
  obtain ⟨new, hst⟩ := h hdeferred
  obtain ⟨new', htu⟩ := h' (hst.deferred.trans hdeferred)
  exact ⟨new ++ new', hst.trans htu⟩

theorem stable_proceeds : Stable (Proceeds (θ := θ)) where
  refl _ := .of_eq rfl rfl rfl rfl
  trans := Proceeds.trans
  complete _ _ _ := .of_eq (congrArg (List.filter _) (complete_chain ..)) (complete_host ..)
    (complete_outbound ..) (complete_deferred ..)
  subscribe _ _ _ := .of_eq rfl rfl rfl rfl
  disconnect _ _ := .of_eq rfl rfl rfl rfl
  retain _ _ := .of_eq rfl rfl rfl rfl
  disarm _ _ := .of_eq rfl rfl rfl rfl
  running _ _ := .of_eq rfl rfl rfl rfl

/-! ## Dispatch -/

theorem asks_install (s : Session (θ × Diary)) (w : Wait) : Asks [] s (s.install w) := by
  refine .of_eq ?_ (install_host ..) (install_outbound ..) (install_deferred ..)
  unfold Session.awaiting install
  split
  · simp [addHandler, Handler.isResponse]
  · simp [addHandler, Handler.isResponse]

/-- When a dispatch is done, the handlers that were added meanwhile go behind the others. -/
theorem asks_leave (chain : List Handler) (waits : List Wait) (tracked : List Tracked)
    (s : Session (θ × Diary)) :
    Asks [] { s.restore chain with depth := s.depth - 1 } (s.leave chain waits tracked) := by
  unfold leave
  refine List.foldlRecOn _ _ (motive := Asks [] _) ?_ ?_
  · refine List.foldlRecOn _ _ (motive := Asks [] _) (.of_eq rfl rfl rfl rfl) ?_
    exact fun t ht w _ => ht.trans (asks_install t w)
  · exact fun t ht x _ => ht.trans (.of_eq rfl rfl rfl rfl)

/-- What is left in the chain of a handler that awaits no answer. -/
theorem filter_left {g : Handler} (hg : g.isResponse = false) (v : Verdict) :
    (Chain.left g v).filter Handler.isResponse = [] := by
  unfold Chain.left
  split <;> simp [hg]

/-- A frame that is no answer leaves those in the chain that await one. -/
theorem walk_awaiting (app : Application η) {f : Frame} (hf : f.kind ≠ .srsp)
    (chain : List Handler) (s : Session η) :
    (s.walk app f chain).1.filter Handler.isResponse = chain.filter Handler.isResponse := by
  rw [walk_eq]
  refine Chain.dispatch_induct (turn app f)
    (fun left _ => left.filter Handler.isResponse = chain.filter Handler.isResponse)
    (fun before g behind st hst => ?_) chain [] (s, [], []) rfl
  rw [← hst]
  cases hg : g.isResponse with
  | true =>
    obtain ⟨commands, a, rfl⟩ := Handler.eq_of_isResponse hg
    have hnone : answer? commands f = none := if_pos hf
    have hpass : (turn app f (.response commands a) st).2 = .pass := by
      simp [turn, Handler.offer, hnone, Verdict.pass]
    rw [hpass]
    rfl
  | false =>
    rw [List.filter_append, List.filter_append, filter_left hg, List.filter_append,
      List.filter_cons_of_neg (by simp [hg]), List.nil_append]

variable {app : Application (θ × Diary)} (happ : app.Keeps (.paired θ) fun s _ t => Proceeds s t)
include happ

/-- A dispatch asks requests behind what its walk leaves of the chain. -/
theorem asks_deliver (f : Frame) {s : Session (θ × Diary)} (hdeferred : s.deferred = none) :
    ∃ new, Asks new { s with chain := (walk app f s.chain s.enter).1 } (s.deliver app f) := by
  obtain ⟨new, hwalk⟩ := stable_proceeds.walk happ f s.chain s.enter hdeferred
  unfold deliver
  generalize walk app f s.chain s.enter = w at hwalk
  obtain ⟨chain, ⟨walked, waits, tracked⟩, stopped⟩ := w
  have hback : Asks new { s with chain }
      { walked.restore chain with depth := walked.depth - 1 } := by
    refine ⟨hwalk.asked, hwalk.taken, ?_, hwalk.requests, hwalk.deferred⟩
    have hnew : walked.awaiting = [] ++ new.map Asked.handler := hwalk.awaiting
    unfold Session.awaiting at hnew ⊢
    rw [restore, List.filter_append, hnew, List.nil_append]
  have hdone := hback.trans (asks_leave chain waits tracked walked)
  rw [List.append_nil] at hdone
  refine ⟨new, ?_⟩
  show Asks new { s with chain } ((walked.leave chain waits tracked).settleDeferred app)
  rwa [settleDeferred_of_none (hdone.deferred.trans hdeferred)]

theorem proceeds_deliver {f : Frame} (hf : f.kind ≠ .srsp) (s : Session (θ × Diary)) :
    Proceeds s (s.deliver app f) := by
  intro hdeferred
  obtain ⟨new, hnew⟩ := asks_deliver happ f hdeferred
  refine ⟨new, hnew.asked, hnew.taken, ?_, hnew.requests, hnew.deferred⟩
  have hleft := walk_awaiting app hf s.chain s.enter
  rw [hnew.awaiting]
  exact congrArg (· ++ new.map Asked.handler) hleft

omit happ

/-! ## Deeds -/

/-- The requests `new` go to the end of the chain and of the queue. -/
structure Queues (new : List Asked) (s t : Session η) : Prop where
  kind : ∀ q ∈ new, q.frame.kind = .sreq
  chain : t.chain = s.chain ++ new.map Asked.handler
  outbound : t.outbound = s.outbound ++ new.map Asked.frame
  host : t.host = s.host
  deferred : t.deferred = s.deferred

theorem Queues.refl (s : Session η) : Queues [] s s :=
  ⟨by simp, by simp, by simp, rfl, rfl⟩

theorem queues_exchange (x : Exchange) (s : Session η) :
    Queues (x.asked (x.aftermath s.issue.1)) s (s.exchange x).2 := by
  cases hr : x.refusal? with
  | some e =>
    simp only [exchange, Exchange.asked, hr]
    exact .refl s
  | none =>
    simp only [exchange, Exchange.asked, hr]
    exact ⟨by simp [Exchange.frame], rfl, rfl, rfl, rfl⟩

theorem queues_ask (x : Exchange) (callback : CallbackId) (s : Session η) :
    Queues (x.asked (.application callback)) s (s.ask x callback).2 := by
  cases hr : x.refusal? with
  | some e =>
    simp only [ask, Exchange.asked, hr]
    exact .refl s
  | none =>
    simp only [ask, Exchange.asked, hr]
    exact ⟨by simp [Exchange.frame], rfl, rfl, rfl, rfl⟩

theorem queues_request (r : Request) (s : Session η) :
    Queues ((Deed.call (.request r)).asked s) s (s.request r).2 := by
  simp only [Deed.asked, request]
  cases r.exchange s.config with
  | error e => exact .refl s
  | ok x => exact queues_exchange x s

theorem queues_reachState (ends allowed : List DeviceState) (s : Session η) :
    Queues ((Deed.call (.reachState ends allowed)).asked s) s (s.reachState ends allowed).2 :=
  ⟨by simp [Deed.asked, Exchange.frame], rfl, rfl, rfl, rfl⟩

/-- Requests that go to the chain and to the queue are noted in the diary. -/
theorem asks_of_queues {d : Deed (θ × Diary)} {s : Session (θ × Diary)}
    {app : Application (θ × Diary)} (h : Queues (d.asked s) s (d.perform app s))
    (htaken : d.taken s = []) :
    Asks (d.asked s) s ((Licence.paired θ).perform app d s) where
  asked := by simp [Licence.perform, Licence.paired, diary, h.host]
  taken := by simp [Licence.perform, Licence.paired, diary, h.host]
  awaiting := by
    have hall : ((d.asked s).map Asked.handler).filter Handler.isResponse =
        (d.asked s).map Asked.handler := by
      refine List.filter_eq_self.2 fun g hg => ?_
      obtain ⟨q, -, rfl⟩ := List.mem_map.1 hg
      rfl
    simp only [Licence.perform, Session.awaiting, h.chain, List.filter_append, hall]
  requests := by
    have hall : ((d.asked s).map Asked.frame).filter (fun f => f.kind = .sreq) =
        (d.asked s).map Asked.frame := by
      refine List.filter_eq_self.2 fun f hf => ?_
      obtain ⟨q, hq, rfl⟩ := List.mem_map.1 hf
      simpa using h.kind q hq
    simp only [Licence.perform, Licence.paired, Session.requests, diary, h.host, h.outbound,
      htaken, List.append_nil, ← List.append_assoc, List.filter_append, hall]
  deferred := h.deferred

theorem asks_send {f : Frame} (hf : f.kind ≠ .sreq) (s : Session (θ × Diary)) :
    Asks [] s (s.send f) where
  asked := (List.append_nil _).symm
  taken := List.prefix_rfl
  awaiting := (List.append_nil _).symm
  requests := by simp [Session.requests, send, diary, hf]
  deferred := rfl

/-- A deed that asks nothing and takes no frame leaves the diary as its callbacks left it. -/
theorem paired_perform {d : Deed (θ × Diary)} {s : Session (θ × Diary)}
    (hasked : d.asked s = []) (htaken : d.taken s = []) (app : Application (θ × Diary)) :
    (Licence.paired θ).perform app d s = d.perform app s := by
  simp [Licence.perform, Licence.paired, hasked, htaken]

/-- A deed that takes frames takes them from the front of the queue. -/
theorem asks_taken {d : Deed (θ × Diary)} {s : Session (θ × Diary)}
    {app : Application (θ × Diary)} (hasked : d.asked s = [])
    (hchain : (d.perform app s).chain = s.chain) (hhost : (d.perform app s).host = s.host)
    (houtbound : s.outbound = d.taken s ++ (d.perform app s).outbound)
    (hdeferred : (d.perform app s).deferred = s.deferred) :
    Asks [] s ((Licence.paired θ).perform app d s) where
  asked := by
    simp [Licence.perform, Licence.paired, hasked, diary, hhost]
  taken := by
    simp [Licence.perform, Licence.paired, diary, hhost]
  awaiting := by
    simp [Licence.perform, Session.awaiting, hchain]
  requests := by
    rw [Session.requests, Session.requests, houtbound]
    simp [Licence.perform, Licence.paired, diary, hhost]
  deferred := hdeferred

include happ in
/-- Each deed asks some requests, in order. -/
theorem proceeds_perform {d : Deed (θ × Diary)} (hd : (Licence.paired θ).Permits d)
    (s : Session (θ × Diary)) : Proceeds s ((Licence.paired θ).perform app d s) := by
  cases d with
  | call c =>
    cases c with
    | request r => exact fun _ => ⟨_, asks_of_queues (queues_request r s) rfl⟩
    | reset soft =>
      rw [paired_perform rfl rfl]
      let watched := (s.issue.2.subscribe .reset (.watcher .nextReset s.issue.1)).2
      have htracked : Asks [] s (watched.track ⟨s.freshConnection, s.issue.1⟩) :=
        .of_eq rfl rfl rfl rfl
      exact fun _ => ⟨[], htracked.trans (asks_send (by simp) _)⟩
    | reachState ends allowed =>
      exact fun _ => ⟨_, asks_of_queues (queues_reachState ends allowed s) rfl⟩
    | waitFor p window =>
      rw [paired_perform rfl rfl]
      have hissue : Asks [] s s.issue.2 := .of_eq rfl rfl rfl rfl
      exact fun _ => ⟨[], hissue.trans (asks_install s.issue.2 _)⟩
  | ask x callback => exact fun _ => ⟨_, asks_of_queues (queues_ask x callback s) rfl⟩
  | deliver f =>
    rw [paired_perform rfl rfl]
    exact proceeds_deliver happ hd.1 s
  | expire =>
    rw [paired_perform rfl rfl]
    have hfires : Proceeds s { s with timers := (s.timers.expire s.now).2 } :=
      .of_eq rfl rfl rfl rfl
    exact hfires.trans (stable_proceeds.foldl (fun s op => stable_proceeds.complete s op _) _ _)
  | shutdown e => exact hd.1.elim
  | send f =>
    rw [paired_perform rfl rfl]
    exact fun _ => ⟨[], asks_send hd.1 s⟩
  | next =>
    refine fun _ => ⟨[], ?_⟩
    cases ho : s.outbound with
    | nil =>
      have hnone : (Deed.next : Deed (θ × Diary)).perform app s = s := by
        simp [Deed.perform, nextOutbound, ho]
      refine asks_taken rfl ?_ ?_ ?_ ?_ <;> simp [hnone, Deed.taken, ho]
    | cons f rest =>
      have hnext : (Deed.next : Deed (θ × Diary)).perform app s = { s with outbound := rest } := by
        simp [Deed.perform, nextOutbound, ho]
      refine asks_taken rfl ?_ ?_ ?_ ?_ <;> simp [hnext, Deed.taken, ho]
  | takeAll => exact fun _ => ⟨[], asks_taken rfl rfl rfl (List.append_nil _).symm rfl⟩
  | emit i =>
    rw [paired_perform rfl rfl]
    exact stable_proceeds.emit happ i s
  | addHandler callback permanent =>
    rw [paired_perform rfl rfl]
    refine .of_eq ?_ rfl rfl rfl
    simp [Session.awaiting, Deed.perform, Session.addHandler, Handler.isResponse]
  | think change =>
    rw [paired_perform rfl rfl]
    have hdiary : (change s.host).2 = s.host.2 := hd.1 s.host
    refine fun _ => ⟨[], ?_, ?_, (List.append_nil _).symm, ?_, rfl⟩
    · simp [Deed.perform, diary, hdiary]
    · simp [Deed.perform, diary, hdiary]
    · simp [Deed.perform, Session.requests, diary, hdiary]
  | advance | subscribe | disconnect =>
    rw [paired_perform rfl rfl]
    exact .of_eq rfl rfl rfl rfl

/-- A run under the licence asks some requests, in order. -/
theorem proceeds_kept (θ : Type) : (Licence.paired θ).Kept fun s _ t => Proceeds s t where
  refl := stable_proceeds.refl
  deed hst _ happ hd _ := hst.trans (proceeds_perform happ hd _)
  wait _ _ hst _ := hst.trans (.of_eq rfl rfl rfl rfl)

end Session

theorem Lawful.proceeds {app : Application (θ × Diary)} (happ : Lawful (.paired θ) app) :
    app.Keeps (.paired θ) fun s _ t => Session.Proceeds s t :=
  happ.keeps (Session.proceeds_kept θ)

end ZigbeeHost
