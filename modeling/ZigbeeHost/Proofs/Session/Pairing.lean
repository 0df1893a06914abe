import ZigbeeHost.Proofs.Session.Answers
import ZigbeeHost.Proofs.Session.Requests
import ZigbeeHost.Proofs.Session.Sound
/-!
# Requests and answers are paired in order

Answers carry no mark of the request that they answer, and the sets of commands that answer
two requests may overlap. In a `Dialogue` a co-processor takes frames in the order in which
they were queued and answers the requests among them one after the other. Since requests go
to the queue and to the chain in the same order, the next request to be answered is that of
the first handler that awaits an answer (`Dialogue.inOrder`), and no handler in front of it
takes the answer. So each answer is taken by the handler of its own request
(`Dialogue.paired`).
-/

namespace ZigbeeHost

variable {θ : Type}

/-! ## Dialogues -/

/-- The frame answers the request : it carries one of the commands that may, or it rejects
a request for one of them. -/
def Asked.AnsweredBy (q : Asked) (f : Frame) : Prop :=
  f.kind = .srsp ∧ (f.command ∈ q.commands ∨ ∃ code, Rejects f code q.commands)

/-- A run of a session with a co-processor. Between the deeds of the application, at any
time, the next of the requests that were taken may be answered. The answers are listed in
order, each with the handler that took it. -/
inductive Dialogue : Session (θ × Diary) → List (Frame × Option Handler) → Prop
  | start (config : SessionConfig) (host : θ) : Dialogue (.start config (host, {})) []
  | deed {s : Session (θ × Diary)} {log : List (Frame × Option Handler)}
      {app : Application (θ × Diary)} {d : Deed (θ × Diary)} :
      Dialogue s log → Lawful (.paired θ) app → (Licence.paired θ).Permits d → d.Own s →
      Dialogue ((Licence.paired θ).perform app d s) log
  | answer {s : Session (θ × Diary)} {log : List (Frame × Option Handler)}
      {app : Application (θ × Diary)} {q : Asked} {f : Frame} :
      Dialogue s log → Lawful (.paired θ) app →
      log.length < (s.diary.taken.filter fun f => f.kind = .sreq).length →
      s.diary.asked[log.length]? = some q → q.AnsweredBy f →
      Dialogue (s.deliver app f) (log ++ [(f, s.taker? app f)])

/-! ## The walk of an answer -/

/-- No handler takes an answer but those that await one. -/
theorem Handler.offer_answer {h : Handler} (hf : h.Formed (.paired θ))
    (hr : h.isResponse = false) {app : Application (θ × Diary)}
    (hv : ∀ cb f s, (Licence.paired θ).verdict f (app.offer cb f s).2.verdict) {f : Frame}
    (hkind : f.kind = .srsp) (s : Session (θ × Diary)) :
    (h.offer app f s).2.verdict.stop = false := by
  induction h generalizing s with
  | indication kind command event lenient =>
    have hpass : ¬(f.kind = kind ∧ f.command = command) := by
      rintro ⟨rfl, -⟩
      rw [hf.1] at hkind
      cases hkind
    simp only [offer, if_neg hpass]
    rfl
  | response commands a => cases hr
  | wait p op =>
    have hpass : p.match? f = none := by
      refine if_neg fun hmatch => ?_
      have hsrsp := hmatch.1.symm.trans hkind
      rcases hf with hareq | hother
      · rw [hareq] at hsrsp
        cases hsrsp
      · exact hother hsrsp
    simp only [offer, hpass]
    rfl
  | timed id inner ih =>
    cases hid : s.timers.active id with
    | true =>
      rw [offer_timed_of_active hid]
      cases inner with
      | wait p op => exact ih hf rfl s
      | _ => exact hf.elim
    | false =>
      rw [offer_timed_of_not_active hid]
      rfl
  | custom callback permanent => exact hv callback f s hkind

namespace Session

variable {app : Application (θ × Diary)} {s : Session (θ × Diary)} {f : Frame} {q : Asked}

/-- A walk leaves no handler that awaits an answer where there was none. -/
theorem walk_no_response (chain : List Handler) (hnone : chain.filter Handler.isResponse = []) :
    (s.walk app f chain).1.filter Handler.isResponse = [] := by
  rw [walk_eq]
  refine Chain.dispatch_induct (turn app f) (fun left _ => left.filter Handler.isResponse = [])
    (fun before g behind st hst => ?_) chain [] (s, [], []) hnone
  simp only [List.filter_append, List.append_eq_nil_iff, List.filter_cons] at hst ⊢
  cases hg : g.isResponse with
  | true => simp [hg] at hst
  | false =>
    rw [hg] at hst
    exact ⟨hst.1, filter_left hg _, hst.2⟩

/-- The first handler that awaits an answer takes one that is for it. Its operation was
pending until then, and the answer decides it. -/
theorem answered_first (happ : Lawful (.paired θ) app) (hsound : Sound (.paired θ) [] [] s)
    {rest : List Handler} (hawaiting : s.awaiting = q.handler :: rest) (hans : q.AnsweredBy f) :
    s.taker? app f = some q.handler ∧
    (s.enter.walk app f s.chain).1.filter Handler.isResponse = rest ∧
    ∃ answer, q.handler.Gets f answer ∧ ∀ op, q.aftermath = .settle op →
      (s.enter.walk app f s.chain).2.1.1.outcome? op = some (answer.map .payload) := by
  obtain ⟨before, behind, hchain, hbefore, -, hbehind⟩ := List.filter_eq_cons_iff.1 hawaiting
  have hverdict := happ.upholds.offer_verdict
  have hpass : (Chain.dispatch (turn app f) before (s.enter, [], [])).2.2 = false := by
    refine Chain.dispatch_not_stopped before _ fun h hh st => ?_
    have hf := hsound.formed h (by simp [hchain, hh])
    exact Handler.offer_answer hf (by simpa using hbefore h hh) hverdict hans.1 st.1
  have hleft : (s.enter.walk app f before).1.filter Handler.isResponse = [] :=
    walk_no_response before (List.filter_eq_nil_iff.2 hbefore)
  -- The handler is still there, with its operation, when it is offered the frame.
  have hentered := hsound.enter
  rw [List.append_nil, hchain] at hentered
  have hmiddle := hentered.walk happ.upholds happ.connects before f
  rw [walk_eq] at hleft hmiddle
  generalize hd : Chain.dispatch (turn app f) before (s.enter, [], []) = d at *
  obtain ⟨left, ⟨u, waits, tracked⟩, stopped⟩ := d
  obtain rfl : stopped = false := hpass
  obtain ⟨htaker, answer, hgets, hwalk⟩ := walk_of_accepts (h := q.handler) hchain hd hans
  refine ⟨htaker, ?_, answer, hgets, fun op hop => ?_⟩
  · rw [hwalk, List.filter_append, hbehind, hleft, List.nil_append]
  · have hpending : u.pending op = true := by
      refine hmiddle.pending_of_handler (g := q.handler) (by simp) ?_
      simp [Asked.handler, Handler.carried?, Handler.operation?, hop, Aftermath.operation?]
    rw [hwalk]
    simp only [Asked.handler, Handler.carryOn, hop]
    exact u.outcome?_complete op _ hpending

end Session

/-! ## Dialogues are in order -/

/-- The requests were queued in the order in which they were asked, those that are not
answered are awaited in that order, and each answer was taken by the handler of its
request. -/
structure InOrder (s : Session (θ × Diary)) (log : List (Frame × Option Handler)) : Prop where
  sound : Sound (.paired θ) [] [] s
  deferred : s.deferred = none
  requests : s.requests = s.diary.asked.map Asked.frame
  awaiting : s.awaiting = (s.diary.asked.drop log.length).map Asked.handler
  length_le : log.length ≤ (s.diary.taken.filter fun f => f.kind = .sreq).length
  answered : ∀ (n : Nat) (f : Frame) (taker : Option Handler), log[n]? = some (f, taker) →
    ∃ q answer, s.diary.asked[n]? = some q ∧ taker = some q.handler ∧
      f.kind = .srsp ∧ q.handler.Gets f answer ∧
      ∀ op, q.aftermath = .settle op → s.outcome? op = some (answer.map .payload)

namespace InOrder

variable {s t : Session (θ × Diary)} {log : List (Frame × Option Handler)}

theorem start (config : SessionConfig) (host : θ) :
    InOrder (.start config (host, {})) [] where
  sound := .start _ config _
  deferred := rfl
  requests := rfl
  awaiting := rfl
  length_le := Nat.le_refl _
  answered := by simp

/-- The request frames that were taken are those of the first requests that were asked. -/
theorem taken_prefix (h : InOrder s log) :
    (s.diary.taken.filter fun f => f.kind = .sreq) <+: s.diary.asked.map Asked.frame := by
  rw [← h.requests, Session.requests, List.filter_append]
  exact List.prefix_append ..

theorem length_le_asked (h : InOrder s log) : log.length ≤ s.diary.asked.length := by
  have htaken := h.taken_prefix.length_le
  rw [List.length_map] at htaken
  exact Nat.le_trans h.length_le htaken

/-- Frames that were taken remain so. -/
theorem length_le_of_prefix (h : InOrder s log) (htaken : s.diary.taken <+: t.diary.taken) :
    log.length ≤ (t.diary.taken.filter fun f => f.kind = .sreq).length :=
  Nat.le_trans h.length_le (htaken.filter _).length_le

/-- The part about the answers stays, whatever is asked and decided later. -/
theorem answered_of_outlives {new : List Asked} (h : InOrder s log)
    (hasked : t.diary.asked = s.diary.asked ++ new) (houtlives : s.Outlives t) {n : Nat}
    {f : Frame} {taker : Option Handler} (hn : log[n]? = some (f, taker)) :
    ∃ q answer, t.diary.asked[n]? = some q ∧ taker = some q.handler ∧
      f.kind = .srsp ∧ q.handler.Gets f answer ∧
      ∀ op, q.aftermath = .settle op → t.outcome? op = some (answer.map .payload) := by
  obtain ⟨q, answer, hq, htaker, hkind, hgets, hdecided⟩ := h.answered n f taker hn
  refine ⟨q, answer, ?_, htaker, hkind, hgets, fun op hop => houtlives op _ (hdecided op hop)⟩
  rw [hasked, List.getElem?_append_left (List.getElem?_eq_some_iff.1 hq).1, hq]

theorem deed {app : Application (θ × Diary)} {d : Deed (θ × Diary)} (h : InOrder s log)
    (happ : Lawful (.paired θ) app) (hd : (Licence.paired θ).Permits d) (hown : d.Own s) :
    InOrder ((Licence.paired θ).perform app d s) log := by
  obtain ⟨new, hnew⟩ := Session.proceeds_perform happ.proceeds hd s h.deferred
  have hrun : Uses (.paired θ) s [] ((Licence.paired θ).perform app d s) :=
    .deed (.refl s) happ hd hown
  refine ⟨hrun.keeps (Session.upholds_kept _) [] [] h.sound, hnew.deferred.trans h.deferred, ?_,
    ?_, ?_, fun n f taker => h.answered_of_outlives hnew.asked hrun.outlives⟩
  · rw [hnew.requests, hnew.asked, h.requests, List.map_append]
  · rw [hnew.awaiting, hnew.asked, h.awaiting, List.drop_append_of_le_length h.length_le_asked,
      List.map_append]
  · exact h.length_le_of_prefix hnew.taken

theorem answer {app : Application (θ × Diary)} {q : Asked} {f : Frame} (h : InOrder s log)
    (happ : Lawful (.paired θ) app)
    (hnext : log.length < (s.diary.taken.filter fun f => f.kind = .sreq).length)
    (hq : s.diary.asked[log.length]? = some q) (hans : q.AnsweredBy f) :
    InOrder (s.deliver app f) (log ++ [(f, s.taker? app f)]) := by
  obtain ⟨hlt, hget⟩ := List.getElem?_eq_some_iff.1 hq
  have hawaiting : s.awaiting =
      q.handler :: (s.diary.asked.drop (log.length + 1)).map Asked.handler := by
    rw [h.awaiting, List.drop_eq_getElem_cons hlt, hget, List.map_cons]
  obtain ⟨htaker, hleft, answer, hgets, hdecided⟩ :=
    Session.answered_first happ h.sound hawaiting hans
  obtain ⟨new, hnew⟩ := Session.asks_deliver happ.proceeds f h.deferred
  have hasked : (s.deliver app f).diary.asked = s.diary.asked ++ new := hnew.asked
  refine ⟨h.sound.deliver happ.upholds happ.connects f, hnew.deferred.trans h.deferred,
    ?_, ?_, ?_, ?_⟩
  · rw [hasked, List.map_append, ← h.requests]
    exact hnew.requests
  · rw [hnew.awaiting, hasked, List.length_append, List.length_singleton,
      List.drop_append_of_le_length hlt, List.map_append, ← hleft]
    rfl
  · rw [List.length_append, List.length_singleton]
    exact Nat.le_trans hnext (hnew.taken.filter _).length_le
  · intro n g taker hn
    rcases Nat.lt_trichotomy n log.length with hlt' | rfl | hgt
    · rw [List.getElem?_append_left hlt'] at hn
      exact h.answered_of_outlives hasked (Session.narrow_outlives.deliver happ.outlives f s) hn
    · rw [List.getElem?_concat_length, Option.some.injEq, Prod.mk.injEq] at hn
      obtain ⟨rfl, rfl⟩ := hn
      refine ⟨q, answer, ?_, htaker, hans.1, hgets, fun op hop => ?_⟩
      · rw [hasked, List.getElem?_append_left hlt, hq]
      · exact Session.narrow_outlives.finish happ.outlives f s op _ (hdecided op hop)
    · have hnone : (log ++ [(f, s.taker? app f)])[n]? = none :=
        List.getElem?_eq_none (by simpa using Nat.succ_le_of_lt hgt)
      rw [hnone] at hn
      cases hn

end InOrder

theorem Dialogue.inOrder {s : Session (θ × Diary)} {log : List (Frame × Option Handler)}
    (h : Dialogue s log) : InOrder s log := by
  induction h with
  | start config host => exact .start config host
  | deed _ happ hd hown ih => exact ih.deed happ hd hown
  | answer _ happ hnext hq hans ih => exact ih.answer happ hnext hq hans

/-- Requests and answers are paired in order. The requests go out in the order in which they
were asked; each answer is taken, by the handler of the request that it answers, which gets
what the answer says and carries on with it; and the handlers that still await an answer are
those of the requests that are not answered. -/
theorem Dialogue.paired {s : Session (θ × Diary)} {log : List (Frame × Option Handler)}
    (h : Dialogue s log) :
    (s.diary.taken ++ s.outbound).filter (fun f => f.kind = .sreq) =
      s.diary.asked.map Asked.frame ∧
    s.awaiting = (s.diary.asked.drop log.length).map Asked.handler ∧
    ∀ (n : Nat) (f : Frame) (taker : Option Handler), log[n]? = some (f, taker) →
      ∃ q answer, s.diary.asked[n]? = some q ∧
        (s.diary.taken.filter fun f => f.kind = .sreq)[n]? = some q.frame ∧
        taker = some q.handler ∧ q.handler.Gets f answer ∧
        (∀ (app : Application (θ × Diary)) t, q.handler.offer app f t =
          ((q.aftermath.resume app answer t).1,
            { (q.aftermath.resume app answer t).2 with verdict := .consume })) ∧
        ∀ op, q.aftermath = .settle op → s.outcome? op = some (answer.map .payload) := by
  have hin := h.inOrder
  refine ⟨hin.requests, hin.awaiting, fun n f taker hn => ?_⟩
  obtain ⟨q, answer, hq, htaker, hkind, hgets, hdecided⟩ := hin.answered n f taker hn
  refine ⟨q, answer, hq, ?_, htaker, hgets, Handler.offer_of_gets hkind hgets, hdecided⟩
  have hlt : n < log.length := (List.getElem?_eq_some_iff.1 hn).1
  have htaken : n < (s.diary.taken.filter fun f => f.kind = .sreq).length :=
    Nat.lt_of_lt_of_le hlt hin.length_le
  obtain ⟨queued, heq⟩ := hin.taken_prefix
  rw [← List.getElem?_append_left htaken, heq, List.getElem?_map, hq]
  rfl

/-- A frame that tells of a reset. -/
def resetFrame : Frame := ⟨.areq, ⟨.sys, 0x80⟩, [0x00, 0x02, 0x00, 0x02, 0x07, 0x01]⟩

/-- Two pings, the second asked by a subscriber while the session dispatches a frame. Both
are taken, and answered with frames that could answer either. -/
theorem pinged_paired :
    let ping : Deed (Unit × Diary) := .call (.request (.system .ping))
    let app : Application (Unit × Diary) := .acting (.paired Unit) .silent fun _ => [ping]
    let asked := [.subscribe .reset 0, ping, .deliver resetFrame, .takeAll].foldl
      (fun s d => (Licence.paired Unit).perform app d s) (.start {} ((), {}))
    asked.taker? app pong = some (.response [⟨.sys, 0x01⟩] (.settle 0)) ∧
    (asked.deliver app pong).taker? app pong = some (.response [⟨.sys, 0x01⟩] (.settle 1)) := by
  intro ping app asked
  have happ : Lawful (.paired Unit) app :=
    .acting (.silent fun _ _ => rfl) (by rintro _ _ ⟨⟩ <;> trivial)
      (by rintro _ _ ⟨⟩ _ <;> trivial)
  have hasked : Dialogue asked [] := by
    refine List.foldlRecOn _ _ (motive := (Dialogue · [])) (.start {} ()) fun s hs d hd => ?_
    have hpermits : (Licence.paired Unit).Permits d ∧ d.Own s := by
      simp only [List.mem_cons, List.not_mem_nil, or_false] at hd
      rcases hd with rfl | rfl | rfl | rfl
      all_goals exact ⟨⟨by first | trivial | nofun, trivial⟩, trivial⟩
    exact .deed hs happ hpermits.1 hpermits.2
  let question (op : OperationId) : Asked :=
    ⟨⟨.sreq, ⟨.sys, 0x01⟩, []⟩, [⟨.sys, 0x01⟩], .settle op⟩
  have hanswers (op : OperationId) : (question op).AnsweredBy pong :=
    ⟨rfl, Or.inl (List.mem_singleton.2 rfl)⟩
  have hfirst : Dialogue (asked.deliver app pong) [(pong, asked.taker? app pong)] :=
    .answer hasked happ (by decide +kernel) (show _ = some (question 0) by decide +kernel)
      (hanswers 0)
  have hsecond := Dialogue.answer hfirst happ (by decide +kernel)
    (show _ = some (question 1) by decide +kernel) (hanswers 1)
  obtain ⟨-, -, hpaired⟩ := Dialogue.paired hsecond
  have hfinal : ((asked.deliver app pong).deliver app pong).diary.asked =
      [question 0, question 1] := by decide +kernel
  rw [hfinal] at hpaired
  obtain ⟨q, -, ⟨⟩, -, htaker, -⟩ := hpaired 0 _ _ rfl
  obtain ⟨q', -, ⟨⟩, -, htaker', -⟩ := hpaired 1 _ _ rfl
  exact ⟨htaker, htaker'⟩

end ZigbeeHost
