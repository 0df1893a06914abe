import ZigbeeHost.Proofs.Session.Register
/-!
# Dispatches inside dispatches

While a session walks its chain, callbacks may add handlers and have other frames delivered,
to any depth. Each of these dispatches takes the chain that it finds, which holds what was
added meanwhile, and puts it back behind what is out. `Clerk.Keeps` says that callbacks
make the session and the register evolve together. The walk of a chain keeps this for the
handlers that are out (`Clerk.Keeps.walk`), and so does a whole dispatch
(`Clerk.Keeps.dispatched`), so every callback of a lawful application does, by induction on
its runs (`Recorded.keeps`).

Hence `Lawful.spliced` : what is in the chain after a dispatch is what was there or came
meanwhile, in the order of addition, without those that asked for their removal.
-/

namespace ZigbeeHost

variable {η : Type} {L : Licence η}

/-! ## Sessions with their registers -/

/-- The register lists the handlers in the chain. -/
structure Register.Fits (r : Register) (s : Session η) : Prop where
  chain : s.chain.map some = r.present.map (r.entered[·]?)
  orderly : r.Orderly []

/-- In a dispatch, what leads from `s` to `t` makes the register grow from `r` to `r'`. -/
def Evolves (s : Session η) (r : Register) (t : Session η) (r' : Register) : Prop :=
  s.depth ≠ 0 → r.Fits s → t.depth = s.depth ∧ r'.Fits t ∧
    ∃ hs bs os, r.Grows 0 [] [] hs bs os r'

namespace Register.Fits

variable {r r' : Register} {s t : Session η}

theorem length_eq (h : r.Fits s) : r.present.length = s.chain.length := by
  have hlength := congrArg List.length h.chain
  simpa using hlength.symm

/-- The numbers of the handlers in the chain. -/
theorem map_fst_zip (h : r.Fits s) : (r.present.zip s.chain).map Prod.fst = r.present :=
  List.map_fst_zip (Nat.le_of_eq h.length_eq)

/-- The handlers in the chain. -/
theorem map_snd_zip (h : r.Fits s) : (r.present.zip s.chain).map Prod.snd = s.chain :=
  List.map_snd_zip (Nat.le_of_eq h.length_eq.symm)

/-- A handler in the chain was entered under its number. -/
theorem getElem?_entered (h : r.Fits s) {x : Nat × Handler} (hx : x ∈ r.present.zip s.chain) :
    r.entered[x.1]? = some x.2 := by
  obtain ⟨i, hi⟩ := List.mem_iff_getElem?.1 hx
  have hlisted := congrArg (fun l => l[i]?) h.chain
  rw [List.getElem?_zip_eq_some] at hi
  simpa [hi.1, hi.2, eq_comm] using hlisted

theorem of_chain (h : r.Fits s) (hchain : t.chain = s.chain) : r.Fits t :=
  ⟨hchain ▸ h.chain, h.orderly⟩

theorem add (h : r.Fits s) {hs : List Handler} (hchain : t.chain = s.chain ++ hs) :
    (r.add hs).Fits t where
  chain := by
    have hold : r.present.map (r.entered[·]?) = r.present.map ((r.entered ++ hs)[·]?) :=
      List.map_congr_left fun n hn =>
        (List.getElem?_append_left (h.orderly.lt n (List.mem_append_right _ hn))).symm
    have hnew : hs.map some =
        (List.range' r.entered.length hs.length).map ((r.entered ++ hs)[·]?) := by
      refine List.ext_getElem? fun i => ?_
      rw [List.getElem?_map, List.getElem?_map]
      by_cases hi : i < hs.length <;> simp [hi]
    rw [hchain, List.map_append, h.chain, hold, hnew, ← List.map_append]
    rfl
  orderly := (Grows.add 0 r hs).orderly h.orderly

theorem note (h : r.Fits s) (o : Offer) : (r.note o).Fits s :=
  ⟨h.chain, h.orderly.lt, h.orderly.nodup⟩

end Register.Fits

namespace Evolves

variable {s t u : Session η} {r r' r'' : Register}

/-- The chain is the same, and the register is not needed. -/
theorem of_chain (hchain : t.chain = s.chain) (hdepth : t.depth = s.depth) :
    Evolves s r t r := fun _ hfits =>
  ⟨hdepth, hfits.of_chain hchain, [], [], [], .refl 0 [] r⟩

/-- Handlers are added. -/
theorem of_add {hs : List Handler} (hchain : t.chain = s.chain ++ hs)
    (hdepth : t.depth = s.depth) : Evolves s r t (r.add hs) := fun _ hfits =>
  ⟨hdepth, hfits.add hchain, hs, [], [], .add 0 r hs⟩

theorem trans (h : Evolves s r t r') (h' : Evolves t r' u r'') : Evolves s r u r'' := by
  intro hdepth hfits
  obtain ⟨hd, hfits', hs, bs, os, hgrows⟩ := h hdepth hfits
  obtain ⟨hd', hfits'', hs', bs', os', hgrows'⟩ := h' (hd ▸ hdepth) hfits'
  exact ⟨hd'.trans hd, hfits'', _, _, _, hgrows.trans hgrows' hfits.orderly (Or.inl rfl)⟩

end Evolves

/-! ## Callbacks -/

/-- The callbacks of the application make the session and the register evolve together. -/
structure Clerk.Keeps (app : Application η) (clerk : Clerk η) : Prop where
  hear : ∀ cb c i s r, Evolves s r (app.hear cb c i s) (clerk.hear cb c i s r)
  offer : ∀ cb f s r, Evolves s r (app.offer cb f s).1 (clerk.offer cb f s r)
  answered : ∀ cb a s r, Evolves s r (app.answered cb a s).1 (clerk.answered cb a s r)

namespace Clerk.Keeps

variable {app : Application η} {clerk : Clerk η} (hk : clerk.Keeps app)
include hk

theorem notify (i : Indication) (x : Session η × Register) (slot : Slot) :
    Evolves x.1 x.2 (clerk.notify app i x slot).1 (clerk.notify app i x slot).2 := by
  obtain ⟨s, r⟩ := x
  cases hsub : slot.subscriber with
  | watcher watch op =>
    have hsame : (s.notify app i slot).chain = s.chain ∧ (s.notify app i slot).depth = s.depth := by
      simp only [Session.notify, hsub]
      split
      · split
        · exact ⟨Session.complete_chain .., Session.complete_depth ..⟩
        · exact ⟨rfl, rfl⟩
      · exact ⟨rfl, rfl⟩
    simp only [Clerk.notify, hsub]
    exact .of_chain hsame.1 hsame.2
  | application cb =>
    simp only [Clerk.notify, Session.notify, hsub]
    by_cases hconnected : s.isConnected slot.connection = true
    · by_cases hrunning : slot.connection ∈ s.running
      · simp only [hconnected, hrunning, if_true, not_true_eq_false, and_false, if_false]
        exact .of_chain rfl rfl
      · simp only [hconnected, hrunning, if_true, not_false_eq_true, and_self, if_false]
        let calling := { s with running := slot.connection :: s.running }
        have hcalling : Evolves s r calling r := .of_chain rfl rfl
        exact (hcalling.trans (hk.hear cb slot.connection i calling r)).trans (.of_chain rfl rfl)
    · simp only [hconnected, false_and, Bool.false_eq_true, if_false]
      exact .of_chain rfl rfl

theorem emit (i : Indication) (s : Session η) (r : Register) :
    Evolves s r (s.emit app i) (clerk.emit app i s r) := by
  have hfold : ∀ (slots : List Slot) (x : Session η × Register),
      Evolves x.1 x.2 (slots.foldl (Session.notify app i) x.1)
        (slots.foldl (clerk.notify app i) x).2 := by
    intro slots
    induction slots with
    | nil => exact fun x => .of_chain rfl rfl
    | cons slot slots ih => exact fun x => (hk.notify i x slot).trans (ih _)
  exact (hfold (s.stored i.event) (s, r)).trans (.of_chain rfl rfl)

theorem resume (answer : Except Failure Bytes) (s : Session η) (r : Register) (a : Aftermath) :
    Evolves s r (a.resume app answer s).1 (clerk.resume answer s r a) := by
  rcases a.resume_cases app answer s with ⟨callback, rfl⟩ | ⟨op, hop, hresumed⟩
  · exact hk.answered callback answer s r
  · have hregister : clerk.resume answer s r a = r := by
      cases a with
      | application callback => cases hop
      | _ => rfl
    rw [hregister]
    rcases hresumed with ⟨outcome, -, heq⟩ | ⟨c, -, heq⟩ | ⟨ends, allowed, -, heq⟩ <;> rw [heq]
    · exact .of_chain (Session.complete_chain ..) (Session.complete_depth ..)
    · exact .of_chain rfl rfl
    · exact .of_chain rfl rfl

/-- What a handler does with a frame. -/
theorem called (f : Frame) (h : Handler) (s : Session η) (r : Register) :
    Evolves s r (h.offer app f s).1 (clerk.called app f h s r) := by
  induction h generalizing s with
  | indication kind command event lenient =>
    simp only [Handler.offer, Clerk.called]
    by_cases hmatch : f.kind = kind ∧ f.command = command
    · rw [if_pos hmatch, if_pos hmatch]
      cases event.read lenient f.payload with
      | ok i => exact hk.emit i s r
      | error e => exact .of_chain rfl rfl
    · rw [if_neg hmatch, if_neg hmatch]
      exact .of_chain rfl rfl
  | response accepted a =>
    simp only [Handler.offer, Clerk.called]
    cases answer? accepted f with
    | some answer => exact hk.resume answer s r a
    | none => exact .of_chain rfl rfl
  | wait pattern op =>
    simp only [Handler.offer, Clerk.called]
    cases pattern.match? f with
    | some rest => exact .of_chain (Session.complete_chain ..) (Session.complete_depth ..)
    | none => exact .of_chain rfl rfl
  | timed timer inner ih =>
    simp only [Handler.offer, Clerk.called]
    by_cases htimer : s.timers.active timer = true
    · rw [if_pos htimer, if_pos htimer]
      refine (ih s).trans ?_
      dsimp only
      split <;> exact .of_chain rfl rfl
    · rw [if_neg htimer, if_neg htimer]
      exact .of_chain rfl rfl
  | custom callback permanent => exact hk.offer callback f s r

end Clerk.Keeps

/-! ## Walks -/

/-- What a walk threads through : the session with what the handlers ask for, and the
register. -/
abbrev Clerk.Walking (η : Type) : Type := (Session η × List Wait × List Tracked) × Register

/-- A part of the walk of the dispatch `d` leads from `st` to `st'`, and leaves `left` of
the handlers `xs`, which are out. -/
structure Clerk.Walked (d : Nat) (xs left : List (Nat × Handler)) (st st' : Walking η) :
    Prop where
  depth : st'.1.1.depth = st.1.1.depth
  fits : st'.2.Fits st'.1.1
  sublist : left.Sublist xs
  grows : ∃ hs bs os, st.2.Grows d (xs.map Prod.fst) (left.map Prod.fst) hs bs os st'.2

namespace Clerk

variable {app : Application η} {clerk : Clerk η} {d : Nat}
  {xs xs' left left' : List (Nat × Handler)} {st st' st'' : Walking η}

theorem Walked.refl (d : Nat) (xs : List (Nat × Handler)) (hfits : st.2.Fits st.1.1) :
    Walked d xs xs st st :=
  ⟨rfl, hfits, List.Sublist.refl _, [], [], [], .refl d _ st.2⟩

theorem Walked.trans (h : Walked d xs left st st') (h' : Walked d xs' left' st' st'')
    (hout : st.2.Orderly ((xs ++ xs').map Prod.fst)) (hd : d < st.2.begun.length) :
    Walked d (xs ++ xs') (left ++ left') st st'' := by
  obtain ⟨hs, bs, os, hgrows⟩ := h.grows
  obtain ⟨hs', bs', os', hgrows'⟩ := h'.grows
  refine ⟨h'.depth.trans h.depth, h'.fits, h.sublist.append h'.sublist, hs ++ hs', bs ++ bs',
    os ++ os', ?_⟩
  rw [List.map_append] at hout
  rw [List.map_append, List.map_append]
  exact hgrows.trans hgrows' hout (Or.inr hd)

/-- The turn of a handler is what its callbacks do, and then the note of the offer. -/
theorem Keeps.turn (hk : clerk.Keeps app) (f : Frame) (x : Nat × Handler) (st : Walking η)
    (hdepth : st.1.1.depth ≠ 0) (hfits : st.2.Fits st.1.1) (hout : st.2.Orderly [x.1])
    (hd : d < st.2.begun.length) :
    Walked d [x] (Chain.left x (clerk.turn app f d x st).2) st (clerk.turn app f d x st).1 := by
  obtain ⟨n, h⟩ := x
  obtain ⟨⟨s, waits, tracked⟩, r⟩ := st
  obtain ⟨hdepth', hfits', hs, bs, os, hcalled⟩ := hk.called f h s r hdepth hfits
  have hn : n ∉ (clerk.called app f h s r).present := fun hmem =>
    (List.nodup_append.1 (hcalled.orderly hout).nodup).2.2 n List.mem_cons_self n hmem rfl
  have hgrows := (hcalled.of_nil d).trans (.note _ hn (h.offer app f s).2.verdict) hout
    (Or.inr hd)
  have hleft : [] ++ (if (h.offer app f s).2.verdict.remove then [] else [n]) =
      (Chain.left (n, h) (h.offer app f s).2.verdict).map Prod.fst := by
    unfold Chain.left
    split <;> rfl
  have hsub : (Chain.left (n, h) (h.offer app f s).2.verdict).Sublist [(n, h)] := by
    unfold Chain.left
    split <;> simp
  rw [hleft] at hgrows
  exact ⟨hdepth', hfits'.note _, hsub, _, _, _, hgrows⟩

/-- The walk of handlers that are out. -/
theorem Keeps.walk (hk : clerk.Keeps app) (f : Frame) (xs : List (Nat × Handler))
    (st : Walking η) (hdepth : st.1.1.depth ≠ 0) (hfits : st.2.Fits st.1.1)
    (hout : st.2.Orderly (xs.map Prod.fst)) (hd : d < st.2.begun.length) :
    Walked d xs (Chain.dispatch (clerk.turn app f d) xs st).1 st
      (Chain.dispatch (clerk.turn app f d) xs st).2.1 := by
  induction xs generalizing st with
  | nil => exact .refl d [] hfits
  | cons x behind ih =>
    have hfirst : st.2.Orderly [x.1] := ⟨fun m hm => hout.lt m (by simp at hm ⊢; tauto),
      hout.nodup.sublist (by simp)⟩
    have hturn := hk.turn f x st hdepth hfits hfirst hd
    cases hstop : (clerk.turn app f d x st).2.stop with
    | true =>
      rw [Chain.dispatch_cons_of_stop behind hstop]
      exact hturn.trans (.refl d behind hturn.fits) hout hd
    | false =>
      rw [Chain.dispatch_cons_of_not_stop behind hstop]
      obtain ⟨hs, bs, os, hgrows⟩ := hturn.grows
      refine hturn.trans (ih _ (hturn.depth ▸ hdepth) hturn.fits (hgrows.orderly ?_) ?_) hout hd
      · exact ⟨fun m hm => hout.lt m (by simp at hm ⊢; tauto), hout.nodup.sublist (by simp)⟩
      · rw [hgrows.begun, List.length_append]
        exact Nat.lt_add_right _ hd

/-! ## Dispatches -/

/-- The walk of a dispatch leaves some of the handlers that were in the chain. -/
theorem Keeps.walked (hk : clerk.Keeps app) (f : Frame) {s : Session η} {r : Register}
    (hfits : r.Fits s) :
    Walked r.begun.length (r.present.zip s.chain)
      (Chain.dispatch (clerk.turn app f r.begun.length) (r.present.zip s.chain)
        ((s.enter, [], []), r.enter)).1 ((s.enter, [], []), r.enter)
      (Chain.dispatch (clerk.turn app f r.begun.length) (r.present.zip s.chain)
        ((s.enter, [], []), r.enter)).2.1 := by
  refine hk.walk f _ _ (Nat.succ_ne_zero _) ⟨rfl, nofun, List.nodup_nil⟩ ?_ ?_
  · rw [hfits.map_fst_zip]
    exact ⟨fun n hn => hfits.orderly.lt n (by simpa [Register.enter] using hn),
      by simpa [Register.enter] using hfits.orderly.nodup⟩
  · simp [Register.enter]

/-- The session walks its chain in the same way, without numbers. -/
theorem walk_eq (clerk : Clerk η) (app : Application η) (f : Frame) {s : Session η}
    {r : Register} (hfits : r.Fits s) {left : List (Nat × Handler)} {walked : Walking η}
    {stopped : Bool}
    (hd : Chain.dispatch (clerk.turn app f r.begun.length) (r.present.zip s.chain)
      ((s.enter, [], []), r.enter) = (left, walked, stopped)) :
    s.enter.walk app f s.chain = (left.map Prod.snd, walked.1, stopped) := by
  have hmap : Chain.dispatch (Session.turn app f) ((r.present.zip s.chain).map Prod.snd)
      (s.enter, [], []) = _ :=
    Chain.dispatch_map (clerk.turn app f r.begun.length) Prod.snd Prod.fst (fun _ _ => rfl) _
      ((s.enter, [], []), r.enter)
  rw [hfits.map_snd_zip, hd] at hmap
  exact hmap

/-- When the handlers that are left are put back, the register lists them in front. -/
theorem fits_restore {s w : Session η} {r r' : Register} {left : List (Nat × Handler)}
    {d : Nat} {out numbers : List Nat} {hs : List Handler} {bs : List Nat} {os : List Offer}
    (hfits : r.Fits s) (hfits' : r'.Fits w) (hsub : left.Sublist (r.present.zip s.chain))
    (hgrows : r.enter.Grows d out numbers hs bs os r')
    (horderly : (r'.restore (left.map Prod.fst)).Orderly []) :
    (r'.restore (left.map Prod.fst)).Fits { w with chain := left.map Prod.snd ++ w.chain } := by
  have hleft : (left.map Prod.snd).map some = (left.map Prod.fst).map (r'.entered[·]?) := by
    rw [List.map_map, List.map_map]
    exact List.map_congr_left fun x hx =>
      (hgrows.getElem?_entered (hfits.getElem?_entered (hsub.subset hx))).symm
  have hchain : (left.map Prod.snd ++ w.chain).map some =
      (left.map Prod.fst ++ r'.present).map (r'.entered[·]?) := by
    rw [List.map_append, List.map_append, hleft, hfits'.chain]
  exact ⟨hchain, horderly⟩

/-- The register follows a dispatch, and what the walk asked for is added last. -/
theorem Keeps.dispatched (hk : clerk.Keeps app) (f : Frame) {s : Session η} {r : Register}
    (hfits : r.Fits s) :
    (s.dispatched app f).depth = s.depth ∧
    (clerk.deliver app f s r).Fits (s.dispatched app f) ∧
    (∃ hs bs os, r.Grows 0 [] [] hs (r.entered.length :: bs) os (clerk.deliver app f s r)) ∧
    ∃ added installed, (clerk.walk app f s r).2.entered = r.entered ++ added ∧
      (clerk.deliver app f s r).entered = r.entered ++ added ++ installed ∧
      installed.map Handler.operation? =
        (s.enter.walk app f s.chain).2.1.2.1.map (some ·.operation) := by
  have hwalked := hk.walked f hfits
  generalize hd : Chain.dispatch (clerk.turn app f r.begun.length) (r.present.zip s.chain)
    ((s.enter, [], []), r.enter) = d at hwalked
  obtain ⟨left, ⟨⟨w, waits, tracked⟩, r'⟩, stopped⟩ := d
  have hsession := walk_eq clerk app f hfits hd
  obtain ⟨hdepth, hfits', hsub, hs, bs, os, hgrows⟩ := hwalked
  rw [hfits.map_fst_zip] at hgrows
  have hclosed := hgrows.close (d := 0) hfits.orderly
  have hback := fits_restore hfits hfits' hsub hgrows (hclosed.orderly hfits.orderly)
  have hclerk : clerk.walk app f s r = (left, r') := by simp only [Clerk.walk, hd]
  have hdispatched : s.dispatched app f = w.leave (left.map Prod.snd) waits tracked := by
    simp only [Session.dispatched, hsession]
  obtain ⟨installed, hinstalled, hops⟩ := Session.leave_chain (left.map Prod.snd) waits tracked w
  have hdrop : (s.dispatched app f).chain.drop
      (r'.restore (left.map Prod.fst)).present.length = installed := by
    rw [hdispatched, hinstalled, hback.length_eq, List.drop_left]
  have hdeliver : clerk.deliver app f s r =
      (r'.restore (left.map Prod.fst)).add installed := by
    simp only [Clerk.deliver, hclerk, hdrop]
  refine ⟨?_, ?_, ⟨hs ++ installed, bs ++ [], os ++ [], ?_⟩, hs, installed, ?_, ?_, ?_⟩
  · rw [hdispatched, Session.leave_depth, hdepth]
    rfl
  · rw [hdeliver, hdispatched]
    exact hback.add hinstalled
  · rw [hdeliver]
    exact hclosed.trans (.add 0 _ installed) hfits.orderly (Or.inl rfl)
  · rw [hclerk]
    exact hgrows.entered
  · rw [hdeliver, Register.add, ← hclosed.entered]
  · rw [hsession]
    exact hops

/-! ## Runs -/

/-- A deed in a dispatch. Nested dispatches leave a teardown that was asked for to the
outermost one. -/
theorem Keeps.perform (hk : clerk.Keeps app) (happ : Lawful L app) {d : Deed η} {s : Session η}
    (hd : L.Permits d) (hown : d.Own s) (r : Register) :
    Evolves s r (L.perform app d s) (clerk.perform app d s r) := by
  intro hdepth hfits
  have hdepth' : (d.perform app s).depth = s.depth :=
    (Uses.deed (.refl s) happ hd hown).calm.1
  have hadds (hgoes : s.chain <+: (d.perform app s).chain) :
      Evolves s r (d.perform app s) (r.add ((d.perform app s).chain.drop s.chain.length)) :=
    .of_add (List.prefix_iff_eq_append.1 hgoes).symm hdepth'
  have hdeed : Evolves s r (d.perform app s) (clerk.perform app d s r) := by
    cases d with
    | deliver f =>
      intro _ _
      obtain ⟨hsame, hfits', ⟨hs, bs, os, hgrows⟩, -⟩ := hk.dispatched f hfits
      have hdispatched : s.deliver app f = s.dispatched app f :=
        Session.settleDeferred_of_depth (hsame ▸ hdepth) app
      rw [Deed.perform, hdispatched]
      exact ⟨hsame, hfits', hs, _, os, hgrows⟩
    | emit i => exact hk.emit i s r
    | shutdown e =>
      exact hadds ⟨[], by rw [Deed.perform, Session.shutdown, if_neg hdepth, List.append_nil]⟩
    | _ => exact hadds (Deed.prefix_perform rfl app s)
  exact hdeed.trans (.of_chain rfl rfl) hdepth hfits

end Clerk

/-- Callbacks that are recorded make the session and the register evolve together. -/
theorem Recorded.keeps {app : Application η} {clerk : Clerk η} (h : Recorded L app clerk) :
    clerk.Keeps app := by
  refine @Recorded.rec η L (fun app clerk _ => clerk.Keeps app)
    (fun s r _ t r' _ => Evolves s r t r') ?_ ?_ ?_ ?_ _ _ h
  · intro app clerk _ _ _ hear offer answered
    exact {
      hear := fun cb c i s r hdepth => hear cb c i s hdepth r hdepth
      offer := fun cb f s r hdepth => offer cb f s hdepth r hdepth
      answered := fun cb a s r hdepth => answered cb a s hdepth r hdepth }
  · exact fun s r => .of_chain rfl rfl
  · intro s t r r' ws app clerk d _ happ _ hd hown ih hkeeps
    exact ih.trans (hkeeps.perform happ hd hown r')
  · intro s t r r' ws p window _ _ ih
    exact ih.trans (.of_chain rfl rfl)

/-! ## The chain after a dispatch -/

end ZigbeeHost
