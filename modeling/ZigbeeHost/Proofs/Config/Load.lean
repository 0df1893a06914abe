import ZigbeeHost.Config.Load
import ZigbeeHost.Proofs.Config.Records
/-!
# Loaded configurations

The configurations of a session and of the tool are records, so `Describes.follows` says how
their texts are read. `Loads` spells out what this comes to, and `configurations_loaded` that it
holds for both : fields may be given in any order and among keys that are not known, a list names
the first fields in their order, and a value that is not one of its field, or a field that is
given twice, leaves no configuration.
-/

namespace ZigbeeHost

namespace Config

/-- The text of a value, with what may stand around it. -/
def IsText (cs : List Char) (text : String) : Prop :=
  ∃ ws ws', IsBlanks ws ∧ IsBlanks ws' ∧ text.toList = ws ++ (cs ++ ws')

/-- A whole text is read as what its value spells. -/
theorem Reader.Follows.run_iff {α : Type} {reader : Reader α} {spells : Spelling α}
    (h : reader.Follows spells) {cs : List Char} {text : String} (hvalue : IsValue cs)
    (htext : IsText cs text) {v : α} : reader.run text = .ok v ↔ spells v cs := by
  obtain ⟨ws, ws', hws, hws', htext⟩ := htext
  have hstops : Stops ws' := List.append_nil ws' ▸ hws'.stops stops_nil
  have hblank : ws'.all isBlank = true := List.all_eq_true.2 fun c hc => isBlank_iff.2 (hws' c hc)
  unfold run
  rw [htext]
  constructor
  · intro hread
    split at hread
    · cases hread
    · rename_i w rest hreader
      obtain ⟨hw, rfl⟩ := (h.read_iff hvalue hws hstops).1 hreader
      rw [if_pos hblank] at hread
      exact Except.ok.inj hread ▸ hw
  · intro hv
    rw [h.accepts hv hws hstops]
    exact if_pos hblank

/-! ## What it means to be loaded -/

/-- What becomes of texts that are loaded as records with the slots. -/
structure Loads {γ : Type} (load : String → Except Fault γ) (slots : List (Slot γ))
    (defaults : γ) : Prop where
  /-- An object in which each field is given at most once, with a value of the field, and in which
  the needed ones are given, is accepted. The fields that it gives take their values, and the
  others their defaults. -/
  accepted : ∀ {ms cs text}, IsObject ms cs → IsText cs text →
    (∀ slot ∈ slots, occurrences slot.key ms ≤ 1) →
    (∀ slot ∈ slots, ∀ value, (slot.key, value) ∈ ms → ∃ v, slot.spells v value) →
    (∀ slot ∈ slots, slot.required = true → occurrences slot.key ms ≠ 0) →
    ∃ c, load text = .ok c ∧ ∀ slot ∈ slots,
      (∀ value v, (slot.key, value) ∈ ms → slot.spells v value → slot.get c = v) ∧
        (occurrences slot.key ms = 0 → slot.get c = slot.get defaults)
  /-- A list of the first values is loaded like an object that names them. -/
  listed : ∀ {values cs cs' text text'}, values.length ≤ slots.length → IsList values cs →
    IsText cs text → IsObject (named slots values) cs' → IsText cs' text' →
    ∀ c, load text = .ok c ↔ load text' = .ok c
  /-- With a value that is none of its field, nothing is loaded. -/
  mistyped : ∀ {ms cs text}, IsObject ms cs → IsText cs text → ∀ slot ∈ slots, ∀ value,
    (slot.key, value) ∈ ms → (∀ v, ¬slot.spells v value) → ∃ fault, load text = .error fault
  /-- With a field that is given twice, nothing is loaded. -/
  repeated : ∀ {ms cs text}, IsObject ms cs → IsText cs text → ∀ slot ∈ slots,
    1 < occurrences slot.key ms → ∃ fault, load text = .error fault

/-- What yields no value fails. -/
theorem exists_fault {γ : Type} {answer : Except Fault γ} (h : ∀ c, answer ≠ .ok c) :
    ∃ fault, answer = .error fault := by
  cases answer with
  | error fault => exact ⟨fault, rfl⟩
  | ok c => exact absurd rfl (h c)

namespace Describes

open Reader

variable {γ : Type} {slots : List (Slot γ)} {fields : List (RecordField γ)} {defaults : γ}
  (h : Describes slots fields)
include h

/-- An object loads as the configuration that its members give. -/
theorem object_iff {ms : List Member} {cs : List Char} {text : String} (hobject : IsObject ms cs)
    (htext : IsText cs text) {c : γ} :
    (record fields defaults).run text = .ok c ↔ GivenBy slots defaults ms c :=
  ((h.follows defaults).run_iff hobject.isValue htext).trans (h.spells_object_iff hobject)

/-- A list loads as the configuration that its values give, slot by slot. -/
theorem list_iff {values : List (List Char)} {cs : List Char} {text : String}
    (hlist : IsList values cs) (htext : IsText cs text) {c : γ} :
    (record fields defaults).run text = .ok c ↔
      values.length ≤ slots.length ∧ GivenBy slots defaults (named slots values) c :=
  ((h.follows defaults).run_iff hlist.isValue htext).trans (h.spells_list_iff hlist)

/-- A record loads texts as its slots describe. -/
theorem loads (defaults : γ) : Loads (record fields defaults).run slots defaults where
  accepted := by
    intro ms cs text hobject htext honce hvalid hneeded
    obtain ⟨c, hgiven⟩ := h.exists_givenBy (fun slot hslot =>
      ⟨honce slot hslot, hvalid slot hslot, hneeded slot hslot⟩) defaults
    refine ⟨c, (h.object_iff hobject htext).2 hgiven, fun slot hslot =>
      ⟨fun value v hmem hv => ?_, fun hnone => ?_⟩⟩
    · exact h.unique hslot ((hgiven.given slot hslot).spells_of_mem (honce slot hslot) hmem) hv
    · cases hgiven.given slot hslot with
      | given hmem => exact absurd rfl (occurrences_eq_zero.1 hnone _ hmem)
      | missing _ _ hget => exact hget
  listed := by
    intro values cs cs' text text' hlength hlist htext hobject htext' c
    rw [h.list_iff hlist htext, h.object_iff hobject htext']
    exact and_iff_right hlength
  mistyped := by
    intro ms cs text hobject htext slot hslot value hmem hnone
    refine exists_fault fun c hload => ?_
    have hgiven := (h.object_iff hobject htext).1 hload
    exact hnone _ ((hgiven.given slot hslot).spells_of_mem (hgiven.once slot hslot) hmem)
  repeated := by
    intro ms cs text hobject htext slot hslot htwice
    refine exists_fault fun c hload => ?_
    exact absurd (((h.object_iff hobject htext).1 hload).once slot hslot) (Nat.not_le.2 htwice)

end Describes

end Config

/-! ## The two configurations -/

open Config

/-- The fields of a session's configuration. -/
def SessionConfig.slots : List (Slot SessionConfig) := [
  { key := "zdo_timeout_secs", spells := .number UInt64.toNat, get := zdoTimeoutSecs },
  { key := "data_confirm_timeout_secs", spells := .optional (.number UInt64.toNat),
    get := dataConfirmTimeoutSecs },
  { key := "poll_interval_ms", spells := .number UInt64.toNat, get := pollIntervalMs }]

/-- The fields of the tool's configuration. -/
def ToolConfig.slots : List (Slot ToolConfig) := [
  { key := "port", spells := SpellsText, get := device, required := true },
  { key := "baud_rate", spells := .number UInt32.toNat, get := baudRate },
  { key := "log", spells := SpellsText, get := log },
  { key := "soft_reset", spells := .truth, get := softReset },
  { key := "wait_for_coordinator", spells := .truth, get := waitForCoordinator },
  { key := "permit_join", spells := .optional (.number UInt8.toNat), get := permitJoin },
  { key := "znp", spells := SpellsRecord SessionConfig.slots {}, get := session }]

/-- The fields of a session's configuration are described by its slots. -/
theorem SessionConfig.describes : Describes SessionConfig.slots SessionConfig.fields where
  fits := by
    have hoptional := follows_optional follows_u64 (not_number_null _)
    refine .cons ⟨_, _, .of follows_u64 (fun _ _ => rfl) ?_⟩ <|
      .cons ⟨_, _, .of hoptional (fun _ _ => rfl) ?_⟩ <|
      .cons ⟨_, _, .of follows_u64 (fun _ _ => rfl) ?_⟩ .nil
    all_goals
      intro v c
      simp [slots]
  keys := by decide
  ext := by
    intro c c' hget
    simp only [slots, List.forall_mem_cons] at hget
    obtain ⟨hzdo, hdata, hpoll, -⟩ := hget
    cases c
    cases c'
    cases hzdo
    cases hdata
    cases hpoll
    rfl

/-- And so are those of a tool's configuration. -/
theorem ToolConfig.describes : Describes ToolConfig.slots ToolConfig.fields where
  fits := by
    have hoptional := follows_optional follows_u8 (not_number_null _)
    have hsession := SessionConfig.describes.follows {}
    refine .cons ⟨_, _, .of follows_text (fun _ _ => rfl) ?_⟩ <|
      .cons ⟨_, _, .of follows_u32 (fun _ _ => rfl) ?_⟩ <|
      .cons ⟨_, _, .of follows_text (fun _ _ => rfl) ?_⟩ <|
      .cons ⟨_, _, .of follows_truth (fun _ _ => rfl) ?_⟩ <|
      .cons ⟨_, _, .of follows_truth (fun _ _ => rfl) ?_⟩ <|
      .cons ⟨_, _, .of hoptional (fun _ _ => rfl) ?_⟩ <|
      .cons ⟨_, _, .of hsession (fun _ _ => rfl) ?_⟩ .nil
    all_goals
      intro v c
      simp [slots]
  keys := by decide
  ext := by
    intro c c' hget
    simp only [slots, List.forall_mem_cons] at hget
    obtain ⟨hport, hbaud, hlog, hreset, hwait, hpermit, hsession, -⟩ := hget
    cases c
    cases c'
    cases hport
    cases hbaud
    cases hlog
    cases hreset
    cases hwait
    cases hpermit
    cases hsession
    rfl

/-- Both configurations are loaded as records, of which the tool's holds the session's. -/
theorem configurations_loaded :
    Loads SessionConfig.load SessionConfig.slots {} ∧
      Loads ToolConfig.load ToolConfig.slots { device := "" } ∧
        ∀ c cs text, IsValue cs → IsText cs text →
          (SpellsRecord SessionConfig.slots {} c cs ↔ SessionConfig.load text = .ok c) :=
  ⟨SessionConfig.describes.loads _, ToolConfig.describes.loads _, fun _ _ _ hvalue htext =>
    ((SessionConfig.describes.follows {}).run_iff hvalue htext).symm⟩

/-- The name of the port is enough, also behind a key that is not known. -/
theorem port_among_unknown_keys_loaded :
    ∃ c, ToolConfig.load "\x7b\x22x\x22:[null] ,\x22port\x22: \x22tty\x22\n\x7d" = .ok c ∧
      c.device = "tty" ∧ c.baudRate = 115200 ∧ c.session = {} := by
  have hspace : IsBlanks [' '] := by simp [IsBlanks]
  have hline : IsBlanks ['\n'] := by simp [IsBlanks]
  have hitems : Enclosed .list ["null".toList] "[null]".toList :=
    .mk (.part (.first isBlanks_nil) (.close isBlanks_nil))
  have hnulls : IsValue "[null]".toList := .bracket hitems (.cons .item .nil)
    (List.forall_mem_singleton.2 (.word (by decide)))
  have hvalue : SpellsText "tty" "\x22tty\x22".toList := .mk (.of_plain (by simp [IsPlain]))
  have hx : IsKeyed ("x", "[null]".toList) _ :=
    .mk (.of_plain (by simp [IsPlain])) (.mk isBlanks_nil isBlanks_nil)
  have hport : IsKeyed ("port", "\x22tty\x22".toList) _ :=
    .mk (.of_plain (by simp [IsPlain])) (.mk isBlanks_nil hspace)
  obtain ⟨cs, hobject, htext⟩ : ∃ cs,
      IsObject [("x", "[null]".toList), ("port", "\x22tty\x22".toList)] cs ∧
        IsText cs "\x7b\x22x\x22:[null] ,\x22port\x22: \x22tty\x22\n\x7d" := by
    refine ⟨_, ⟨⟨_, .mk (.part (.first isBlanks_nil) (.part (.further hspace isBlanks_nil)
      (.close hline))), .cons hx (.cons hport .nil)⟩, ?_⟩, [], [], isBlanks_nil, isBlanks_nil, ?_⟩
    · exact List.forall_mem_cons.2
        ⟨hnulls, List.forall_mem_singleton.2 (follows_text.isValue hvalue)⟩
    · decide
  have hvalid : ∀ slot ∈ ToolConfig.slots, ∀ value,
      (slot.key, value) ∈ [("x", "[null]".toList), ("port", "\x22tty\x22".toList)] →
        ∃ v, slot.spells v value := by
    simp only [ToolConfig.slots, List.forall_mem_cons]
    refine ⟨fun value hmem => ⟨"tty", ?_⟩, ?_⟩
    · have htty : value = "\x22tty\x22".toList := by simpa using hmem
      exact htty ▸ hvalue
    · simp
  obtain ⟨c, hload, hfields⟩ :=
    configurations_loaded.2.1.accepted hobject htext (by decide) hvalid (by decide)
  simp only [ToolConfig.slots, List.forall_mem_cons] at hfields
  obtain ⟨⟨hgiven, -⟩, ⟨-, hbaud⟩, -, -, -, -, ⟨-, hsession⟩, -⟩ := hfields
  exact ⟨c, hload, hgiven _ _ (by simp) hvalue, hbaud (by decide), hsession (by decide)⟩

/-- Eight bits do not hold 256. -/
example : (ToolConfig.load "\x7b\x22port\x22:\x22tty\x22,\x22permit_join\x22:256\x7d").toOption =
    none := by
  decide +kernel

end ZigbeeHost
