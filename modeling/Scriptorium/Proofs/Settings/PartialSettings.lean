import Scriptorium.Proofs.Json.Grammar
import Scriptorium.Proofs.Json.PartialRecords
import Scriptorium.Proofs.Settings.CommentLines
import Scriptorium.Proofs.Settings.SaveAndLoad

/-!
# Settings that name some keys

A text may name some of the settings, and some of the assistant's, in any order and layout and among unknown keys. It
gives the defaults with what it names replaced, and nothing if it names a setting twice (`partial_settings`).
-/

namespace Scriptorium

open Json

variable {key k : String} {keys : List String} {inner members : List (String × Json)} {text : String}

theorem ite_mem_cons {α : Type} (a b : α) :
    (if key ∈ keys then a else if key ∈ [k] then a else b) = if key ∈ k :: keys then a else b := by
  simp only [List.mem_cons, List.not_mem_nil, or_false]
  by_cases h : key = k <;> by_cases h' : key ∈ keys <;> simp [h, h']

/-! ## The assistant's settings -/

namespace AssistSettings

/-- The members that write the settings. -/
def entries (s : AssistSettings) : List (String × Json) :=
  [("provider", .str s.provider.label), ("model", .str s.model), ("privacy_mode", .bool s.privacyMode),
   ("endpoint", ofOption .str s.endpoint?), ("request_timeout_secs", .int s.requestTimeoutSecs.toNat)]

/-- The settings with those of `s` under some keys. -/
def replaced (t : AssistSettings) (keys : List String) (s : AssistSettings) : AssistSettings where
  provider := if "provider" ∈ keys then s.provider else t.provider
  model := if "model" ∈ keys then s.model else t.model
  privacyMode := if "privacy_mode" ∈ keys then s.privacyMode else t.privacyMode
  endpoint? := if "endpoint" ∈ keys then s.endpoint? else t.endpoint?
  requestTimeoutSecs := if "request_timeout_secs" ∈ keys then s.requestTimeoutSecs else t.requestTimeoutSecs

theorem replaces (s : AssistSettings) : Replaces fields s.entries fun t keys => t.replaced keys s where
  none t := rfl
  more t key keys := by simp only [replaced, ite_mem_cons]
  unknown t key h := by
    simp only [entries, Json.keys, List.map_cons, List.map_nil, List.mem_cons, List.not_mem_nil, or_false, not_or] at h
    simp [replaced, @eq_comm _ _ key, h]
  read := by
    refine .cons ⟨rfl, fun t => ?_⟩ <| .cons ⟨rfl, fun t => ?_⟩ <| .cons ⟨rfl, fun t => ?_⟩ <|
      .cons ⟨rfl, fun t => ?_⟩ <| .cons ⟨rfl, fun t => ?_⟩ .nil
    · exact RecordField.read_of (Provider.lookup_label s.provider) t
    · exact RecordField.read_of (asString?_str s.model) t
    · exact RecordField.read_of (asBool?_bool s.privacyMode) t
    · exact RecordField.read_of (asOption?_ofOption s.endpoint?) t
    · exact RecordField.read_of (asUInt64?_toNat s.requestTimeoutSecs) t

end AssistSettings

/-! ## The settings -/

namespace Settings

/-- The members that write the settings, with the assistant's members given. -/
def entries (s : Settings) (inner : List (String × Json)) : List (String × Json) :=
  [("scripting.timeoutSecs", .int s.timeoutSecs.toNat), ("scripting.instructionLimit", .int s.instructionLimit.toInt),
   ("scripting.maxOutputLines", .int s.maxOutputLines.toNat), ("scripting.busyPolicy", .str s.busyPolicy.label),
   ("scripting.searchPaths", .arr (s.searchPaths.map .str)),
   ("scripting.disabledNamespaces", .arr (s.disabledNamespaces.map .str)), ("log.toFile", .bool s.logToFile),
   ("log.dir", ofOption .str s.logDirectory?), ("log.retentionDays", .int s.logRetentionDays.toNat),
   ("ai", .obj inner)]

/-- The settings with those of `s` under some keys. -/
def replaced (t : Settings) (keys : List String) (s : Settings) : Settings where
  timeoutSecs := if "scripting.timeoutSecs" ∈ keys then s.timeoutSecs else t.timeoutSecs
  instructionLimit := if "scripting.instructionLimit" ∈ keys then s.instructionLimit else t.instructionLimit
  maxOutputLines := if "scripting.maxOutputLines" ∈ keys then s.maxOutputLines else t.maxOutputLines
  busyPolicy := if "scripting.busyPolicy" ∈ keys then s.busyPolicy else t.busyPolicy
  searchPaths := if "scripting.searchPaths" ∈ keys then s.searchPaths else t.searchPaths
  disabledNamespaces := if "scripting.disabledNamespaces" ∈ keys then s.disabledNamespaces else t.disabledNamespaces
  logToFile := if "log.toFile" ∈ keys then s.logToFile else t.logToFile
  logDirectory? := if "log.dir" ∈ keys then s.logDirectory? else t.logDirectory?
  logRetentionDays := if "log.retentionDays" ∈ keys then s.logRetentionDays else t.logRetentionDays
  assist := if "ai" ∈ keys then s.assist else t.assist

/-- The settings whose assistant has the defaults but for the settings of `s` under some keys. -/
def withAssist (s : Settings) (keys : List String) : Settings :=
  { s with assist := ({} : AssistSettings).replaced keys s.assist }

theorem decode?_assist {s : AssistSettings} (h : Chosen s.entries inner) :
    decode? AssistSettings.fields {} (.obj inner) = some (({} : AssistSettings).replaced (Json.keys inner) s) :=
  s.replaces.decode?_of_chosen h {}

theorem replaces {s : Settings} (h : Chosen s.assist.entries inner) :
    Replaces fields (s.entries inner) fun t keys => t.replaced keys (s.withAssist (Json.keys inner)) where
  none t := rfl
  more t key keys := by simp only [replaced, ite_mem_cons]
  unknown t key h := by
    simp only [entries, Json.keys, List.map_cons, List.map_nil, List.mem_cons, List.not_mem_nil, or_false, not_or] at h
    simp [replaced, @eq_comm _ _ key, h]
  read := by
    refine .cons ⟨rfl, fun t => ?_⟩ <| .cons ⟨rfl, fun t => ?_⟩ <| .cons ⟨rfl, fun t => ?_⟩ <|
      .cons ⟨rfl, fun t => ?_⟩ <| .cons ⟨rfl, fun t => ?_⟩ <| .cons ⟨rfl, fun t => ?_⟩ <|
      .cons ⟨rfl, fun t => ?_⟩ <| .cons ⟨rfl, fun t => ?_⟩ <| .cons ⟨rfl, fun t => ?_⟩ <|
      .cons ⟨rfl, fun t => ?_⟩ .nil
    · exact RecordField.read_of (asUInt64?_toNat s.timeoutSecs) t
    · exact RecordField.read_of (asInt64?_toInt s.instructionLimit) t
    · exact RecordField.read_of (asUInt64?_toNat s.maxOutputLines) t
    · exact RecordField.read_of (BusyPolicy.lookup_label s.busyPolicy) t
    · exact RecordField.read_of (asList?_str s.searchPaths) t
    · exact RecordField.read_of (asList?_str s.disabledNamespaces) t
    · exact RecordField.read_of (asBool?_bool s.logToFile) t
    · exact RecordField.read_of (asOption?_ofOption s.logDirectory?) t
    · exact RecordField.read_of (asUInt32?_toNat s.logRetentionDays) t
    · exact RecordField.read_of (decode?_assist h) t

/-! ## Texts -/

/-- A setting is named twice, at the top or in an object of the assistant's settings. -/
def NamesTwice (members : List (String × Json)) : Prop :=
  Repeats fields members ∨ ∃ inner, ("ai", .obj inner) ∈ members ∧ Repeats AssistSettings.fields inner

theorem ofJson?_of_namesTwice (h : NamesTwice members) : ofJson? (.obj members) = none := by
  have hfind : fields.find? (·.key == "ai") = some _ := rfl
  rcases h with h | ⟨inner, hmem, h⟩
  · exact decode?_of_repeats h {}
  · rw [ofJson?, decode?]
    split
    · rfl
    · refine readKeyed_eq_none hmem hfind (fun t => ?_) {}
      show (decode? AssistSettings.fields {} (.obj inner)).map _ = none
      rw [decode?_of_repeats h, Option.map_none]

/-- A text that writes a value has no lines of comments. -/
theorem parse?_of_writesText {v : Json} (h : WritesText v text) : parse? text = ofJson? v := by
  obtain ⟨hclear, hcuts⟩ := clear_of_read? h.read?
  rw [parse?_of_not_isComment text (not_isComment_of_clear hclear hcuts), readStrict?, h.read?, Option.bind_some]

/-- **Partial settings override exactly what they name.** Let a text write an object, in any layout. If its members with
known keys write settings of `s`, each at most once, with the object of the assistant naming some of the settings of
that, the text is read as the defaults with what is named replaced; other members do not matter, whatever their keys and
values are. If a setting is named twice, the text is not read, and a file that holds it loads as the defaults. -/
theorem partial_settings (h : WritesText (.obj members) text) :
    (∀ s : Settings, ∀ inner, Chosen (s.entries inner) members → Chosen s.assist.entries inner →
      parse? text = some (({} : Settings).replaced (Json.keys members) (s.withAssist (Json.keys inner)))) ∧
    (NamesTwice members → parse? text = none ∧
      ∀ disk path, disk.readText path = .ok text → loadFrom disk path = ({}, [.malformed path])) := by
  have hparse := parse?_of_writesText h
  refine ⟨fun s inner hmembers hinner => ?_, fun htwice => ?_⟩
  · rw [hparse]
    exact (replaces hinner).decode?_of_chosen hmembers {}
  · rw [ofJson?_of_namesTwice htwice] at hparse
    refine ⟨hparse, fun disk path htext => ?_⟩
    rw [loadFrom, htext]
    simp only [hparse]

/-- Unknown keys at both levels around a setting of the assistant, and the same setting named twice. -/
theorem partial_settings_mixed :
    parse? "\x7b\"?\":[0],\"ai\":\x7b\"model\":\"m\",\"?\":null\x7d\x7d" = some { assist := { model := "m" } } ∧
      parse? "\x7b\"ai\":\x7b\"model\":\"m\",\"model\":null\x7d\x7d" = none := by
  have hm : Writes (.str "m") "\"m\"".toList := .str (@Spells.self "m".toList (by simp))
  have hzero : Writes (.int 0) "0".toList :=
    @Writes.number "0".toList [] [] false ⟨by simp, by simp, by simp, .inl rfl, .inl rfl⟩
  have hitems : Writes (.arr [.int 0]) "[0]".toList :=
    @Writes.items [(.int 0, .bare "0".toList)] (by simp) (List.forall_mem_singleton.2 hzero)
  have hinner : Writes (.obj [("model", .str "m"), ("?", .null)]) "\x7b\"model\":\"m\",\"?\":null\x7d".toList :=
    @Writes.members [(.str "m", .bare "model".toList "\"m\"".toList (by simp)),
      (.null, .bare "?".toList "null".toList (by simp))] (by simp)
      (List.forall_mem_cons.2 ⟨hm, List.forall_mem_singleton.2 .null⟩)
  have htext : WritesText (.obj [("?", .arr [.int 0]), ("ai", .obj [("model", .str "m"), ("?", .null)])])
      "\x7b\"?\":[0],\"ai\":\x7b\"model\":\"m\",\"?\":null\x7d\x7d" :=
    ⟨.bare _, rfl, @Writes.members [(_, .bare "?".toList "[0]".toList (by simp)),
      (_, .bare "ai".toList "\x7b\"model\":\"m\",\"?\":null\x7d".toList (by simp))] (by simp)
      (List.forall_mem_cons.2 ⟨hitems, List.forall_mem_singleton.2 hinner⟩)⟩
  have hmembers : Chosen (entries { assist := { model := "m" } } [("model", .str "m"), ("?", .null)])
      [("?", .arr [.int 0]), ("ai", .obj [("model", .str "m"), ("?", .null)])] :=
    ⟨by simp [entries], by decide⟩
  have hchosen : Chosen (AssistSettings.entries { model := "m" }) [("model", .str "m"), ("?", .null)] :=
    ⟨by simp [AssistSettings.entries], by decide⟩
  have hdouble : Writes (.obj [("model", .str "m"), ("model", .null)])
      "\x7b\"model\":\"m\",\"model\":null\x7d".toList :=
    @Writes.members [(.str "m", .bare "model".toList "\"m\"".toList (by simp)),
      (.null, .bare "model".toList "null".toList (by simp))] (by simp)
      (List.forall_mem_cons.2 ⟨hm, List.forall_mem_singleton.2 .null⟩)
  have hrepeated : WritesText (.obj [("ai", .obj [("model", .str "m"), ("model", .null)])])
      "\x7b\"ai\":\x7b\"model\":\"m\",\"model\":null\x7d\x7d" :=
    ⟨.bare _, rfl, @Writes.members
      [(_, .bare "ai".toList "\x7b\"model\":\"m\",\"model\":null\x7d".toList (by simp))] (by simp)
      (List.forall_mem_singleton.2 hdouble)⟩
  have htwice : NamesTwice [("ai", .obj [("model", .str "m"), ("model", .null)])] :=
    .inr ⟨_, List.mem_cons_self, _, List.mem_cons_of_mem _ List.mem_cons_self, by decide⟩
  exact ⟨(partial_settings htext).1 _ _ hmembers hchosen, ((partial_settings hrepeated).2 htwice).1⟩

end Settings

end Scriptorium
