import Highlight.Manifest.Basic
import Highlight.Proofs.JsonRoundTrip

/-!
# Manifests that are read back

A manifest that is written as JSON is read as the same manifest, with its grammars, embedded
languages and theme rules in the same order (`Manifest.parse?_render`). What is left out when a part
is written is what the part has where it is missing, so each part is read as it was written
(`ManifestGrammar.read?_value`, `RawTheme.read?_value`), and what is written has a JSON text
(`Manifest.writable_value`).
-/

namespace Highlight

open Value
open Json (Writable)

theorem Json.writable_text (s : String) : Writable (.text s) := .scalar (.text s)

theorem Json.writable_texts (l : List String) : Writable (.list (l.map .text)) := by
  apply Built.list
  intro v hv
  obtain ⟨s, -, rfl⟩ := List.mem_map.1 hv
  exact writable_text s

/-! ## Themes -/

namespace RawThemeScope

theorem read?_value (s : RawThemeScope) : read? s.value = some s := by
  cases s with
  | one t => rfl
  | many ts =>
    show ((ts.map .text).mapM string?).map many = some (many ts)
    have hread : (ts.map .text).mapM string? = some ts :=
      mapM_of_forall₂ (forall₂_map_right fun _ _ => rfl)
    rw [hread]
    rfl

theorem isNull_value (s : RawThemeScope) : s.value.isNull = false := by
  cases s <;> rfl

theorem writable_value (s : RawThemeScope) : Writable s.value := by
  cases s with
  | one t => exact Json.writable_text t
  | many ts => exact Json.writable_texts ts

end RawThemeScope

namespace RawThemeSettings

/-- The fields of a style. -/
def fields (s : RawThemeSettings) : List (String × Option Value) :=
  [("foreground", s.foreground.map .text), ("background", s.background.map .text),
    ("fontStyle", s.fontStyle.map .text)]

theorem value_eq (s : RawThemeSettings) : s.value = .dict (entries s.fields) := by
  simp [value, fields, entries]

theorem nodup_fields (s : RawThemeSettings) : (s.fields.map (·.1)).Nodup := by
  show ["foreground", "background", "fontStyle"].Nodup
  decide

/-- A style is read as it was written. -/
theorem read?_value (s : RawThemeSettings) : read? s.value = some s := by
  have hrecord : record? true ["foreground", "background", "fontStyle"]
      (.dict (entries s.fields)) = some (present s.fields) :=
    record?_entries true rfl s.nodup_fields
  have hforeground : optional? (present s.fields) "foreground" string? = some s.foreground :=
    optional?_text s.nodup_fields rfl
  have hbackground : optional? (present s.fields) "background" string? = some s.background :=
    optional?_text s.nodup_fields rfl
  have hfontStyle : optional? (present s.fields) "fontStyle" string? = some s.fontStyle :=
    optional?_text s.nodup_fields rfl
  rw [value_eq, read?, jsonRules]
  simp only [hrecord, hforeground, hbackground, hfontStyle, Option.bind_eq_bind, Option.bind_some]
  rfl

end RawThemeSettings

theorem Json.writable_of_map_text {a : Option String} {v : Value} (h : v ∈ a.map Value.text) :
    Writable v := by
  obtain ⟨s, -, rfl⟩ := Option.map_eq_some_iff.1 h
  exact writable_text s

/-- A record has a JSON text if its fields have. -/
theorem Json.writable_entries {fs : List (String × Option Value)}
    (h : ∀ f ∈ fs, ∀ v ∈ f.2, Writable v) : Writable (.dict (entries fs)) :=
  built_entries (fun f _ => .text f.1) h

theorem RawThemeSettings.writable_value (s : RawThemeSettings) : Writable s.value := by
  rw [value_eq]
  apply Json.writable_entries
  intro f hf v hv
  simp only [fields, List.mem_cons, List.not_mem_nil, or_false] at hf
  rcases hf with rfl | rfl | rfl <;> exact Json.writable_of_map_text hv

namespace RawThemeRule

/-- The fields of a rule. -/
def fields (r : RawThemeRule) : List (String × Option Value) :=
  [("name", r.name.map .text), ("scope", r.scope.map RawThemeScope.value),
    ("settings", some r.settings.value)]

theorem value_eq (r : RawThemeRule) : r.value = .dict (entries r.fields) := by
  simp [value, fields, entries, optionalEntry]

theorem nodup_fields (r : RawThemeRule) : (r.fields.map (·.1)).Nodup := by
  show ["name", "scope", "settings"].Nodup
  decide

/-- A rule is read as it was written. -/
theorem read?_value (r : RawThemeRule) : read? r.value = some r := by
  have hrecord : record? true ["name", "scope", "settings"] (.dict (entries r.fields)) =
      some (present r.fields) :=
    record?_entries true rfl r.nodup_fields
  have hname : optional? (present r.fields) "name" string? = some r.name :=
    optional?_text r.nodup_fields rfl
  have hscope : optional? (present r.fields) "scope" RawThemeScope.read? = some r.scope :=
    optional?_present r.nodup_fields rfl fun s _ => ⟨s.isNull_value, s.read?_value⟩
  have hsettings : default? (present r.fields) "settings" RawThemeSettings.read? .unset =
      some r.settings :=
    default?_present r.nodup_fields rfl (fun _ h => Option.some.inj h ▸ r.settings.read?_value)
      nofun
  rw [value_eq, read?, jsonRules]
  simp only [hrecord, hname, hscope, hsettings, Option.bind_eq_bind, Option.bind_some]
  rfl

theorem writable_value (r : RawThemeRule) : Writable r.value := by
  rw [value_eq]
  apply Json.writable_entries
  intro f hf v hv
  simp only [fields, List.mem_cons, List.not_mem_nil, or_false] at hf
  rcases hf with rfl | rfl | rfl
  · exact Json.writable_of_map_text hv
  · obtain ⟨s, -, rfl⟩ := Option.map_eq_some_iff.1 hv
    exact s.writable_value
  · cases hv
    exact r.settings.writable_value

end RawThemeRule

namespace RawTheme

/-- The fields of a theme. -/
def fields (t : RawTheme) : List (String × Option Value) :=
  [("name", t.name.map .text), ("settings", some (.list (t.settings.map RawThemeRule.value)))]

theorem value_eq (t : RawTheme) : t.value = .dict (entries t.fields) := by
  simp [value, fields, entries, optionalEntry]

theorem nodup_fields (t : RawTheme) : (t.fields.map (·.1)).Nodup := by
  show ["name", "settings"].Nodup
  decide

/-- A theme is read as it was written. -/
theorem read?_value (t : RawTheme) : read? t.value = some t := by
  have hrecord : recordWith? [("tokenColors", "settings")] true ["name", "settings"]
      (.dict (entries t.fields)) = some (present t.fields) :=
    recordWith?_entries true rfl t.nodup_fields (by decide)
  have hname : optional? (present t.fields) "name" string? = some t.name :=
    optional?_text t.nodup_fields rfl
  have hsettings : default? (present t.fields) "settings" (list? RawThemeRule.read?) [] =
      some t.settings :=
    default?_present t.nodup_fields rfl
      (fun _ h => Option.some.inj h ▸ list?_map fun r _ => r.read?_value) nofun
  rw [value_eq, read?, jsonRules]
  simp only [hrecord, hname, hsettings, Option.bind_eq_bind, Option.bind_some]
  rfl

theorem writable_value (t : RawTheme) : Writable t.value := by
  rw [value_eq]
  apply Json.writable_entries
  intro f hf v hv
  simp only [fields, List.mem_cons, List.not_mem_nil, or_false] at hf
  rcases hf with rfl | rfl
  · exact Json.writable_of_map_text hv
  · cases hv
    apply Built.list
    intro v hv
    obtain ⟨r, -, rfl⟩ := List.mem_map.1 hv
    exact r.writable_value

end RawTheme

/-! ## Grammars -/

namespace ManifestGrammar

/-- The entries of a map of texts. -/
def texts (m : List (String × String)) : Value :=
  .dict (m.map fun e => (.text e.1, .text e.2))

/-- The fields of a grammar; what is empty is left out. -/
def fields (g : ManifestGrammar) : List (String × Option Value) :=
  [("language", g.language.map .text),
    ("injections", if g.injections.isEmpty then none else some (.list (g.injections.map .text))),
    ("embeddedLanguages",
      if g.embeddedLanguages.isEmpty then none else some (texts g.embeddedLanguages)),
    ("path", some (.text g.path))]

theorem value_eq (g : ManifestGrammar) : g.value = .dict (entries g.fields) := by
  unfold value fields entries texts
  split <;> split <;> simp [optionalEntry]

theorem nodup_fields (g : ManifestGrammar) : (g.fields.map (·.1)).Nodup := by
  show ["language", "injections", "embeddedLanguages", "path"].Nodup
  decide

/-- A grammar whose embedded languages are distinct is read as it was written. -/
theorem read?_value {g : ManifestGrammar} (h : (g.embeddedLanguages.map (·.1)).Nodup) :
    read? g.value = some g := by
  have hrecord : record? true ["language", "injections", "embeddedLanguages", "path"]
      (.dict (entries g.fields)) = some (present g.fields) :=
    record?_entries true rfl g.nodup_fields
  have hlanguage : optional? (present g.fields) "language" string? = some g.language :=
    optional?_text g.nodup_fields rfl
  have hinjections : default? (present g.fields) "injections" (list? string?) [] =
      some g.injections :=
    default?_nonempty g.nodup_fields rfl (list?_map fun _ _ => rfl)
  have hlanguages : default? (present g.fields) "embeddedLanguages" (map? string? string?) [] =
      some g.embeddedLanguages :=
    default?_nonempty g.nodup_fields rfl (map?_dict h fun _ _ => ⟨rfl, rfl⟩)
  have hpath : required? (present g.fields) "path" string? = some g.path :=
    required?_of_eq (lookup_present "path" g.nodup_fields) rfl
  rw [value_eq, read?, jsonRules]
  simp only [hrecord, hlanguage, hinjections, hlanguages, hpath, Option.bind_eq_bind,
    Option.bind_some]
  rfl

theorem writable_value (g : ManifestGrammar) : Writable g.value := by
  rw [value_eq]
  apply Json.writable_entries
  intro f hf v hv
  simp only [fields, List.mem_cons, List.not_mem_nil, or_false] at hf
  rcases hf with rfl | rfl | rfl | rfl
  · exact Json.writable_of_map_text hv
  · dsimp only at hv
    split at hv
    · cases hv
    · cases hv
      exact Json.writable_texts _
  · dsimp only at hv
    split at hv
    · cases hv
    · cases hv
      apply Built.dict <;> intro e he <;> obtain ⟨e', -, rfl⟩ := List.mem_map.1 he
      · exact .text e'.1
      · exact Json.writable_text e'.2
  · cases hv
    exact Json.writable_text _

end ManifestGrammar

/-! ## Manifests -/

namespace Manifest

/-- Whether the grammars of a manifest, and the embedded languages of each, have distinct keys. -/
structure Keyed (m : Manifest) : Prop where
  grammars : (m.grammars.map (·.1)).Nodup
  embeddedLanguages : ∀ e ∈ m.grammars, (e.2.embeddedLanguages.map (·.1)).Nodup

/-- The fields of a manifest. -/
def fields (m : Manifest) : List (String × Option Value) :=
  [("baseResourceURI", some (.text m.base)),
    ("grammars", some (.dict (m.grammars.map fun e => (.text e.1, e.2.value)))),
    ("configurations", some (.list (m.configurations.map .text))),
    ("theme", some m.theme.value)]

theorem value_eq (m : Manifest) : m.value = .dict (entries m.fields) := rfl

theorem nodup_fields (m : Manifest) : (m.fields.map (·.1)).Nodup := by
  show ["baseResourceURI", "grammars", "configurations", "theme"].Nodup
  decide

theorem read?_value {m : Manifest} (h : m.Keyed) : read? m.value = some m := by
  have hrecord : record? true ["baseResourceURI", "grammars", "configurations", "theme"]
      (.dict (entries m.fields)) = some (present m.fields) :=
    record?_entries true rfl m.nodup_fields
  have hbase : default? (present m.fields) "baseResourceURI" string? "" = some m.base :=
    default?_present m.nodup_fields rfl (fun _ hv => Option.some.inj hv ▸ rfl) nofun
  have hgrammars : default? (present m.fields) "grammars" (map? string? ManifestGrammar.read?) [] =
      some m.grammars :=
    default?_present m.nodup_fields rfl (fun _ hv => Option.some.inj hv ▸ map?_dict h.grammars
      fun e he => ⟨rfl, ManifestGrammar.read?_value (h.embeddedLanguages e he)⟩) nofun
  have hconfigurations : default? (present m.fields) "configurations" (list? string?) [] =
      some m.configurations :=
    default?_present m.nodup_fields rfl
      (fun _ hv => Option.some.inj hv ▸ list?_map fun _ _ => rfl) nofun
  have htheme : default? (present m.fields) "theme" RawTheme.read? .empty = some m.theme :=
    default?_present m.nodup_fields rfl (fun _ hv => Option.some.inj hv ▸ m.theme.read?_value)
      nofun
  rw [value_eq, read?, jsonRules]
  simp only [hrecord, hbase, hgrammars, hconfigurations, htheme, Option.bind_eq_bind,
    Option.bind_some]
  rfl

theorem writable_value (m : Manifest) : Writable m.value := by
  rw [value_eq]
  apply Json.writable_entries
  intro f hf v hv
  simp only [fields, List.mem_cons, List.not_mem_nil, or_false] at hf
  rcases hf with rfl | rfl | rfl | rfl <;> cases hv
  · exact Json.writable_text _
  · apply Built.dict <;> intro e he <;> obtain ⟨e', -, rfl⟩ := List.mem_map.1 he
    · exact .text e'.1
    · exact e'.2.writable_value
  · exact Json.writable_texts _
  · exact m.theme.writable_value

/-- A manifest with distinct keys that is written as JSON is read as the same manifest, whatever its
texts are: with the grammars, the embedded languages and the theme rules in the same order. -/
theorem parse?_render {m : Manifest} (h : m.Keyed) : parse? m.render = some m := by
  rw [parse?, render, Json.parse?_rendered m.writable_value, Option.bind_some, read?_value h]

/-- Pages embed scripts, and their theme has scopes in both forms and fields that are missing. -/
def pages : Manifest where
  base := "/res \"1\"\\"
  grammars := [
    ("scripts", ⟨some "script", [], [], "scripts.plist"⟩),
    ("pages", ⟨none, ["notes", "notes"], [("scripts.page", "script"), ("styles\n", "")], ""⟩)]
  configurations := ["script", "\x00\x1fé"]
  theme := ⟨none, [
    ⟨some "plain", none, ⟨some "#fff", none, none⟩⟩,
    ⟨none, some (.one "words, letters"), ⟨none, none, some "bold"⟩⟩,
    ⟨none, some (.many []), .unset⟩]⟩

theorem parse?_render_pages :
    (pages.grammars.map (·.1)).Nodup ∧
      (∀ e ∈ pages.grammars, (e.2.embeddedLanguages.map (·.1)).Nodup) ∧
      parse? pages.render = some pages := by
  have hgrammars : (pages.grammars.map (·.1)).Nodup := by decide
  have hlanguages : ∀ e ∈ pages.grammars, (e.2.embeddedLanguages.map (·.1)).Nodup := by decide
  exact ⟨hgrammars, hlanguages, parse?_render ⟨hgrammars, hlanguages⟩⟩

end Manifest

end Highlight
