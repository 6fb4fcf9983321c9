import Mathlib.Data.List.Forall2
import TagPrompt.CommandLine.Run
import TagPrompt.Proofs.Toml.Tables

/-! Settings there and back. The text of settings is a text of lines; it is read as the tables of
the sections, and the fields in these give the settings. -/

namespace TagPrompt

open TomlReader TomlEntries
open TomlValue (fieldOr)

variable {name key t value written : Text} {names : List Text} {values : List (Option TomlValue)}
  {texts : List (Option Text)} {statements : List Statement}

/-! ### Sections as lines -/

/-- Each value of a record stands in one of its texts; a field without a value has no text. -/
abbrev Written (values : List (Option TomlValue)) (texts : List (Option Text)) : Prop :=
  List.Forall₂ (Option.Rel Writes) values texts

theorem reads_fieldLine {value : TomlValue} (hkey : IsBare key) (h : Writes value written)
    (ht : Reads t statements) :
    Reads (fieldLine key written ++ t) (.pair (pairOf (key, value)) :: statements) := by
  have hread : ∀ rest, readStatement (fieldLine key written ++ rest) =
      some (.pair (pairOf (key, value)), rest) := by
    intro rest
    have hline := readStatement_pair hkey h rest
    rw [fieldLine, List.append_assoc, List.append_assoc, List.append_assoc, List.singleton_append]
    exact hline
  have hreturn : '\r' ∉ fieldLine key written := by
    have hchars : '\r' ∉ key := fun hmem => nomatch hkey.chars _ hmem
    rw [fieldLine]
    simp [hchars, h.noReturn]
  obtain ⟨c, more, rfl⟩ := List.exists_cons_of_ne_nil hkey.nonEmpty
  exact .line (Or.inl (hkey.chars c List.mem_cons_self)) hreturn hread ht

theorem fieldLines_cons (name written : Text) (names : List Text) (texts : List (Option Text)) :
    fieldLines (name :: names) (some written :: texts) =
      fieldLine name written ++ fieldLines names texts := rfl

theorem reads_fieldLines (hnames : ∀ name ∈ names, IsBare name) (h : Written values texts)
    (ht : Reads t statements) :
    Reads (fieldLines names texts ++ t)
      ((ofFields names values).map (fun entry => .pair (pairOf entry)) ++ statements) := by
  induction h generalizing names with
  | nil =>
      cases names <;> exact ht
  | cons hfield _ ih =>
      cases names with
      | nil => exact ht
      | cons name names =>
          obtain ⟨hname, hrest⟩ := List.forall_mem_cons.mp hnames
          cases hfield with
          | none => exact ih hrest
          | some hvalue =>
              rw [fieldLines_cons, List.append_assoc, ofFields_some]
              exact reads_fieldLine hname hvalue (ih hrest)

theorem reads_section (name : Text) (names : List Text) (hname : IsBare name)
    (hnames : ∀ key ∈ names, IsBare key) (h : Written values texts) (ht : Reads t statements) :
    Reads (underHeader name (fieldLines names texts) ++ t)
      (statementsOf (name, ofFields names values) ++ statements) := by
  have hheader : '[' :: (name ++ [']', '\n']) ++ (fieldLines names texts ++ t) =
      underHeader name (fieldLines names texts) ++ t := by
    simp [underHeader]
  have hread : ∀ rest, readStatement ('[' :: (name ++ [']', '\n']) ++ rest) =
      some (.header false [] name, rest) := by
    intro rest
    have hline := readStatement_header hname rest
    rw [List.cons_append, List.append_assoc]
    exact hline
  have hreturn : '\r' ∉ '[' :: (name ++ [']', '\n']) := by
    have hchars : '\r' ∉ name := fun hmem => nomatch hname.chars _ hmem
    simp [hchars]
  rw [← hheader]
  exact .line (Or.inr rfl) hreturn hread (reads_fieldLines hnames h ht)

/-! ### What the sections hold -/

def SourceSettings.fieldValues (s : SourceSettings) : List (Option TomlValue) :=
  [some (.string s.positionsUrl), some (.string s.corpusUrl),
    some (.integer s.timeoutSecs.toNat), some (.integer s.promptWindowBytes.toNat)]

def DataSettings.fieldValues (s : DataSettings) : List (Option TomlValue) :=
  [some (.string s.tagIndexPath), s.categoriesPath.map .string, s.wildcardDir.map .string]

def GenerationOptions.fieldValues (options : GenerationOptions) : List (Option TomlValue) :=
  options.flags.map fun flag => some (.boolean flag)

def LoggingSettings.fieldValues (s : LoggingSettings) : List (Option TomlValue) :=
  [some (.string s.level)]

theorem rel_map_write (t : Option Text) :
    Option.Rel Writes (t.map TomlValue.string) (t.map TomlString.write) := by
  cases t with
  | none => exact .none
  | some t => exact .some (writes_string t)

theorem written_flags (flags : List Bool) :
    Written (flags.map fun flag => some (.boolean flag))
      (flags.map fun flag => some (flagText flag)) := by
  rw [Written, List.forall₂_map_left_iff, List.forall₂_map_right_iff, List.forall₂_same]
  exact fun flag _ => .some (writes_flag flag)

/-- The tables of settings. -/
def Settings.tables (s : Settings) : List Named :=
  Settings.keys.zip
    [ofFields SourceSettings.keys s.source.fieldValues,
      ofFields DataSettings.keys s.data.fieldValues,
      ofFields GenerationOptions.keys s.pipeline.fieldValues,
      ofFields LoggingSettings.keys s.logging.fieldValues]

theorem reads_render (s : Settings) (ht : Reads t []) :
    Reads (s.render ++ t) (s.tables.flatMap statementsOf) := by
  have hsource : Written s.source.fieldValues [some (TomlString.write s.source.positionsUrl),
      some (TomlString.write s.source.corpusUrl), some (Text.ofNat s.source.timeoutSecs.toNat),
      some (Text.ofNat s.source.promptWindowBytes.toNat)] :=
    .cons (.some (writes_string _)) (.cons (.some (writes_string _))
      (.cons (.some (writes_ofNat _)) (.cons (.some (writes_ofNat _)) .nil)))
  have hdata : Written s.data.fieldValues [some (TomlString.write s.data.tagIndexPath),
      s.data.categoriesPath.map TomlString.write, s.data.wildcardDir.map TomlString.write] :=
    .cons (.some (writes_string _)) (.cons (rel_map_write _) (.cons (rel_map_write _) .nil))
  have hpipeline := written_flags s.pipeline.flags
  have hlogging : Written s.logging.fieldValues [some (TomlString.write s.logging.level)] :=
    .cons (.some (writes_string _)) .nil
  -- the sections from the last to the first, an empty line in front of all but the first
  have hlast := reads_section "logging".toList LoggingSettings.keys (by decide) (by decide)
    hlogging ht
  have hthird := reads_section "pipeline".toList GenerationOptions.keys (by decide) (by decide)
    hpipeline (.emptyLine hlast)
  have hsecond := reads_section "data".toList DataSettings.keys (by decide) (by decide)
    hdata (.emptyLine hthird)
  have hfirst := reads_section "source".toList SourceSettings.keys (by decide) (by decide)
    hsource (.emptyLine hsecond)
  have hrender : s.render ++ t = underHeader "source".toList s.source.render ++
      '\n' :: (underHeader "data".toList s.data.render ++
      '\n' :: (underHeader "pipeline".toList s.pipeline.render ++
      '\n' :: (underHeader "logging".toList s.logging.render ++ t))) := by
    simp [Settings.render, Settings.keys, Text.join]
  rw [hrender]
  exact hfirst

/-! ### Settings from their tables -/

theorem SourceSettings.nodup_keys : keys.Nodup := by decide
theorem DataSettings.nodup_keys : keys.Nodup := by decide
theorem GenerationOptions.nodup_keys : keys.Nodup := by decide
theorem LoggingSettings.nodup_keys : keys.Nodup := by decide
theorem Settings.nodup_keys : keys.Nodup := by decide

theorem count?_toNat (n : UInt64) : TomlValue.count? (.integer n.toNat) = some n := by
  have hbounds : (decide (0 ≤ (n.toNat : Int)) && decide ((n.toNat : Int).toNat < UInt64.size)) =
      true := by
    rw [Bool.and_eq_true, decide_eq_true_eq, decide_eq_true_eq, Int.toNat_natCast]
    exact ⟨Int.natCast_nonneg _, n.toNat_lt⟩
  rw [TomlValue.count?, if_pos hbounds, Int.toNat_natCast]
  exact congrArg some UInt64.ofNat_toNat

theorem SourceSettings.ofToml_fieldValues (s : SourceSettings) :
    ofToml (.table .header (ofFields keys s.fieldValues)) = some s := by
  rw [ofToml, fields?_ofFields nodup_keys rfl]
  simp [fieldValues, fieldOr, TomlValue.text?, count?_toNat]

theorem DataSettings.ofToml_fieldValues (s : DataSettings) :
    ofToml (.table .header (ofFields keys s.fieldValues)) = some s := by
  rw [ofToml, fields?_ofFields nodup_keys rfl]
  obtain ⟨tagIndexPath, categoriesPath, wildcardDir⟩ := s
  cases categoriesPath <;> cases wildcardDir <;> rfl

theorem mapM_flags {absent flags : List Bool} (h : absent.length = flags.length) :
    (absent.zip (flags.map fun flag => some (.boolean flag))).mapM
      (fun field => fieldOr field.1 TomlValue.flag? field.2) = some flags := by
  induction flags generalizing absent with
  | nil =>
      rw [List.length_eq_zero_iff.mp h]
      rfl
  | cons flag flags ih =>
      obtain ⟨first, absent, rfl⟩ := List.exists_cons_of_length_eq_add_one h
      rw [List.map_cons, List.zip_cons_cons, List.mapM_cons, ih (Nat.succ.inj h)]
      rfl

theorem GenerationOptions.ofToml_fieldValues (options : GenerationOptions) :
    ofToml (.table .header (ofFields keys options.fieldValues)) = some options := by
  have hlength : ({} : GenerationOptions).flags.length = options.flags.length := rfl
  rw [ofToml, fields?_ofFields nodup_keys rfl]
  simp only [Option.bind_eq_bind, Option.bind_some]
  rw [fieldValues, mapM_flags hlength]
  rfl

theorem LoggingSettings.ofToml_fieldValues (s : LoggingSettings) :
    ofToml (.table .header (ofFields keys s.fieldValues)) = some s := by
  rw [ofToml, fields?_ofFields nodup_keys rfl]
  rfl

namespace Settings

theorem ofToml_tables (s : Settings) :
    ofToml (.table .header (s.tables.map entryOf)) = some s := by
  have hfields : s.tables.map entryOf = ofFields keys
      [some (.table .header (ofFields SourceSettings.keys s.source.fieldValues)),
        some (.table .header (ofFields DataSettings.keys s.data.fieldValues)),
        some (.table .header (ofFields GenerationOptions.keys s.pipeline.fieldValues)),
        some (.table .header (ofFields LoggingSettings.keys s.logging.fieldValues))] := rfl
  rw [ofToml, hfields, fields?_ofFields nodup_keys rfl]
  simp [fieldOr, SourceSettings.ofToml_fieldValues, DataSettings.ofToml_fieldValues,
    GenerationOptions.ofToml_fieldValues, LoggingSettings.ofToml_fieldValues]

theorem ofToml_parse_render (s : Settings) (ht : Reads t []) :
    (TomlValue.parse (s.render ++ t)).bind ofToml = some s := by
  have hnames : (s.tables.map Prod.fst).Nodup := nodup_keys
  have hkeys : ∀ named ∈ s.tables, (named.2.map Prod.fst).Nodup := by
    have hfields : ∀ {names : List Text} values, names.Nodup →
        ((ofFields names values).map Prod.fst).Nodup :=
      fun values hnodup => (keys_ofFields_sublist _ values).nodup hnodup
    simp only [tables, keys, List.map_cons, List.map_nil, List.zip_cons_cons, List.zip_nil_left,
      List.forall_mem_cons]
    exact ⟨hfields _ SourceSettings.nodup_keys, hfields _ DataSettings.nodup_keys,
      hfields _ GenerationOptions.nodup_keys, hfields _ LoggingSettings.nodup_keys, nofun⟩
  rw [parse_of_reads (reads_render s ht) hnames hkeys, Option.bind_some, ofToml_tables]

/-! ### Settings that were read -/

theorem parse_eq_ok_iff {text : Text} {s : Settings} :
    parse text = .ok s ↔ (TomlValue.parse text).bind ofToml = some s ∧ s.fault? = none := by
  rw [parse]
  cases (TomlValue.parse text).bind ofToml with
  | none => exact ⟨nofun, nofun⟩
  | some found =>
      dsimp only
      rw [check, Option.some.injEq]
      cases hfault : found.fault? with
      | none =>
          constructor
          · intro h
            obtain rfl := Except.ok.inj h
            exact ⟨rfl, hfault⟩
          · rintro ⟨rfl, -⟩
            rfl
      | some fault =>
          refine ⟨nofun, ?_⟩
          rintro ⟨rfl, hnone⟩
          rw [hfault] at hnone
          cases hnone

/-- Settings that a run can have: the defaults, or what some text gives. -/
def Loadable (s : Settings) : Prop := s = {} ∨ ∃ text, parse text = .ok s

theorem Loadable.fault?_eq_none {s : Settings} (h : s.Loadable) : s.fault? = none := by
  rcases h with rfl | ⟨text, h⟩
  · decide
  · exact (parse_eq_ok_iff.mp h).2

theorem parse_render {s : Settings} (h : s.Loadable) (ht : Reads t []) :
    parse (s.render ++ t) = .ok s :=
  parse_eq_ok_iff.mpr ⟨ofToml_parse_render s ht, h.fault?_eq_none⟩

/-- What is printed has one more line end behind it. -/
theorem toList_output_config (s : Settings) (path : Text) :
    (Environment.config s path true).output.toList = s.render ++ ['\n'] := by
  simp [Environment.config, Transcript.output, String.join]

theorem run_shows {env : Environment} {arguments : List Text} {invocation : Invocation}
    {s : Settings} (hparse : Invocation.parse arguments = .ok invocation)
    (hcommand : invocation.command = .config true)
    (hload : loadIfThere env.files invocation.settingsPath = .ok s) :
    env.run arguments = Environment.config s invocation.settingsPath true := by
  simp only [Environment.run, hparse, hload, Environment.execute, hcommand]

end Settings

/-- **Shown settings load back.** The text of settings that are the defaults or were read from a
text is read as the same settings, whatever characters stand in them and whichever of the paths are
set; so is what the program prints when it shows the settings that it runs with. -/
theorem shown_settings_load_back (s : Settings) (h : s.Loadable) :
    Settings.parse s.render = .ok s ∧
      ∀ (env : Environment) (arguments : List Text) (invocation : Invocation),
        Invocation.parse arguments = .ok invocation → invocation.command = .config true →
        Settings.loadIfThere env.files invocation.settingsPath = .ok s →
          Settings.parse (env.run arguments).output.toList = .ok s := by
  constructor
  · have hparse := Settings.parse_render h .nil
    rwa [List.append_nil] at hparse
  · intro env arguments invocation hparse hcommand hload
    rw [Settings.run_shows hparse hcommand hload, Settings.toList_output_config]
    exact Settings.parse_render h (.emptyLine .nil)

/-- A path with both kinds of quotes, a backslash, a line end and a control character, and one
path that is not set. -/
theorem shown_settings_load_back_quotes :
    let text : Text := "[data]\nwildcard_dir = \"\\\"\x27\\\\\\n\\u0001\"\n".toList
    let s : Settings := { data := { wildcardDir := some ['"', '\'', '\\', '\n', '\x01'] } }
    let env : Environment :=
      { files := FileTree.put {} ['f'] (Utf8.encode text), web := fun _ _ => .closed, seed := 0 }
    Settings.parse text = .ok s ∧ Settings.parse s.render = .ok s ∧
      Settings.parse (env.run [['-', 'c', 'f'], "config".toList, "--show".toList]).output.toList =
        .ok s := by
  intro text s env
  have hparse : Settings.parse text = .ok s := by
    decide +kernel
  have hload : Settings.loadIfThere env.files ['f'] = .ok s := by
    decide +kernel
  obtain ⟨hrendered, hprinted⟩ := shown_settings_load_back s (Or.inr ⟨text, hparse⟩)
  exact ⟨hparse, hrendered, hprinted env _ ⟨['f'], .config true⟩ rfl rfl hload⟩

end TagPrompt
