import HardWrap.CommandLine.Wrap
import HardWrap.Proofs.LayeredSettings
import HardWrap.Proofs.Writing

/-! The options of the command that stand for settings. They are written as overrides and read back
with all layers, so each of them comes back as it was given, if a number is not too long for a
numeral and a name can stand in a list. -/

namespace HardWrap

/-! ### Numbers -/

namespace Numeral

theorem isDigit_bounds {c : Char} (h : c.isDigit = true) : 0x30 ≤ c.toNat ∧ c.toNat < 0x3a := by
  simp only [Char.isDigit, Bool.and_eq_true, decide_eq_true_eq] at h
  have hlow : (48 : UInt32).toNat ≤ c.val.toNat := h.1
  have hhigh : c.val.toNat ≤ (57 : UInt32).toNat := h.2
  exact ⟨hlow, Nat.lt_succ_of_le hhigh⟩

theorem digitValue?_of_isDigit {c : Char} (h : c.isDigit = true) :
    digitValue? c = some (c.toNat - '0'.toNat) := by
  obtain ⟨hlow, hhigh⟩ := isDigit_bounds h
  rw [digitValue?, digitZeros, List.find?_cons_of_pos (by simpa using ⟨hlow, hhigh⟩)]
  rfl

theorem isPadding_of_isDigit {c : Char} (h : c.isDigit = true) : isPadding c = false := by
  obtain ⟨hlow, hhigh⟩ := isDigit_bounds h
  have hblank : isBlank c = false := by
    simp only [isBlank, covers, blankRanges, List.any_eq_false, List.mem_cons, List.not_mem_nil,
      or_false, Bool.and_eq_true, decide_eq_true_eq]
    grind
  rw [isPadding, hblank, Bool.false_and]

variable {t : Text}

theorem trim_digits (h : ∀ c ∈ t, c.isDigit = true) : trim t = t := by
  have hkept : ∀ s : Text, (∀ c ∈ s, c.isDigit = true) → s.dropWhile isPadding = s := by
    intro s hs
    cases s with
    | nil => rfl
    | cons c rest =>
      rw [List.dropWhile_cons_of_neg]
      simp [isPadding_of_isDigit (hs c List.mem_cons_self)]
  rw [trim, hkept t h, hkept t.reverse (by simpa using h), List.reverse_reverse]

theorem ungroup_digits (h : ∀ c ∈ t, c.isDigit = true) (before : Bool) :
    ungroup before t = some t := by
  induction t generalizing before with
  | nil => rfl
  | cons c rest ih =>
    obtain ⟨hc, hrest⟩ := List.forall_mem_cons.mp h
    have hne : c ≠ '_' := by
      rintro rfl
      cases hc
    rw [ungroup, if_neg hne, ih hrest, Option.map_some]

theorem sign_digits (h : ∀ c ∈ t, c.isDigit = true) : sign t = (false, t) := by
  unfold sign
  split
  · cases h '-' List.mem_cons_self
  · cases h '+' List.mem_cons_self
  · rfl

theorem valueOf_digits (h : ∀ c ∈ t, c.isDigit = true) : valueOf t = Nat.ofDigitChars 10 t 0 := by
  refine List.foldl_ext _ _ _ fun n c hc => ?_
  rw [digitValue?_of_isDigit (h c hc), Option.getD_some]

theorem integer?_digits (hne : t ≠ []) (h : ∀ c ∈ t, c.isDigit = true)
    (hlength : t.length ≤ maxDigits) : integer? t = some (Nat.ofDigitChars 10 t 0 : Int) := by
  have hall : ∀ c ∈ t, isDigit c = true := by
    intro c hc
    rw [isDigit, digitValue?_of_isDigit (h c hc), Option.isSome_some]
  rw [integer?, trim_digits h, ungroup_digits h]
  simpa [sign_digits h, valueOf_digits h, signed, hne, hlength] using hall

end Numeral

theorem Value.ofText_digits {t : Text} (hne : t ≠ []) (h : ∀ c ∈ t, c.isDigit = true)
    (hlength : t.length ≤ Numeral.maxDigits) :
    ofText t = .int (Nat.ofDigitChars 10 t 0) := by
  have hlower : t.map Char.toLower = t := by
    refine (List.map_congr_left fun c hc => ?_).trans (List.map_id t)
    have hupper : ¬ (c.val ≥ 'A'.val ∧ c.val ≤ 'Z'.val) := by
      rintro ⟨hle, -⟩
      have hlow : 'A'.toNat ≤ c.toNat := hle
      have hhigh := (Numeral.isDigit_bounds (h c hc)).2
      exact absurd hhigh (Nat.not_lt.mpr (Nat.le_trans (by decide) hlow))
    exact dif_neg hupper
  have hword : ∀ word : String, (∃ c ∈ word.toList, c.isDigit = false) →
      String.ofList t ≠ word := by
    rintro word ⟨c, hc, hno⟩ rfl
    rw [String.toList_ofList] at hc
    exact absurd (h c hc) (by simp [hno])
  unfold ofText
  simp [hlower, hword "true" ⟨'t', by decide, rfl⟩, hword "false" ⟨'f', by decide, rfl⟩,
    Numeral.integer?_digits hne h hlength]

/-- A number that is not too long is read as it was written. -/
theorem Value.ofText_toString {n : Int} (hn : 0 ≤ n)
    (h : (Nat.toDigits 10 n.toNat).length ≤ Numeral.maxDigits) :
    ofText (toString n).toList = .int n := by
  obtain ⟨k, rfl⟩ := Int.eq_ofNat_of_zero_le hn
  have hdigits : ∀ c ∈ Nat.toDigits 10 k, c.isDigit = true :=
    fun c hc => Nat.isDigit_of_mem_toDigits (by decide) (by decide) hc
  have htext : (toString (k : Int)).toList = Nat.toDigits 10 k := by
    rw [show toString (k : Int) = toString k from rfl, Nat.toString_eq_ofList_toDigits,
      String.toList_ofList]
  rw [htext, ofText_digits Nat.toDigits_ne_nil hdigits h, Nat.ofDigitChars_ten_toDigits]

/-! ### Lists of names -/

namespace Text

theorem not_mem_of_mem_partsAt {separator : Char} {t part : Text}
    (h : part ∈ partsAt separator t) : separator ∉ part := by
  induction t generalizing part with
  | nil => simp_all [partsAt]
  | cons c rest ih =>
    rw [partsAt] at h
    by_cases hc : c = separator
    · rw [if_pos hc] at h
      rcases List.mem_cons.mp h with rfl | h
      · exact List.not_mem_nil
      · exact ih h
    · rw [if_neg hc] at h
      cases hparts : partsAt separator rest with
      | nil =>
        rw [hparts] at h
        simpa [List.mem_singleton.mp h] using Ne.symm hc
      | cons first more =>
        rw [hparts] at h
        rcases List.mem_cons.mp h with rfl | h
        · have := ih (hparts ▸ List.mem_cons_self)
          simp [this, Ne.symm hc]
        · exact ih (hparts ▸ List.mem_cons_of_mem _ h)

theorem partsAt_intercalate {separator : Char} {parts : List Text} (hne : parts ≠ [])
    (h : ∀ part ∈ parts, separator ∉ part) :
    partsAt separator ([separator].intercalate parts) = parts := by
  induction parts with
  | nil => exact absurd rfl hne
  | cons part rest ih =>
    obtain ⟨hpart, hrest⟩ := List.forall_mem_cons.mp h
    cases rest with
    | nil => rw [List.intercalate_singleton, partsAt_of_not_mem hpart]
    | cons next more =>
      rw [List.intercalate_cons_cons, List.append_assoc, List.singleton_append,
        partsAt_append hpart, ih (by simp) hrest]

/-- A name that a comma-separated list can hold. -/
structure IsListable (name : Text) : Prop where
  nonempty : name ≠ []
  plain : ',' ∉ name
  starts : ∀ c, name.head? = some c → isBlank c = false
  ends : ∀ c, name.getLast? = some c → isBlank c = false

theorem isListable_iff {name : Text} :
    IsListable name ↔ ',' ∉ name ∧ name.atGap = false ∧ name.endsAtGap = false := by
  constructor
  · rintro ⟨hne, hplain, hstarts, hends⟩
    refine ⟨hplain, ?_, ?_⟩
    · cases name with
      | nil => exact absurd rfl hne
      | cons c rest => exact hstarts c rfl
    · obtain ⟨rest, c, rfl⟩ := List.eq_nil_or_concat' name |>.resolve_left hne
      rw [endsAtGap_concat]
      exact hends c List.getLast?_concat
  · rintro ⟨hplain, hstarts, hends⟩
    refine ⟨?_, hplain, ?_, ?_⟩
    · rintro rfl
      cases hstarts
    · rintro c hc
      obtain ⟨rest, rfl⟩ := List.head?_eq_some_iff.mp hc
      exact hstarts
    · rintro c hc
      obtain ⟨rest, rfl⟩ := List.getLast?_eq_some_iff.mp hc
      rwa [endsAtGap_concat] at hends

instance : DecidablePred IsListable :=
  fun _ => decidable_of_iff' _ isListable_iff

theorem strip_of_isListable {name : Text} (h : IsListable name) : strip name = name := by
  obtain ⟨-, hstarts, hends⟩ := isListable_iff.mp h
  have hleft : stripLeft name = name := by
    cases name with
    | nil => rfl
    | cons c rest => rw [stripLeft, List.dropWhile_cons_of_neg (by simpa using hstarts)]
  rw [strip, hleft, stripRight_of_ends hends]

end Text

theorem isListable_of_mem_namesIn {t name : Text} (h : name ∈ namesIn t) : name.IsListable := by
  simp only [namesIn, List.mem_filter, List.mem_map, Bool.not_eq_true',
    List.isEmpty_eq_false_iff] at h
  obtain ⟨⟨part, hpart, rfl⟩, hne⟩ := h
  refine Text.isListable_iff.mpr ⟨fun hmem => ?_, atGap_strip hne, Text.endsAtGap_stripRight hne⟩
  exact Text.not_mem_of_mem_partsAt hpart (Text.mem_of_mem_strip hmem)

/-- A list of names is read back exactly if each of them can stand in a list. -/
theorem namesIn_intercalate_iff {names : List Text} (hne : names ≠ []) :
    namesIn ([','].intercalate names) = names ↔ ∀ name ∈ names, name.IsListable := by
  constructor
  · intro h name hmem
    rw [← h] at hmem
    exact isListable_of_mem_namesIn hmem
  · intro h
    have hstrip : names.map Text.strip = names := by
      refine (List.map_congr_left fun name hname => ?_).trans (List.map_id names)
      exact Text.strip_of_isListable (h name hname)
    rw [namesIn, Text.partsAt_intercalate hne fun name hname => (h name hname).plain, hstrip,
      List.filter_eq_self]
    intro name hname
    simpa using (h name hname).nonempty

theorem Value.forKey_names {key : Text} (hkey : key ∈ listKeys) (t : Text) :
    (forKey key t).settle = .tuple ((namesIn t).map .text) := by
  rw [forKey, if_pos (by simpa using hkey), settle]

theorem Value.forKey_toString {key : Text} (hkey : key ∉ listKeys) {n : Int} (hn : 0 ≤ n)
    (h : (Nat.toDigits 10 n.toNat).length ≤ Numeral.maxDigits) :
    (forKey key (toString n).toList).settle = .int n := by
  rw [forKey, if_neg (by simpa using hkey), ofText_toString hn h]
  rfl

namespace CommandLine

/-- The configured names and the new ones among the others, each new one once. -/
def allNames (configured environments : List Text) : List Text :=
  configured ++ (environments.filter fun name => name ∉ configured).eraseDups

theorem allNames_ne_nil {configured environments : List Text} (h : environments ≠ []) :
    allNames configured environments ≠ [] := by
  cases configured with
  | cons first rest => exact List.cons_ne_nil first _
  | nil =>
    obtain ⟨first, rest, rfl⟩ := List.exists_cons_of_ne_nil h
    simp [allNames, List.eraseDups_cons]

theorem foldl_names (configured environments seen : List Text) :
    environments.foldl (fun seen name =>
        if !seen.contains name && !configured.contains name then seen ++ [name] else seen) seen =
      seen ++ ((environments.filter fun name => name ∉ configured).filter
        fun name => name ∉ seen).eraseDups := by
  induction environments generalizing seen with
  | nil => simp
  | cons name rest ih =>
    rw [List.foldl_cons, ih]
    by_cases hconfigured : name ∈ configured
    · simp [hconfigured]
    by_cases hseen : name ∈ seen
    · simp [hconfigured, hseen]
    · have hsame : ∀ a, decide (a ∉ seen ++ [name]) = (!a == name && decide (a ∉ seen)) := by
        intro a
        by_cases ha : a = name <;> simp [ha]
      rw [if_pos (by simp [hconfigured, hseen]),
        List.filter_cons_of_pos (by simpa using hconfigured),
        List.filter_cons_of_pos (by simpa using hseen), List.eraseDups_cons, List.append_assoc,
        List.singleton_append]
      simp only [hsame, List.filter_filter, Bool.and_assoc]

theorem namesOf_texts (names : List Text) : Settings.namesOf (names.map .text) = names := by
  induction names with
  | nil => rfl
  | cons name rest ih => exact congrArg (name :: ·) ih

theorem joinNames_eq (configured environments : List Text) :
    joinNames (configured.map .text) environments = .ok (allNames configured environments) := by
  rw [joinNames, namesOf_texts, foldl_names]
  simp [allNames]

end CommandLine

/-! ### Options as overrides -/

namespace Setting

def all : List Setting :=
  [logLevel, maxWidth, tabWidth, tracked, incremental, extensions]

theorem dotted_injective : Function.Injective dotted := by
  have hfind : ∀ x : Setting, all.find? (fun y => y.dotted = x.dotted) = some x := by
    intro x
    cases x <;> decide
  intro x y h
  have hx := hfind x
  rw [h, hfind y] at hx
  exact (Option.some.inj hx).symm

theorem key_mem_fieldsOf (x : Setting) : x.key ∈ Settings.fieldsOf x.part := by
  cases x <;> decide

/-- The overrides that give some settings a text. -/
def overridesOf (text : Setting → Option Text) (xs : List Setting) : List Override :=
  xs.filterMap fun x => (text x).map fun t => ⟨x.dotted, t⟩

variable {text : Setting → Option Text} {xs : List Setting}

theorem mem_overridesOf {o : Override} :
    o ∈ overridesOf text xs ↔ ∃ x ∈ xs, text x = some o.text ∧ o.key = x.dotted := by
  simp only [overridesOf, List.mem_filterMap, Option.map_eq_some_iff]
  constructor
  · rintro ⟨x, hx, t, ht, rfl⟩
    exact ⟨x, hx, ht, rfl⟩
  · rintro ⟨x, hx, ht, hkey⟩
    exact ⟨x, hx, o.text, ht, by rw [← hkey]⟩

theorem find?_overridesOf {x : Setting} (hx : text x ≠ none → x ∈ xs) :
    (overridesOf text xs).reverse.find? (fun o => o.key = x.dotted) =
      (text x).map fun t => ⟨x.dotted, t⟩ := by
  cases hfind : (overridesOf text xs).reverse.find? fun o => o.key = x.dotted with
  | none =>
    cases htext : text x with
    | none => rfl
    | some t =>
      have hmem : ⟨x.dotted, t⟩ ∈ overridesOf text xs :=
        mem_overridesOf.mpr ⟨x, hx (by simp [htext]), htext, rfl⟩
      have hno := List.find?_eq_none.mp hfind _ (List.mem_reverse.mpr hmem)
      simp at hno
  | some o =>
    have hmem := List.mem_reverse.mp (List.mem_of_find?_eq_some hfind)
    have hkey : o.key = x.dotted := by simpa using List.find?_some hfind
    obtain ⟨y, -, htext, hy⟩ := mem_overridesOf.mp hmem
    obtain rfl := dotted_injective (hkey.symm.trans hy)
    rw [htext, Option.map_some, ← hkey]

end Setting

namespace Settings

/-- Overrides of settings, on top of layers that give settings: where the widths keep their bounds,
each setting has the text of its override, or is what it was. -/
theorem ofLayers_overridesOf {limits : Limits} {below above : Table} {settings effective : Settings}
    {text : Setting → Option Text} {xs : List Setting}
    (hload : ofLayers limits below above [] = .ok settings) (hxs : ∀ x, text x ≠ none → x ∈ xs)
    (hvalue : ∀ x, effective.value x =
      ((text x).map fun t => (Value.forKey x.key t).settle).getD (settings.value x))
    (hwidth : effective.maxWidth.isLess? 1 = some false)
    (htab : effective.tabWidth.isLess? 0 = some false) :
    ofLayers limits below above (Setting.overridesOf text xs) = .ok effective := by
  obtain ⟨_, ⟨⟩, htable⟩ := ofLayers_eq_ok_iff.mp hload
  obtain ⟨hread, hsettings, -⟩ := ofTable_eq_ok_iff.mp htable
  have hnames : ∀ o ∈ Setting.overridesOf text xs, ∃ p field, o.Names p field := by
    intro o ho
    obtain ⟨x, -, -, hkey⟩ := Setting.mem_overridesOf.mp ho
    exact ⟨x.part, x.key, Setting.names_of_key_eq hkey⟩
  obtain ⟨result, hrun⟩ := Table.exists_overrideAll hread.parts hnames
  have hover := Table.overridden_of_overrideAll hnames hrun
  refine ofLayers_eq_ok_iff.mpr ⟨result, hrun, ?_⟩
  refine ofTable_eq_ok_iff.mpr ⟨⟨?_, ?_, ?_⟩, ?_, hwidth, htab⟩
  · exact Nat.le_trans hover.depth (Nat.max_le.mpr ⟨hread.shallow, Nat.le_add_left 1 limits.depth⟩)
  · exact hover.parts.mpr hread.parts
  · -- a field is there because of an override, or was there before
    intro p key hsome
    rw [hover.field] at hsome
    cases hfind : (Setting.overridesOf text xs).reverse.find?
        fun o => o.key = p.key ++ '.' :: key with
    | none =>
      rw [hfind] at hsome
      exact hread.known p key hsome
    | some o =>
      obtain ⟨x, -, -, hkey⟩ :=
        Setting.mem_overridesOf.mp (List.mem_reverse.mp (List.mem_of_find?_eq_some hfind))
      have hsame : o.key = p.key ++ '.' :: key := by simpa using List.find?_some hfind
      obtain ⟨rfl, rfl⟩ := (Setting.names_of_key_eq hkey).key_eq_iff.mp hsame
      exact x.key_mem_fieldsOf
  · intro x
    have hfield := hover.field x.part x.key
    rw [← Setting.dotted, Setting.find?_overridesOf (hxs x)] at hfield
    rw [hvalue, read, hfield, hsettings, read]
    cases htext : text x with
    | none => rfl
    | some t => simp [(Setting.names_of_key_eq (o := ⟨x.dotted, t⟩) rfl).value]

end Settings

namespace CommandLine

variable {limits : Limits} {user : Table} {settings : Settings} {configured : List Text}
  {options : WrapOptions}

/-- What the options say about a setting, written as a text. -/
def optionText (configured : List Text) (options : WrapOptions) : Setting → Option Text
  | .maxWidth => options.width.map fun n => (toString n).toList
  | .tabWidth => options.tabWidth.map fun n => (toString n).toList
  | .tracked =>
    if options.environments.isEmpty then none
    else some ([','].intercalate (allNames configured options.environments))
  | _ => none

def optionSettings : List Setting :=
  [.maxWidth, .tabWidth, .tracked]

/-- The tracked environments of the settings are looked at only where others are added to them. -/
theorem optionOverrides_eq
    (h : options.environments ≠ [] → settings.tracked.items? = some (configured.map .text)) :
    optionOverrides settings options =
      .ok (Setting.overridesOf (optionText configured options) optionSettings) := by
  unfold optionOverrides
  obtain ⟨_, width, tabWidth, environments, _⟩ := options
  cases environments with
  | nil => cases width <;> cases tabWidth <;> rfl
  | cons name rest =>
    rw [h (List.cons_ne_nil name rest)]
    simp only [joinNames_eq]
    cases width <;> cases tabWidth <;> rfl

def withOptions (settings : Settings) (configured : List Text) (options : WrapOptions) : Settings :=
  { settings with
    maxWidth := (options.width.map Value.int).getD settings.maxWidth
    tabWidth := (options.tabWidth.map Value.int).getD settings.tabWidth
    tracked :=
      if options.environments.isEmpty then settings.tracked
      else
        let joined := [','].intercalate (allNames configured options.environments)
        .tuple ((namesIn joined).map .text) }

/-- The numbers among the options are in their ranges, and none has too many digits. -/
structure WrapOptions.InRange (options : WrapOptions) : Prop where
  width : ∀ n, options.width = some n →
    1 ≤ n ∧ (Nat.toDigits 10 n.toNat).length ≤ Numeral.maxDigits
  tabWidth : ∀ n, options.tabWidth = some n →
    0 ≤ n ∧ (Nat.toDigits 10 n.toNat).length ≤ Numeral.maxDigits

theorem number_value {key : Text} (hkey : key ∉ listKeys) {given : Option Int}
    (h : ∀ n, given = some n → 0 ≤ n ∧ (Nat.toDigits 10 n.toNat).length ≤ Numeral.maxDigits)
    (value : Value) :
    (given.map Value.int).getD value =
      ((given.map fun n => (toString n).toList).map fun t => (Value.forKey key t).settle).getD
        value := by
  cases given with
  | none => rfl
  | some n =>
    obtain ⟨hn, hlong⟩ := h n rfl
    exact (Value.forKey_toString hkey hn hlong).symm

theorem withOptions_value (h : options.InRange) (x : Setting) :
    (withOptions settings configured options).value x =
      ((optionText configured options x).map fun t => (Value.forKey x.key t).settle).getD
        (settings.value x) := by
  cases x with
  | maxWidth =>
    refine number_value (by decide) (fun n hn => ?_) settings.maxWidth
    exact ⟨Int.le_trans (by decide) (h.width n hn).1, (h.width n hn).2⟩
  | tabWidth => exact number_value (by decide) h.tabWidth settings.tabWidth
  | tracked =>
    have hread := Value.forKey_names (by decide : Setting.tracked.key ∈ listKeys)
    by_cases hnone : options.environments.isEmpty = true
    · simp [withOptions, optionText, Settings.value, hnone]
    · simp [withOptions, optionText, Settings.value, hnone, hread]
  | _ => rfl

theorem isLess?_getD {least : Int} {given : Option Int} {value : Value}
    (hgiven : ∀ n, given = some n → least ≤ n) (hvalue : value.isLess? least = some false) :
    ((given.map Value.int).getD value).isLess? least = some false := by
  cases given with
  | none => exact hvalue
  | some n => simpa [Value.isLess?] using hgiven n rfl

theorem effectiveSettings_eq_withOptions (hload : Settings.load limits user [] = .ok settings)
    (hnames : options.environments ≠ [] → settings.tracked.items? = some (configured.map .text))
    (h : options.InRange) :
    effectiveSettings limits (.ok user) settings options =
      .ok (withOptions settings configured options) := by
  rw [Settings.load_eq_ofLayers] at hload
  have hgiven : ∀ x, optionText configured options x ≠ none → x ∈ optionSettings := by
    intro x hx
    cases x with
    | maxWidth | tabWidth | tracked => decide
    | logLevel | incremental | extensions => exact absurd rfl hx
  obtain ⟨_, -, htable⟩ := Settings.ofLayers_eq_ok_iff.mp hload
  obtain ⟨-, -, hwidth, htab⟩ := Settings.ofTable_eq_ok_iff.mp htable
  have hlayers : Settings.ofLayers limits Settings.bundled user _ =
      .ok (withOptions settings configured options) :=
    Settings.ofLayers_overridesOf hload hgiven (withOptions_value h)
      (isLess?_getD (fun n hn => (h.width n hn).1) hwidth)
      (isLess?_getD (fun n hn => (h.tabWidth n hn).1) htab)
  rw [effectiveSettings, optionOverrides_eq hnames]
  generalize Setting.overridesOf (optionText configured options) optionSettings = overrides
    at hlayers
  cases overrides with
  | nil =>
    -- without overrides nothing is loaded again, but it would give the same settings
    exact congrArg Except.ok (Except.ok.inj (hload.symm.trans hlayers))
  | cons first rest =>
    change (Settings.load limits user (first :: rest)).mapError _ = _
    rw [Settings.load_eq_ofLayers, hlayers]
    rfl

theorem effectiveSettings_eq (hload : Settings.load limits user [] = .ok settings)
    (hnames : settings.tracked.items? = some (configured.map .text)) (h : options.InRange) :
    effectiveSettings limits (.ok user) settings options =
      .ok (withOptions settings configured options) :=
  effectiveSettings_eq_withOptions hload (fun _ => hnames) h

/-- The options replace their own settings and no others. New names come after the configured ones,
each once, and all of them are tracked exactly if each can stand in a list. -/
theorem options_override_own_settings (hload : Settings.load limits user [] = .ok settings)
    (hnames : settings.tracked.items? = some (configured.map .text)) (h : options.InRange) :
    ∃ effective, effectiveSettings limits (.ok user) settings options = .ok effective ∧
      effective.maxWidth = (options.width.map Value.int).getD settings.maxWidth ∧
      effective.tabWidth = (options.tabWidth.map Value.int).getD settings.tabWidth ∧
      effective.logLevel = settings.logLevel ∧ effective.incremental = settings.incremental ∧
      effective.extensions = settings.extensions ∧
      (options.environments = [] → effective.tracked = settings.tracked) ∧
      (options.environments ≠ [] →
        (effective.tracked = .tuple ((allNames configured options.environments).map .text) ↔
          ∀ name ∈ allNames configured options.environments, name.IsListable)) := by
  refine ⟨_, effectiveSettings_eq hload hnames h, rfl, rfl, rfl, rfl, rfl, fun hnone => ?_,
    fun hsome => ?_⟩
  · rw [withOptions, if_pos (by simpa using hnone)]
  · rw [← namesIn_intercalate_iff (allNames_ne_nil hsome), withOptions,
      if_neg (by simpa using hsome), Value.tuple.injEq, List.map_inj_right]
    exact fun _ _ => Value.text.inj

/-- A width, and three names of which one is configured and one is given twice. -/
theorem options_override_own_settings_listing :
    ∃ (limits : Limits) (user : Table) (settings : Settings) (options : WrapOptions)
      (effective : Settings),
      user = [("wrap".toList, .table [("tracked_environments".toList, .list [.text ['b']])])] ∧
      options = { input := [], width := some 72, environments := [['a'], ['b'], ['a']] } ∧
      Settings.load limits user [] = .ok settings ∧ settings.tracked.items? = some [.text ['b']] ∧
      options.InRange ∧ effectiveSettings limits (.ok user) settings options = .ok effective ∧
      effective.maxWidth = .int 72 ∧ effective.tabWidth = settings.tabWidth ∧
      effective.tracked = .tuple [.text ['b'], .text ['a']] := by
  let limits : Limits := ⟨0, 0, 0, 0⟩
  let user : Table :=
    [("wrap".toList, .table [("tracked_environments".toList, .list [.text ['b']])])]
  let settings : Settings := { tracked := .tuple [.text ['b']] }
  let options : WrapOptions :=
    { input := [], width := some 72, environments := [['a'], ['b'], ['a']] }
  have hlayers : Table.over Settings.bundled user = [
      ("general".toList, .table [("log_level".toList, .text "warning".toList)]),
      ("wrap".toList, .table [
        ("max_width".toList, .int 80), ("tab_width".toList, .int 4),
        ("tracked_environments".toList, .list [.text ['b']]), ("incremental".toList, .bool true),
        ("file_extensions".toList,
          .list [.text ".tex".toList, .text ".ltx".toList, .text ".latex".toList])])] := by rfl
  have hload : Settings.load limits user [] = .ok settings :=
    Settings.ofLayers_eq_ok_iff.mpr ⟨_, congrArg Except.ok hlayers, by rfl⟩
  have hitems : settings.tracked.items? = some ([['b']].map Value.text) := rfl
  have hrange : options.InRange := ⟨by rintro n ⟨⟩; decide, nofun⟩
  obtain ⟨effective, heffective, hwidth, htab, -, -, -, -, hnames⟩ :=
    options_override_own_settings hload hitems hrange
  have hall : allNames [['b']] options.environments = [['b'], ['a']] := by decide
  have htracked := (hnames nofun).mpr (hall ▸ by decide)
  rw [hall] at htracked
  exact ⟨limits, user, settings, options, effective, rfl, rfl, hload, rfl, hrange, heffective,
    hwidth, htab, htracked⟩

end CommandLine
end HardWrap
