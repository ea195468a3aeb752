import HardWrap.Proofs.Overrides

/-! Settings from layers. A table gives settings exactly if both its parts are tables of known
fields and its widths keep their bounds, and then each setting is what the table says about it, or
the built-in value. Of the layers that say something about a setting the last one counts; tables in
two layers are joined. -/

namespace HardWrap

/-- The settings, one by one. -/
inductive Setting where
  | logLevel
  | maxWidth
  | tabWidth
  | tracked
  | incremental
  | extensions
  deriving DecidableEq, Repr

namespace Setting

def part : Setting → Part
  | logLevel => .general
  | _ => .wrap

def key : Setting → Text
  | logLevel => "log_level".toList
  | maxWidth => "max_width".toList
  | tabWidth => "tab_width".toList
  | tracked => "tracked_environments".toList
  | incremental => "incremental".toList
  | extensions => "file_extensions".toList

def dotted (x : Setting) : Text :=
  x.part.key ++ '.' :: x.key

end Setting

namespace Settings

variable {limits : Limits}

def value (settings : Settings) : Setting → Value
  | .logLevel => settings.logLevel
  | .maxWidth => settings.maxWidth
  | .tabWidth => settings.tabWidth
  | .tracked => settings.tracked
  | .incremental => settings.incremental
  | .extensions => settings.extensions

theorem ext_value {s t : Settings} (h : ∀ x, s.value x = t.value x) : s = t := by
  cases s; cases t
  simp only [Settings.mk.injEq]
  exact ⟨h .logLevel, h .maxWidth, h .tabWidth, h .tracked, h .incremental, h .extensions⟩

theorem atLeast_ok_iff {bound : Int} {v : Value} {fault : String → SettingsFault} :
    atLeast bound v fault = .ok () ↔ v.isLess? bound = some false := by
  unfold atLeast
  cases v.isLess? bound with
  | none => simp
  | some less => cases less <;> simp

theorem part_ok_iff {table : Table} {p : Part} {settled : Table} :
    part (Table.settle table) p = .ok settled ↔
      ∃ fields, table.fields? p = some fields ∧ (∀ key ∈ fields.keys, key ∈ fieldsOf p) ∧
        settled = Table.settle fields := by
  unfold part Table.fields?
  rw [Table.get?_settle]
  cases table.get? p.key with
  | none => simp [eq_comm, Table.keys, Table.settle]
  | some v =>
    cases v with
    | table fields =>
      have hknown :
          (Table.settle fields).find? (fun field => !(fieldsOf p).contains field.1) = none ↔
            ∀ key ∈ Table.keys fields, key ∈ fieldsOf p := by
        rw [← Table.keys_settle, Table.keys, List.forall_mem_map, List.find?_eq_none]
        simp
      simp only [Option.map_some, Value.settle, Option.some.injEq, exists_eq_left', ← hknown]
      cases (Table.settle fields).find? (fun field => !(fieldsOf p).contains field.1) with
      | none => simp [eq_comm]
      | some unknown => simp
    | _ => simp [Value.settle]

/-- A table that settings can be read from, the bounds of the widths apart. -/
structure IsReadable (limits : Limits) (table : Table) : Prop where
  shallow : Table.depth table ≤ limits.depth + 1
  parts : table.HasParts
  known : ∀ p key, (table.fieldAt? p key).isSome = true → key ∈ fieldsOf p

/-- What a table says about a setting, or else the built-in value. -/
def read (table : Table) (x : Setting) : Value :=
  ((table.fieldAt? x.part x.key).map Value.settle).getD (({} : Settings).value x)

theorem bind_eq_ok_iff {ε α β : Type} {x : Except ε α} {f : α → Except ε β} {b : β} :
    (x >>= f) = .ok b ↔ ∃ a, x = .ok a ∧ f a = .ok b := by
  cases x <;> simp [bind, Except.bind]

theorem read_eq {table fields : Table} (x : Setting) (h : table.fields? x.part = some fields) :
    read table x = ((Table.settle fields).get? x.key).getD (({} : Settings).value x) := by
  rw [read, Table.fieldAt?, h, Table.get?_settle]
  rfl

theorem known_iff {table fields : Table} {p : Part} (h : table.fields? p = some fields) :
    (∀ key ∈ fields.keys, key ∈ fieldsOf p) ↔
      ∀ key, (table.fieldAt? p key).isSome = true → key ∈ fieldsOf p := by
  simp only [Table.fieldAt?, h, Option.bind_some, Table.mem_keys_iff]

/-- The settings that the final fields of the two parts give. -/
def assemble (general wrap : Table) : Settings where
  logLevel := (general.get? Setting.logLevel.key).getD (({} : Settings).value .logLevel)
  maxWidth := (wrap.get? Setting.maxWidth.key).getD (({} : Settings).value .maxWidth)
  tabWidth := (wrap.get? Setting.tabWidth.key).getD (({} : Settings).value .tabWidth)
  tracked := (wrap.get? Setting.tracked.key).getD (({} : Settings).value .tracked)
  incremental := (wrap.get? Setting.incremental.key).getD (({} : Settings).value .incremental)
  extensions := (wrap.get? Setting.extensions.key).getD (({} : Settings).value .extensions)

theorem assemble_value {table general wrap : Table}
    (hgeneral : table.fields? .general = some general)
    (hwrap : table.fields? .wrap = some wrap) (x : Setting) :
    (assemble (Table.settle general) (Table.settle wrap)).value x = read table x := by
  cases x with
  | logLevel => exact Eq.symm (read_eq .logLevel hgeneral)
  | _ => exact Eq.symm (read_eq _ hwrap)

theorem ofTable_eq_ok_iff {table : Table} {settings : Settings} :
    ofTable limits table = .ok settings ↔
      IsReadable limits table ∧ (∀ x, settings.value x = read table x) ∧
        settings.maxWidth.isLess? 1 = some false ∧ settings.tabWidth.isLess? 0 = some false := by
  unfold ofTable
  by_cases hdeep : limits.depth + 1 < Table.depth table
  · simp only [hdeep, if_true]
    constructor
    · intro h
      cases h
    · rintro ⟨hread, -⟩
      exact absurd hread.shallow (Nat.not_le.mpr hdeep)
  simp only [hdeep, if_false, bind_eq_ok_iff, part_ok_iff]
  constructor
  · rintro ⟨_, ⟨general, hgeneral, hknown, rfl⟩, _, ⟨wrap, hwrap, hknown', rfl⟩, ⟨⟩, hwidth, ⟨⟩,
      htab, heq⟩
    cases heq
    refine ⟨⟨Nat.le_of_not_lt hdeep, ?_, ?_⟩, assemble_value hgeneral hwrap,
      atLeast_ok_iff.mp hwidth, atLeast_ok_iff.mp htab⟩
    · rintro (_ | _)
      · exact Option.isSome_of_eq_some hgeneral
      · exact Option.isSome_of_eq_some hwrap
    · rintro (_ | _)
      · exact (known_iff hgeneral).mp hknown
      · exact (known_iff hwrap).mp hknown'
  · rintro ⟨⟨-, hparts, hknown⟩, hvalue, hwidth, htab⟩
    obtain ⟨general, hgeneral⟩ := Option.isSome_iff_exists.mp (hparts .general)
    obtain ⟨wrap, hwrap⟩ := Option.isSome_iff_exists.mp (hparts .wrap)
    obtain rfl : assemble (Table.settle general) (Table.settle wrap) = settings :=
      ext_value fun x => (assemble_value hgeneral hwrap x).trans (hvalue x).symm
    exact ⟨_, ⟨general, hgeneral, (known_iff hgeneral).mpr (hknown _), rfl⟩,
      _, ⟨wrap, hwrap, (known_iff hwrap).mpr (hknown _), rfl⟩,
      (), atLeast_ok_iff.mpr hwidth, (), atLeast_ok_iff.mpr htab, rfl⟩

end Settings

/-! ### Tables that say the same -/

/-- Two tables that agree on every field of a part, and on everything outside the parts. -/
structure Table.Agree (table other : Table) : Prop where
  field : ∀ p f, table.fieldAt? p f = other.fieldAt? p f
  others : ∀ key, (∀ p : Part, key ≠ p.key) → table.get? key = other.get? key

namespace Settings

variable {limits : Limits}

theorem ofTable_of_agree {table other : Table} {settings : Settings} (h : table.Agree other)
    (htable : table.Keyed) (hother : other.Keyed) (hparts : other.HasParts)
    (hok : ofTable limits table = .ok settings) : ofTable limits other = .ok settings := by
  obtain ⟨hread, hvalue, hbounds⟩ := ofTable_eq_ok_iff.mp hok
  refine ofTable_eq_ok_iff.mpr ⟨⟨?_, hparts, ?_⟩, ?_, hbounds⟩
  · -- how deep a table goes does not depend on where its entries stand
    have hpos : 0 < limits.depth + 1 := Nat.succ_pos _
    obtain ⟨hothers, hfields⟩ := (htable.depth_le_iff hread.parts hpos).mp hread.shallow
    refine (hother.depth_le_iff hparts hpos).mpr ⟨fun key v hget hkey => ?_, fun p f v hfield => ?_⟩
    · exact hothers key v ((h.others key hkey).trans hget) hkey
    · exact hfields p f v ((h.field p f).trans hfield)
  · simpa only [h.field] using hread.known
  · simpa only [read, h.field] using hvalue

/-- The settings of two layers and overrides. -/
def ofLayers (limits : Limits) (below above : Table) (overrides : List Override) :
    Except SettingsFault Settings := do
  ofTable limits (← (Table.over below above).overrideAll overrides)

theorem load_eq_ofLayers (limits : Limits) (user : Table) (overrides : List Override) :
    load limits user overrides = ofLayers limits bundled user overrides := rfl

theorem ofLayers_eq_ok_iff {below above : Table} {overrides : List Override} {settings : Settings} :
    ofLayers limits below above overrides = .ok settings ↔
      ∃ table, (Table.over below above).overrideAll overrides = .ok table ∧
        ofTable limits table = .ok settings :=
  bind_eq_ok_iff

/-- The order of overrides with different keys does not matter. -/
theorem ofLayers_perm {below above : Table} {overrides others : List Override} {settings : Settings}
    (hbelow : below.Keyed) (habove : above.Keyed)
    (hnames : ∀ o ∈ overrides, ∃ p field, o.Names p field)
    (hdistinct : (overrides.map Override.key).Nodup) (hperm : others.Perm overrides)
    (hok : ofLayers limits below above overrides = .ok settings) :
    ofLayers limits below above others = .ok settings := by
  obtain ⟨table, hrun, htable⟩ := ofLayers_eq_ok_iff.mp hok
  have hover := Table.overridden_of_overrideAll hnames hrun
  have hparts := hover.parts.mp (ofTable_eq_ok_iff.mp htable).1.parts
  have hnames' : ∀ o ∈ others, ∃ p field, o.Names p field :=
    fun o ho => hnames o (hperm.mem_iff.mp ho)
  obtain ⟨other, hrun'⟩ := Table.exists_overrideAll hparts hnames'
  have hover' := Table.overridden_of_overrideAll hnames' hrun'
  have hagree : table.Agree other := by
    constructor
    · intro p f
      have hreverse : others.reverse.Perm overrides := (List.reverse_perm others).trans hperm
      rw [hover.field, hover'.field, Override.find?_key_perm hdistinct hreverse,
        Override.find?_key_perm hdistinct (List.reverse_perm overrides)]
    · intro key hkey
      rw [hover.others key hkey, hover'.others key hkey]
  have hkeyed := hbelow.over habove
  exact ofLayers_eq_ok_iff.mpr ⟨other, hrun', ofTable_of_agree hagree (hover.keyed hkeyed)
    (hover'.keyed hkeyed) (hover'.parts.mpr hparts) htable⟩

end Settings

/-! ### The layer that counts -/

namespace Setting

/-- The value of a setting, lists made final: that of its override, or else of the layers, or else
the built-in one. -/
def inForce (below above : Table) (overrides : List Override) (x : Setting) : Value :=
  match overrides.find? fun o => o.key = x.dotted with
  | some o => (Value.forKey x.key o.text).settle
  | none =>
    match Value.ofLayers? (below.fieldAt? x.part x.key) (above.fieldAt? x.part x.key) with
    | some v => v.settle
    | none => ({} : Settings).value x

theorem names_of_key_eq {o : Override} {x : Setting} (h : o.key = x.dotted) :
    o.Names x.part x.key where
  plain := by cases x <;> decide
  key := h

end Setting

namespace Settings

variable {limits : Limits} {below above : Table} {overrides : List Override} {settings : Settings}

theorem value_eq_inForce (habove : above.Keyed)
    (hnames : ∀ o ∈ overrides, ∃ p field, o.Names p field)
    (hdistinct : (overrides.map Override.key).Nodup)
    (hok : ofLayers limits below above overrides = .ok settings) (x : Setting) :
    settings.value x = x.inForce below above overrides := by
  obtain ⟨table, hrun, htable⟩ := ofLayers_eq_ok_iff.mp hok
  obtain ⟨hread, hvalue, -⟩ := ofTable_eq_ok_iff.mp htable
  have hover := Table.overridden_of_overrideAll hnames hrun
  have hparts := hover.parts.mp hread.parts
  rw [hvalue, read, hover.field, Override.find?_key_perm hdistinct (List.reverse_perm overrides),
    habove.fieldAt?_over (hparts x.part), Setting.inForce, Setting.dotted]
  cases hfind : overrides.find? fun o => o.key = x.part.key ++ '.' :: x.key with
  | some o =>
    have hkey : o.key = x.dotted := by simpa [Setting.dotted] using List.find?_some hfind
    simp [(Setting.names_of_key_eq hkey).value]
  | none =>
    cases Value.ofLayers? (below.fieldAt? x.part x.key) (above.fieldAt? x.part x.key) <;> rfl

/-- Settings that layers and overrides give are those of the last layer that says something about
them, whatever the order of the overrides, and the widths keep their bounds. -/
theorem settings_follow_layers (hbelow : below.Keyed) (habove : above.Keyed)
    (hnames : ∀ o ∈ overrides, ∃ p field, o.Names p field)
    (hdistinct : (overrides.map Override.key).Nodup)
    (hok : ofLayers limits below above overrides = .ok settings) :
    (∀ x, settings.value x = x.inForce below above overrides) ∧
      (∀ others, others.Perm overrides → ofLayers limits below above others = .ok settings) ∧
      settings.maxWidth.isLess? 1 = some false ∧ settings.tabWidth.isLess? 0 = some false := by
  obtain ⟨table, -, htable⟩ := ofLayers_eq_ok_iff.mp hok
  refine ⟨value_eq_inForce habove hnames hdistinct hok, fun others hperm => ?_,
    (ofTable_eq_ok_iff.mp htable).2.2⟩
  exact ofLayers_perm hbelow habove hnames hdistinct hperm hok

/-- An override, a number and a list from one layer each, a table from both, and built-in values. -/
theorem settings_follow_layers_switches :
    ∃ limits below above overrides settings,
      limits = ⟨0x7fffffffffffffff, 0x10000000000, 900, 900⟩ ∧
      below = [("wrap".toList, .table [("max_width".toList, .int 72),
        ("tracked_environments".toList, .list [.text ['b']]),
        ("incremental".toList, .table [(['b'], .int 1)])])] ∧
      above = [("wrap".toList, .table [("max_width".toList, .int 100),
        ("incremental".toList, .table [(['a'], .int 2)])])] ∧
      overrides = [⟨"wrap.tab_width".toList, ['2']⟩, ⟨"general.log_level".toList, ['x']⟩] ∧
      ofLayers limits below above overrides = .ok settings ∧
      settings = {
        logLevel := .text ['x'], maxWidth := .int 100, tabWidth := .int 2,
        tracked := .tuple [.text ['b']],
        incremental := .table [(['b'], .int 1), (['a'], .int 2)] } ∧
      (∀ x, settings.value x = x.inForce below above overrides) ∧
      ofLayers limits below above overrides.reverse = .ok settings := by
  let limits : Limits := ⟨0x7fffffffffffffff, 0x10000000000, 900, 900⟩
  let below : Table := [("wrap".toList, .table [("max_width".toList, .int 72),
    ("tracked_environments".toList, .list [.text ['b']]),
    ("incremental".toList, .table [(['b'], .int 1)])])]
  let above : Table := [("wrap".toList, .table [("max_width".toList, .int 100),
    ("incremental".toList, .table [(['a'], .int 2)])])]
  let overrides : List Override :=
    [⟨"wrap.tab_width".toList, ['2']⟩, ⟨"general.log_level".toList, ['x']⟩]
  let settings : Settings := {
    logLevel := .text ['x'], maxWidth := .int 100, tabWidth := .int 2,
    tracked := .tuple [.text ['b']], incremental := .table [(['b'], .int 1), (['a'], .int 2)] }
  have hbelow : below.Keyed := ⟨by decide, by rintro (_ | _) _ ⟨⟩ <;> decide⟩
  have habove : above.Keyed := ⟨by decide, by rintro (_ | _) _ ⟨⟩ <;> decide⟩
  have hnames : ∀ o ∈ overrides, ∃ p field, o.Names p field :=
    List.forall_mem_cons.mpr ⟨⟨.wrap, "tab_width".toList, by decide, by decide⟩,
      List.forall_mem_singleton.mpr ⟨.general, "log_level".toList, by decide, by decide⟩⟩
  have hrun : (Table.over below above).overrideAll overrides =
      .ok [("wrap".toList, .table [("max_width".toList, .int 100),
        ("tracked_environments".toList, .list [.text ['b']]),
        ("incremental".toList, .table [(['b'], .int 1), (['a'], .int 2)]),
        ("tab_width".toList, .int 2)]),
        ("general".toList, .table [("log_level".toList, .text ['x'])])] := by rfl
  have hok : ofLayers limits below above overrides = .ok settings :=
    ofLayers_eq_ok_iff.mpr ⟨_, hrun, rfl⟩
  obtain ⟨hvalue, hperm, -⟩ :=
    settings_follow_layers hbelow habove hnames (by decide) hok
  exact ⟨limits, below, above, overrides, settings, rfl, rfl, rfl, rfl, hok, rfl, hvalue,
    hperm _ (List.reverse_perm _)⟩

/-- The value of the upper layer need not be the one in force: a table below shines through. -/
theorem upper_table_can_be_joined :
    ¬ ∀ (limits : Limits) (below above : Table) (overrides : List Override) (settings : Settings),
      below.Keyed → above.Keyed → (∀ o ∈ overrides, ∃ p field, o.Names p field) →
      (overrides.map Override.key).Nodup → ofLayers limits below above overrides = .ok settings →
      ∀ x v, (∀ o ∈ overrides, o.key ≠ x.dotted) → above.fieldAt? x.part x.key = some v →
        settings.value x = v.settle := by
  intro h
  have hjoined := h ⟨0x7fffffffffffffff, 0x10000000000, 900, 900⟩
    [("wrap".toList, .table [("incremental".toList, .table [(['a'], .int 1)])])]
    [("wrap".toList, .table [("incremental".toList, .table [(['b'], .int 2)])])] []
    { incremental := .table [(['a'], .int 1), (['b'], .int 2)] }
    ⟨by decide, by rintro (_ | _) _ ⟨⟩ <;> decide⟩ ⟨by decide, by rintro (_ | _) _ ⟨⟩ <;> decide⟩
    nofun List.nodup_nil rfl .incremental (.table [(['b'], .int 2)]) nofun rfl
  cases hjoined

end Settings
end HardWrap
