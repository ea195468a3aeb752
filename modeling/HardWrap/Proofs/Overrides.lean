import HardWrap.Proofs.Tables

/-! Overrides that name a field of a part. One of them assigns that field and leaves the rest of the
table alone, so after a run of them every field has the text of its last override, or what it had
before. Which of two overrides with different keys comes first does not matter. -/

namespace HardWrap

/-! ### Parts of a text -/

namespace Text

variable {separator : Char}

theorem partsAt_of_not_mem {t : Text} (h : separator ∉ t) : partsAt separator t = [t] := by
  induction t with
  | nil => rfl
  | cons c rest ih =>
    obtain ⟨hc, hrest⟩ := not_or.mp (List.mem_cons.not.mp h)
    rw [partsAt, if_neg (Ne.symm hc), ih hrest]

theorem partsAt_append {t : Text} (h : separator ∉ t) (rest : Text) :
    partsAt separator (t ++ separator :: rest) = t :: partsAt separator rest := by
  induction t with
  | nil => rw [List.nil_append, partsAt, if_pos rfl]
  | cons c more ih =>
    obtain ⟨hc, hmore⟩ := not_or.mp (List.mem_cons.not.mp h)
    rw [List.cons_append, partsAt, if_neg (Ne.symm hc), ih hmore]

end Text

/-! ### One override -/

theorem Part.not_mem_key (p : Part) : '.' ∉ p.key := by
  cases p <;> decide

namespace Override

/-- The key of the override is that of a part, a dot, and that of a field. -/
structure Names (o : Override) (p : Part) (field : Text) : Prop where
  plain : '.' ∉ field
  key : o.key = p.key ++ '.' :: field

variable {o : Override} {p : Part} {field : Text}

theorem Names.path (h : o.Names p field) : o.path = [p.key, field] := by
  rw [Override.path, h.key, Text.partsAt_append p.not_mem_key, Text.partsAt_of_not_mem h.plain]

theorem Names.value (h : o.Names p field) : o.value = .forKey field o.text := by
  rw [Override.value, h.path]
  rfl

theorem depth_value (o : Override) : o.value.depth = 0 := by
  rw [Override.value, Value.forKey]
  by_cases hlist : listKeys.contains (o.path.getLast?.getD []) = true
  · rw [if_pos hlist]
    rfl
  · rw [if_neg hlist]
    fun_cases Value.ofText o.text <;> rfl

/-- A dotted key belongs to one field only. -/
theorem Names.key_eq_iff (h : o.Names p field) {q : Part} {f : Text} :
    o.key = q.key ++ '.' :: f ↔ q = p ∧ f = field := by
  rw [h.key]
  constructor
  · intro e
    have hparts := congrArg (Text.partsAt '.') e
    rw [Text.partsAt_append p.not_mem_key, Text.partsAt_append q.not_mem_key] at hparts
    obtain rfl := Part.key_injective (List.cons.inj hparts).1
    exact ⟨rfl, (List.cons.inj (List.append_cancel_left e)).2.symm⟩
  · rintro ⟨rfl, rfl⟩
    rfl

end Override

namespace Table

open Override

variable {table result : Table} {o : Override} {p : Part} {field : Text} {overrides : List Override}

theorem override_ok_iff (h : o.Names p field) :
    table.override o = .ok result ↔
      ∃ fields, table.fields? p = some fields ∧
        result = table.set p.key (.table (fields.set field o.value)) := by
  rw [Table.override, h.path, assign_field_ok_iff]

/-- Each part is there, or missing. -/
def HasParts (table : Table) : Prop :=
  ∀ p, (table.fields? p).isSome = true

/-- What a run of overrides does to a table. -/
structure Overridden (table : Table) (overrides : List Override) (result : Table) : Prop where
  parts : result.HasParts ↔ table.HasParts
  -- the last override of a field counts
  field : ∀ p f, result.fieldAt? p f =
    ((overrides.reverse.find? fun o => o.key = p.key ++ '.' :: f).map Override.value).or
      (table.fieldAt? p f)
  others : ∀ key, (∀ p : Part, key ≠ p.key) → result.get? key = table.get? key
  keyed : table.Keyed → result.Keyed
  depth : depth result ≤ max (depth table) 1

theorem overridden_nil (table : Table) : Overridden table [] table :=
  ⟨Iff.rfl, fun _ _ => rfl, fun _ _ => rfl, id, Nat.le_max_left _ _⟩

theorem overridden_of_override (h : o.Names p field) (hok : table.override o = .ok result) :
    Overridden table [o] result := by
  obtain ⟨fields, hfields, rfl⟩ := (override_ok_iff h).mp hok
  refine ⟨?_, ?_, ?_, fun hkeyed => hkeyed.set_field hfields field o.value,
    depth_set_field_le hfields field o.depth_value⟩
  · refine forall_congr' fun q => ?_
    rw [fields?_set]
    by_cases hq : q = p <;> simp [hq, hfields]
  · intro q f
    rw [fieldAt?_set hfields]
    by_cases hkey : q = p ∧ f = field
    · simp [hkey, h.key]
    · simp [hkey, h.key_eq_iff]
  · intro key hkey
    rw [get?_set, if_neg (hkey p)]

theorem Overridden.trans {middle : Table} {more : List Override}
    (h : Overridden table overrides middle) (hmore : Overridden middle more result) :
    Overridden table (overrides ++ more) result where
  parts := hmore.parts.trans h.parts
  field p f := by
    rw [hmore.field, h.field, List.reverse_append, List.find?_append, Option.map_or,
      Option.or_assoc]
  others key hkey := (hmore.others key hkey).trans (h.others key hkey)
  keyed := hmore.keyed ∘ h.keyed
  depth := by
    have := h.depth
    have := hmore.depth
    omega

theorem overridden_of_overrideAll (hnames : ∀ o ∈ overrides, ∃ p field, o.Names p field)
    (hok : table.overrideAll overrides = .ok result) : Overridden table overrides result := by
  induction overrides generalizing table with
  | nil =>
    cases hok
    exact overridden_nil _
  | cons o rest ih =>
    obtain ⟨⟨p, field, ho⟩, hrest⟩ := List.forall_mem_cons.mp hnames
    cases hstep : table.override o with
    | error fault =>
      rw [overrideAll, List.foldlM_cons, hstep] at hok
      cases hok
    | ok next =>
      rw [overrideAll, List.foldlM_cons, hstep] at hok
      exact (overridden_of_override ho hstep).trans (ih hrest hok)

/-- Overrides of fields fail only where a part is no table. -/
theorem exists_overrideAll (hparts : table.HasParts)
    (hnames : ∀ o ∈ overrides, ∃ p field, o.Names p field) :
    ∃ result, table.overrideAll overrides = .ok result := by
  induction overrides generalizing table with
  | nil => exact ⟨table, rfl⟩
  | cons o rest ih =>
    obtain ⟨⟨p, field, ho⟩, hrest⟩ := List.forall_mem_cons.mp hnames
    obtain ⟨fields, hfields⟩ := Option.isSome_iff_exists.mp (hparts p)
    have hstep := (override_ok_iff ho).mpr ⟨fields, hfields, rfl⟩
    obtain ⟨result, hresult⟩ := ih ((overridden_of_override ho hstep).parts.mpr hparts) hrest
    refine ⟨result, ?_⟩
    rw [overrideAll, List.foldlM_cons, hstep]
    exact hresult

end Table

/-! ### The order of overrides -/

namespace Override

variable {overrides others : List Override}

theorem find?_key_eq_some_iff (hdistinct : (overrides.map key).Nodup) {k : Text} {o : Override} :
    overrides.find? (fun o => o.key = k) = some o ↔ o ∈ overrides ∧ o.key = k := by
  constructor
  · intro h
    exact ⟨List.mem_of_find?_eq_some h, by simpa using List.find?_some h⟩
  · rintro ⟨hmem, hkey⟩
    have hfound : (overrides.find? fun o => o.key = k).isSome = true := by
      rw [List.find?_isSome]
      exact ⟨o, hmem, by simpa using hkey⟩
    obtain ⟨found, h⟩ := Option.isSome_iff_exists.mp hfound
    have hsame : found.key = o.key := by simpa [hkey] using List.find?_some h
    rw [h, List.inj_on_of_nodup_map hdistinct (List.mem_of_find?_eq_some h) hmem hsame]

theorem find?_key_perm (hdistinct : (overrides.map key).Nodup) (h : others.Perm overrides)
    (k : Text) :
    others.find? (fun o => o.key = k) = overrides.find? (fun o => o.key = k) := by
  have hothers : (others.map key).Nodup := (h.map key).nodup_iff.mpr hdistinct
  refine Option.ext fun o => ?_
  rw [find?_key_eq_some_iff hothers, find?_key_eq_some_iff hdistinct, h.mem_iff]

end Override
end HardWrap
