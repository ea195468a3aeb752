import HardWrap.Settings.Basic
import Mathlib.Data.List.Nodup

/-! Tables of settings, seen through their keys. Setting a key changes what is found under that key
and nothing else; a table laid over another one is found under its own keys, and the lower one under
all others. Settings are read from the entries of two parts, and an override assigns one entry. -/

namespace HardWrap

namespace Table

/-! ### Keys -/

def keys (table : Table) : List Text :=
  table.map Prod.fst

@[simp] theorem get?_nil (key : Text) : get? [] key = none := rfl

theorem get?_cons (k : Text) (v : Value) (rest : Table) (key : Text) :
    get? ((k, v) :: rest) key = if key = k then some v else get? rest key := by
  rw [get?, List.lookup_cons]
  by_cases h : key = k
  · rw [if_pos h, beq_iff_eq.mpr h]
  · rw [if_neg h, beq_eq_false_iff_ne.mpr h, get?]

@[simp] theorem get?_set (table : Table) (k : Text) (v : Value) (key : Text) :
    (table.set k v).get? key = if key = k then some v else table.get? key := by
  induction table with
  | nil => rw [set, get?_cons]
  | cons entry rest ih =>
    obtain ⟨k', v'⟩ := entry
    rw [set]
    by_cases h : k' = k
    · rw [if_pos h, get?_cons, get?_cons, h]
      by_cases hkey : key = k <;> simp [hkey]
    · rw [if_neg h, get?_cons, get?_cons, ih]
      by_cases hkey : key = k'
      · simp [hkey, h]
      · simp [hkey]

theorem mem_keys_iff {table : Table} {key : Text} :
    key ∈ table.keys ↔ (table.get? key).isSome = true := by
  induction table with
  | nil => simp [keys]
  | cons entry rest ih =>
    obtain ⟨k, v⟩ := entry
    rw [get?_cons]
    by_cases h : key = k
    · simp [keys, h]
    · rw [if_neg h, ← ih]
      simp [keys, h]

theorem mem_keys_set {table : Table} {k : Text} {v : Value} {key : Text} :
    key ∈ (table.set k v).keys ↔ key = k ∨ key ∈ table.keys := by
  rw [mem_keys_iff, mem_keys_iff, get?_set]
  by_cases h : key = k <;> simp [h]

theorem nodup_set {table : Table} (h : table.keys.Nodup) (k : Text) (v : Value) :
    (table.set k v).keys.Nodup := by
  induction table with
  | nil => simp [set, keys]
  | cons entry rest ih =>
    obtain ⟨k', v'⟩ := entry
    obtain ⟨hnot, hrest⟩ := List.nodup_cons.mp h
    rw [set]
    by_cases hk : k' = k
    · rw [if_pos hk]
      exact h
    · rw [if_neg hk]
      refine List.nodup_cons.mpr ⟨fun hmem => ?_, ih hrest⟩
      rcases mem_keys_set.mp hmem with heq | hmem
      · exact hk heq
      · exact hnot hmem

theorem mem_of_get? {table : Table} {k : Text} {v : Value} (h : table.get? k = some v) :
    (k, v) ∈ table := by
  induction table with
  | nil => cases h
  | cons entry rest ih =>
    obtain ⟨k', v'⟩ := entry
    rw [get?_cons] at h
    by_cases hk : k = k'
    · rw [if_pos hk] at h
      simp [hk, Option.some.inj h]
    · rw [if_neg hk] at h
      exact List.mem_cons_of_mem _ (ih h)

theorem get?_of_mem {table : Table} (h : table.keys.Nodup) {k : Text} {v : Value}
    (hmem : (k, v) ∈ table) : table.get? k = some v := by
  induction table with
  | nil => cases hmem
  | cons entry rest ih =>
    obtain ⟨k', v'⟩ := entry
    obtain ⟨hnot, hrest⟩ := List.nodup_cons.mp h
    rw [get?_cons]
    rcases List.mem_cons.mp hmem with heq | hmem
    · obtain ⟨rfl, rfl⟩ := Prod.mk.inj heq
      simp
    · have hkey : k ∈ keys rest := List.mem_map_of_mem (f := Prod.fst) hmem
      rw [if_neg (ne_of_mem_of_not_mem hkey hnot), ih hrest hmem]

end Table

/-! ### Layers -/

theorem Value.over_tables (below above : Table) :
    Value.over (some (.table below)) (.table above) = .table (Table.over below above) := by
  rw [Value.over]

theorem Value.over_of_not_tables {old : Option Value} {new : Value}
    (h : ∀ below above, old = some (.table below) → new ≠ .table above) :
    Value.over old new = new := by
  rw [Value.over]
  exact h

/-- Of two layers' values the upper one counts, and the lower one where there is no other. Two
tables are joined. -/
def Value.ofLayers? : Option Value → Option Value → Option Value
  | some (.table lower), some (.table upper) => some (.table (Table.over lower upper))
  | _, some v => some v
  | lower, none => lower

theorem Value.ofLayers?_none (lower : Option Value) : ofLayers? lower none = lower := by
  unfold ofLayers?
  split <;> simp_all

theorem Value.ofLayers?_some (lower : Option Value) (v : Value) :
    ofLayers? lower (some v) = some (Value.over lower v) := by
  by_cases hjoin : ∃ below above, lower = some (.table below) ∧ v = .table above
  · obtain ⟨below, above, rfl, rfl⟩ := hjoin
    rw [over_tables, ofLayers?]
  · have hplain : ∀ below above, lower = some (.table below) → v ≠ .table above :=
      fun below above hlower hv => hjoin ⟨below, above, hlower, hv⟩
    rw [over_of_not_tables hplain, ofLayers?]
    exact hplain

namespace Table

theorem get?_over {below above : Table} (h : above.keys.Nodup) (key : Text) :
    (Table.over below above).get? key = Value.ofLayers? (below.get? key) (above.get? key) := by
  induction above generalizing below with
  | nil => rw [Table.over, get?_nil, Value.ofLayers?_none]
  | cons entry rest ih =>
    obtain ⟨k, v⟩ := entry
    obtain ⟨hnot, hrest⟩ := List.nodup_cons.mp h
    rw [Table.over, ih hrest, get?_cons, get?_set]
    by_cases hkey : key = k
    · subst hkey
      have hnone : get? rest key = none := by
        rw [← Option.not_isSome_iff_eq_none, ← mem_keys_iff]
        exact hnot
      rw [if_pos rfl, if_pos rfl, hnone, Value.ofLayers?_none, Value.ofLayers?_some]
    · rw [if_neg hkey, if_neg hkey]

theorem nodup_over {below above : Table} (h : below.keys.Nodup) :
    (Table.over below above).keys.Nodup := by
  induction above generalizing below with
  | nil => rwa [Table.over]
  | cons entry rest ih =>
    rw [Table.over]
    exact ih (nodup_set h _ _)

theorem get?_settle (table : Table) (key : Text) :
    (settle table).get? key = (table.get? key).map Value.settle := by
  induction table with
  | nil => rw [settle]; rfl
  | cons entry rest ih =>
    obtain ⟨k, v⟩ := entry
    rw [settle, get?_cons, get?_cons, ih]
    by_cases h : key = k <;> simp [h]

theorem keys_settle (table : Table) : (settle table).keys = table.keys := by
  induction table with
  | nil => rw [settle]
  | cons entry rest ih =>
    rw [settle, keys, List.map_cons]
    exact congrArg _ ih

theorem depth_le_iff {table : Table} {n : Nat} :
    depth table ≤ n ↔ ∀ entry ∈ table, entry.2.depth ≤ n := by
  induction table with
  | nil => simp [depth]
  | cons entry rest ih =>
    obtain ⟨k, v⟩ := entry
    rw [depth, Nat.max_le, ih]
    simp

theorem get?_depth_le {table : Table} {k : Text} {v : Value} (h : table.get? k = some v) :
    v.depth ≤ depth table :=
  depth_le_iff.mp (Nat.le_refl _) (k, v) (mem_of_get? h)

theorem depth_set_le (table : Table) (k : Text) (v : Value) :
    depth (table.set k v) ≤ max (depth table) v.depth := by
  induction table with
  | nil => simp [set, depth]
  | cons entry rest ih =>
    obtain ⟨k', v'⟩ := entry
    rw [set]
    by_cases h : k' = k
    · rw [if_pos h, depth, depth]
      omega
    · rw [if_neg h, depth, depth]
      omega

end Table

/-! ### Parts and their entries -/

theorem Part.key_injective : Function.Injective Part.key := by
  rintro (_ | _) (_ | _) h
  · rfl
  · cases h
  · cases h
  · rfl

namespace Table

/-- The fields of a part. A part that is missing has none; a part that is no table has no fields at
all. -/
def fields? (table : Table) (p : Part) : Option Table :=
  match table.get? p.key with
  | none => some []
  | some (.table fields) => some fields
  | some _ => none

/-- What a table says about a field of a part. -/
def fieldAt? (table : Table) (p : Part) (field : Text) : Option Value :=
  (table.fields? p).bind fun fields => fields.get? field

theorem fields?_eq_some_iff {table fields : Table} {p : Part} :
    table.fields? p = some fields ↔
      table.get? p.key = some (.table fields) ∨ table.get? p.key = none ∧ fields = [] := by
  unfold fields?
  cases table.get? p.key with
  | none => simp [eq_comm]
  | some v => cases v <;> simp

theorem fieldAt?_eq {table fields : Table} {p : Part} (h : table.fields? p = some fields)
    (f : Text) : table.fieldAt? p f = fields.get? f := by
  rw [fieldAt?, h, Option.bind_some]

/-- A field can be assigned where its part has fields, and nowhere else. -/
theorem assign_field_ok_iff {table : Table} {value : Value} {p : Part} {field : Text}
    {result : Table} :
    table.assign value [p.key, field] = .ok result ↔
      ∃ fields, table.fields? p = some fields ∧
        result = table.set p.key (.table (fields.set field value)) := by
  unfold fields? assign
  cases table.get? p.key with
  | none => simp [assign, eq_comm]
  | some v => cases v <;> simp [assign, eq_comm]

variable {table fields : Table} {p : Part}

theorem fields?_set (q : Part) :
    (table.set p.key (.table fields)).fields? q =
      if q = p then some fields else table.fields? q := by
  rw [fields?, get?_set]
  by_cases h : q = p
  · simp [h]
  · have hkey : q.key ≠ p.key := fun e => h (Part.key_injective e)
    simp only [if_neg h, if_neg hkey, fields?]

/-- Assigning a field changes that entry and no other. -/
theorem fieldAt?_set (h : table.fields? p = some fields) (field : Text) (value : Value) (q : Part)
    (f : Text) :
    (table.set p.key (.table (fields.set field value))).fieldAt? q f =
      if q = p ∧ f = field then some value else table.fieldAt? q f := by
  rw [fieldAt?, fields?_set]
  by_cases hq : q = p
  · subst hq
    by_cases hf : f = field <;> simp [hf, fieldAt?, h]
  · simp [hq, fieldAt?]

/-- A field that holds no table of its own adds a part at most. -/
theorem depth_set_field_le (h : table.fields? p = some fields) (field : Text) {value : Value}
    (hvalue : value.depth = 0) :
    depth (table.set p.key (.table (fields.set field value))) ≤ max (depth table) 1 := by
  have hfields : depth fields + 1 ≤ max (depth table) 1 := by
    rcases fields?_eq_some_iff.mp h with hp | ⟨-, rfl⟩
    · have hle := get?_depth_le hp
      rw [Value.depth] at hle
      omega
    · exact Nat.le_max_right _ _
  have houter := depth_set_le table p.key (.table (fields.set field value))
  have hinner := depth_set_le fields field value
  rw [Value.depth] at houter
  omega

/-- A part of two layers is the upper one's laid over the lower one's, or the upper one's alone
where the lower one says nothing. -/
theorem fields?_over {below above : Table} (hkeys : above.keys.Nodup)
    (h : (Table.over below above).fields? p = some fields) :
    ∃ upper, above.fields? p = some upper ∧
      ((∃ lower, below.fields? p = some lower ∧ fields = Table.over lower upper) ∨
        fields = upper ∧ ∀ f, below.fieldAt? p f = none) := by
  rw [fields?, get?_over hkeys] at h
  cases hupper : above.get? p.key with
  | none =>
    rw [hupper, Value.ofLayers?_none] at h
    exact ⟨[], fields?_eq_some_iff.mpr (.inr ⟨hupper, rfl⟩), .inl ⟨fields, h, by rw [Table.over]⟩⟩
  | some upper =>
    rw [hupper, Value.ofLayers?_some] at h
    by_cases hjoin : ∃ lower fields, below.get? p.key = some (.table lower) ∧ upper = .table fields
    · obtain ⟨lower, upper, hlower, rfl⟩ := hjoin
      rw [hlower, Value.over_tables] at h
      exact ⟨upper, fields?_eq_some_iff.mpr (.inl hupper),
        .inl ⟨lower, fields?_eq_some_iff.mpr (.inl hlower), (Option.some.inj h).symm⟩⟩
    · -- nothing is joined, so the upper value stands, and it is the table that was found
      rw [Value.over_of_not_tables fun _ _ hlower e => hjoin ⟨_, _, hlower, e⟩, ← hupper] at h
      have htable : upper = .table fields := by
        rcases fields?_eq_some_iff.mp h with h | ⟨h, -⟩
        · exact Option.some.inj (hupper.symm.trans h)
        · cases hupper.symm.trans h
      refine ⟨fields, h, .inr ⟨rfl, fun f => ?_⟩⟩
      refine Option.eq_none_iff_forall_ne_some.mpr fun v hfield => ?_
      obtain ⟨lower, hlower, hget⟩ := Option.bind_eq_some_iff.mp hfield
      rcases fields?_eq_some_iff.mp hlower with hlower | ⟨-, rfl⟩
      · exact hjoin ⟨lower, fields, hlower, htable⟩
      · cases hget

/-! ### Tables without repeated keys -/

/-- No key stands twice, neither in the table nor in one of its parts. -/
structure Keyed (table : Table) : Prop where
  keys : table.keys.Nodup
  fields : ∀ p fields, table.fields? p = some fields → fields.keys.Nodup

theorem Keyed.set_field (h : Keyed table) (hp : table.fields? p = some fields) (field : Text)
    (value : Value) : Keyed (table.set p.key (.table (fields.set field value))) where
  keys := nodup_set h.keys _ _
  fields := by
    intro q others hq
    rw [fields?_set] at hq
    by_cases hqp : q = p
    · rw [if_pos hqp, Option.some.injEq] at hq
      exact hq ▸ nodup_set (h.fields p fields hp) field value
    · rw [if_neg hqp] at hq
      exact h.fields q others hq

theorem Keyed.over {below above : Table} (hbelow : Keyed below) (habove : Keyed above) :
    Keyed (Table.over below above) where
  keys := nodup_over hbelow.keys
  fields := by
    intro p fields h
    obtain ⟨upper, hupper, ⟨lower, hlower, rfl⟩ | ⟨rfl, -⟩⟩ := fields?_over habove.keys h
    · exact nodup_over (hbelow.fields p lower hlower)
    · exact habove.fields p fields hupper

/-- The fields of two layers, one by one. -/
theorem Keyed.fieldAt?_over {below above : Table} (habove : Keyed above)
    (h : ((Table.over below above).fields? p).isSome = true) (f : Text) :
    (Table.over below above).fieldAt? p f =
      Value.ofLayers? (below.fieldAt? p f) (above.fieldAt? p f) := by
  obtain ⟨fields, hfields⟩ := Option.isSome_iff_exists.mp h
  obtain ⟨upper, hupper, hpart⟩ := fields?_over habove.keys hfields
  rw [fieldAt?_eq hfields, fieldAt?_eq hupper]
  rcases hpart with ⟨lower, hlower, rfl⟩ | ⟨rfl, hnone⟩
  · rw [get?_over (habove.fields p upper hupper), fieldAt?_eq hlower]
  · rw [hnone]
    cases get? fields f <;> rfl

/-- How deep a table goes, told from its entries. -/
theorem Keyed.depth_le_iff (h : Keyed table) (hparts : ∀ p, (table.fields? p).isSome = true)
    {n : Nat} (hn : 0 < n) :
    depth table ≤ n ↔
      (∀ key v, table.get? key = some v → (∀ p : Part, key ≠ p.key) → v.depth ≤ n) ∧
        ∀ p f v, table.fieldAt? p f = some v → v.depth < n := by
  constructor
  · intro hdepth
    refine ⟨fun key v hget _ => Nat.le_trans (get?_depth_le hget) hdepth, fun p f v hfield => ?_⟩
    obtain ⟨fields, hfields, hget⟩ := Option.bind_eq_some_iff.mp hfield
    rcases fields?_eq_some_iff.mp hfields with hpart | ⟨-, rfl⟩
    · have hle := Nat.le_trans (get?_depth_le hpart) hdepth
      rw [Value.depth] at hle
      exact Nat.lt_of_le_of_lt (get?_depth_le hget) hle
    · cases hget
  · rintro ⟨hothers, hfields⟩
    refine Table.depth_le_iff.mpr fun ⟨key, v⟩ hmem => ?_
    have hget := get?_of_mem h.keys hmem
    by_cases hkey : ∃ p : Part, key = p.key
    · obtain ⟨p, rfl⟩ := hkey
      obtain ⟨fields, hpart⟩ := Option.isSome_iff_exists.mp (hparts p)
      rcases fields?_eq_some_iff.mp hpart with hp | ⟨hp, -⟩
      · obtain rfl : .table fields = v := Option.some.inj (hp.symm.trans hget)
        have hinner : depth fields ≤ n - 1 := by
          refine Table.depth_le_iff.mpr fun ⟨f, v⟩ hentry => Nat.le_sub_one_of_lt (hfields p f v ?_)
          rw [fieldAt?_eq hpart, get?_of_mem (h.fields p fields hpart) hentry]
        rw [Value.depth]
        omega
      · cases hp.symm.trans hget
    · exact hothers key v hget fun p e => hkey ⟨p, e⟩

end Table
end HardWrap
