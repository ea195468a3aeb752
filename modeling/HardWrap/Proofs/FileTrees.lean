import HardWrap.Tree.Basic
import Mathlib.Data.List.Basic

/-! Trees of files, seen through what stands at each place. Writing over a file changes what stands
at its own place and nothing else, so every path goes on to lead to the same place. -/

namespace HardWrap

/-! ### Texts and bytes -/

namespace Utf8

theorem decode_encode (t : Text) : decode (encode t) = .ok t := by
  have h : (encode t).toByteArray.utf8Decode? = some t.toArray := List.utf8Decode?_utf8Encode
  rw [decode, h]

/-- Only the bytes of a text are read as that text. -/
theorem decode_eq_ok_iff {bytes : Bytes} {t : Text} : decode bytes = .ok t ↔ bytes = encode t := by
  constructor
  · intro h
    unfold decode at h
    split at h
    next chars hchars =>
      obtain rfl := Except.ok.inj h
      have hbytes := ByteArray.utf8Encode_get_utf8Decode? (b := bytes.toByteArray)
        (h := by rw [hchars]; rfl)
      simp only [hchars, Option.get_some] at hbytes
      exact (List.toByteArray_inj.mp hbytes).symm
    next => cases h
  · rintro rfl
    exact decode_encode t

theorem encode_inj {s t : Text} : encode s = encode t ↔ s = t := by
  constructor
  · intro h
    have hs := decode_encode s
    rw [h, decode_encode] at hs
    exact (Except.ok.inj hs).symm
  · rintro rfl
    rfl

end Utf8

namespace Tree

variable {tree : Tree} {place : List Text}

/-! ### Writing -/

theorem lookup_put (entries : List (List Text × Entry)) (place : List Text) (entry : Entry)
    (q : List Text) :
    (put entries place entry).lookup q = if q = place then some entry else entries.lookup q := by
  induction entries with
  | nil =>
    rw [put, List.lookup_cons]
    by_cases h : q = place
    · rw [if_pos h, beq_iff_eq.mpr h]
    · rw [if_neg h, beq_eq_false_iff_ne.mpr h]
  | cons e rest ih =>
    obtain ⟨p, old⟩ := e
    rw [put]
    by_cases hp : p = place
    · subst hp
      rw [if_pos rfl, List.lookup_cons, List.lookup_cons]
      by_cases h : q = p
      · rw [if_pos h, beq_iff_eq.mpr h]
      · rw [if_neg h, beq_eq_false_iff_ne.mpr h]
    · rw [if_neg hp, List.lookup_cons, List.lookup_cons, ih]
      by_cases h : q = p
      · have hq : q ≠ place := fun hq => hp (h.symm.trans hq)
        rw [beq_iff_eq.mpr h]
        simp only [if_neg hq]
      · rw [beq_eq_false_iff_ne.mpr h]

theorem any_put (entries : List (List Text × Entry)) (place : List Text) (entry : Entry)
    (f : List Text → Bool) :
    ((put entries place entry).any fun e => f e.1) = (f place || entries.any fun e => f e.1) := by
  induction entries with
  | nil => rfl
  | cons e rest ih =>
    obtain ⟨p, old⟩ := e
    rw [put]
    by_cases hp : p = place
    · subst hp
      rw [if_pos rfl, List.any_cons, List.any_cons, ← Bool.or_assoc, Bool.or_self]
    · rw [if_neg hp, List.any_cons, ih, List.any_cons, Bool.or_left_comm]

theorem at?_of_lookup {entry : Entry} (h : tree.entries.lookup place = some entry) :
    tree.at? place = some entry := by
  rw [at?, h]

theorem at?_of_not_listed (h : tree.entries.lookup place = none) :
    tree.at? place =
      if isGiven place || tree.entries.any fun e => place.isPrefixOf e.1 then some .folder
      else none := by
  rw [at?, h]

theorem above_listed {e : List Text × Entry} {q : List Text} (he : e ∈ tree.entries)
    (hq : q <+: e.1) : (isGiven q || tree.entries.any fun e => q.isPrefixOf e.1) = true := by
  rw [Bool.or_eq_true]
  exact Or.inr (List.any_eq_true.mpr ⟨e, he, List.isPrefixOf_iff_prefix.mpr hq⟩)

theorem mem_of_lookup {entry : Entry} (h : tree.entries.lookup place = some entry) :
    (place, entry) ∈ tree.entries := by
  obtain ⟨l, r, hsplit, -⟩ := List.lookup_eq_some_iff.mp h
  rw [hsplit]
  exact List.mem_append_right l List.mem_cons_self

theorem lookup_of_file {bytes : Bytes} (h : tree.at? place = some (.file bytes)) :
    tree.entries.lookup place = some (.file bytes) := by
  cases hlookup : tree.entries.lookup place with
  | some entry => rw [← at?_of_lookup hlookup, h]
  | none =>
    rw [at?_of_not_listed hlookup] at h
    split at h
    · cases h
    · cases h

/-- The folders above a file were there before it was written over. -/
theorem at?_put {old : Bytes} (h : tree.at? place = some (.file old)) (bytes : Bytes)
    (q : List Text) :
    Tree.at? ⟨put tree.entries place (.file bytes)⟩ q =
      if q = place then some (.file bytes) else tree.at? q := by
  by_cases hq : q = place
  · rw [if_pos hq]
    exact at?_of_lookup (by rw [lookup_put, if_pos hq])
  · rw [if_neg hq]
    have hput := lookup_put tree.entries place (.file bytes) q
    rw [if_neg hq] at hput
    cases hlookup : tree.entries.lookup q with
    | some entry => rw [at?_of_lookup hlookup, at?_of_lookup (hput.trans hlookup)]
    | none =>
      rw [at?_of_not_listed hlookup, at?_of_not_listed (hput.trans hlookup),
        any_put tree.entries place (.file bytes) q.isPrefixOf]
      by_cases habove : q <+: place
      · have hthere := above_listed (mem_of_lookup (lookup_of_file h)) habove
        rw [Bool.or_left_comm, hthere, Bool.or_true]
      · have hnot : q.isPrefixOf place = false := by
          rw [Bool.eq_false_iff]
          exact fun hprefix => habove (List.isPrefixOf_iff_prefix.mp hprefix)
        rw [hnot, Bool.false_or]

theorem read_eq_ok_iff {path : Path} {bytes : Bytes} :
    tree.read path = .ok bytes ↔
      ∃ place, tree.resolve path = .ok place ∧ tree.at? place = some (.file bytes) := by
  unfold read
  cases tree.resolve path with
  | error cause => simp
  | ok place =>
    cases hplace : tree.at? place with
    | none => simp [hplace]
    | some entry =>
      cases entry with
      | folder => simp [hplace]
      | file old => simp [hplace]

/-! ### Following paths -/

/-- Writing over a file leaves every path leading where it led. -/
theorem follow_put {old : Bytes} (h : tree.at? place = some (.file old)) (bytes : Bytes)
    (here steps : List Text) :
    Tree.follow ⟨put tree.entries place (.file bytes)⟩ here steps = tree.follow here steps := by
  induction steps generalizing here with
  | nil => rfl
  | cons step rest ih =>
    rw [follow, follow, ih, at?_put h]
    by_cases hhere : here = place
    · rw [if_pos hhere, hhere, h]
    · rw [if_neg hhere]

theorem resolve_put {old : Bytes} (h : tree.at? place = some (.file old)) (bytes : Bytes)
    (path : Path) :
    Tree.resolve ⟨put tree.entries place (.file bytes)⟩ path = tree.resolve path := by
  rw [resolve, resolve, follow_put h]

theorem follow_eq_foldl {here there steps : List Text} (h : tree.follow here steps = .ok there) :
    there = steps.foldl stepFrom here := by
  induction steps generalizing here with
  | nil => exact (Except.ok.inj h).symm
  | cons step rest ih =>
    rw [follow] at h
    split at h
    · cases h
    · cases h
    · split at h
      · cases h
      · exact ih h

/-- Two paths that lead to one place, if they lead anywhere. -/
def SamePlace (p q : Path) : Prop :=
  p.foldl stepFrom [] = q.foldl stepFrom []

instance (p q : Path) : Decidable (SamePlace p q) :=
  inferInstanceAs (Decidable (_ = _))

theorem samePlace_of_resolve {p q : Path} (hp : tree.resolve p = .ok place)
    (hq : tree.resolve q = .ok place) : SamePlace p q := by
  have hsteps : ∀ {path : Path}, tree.resolve path = .ok place →
      place = path.foldl stepFrom [] := by
    intro path hpath
    unfold resolve at hpath
    split at hpath
    · cases hpath
    · exact follow_eq_foldl hpath
  exact (hsteps hp).symm.trans (hsteps hq)

/-- A file that is there can be written over, and only the paths that lead to it read it. -/
theorem write_over {path : Path} {old : Bytes} (h : tree.read path = .ok old) (bytes : Bytes) :
    ∃ after, tree.write path bytes = .ok after ∧ after.read path = .ok bytes ∧
      ∀ q, ¬ SamePlace path q → after.read q = tree.read q := by
  obtain ⟨place, hplace, hfile⟩ := read_eq_ok_iff.mp h
  refine ⟨⟨put tree.entries place (.file bytes)⟩, ?_, ?_, ?_⟩
  · rw [write, hplace]
    simp only [hfile]
  · refine read_eq_ok_iff.mpr ⟨place, (resolve_put hfile bytes path).trans hplace, ?_⟩
    rw [at?_put hfile, if_pos rfl]
  · intro q hq
    rw [read, read, resolve_put hfile]
    cases hthere : tree.resolve q with
    | error cause => rfl
    | ok there =>
      have hne : there ≠ place := by
        rintro rfl
        exact hq (samePlace_of_resolve hplace hthere)
      simp only [at?_put hfile, if_neg hne]

end Tree

end HardWrap
