import HardWrap.Proofs.Boundaries

/-! Hard boundaries. At a blank line, a command, a border, a comment that stands alone, a line with
an in-line comment or a forced break every paragraph ends, so what comes after the line is read as
if nothing had come before. All of these but a forced break in prose, and every item and every
explicit paragraph as well, continue no paragraph either, so they are read as if they came first. -/

namespace HardWrap

open Text

/-- Lines that no paragraph goes beyond. -/
inductive EndsParagraph (style : Style) (line : Text) : Prop where
  | blank (kind : kindOf line = .blank)
  | command (kind : kindOf line = .command)
  | ends (name : Text) (kind : kindOf line = .ends name)
  | begins (name : Text) (kind : kindOf line = .begins name)
      (tracked : style.tracked.contains name = true)
  | comment (kind : kindOf line = .comment) (alone : isMergeableComment line = false)
  | commented (pos : Nat) (kind : kindOf line = .prose (some pos) ∨ kindOf line = .item (some pos))
  | broken (pos : Option Nat) (kind : kindOf line = .prose pos ∨ kindOf line = .item pos)
      (forced : endsWithBreak line = true)

/-- Lines that continue no paragraph. -/
inductive StartsAfresh (style : Style) (line : Text) : Prop where
  | boundary (ends : EndsParagraph style line) (notProse : kindOf line ≠ .prose none)
  | item (pos : Option Nat) (kind : kindOf line = .item pos)
  | paragraph (pos : Option Nat) (kind : kindOf line = .prose pos)
      (opens : opensParagraph line = true)

theorem Paragraph.settle_broken {line : Text} (h : endsWithBreak line = true) (p : Paragraph) :
    p.settle line = (.idle, [.paragraph p]) := by
  rw [settle, if_pos h]

namespace Stage

variable {style : Style} {stage : Stage} {line : Line}

theorem read_outside (hout : ∀ n, stage ≠ .copying n) :
    stage.read style line = stage.readOutside style line := by
  cases stage with
  | copying n => exact absurd rfl (hout n)
  | idle => rfl
  | gathering p => rfl

theorem readProse_broken (h : endsWithBreak line.text = true) :
    (stage.readProse style line.text).1 = .idle := by
  cases stage with
  | idle => simp only [readProse, Paragraph.settle_broken h]
  | copying n => simp only [readProse, Paragraph.settle_broken h]
  | gathering p =>
    simp only [readProse, Paragraph.settle_broken h]
    split <;> rfl

theorem read_ends (hout : ∀ n, stage ≠ .copying n) (h : EndsParagraph style line.text) :
    (stage.read style line).1 = .idle := by
  rw [read_outside hout, readOutside]
  cases h with
  | blank kind => rw [kind]; rfl
  | command kind => rw [kind]; rfl
  | ends name kind => rw [kind]; rfl
  | begins name kind tracked =>
    simp only [kind, readBegin, tracked, ↓reduceIte]
    rfl
  | comment kind alone =>
    simp only [kind, readComment, alone, Bool.not_false, ↓reduceIte]
    rfl
  | commented pos kind =>
    obtain kind | kind := kind
    · rw [kind]; rfl
    · rw [kind]; rfl
  | broken pos kind forced =>
    cases pos with
    | some pos =>
      obtain kind | kind := kind
      · rw [kind]; rfl
      · rw [kind]; rfl
    | none =>
      obtain kind | kind := kind
      · rw [kind]
        exact readProse_broken forced
      · simp only [kind, readItem, Paragraph.settle_broken forced]

end Stage

namespace StartsAfresh

variable {style : Style} {line : Text}

theorem alone (h : StartsAfresh style line) (hk : kindOf line = .comment) :
    isMergeableComment line = false := by
  cases h with
  | boundary ends _ =>
    cases ends with
    | comment _ alone => exact alone
    | _ => simp_all
  | item pos kind => simp_all
  | paragraph pos kind _ => simp_all

theorem opens (h : StartsAfresh style line) (hk : kindOf line = .prose none) :
    opensParagraph line = true := by
  cases h with
  | boundary _ notProse => exact absurd hk notProse
  | item pos kind => simp_all
  | paragraph _ _ opens => exact opens

theorem not_joins (h : StartsAfresh style line) (p : Paragraph) :
    p.joins style line = false := by
  unfold Paragraph.joins
  split
  next kind => rw [h.alone kind, Bool.false_and]
  next kind => rw [h.opens kind, Bool.not_true, Bool.false_and]
  next kind => rw [h.opens kind, Bool.not_true, Bool.false_and]
  next => rfl

end StartsAfresh

/-! ### The blocks on both sides -/

section Blocks

variable {style : Style} {xs : List Line} {l : Line}

theorem blocksOf_append_ends (hout : ∀ n, Stage.idle.after style xs ≠ .copying n)
    (h : EndsParagraph style l.text) (ys : List Line) :
    blocksOf style (xs ++ [l] ++ ys) = blocksOf style (xs ++ [l]) ++ blocksOf style ys := by
  have hidle : Stage.idle.after style (xs ++ [l]) = .idle := by
    rw [Stage.after_append, Stage.after_cons, Stage.after_nil]
    exact Stage.read_ends hout h
  apply blocksOf_append
  rw [hidle]
  rfl

theorem blocksOf_append_fresh (hout : ∀ n, Stage.idle.after style xs ≠ .copying n)
    (h : StartsAfresh style l.text) (ys : List Line) :
    blocksOf style (xs ++ ([l] ++ ys)) = blocksOf style xs ++ blocksOf style ([l] ++ ys) := by
  apply blocksOf_append
  cases hstage : Stage.idle.after style xs with
  | copying n => exact absurd hstage (hout n)
  | idle => rfl
  | gathering p =>
    rw [blocksOf, List.singleton_append, Stage.segment_cons, Stage.segment_cons,
      Stage.read_of_not_joins (h.not_joins p)]
    rfl

end Blocks

/-- Paragraphs on both sides of a hard boundary do not depend on each other: what comes after a line
that ends every paragraph is reflowed on its own, and so is what comes before a line that continues
none. -/
theorem hard_boundaries_part_paragraphs {style : Style} {e : Text} (he : e ≠ []) {xs : List Line}
    (hout : ∀ n, Stage.idle.after style xs ≠ .copying n) (l : Line) (ys : List Line) :
    (l.ending ≠ [] → EndsParagraph style l.text →
      reflowLines style e (xs ++ [l] ++ ys) =
        reflowLines style e (xs ++ [l]) ++ reflowLines style e ys) ∧
    (endsOpen xs = false → StartsAfresh style l.text →
      reflowLines style e (xs ++ [l] ++ ys) =
        reflowLines style e xs ++ reflowLines style e ([l] ++ ys)) := by
  constructor
  · intro hl hends
    have hclosed : endsOpen (xs ++ [l]) = false := by
      rw [endsOpen_append (by simp)]
      simpa [endsOpen] using hl
    apply reflowLines_append he (blocksOf_append_ends hout hends ys)
    rw [endsDropped, hclosed, Bool.false_and]
  · intro hxs hfresh
    rw [List.append_assoc]
    apply reflowLines_append he (blocksOf_append_fresh hout hfresh ys)
    rw [endsDropped, hxs, Bool.false_and]

/-- An item that ends in a forced break parts the prose before it from the prose after it. -/
theorem hard_boundaries_part_paragraphs_item :
    ∃ (xs ys : List Line) (l : Line),
      xs = lines "one\ntwo\n".toList ∧ l = ⟨"\\item three\\\\".toList, 2, ['\n']⟩ ∧
      ys = linesFrom 3 "four\nfive".toList ∧
      (∀ n, Stage.idle.after {} xs ≠ .copying n) ∧ endsOpen xs = false ∧
      EndsParagraph {} l.text ∧ StartsAfresh {} l.text ∧
      reflowLines {} ['\n'] (xs ++ [l] ++ ys) =
        "one two\n\\item three\\\\\n".toList ++ "four five".toList ∧
      reflowLines {} ['\n'] (xs ++ [l] ++ ys) =
        "one two\n".toList ++ "\\item three\\\\\nfour five".toList := by
  have hout : ∀ n, Stage.idle.after {} (lines "one\ntwo\n".toList) ≠ .copying n := by
    have hstage : Stage.idle.after {} (lines "one\ntwo\n".toList) =
        .gathering ((proseParagraph {} "one".toList).append ["two".toList]) := by
      decide +kernel
    intro n hn
    rw [hstage] at hn
    cases hn
  have hkind : kindOf "\\item three\\\\".toList = .item none := by decide +kernel
  have hends : EndsParagraph {} "\\item three\\\\".toList :=
    .broken none (Or.inr hkind) (by decide +kernel)
  have hparts := hard_boundaries_part_paragraphs (e := ['\n']) (by simp) hout
    ⟨"\\item three\\\\".toList, 2, ['\n']⟩ (linesFrom 3 "four\nfive".toList)
  refine ⟨_, _, _, rfl, rfl, rfl, hout, by decide +kernel, hends, .item none hkind, ?_, ?_⟩
  · rw [hparts.1 (by simp) hends]
    decide +kernel
  · rw [hparts.2 (by decide +kernel) (.item none hkind)]
    decide +kernel

end HardWrap
