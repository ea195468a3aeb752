import HardWrap.CommandLine.Workspace
import HardWrap.Proofs.FileRuns

/-! Hosts that can be relied on. Over a file that can be read its bytes can be written, or the file
is locked; what is written is read again, and no other file changes. Notes and the display of
progress leave files and output alone. Workspaces are such hosts. -/

namespace HardWrap

namespace CommandLine

variable {σ : Type}

namespace Host

/-- No file and nothing on the output differs between two states. -/
structure Keeps (host : Host σ) (out : σ → String) (s next : σ) : Prop where
  read : ∀ q, host.read next q = host.read s q
  out : out next = out s

/-- An act that succeeds and leaves files and output alone. -/
def Calm (host : Host σ) (out : σ → String) (act : Act σ Unit) : Prop :=
  ∀ s, ∃ next, act s = (.ok (), next) ∧ host.Keeps out s next

/-- The output takes a text, in the form it gives it, and shows something of it. -/
structure Says (host : Host σ) (out : σ → String) (form : String → String) (t : String) : Prop where
  shows : form t ≠ ""
  say : ∀ s, ∃ next, host.say t s = (.ok (), next) ∧ out next = out s ++ form t ∧
    ∀ q, host.read next q = host.read s q

/-- What can be relied on: `same` tells which paths lead to one file, and `writable` which files can
be written over. -/
structure Steady (host : Host σ) (out : σ → String) (same : Path → Path → Prop)
    (writable : Path → Prop) : Prop where
  symm : ∀ {p q}, same p q → same q p
  write : ∀ {s p old} bytes, host.read s p = .ok old → writable p →
    ∃ next, host.write p bytes s = (.ok (), next) ∧ host.read next p = .ok bytes ∧
      (∀ q, ¬ same p q → host.read next q = host.read s q) ∧ out next = out s
  locked : ∀ {s p old} bytes, host.read s p = .ok old → ¬ writable p →
    ∃ fault next, host.write p bytes s = (.error (.file fault), next) ∧ host.Keeps out s next
  take : ∀ n s, host.Keeps out s (host.take n s)
  openBar : ∀ total, host.Calm out (host.screen.openBar total)
  moveBar : ∀ done, host.Calm out (host.screen.moveBar done)
  closeBar : host.Calm out host.screen.closeBar
  table : ∀ title head rows, host.Calm out (host.screen.table title head rows)

variable {host : Host σ} {out : σ → String} {s next last : σ}

theorem Keeps.refl (s : σ) : host.Keeps out s s :=
  ⟨fun _ => rfl, rfl⟩

theorem Keeps.trans (h : host.Keeps out s next) (h' : host.Keeps out next last) :
    host.Keeps out s last :=
  ⟨fun q => (h'.read q).trans (h.read q), h'.out.trans h.out⟩

theorem calm_pure : host.Calm out (pure ()) :=
  fun s => ⟨s, rfl, .refl s⟩

theorem Calm.bind {x y : Act σ Unit} (hx : host.Calm out x) (hy : host.Calm out y) :
    host.Calm out (x >>= fun _ => y) := by
  intro s
  obtain ⟨next, hdone, hkeeps⟩ := hx s
  obtain ⟨last, hlast, hkeeps'⟩ := hy next
  exact ⟨last, (Act.bind_of_ok hdone).trans hlast, hkeeps.trans hkeeps'⟩

variable {same : Path → Path → Prop} {writable : Path → Prop}

theorem Steady.takeAll (h : host.Steady out same writable) (notes : List Note) (s : σ) :
    host.Keeps out s (host.takeAll notes s) := by
  induction notes generalizing s with
  | nil => exact .refl s
  | cons n rest ih => exact (h.take n s).trans (ih _)

theorem Steady.note (h : host.Steady out same writable) (notes : List Note) :
    host.Calm out (host.note notes) :=
  fun s => ⟨host.takeAll notes s, rfl, h.takeAll notes s⟩

end Host

end CommandLine

/-! ### What workspaces show -/

theorem lt_of_drop_line {rest tail : Text} {c : Char} {k : Nat}
    (h : (rest ++ ['\n']).drop k = c :: tail) (hc : c ≠ '\n') : k < rest.length := by
  by_contra hk
  rw [List.drop_append, List.drop_of_length_le (by omega), List.nil_append] at h
  cases hover : k - rest.length with
  | zero =>
    rw [hover] at h
    exact hc (List.cons.inj h).1.symm
  | succ n =>
    rw [hover, List.drop_succ_cons, List.drop_nil] at h
    cases h

/-- No control sequence reaches over the end of a line. -/
theorem controlLength_le (t : Text) : controlLength (t ++ ['\n']) ≤ t.length := by
  match t with
  | [] => decide
  | [c] =>
    unfold controlLength
    split
    next h => cases h
    next => exact Nat.zero_le _
  | c :: d :: rest =>
    rw [List.cons_append, List.cons_append]
    unfold controlLength
    split
    next h =>
      obtain ⟨-, hrest⟩ := List.cons.inj h
      obtain ⟨-, rfl⟩ := List.cons.inj hrest
      simp only
      split
      next final tail hdrop =>
        split
        next hfinal =>
          rw [List.drop_drop] at hdrop
          have hne : final ≠ '\n' := by
            rintro rfl
            cases hfinal
          have := lt_of_drop_line hdrop hne
          simp only [List.length_cons]
          omega
        next => exact Nat.zero_le _
      next => exact Nat.zero_le _
    next => exact Nat.zero_le _

theorem plainAfter_ne_nil {skip : Nat} {t : Text} (h : skip ≤ t.length) :
    plainAfter skip (t ++ ['\n']) ≠ [] := by
  induction t generalizing skip with
  | nil =>
    obtain rfl := Nat.le_zero.mp h
    decide
  | cons c rest ih =>
    cases skip with
    | succ skip => exact ih (Nat.le_of_succ_le_succ h)
    | zero =>
      rw [List.cons_append, plainAfter]
      have hlength := controlLength_le (c :: rest)
      rw [List.cons_append] at hlength
      cases hcontrol : controlLength (c :: (rest ++ ['\n'])) with
      | zero => exact List.cons_ne_nil _ _
      | succ more =>
        rw [hcontrol] at hlength
        exact ih (Nat.le_of_succ_le_succ hlength)

namespace CommandLine

theorem plainText_line_ne_empty (s : String) : plainText (s ++ "\n") ≠ "" := by
  intro h
  have hplain : Text.plain (s.toList ++ ['\n']) = [] := by
    have htext := congrArg String.toList h
    rwa [plainText, String.toList_ofList, String.toList_append] at htext
  exact plainAfter_ne_nil (Nat.zero_le _) hplain

namespace Workspace

variable {verbosity : Verbosity} {user : Table} {timestamp : Text}

theorem take_keeps (n : Note) (ws : Workspace) :
    (host verbosity user timestamp).Keeps Workspace.out ws (take verbosity n ws) := by
  unfold take
  split
  · exact ⟨fun _ => rfl, rfl⟩
  · exact .refl ws

/-- Every file of a workspace can be written over. -/
theorem host_steady (verbosity : Verbosity) (user : Table) (timestamp : Text) :
    (host verbosity user timestamp).Steady Workspace.out Tree.SamePlace fun _ => True where
  symm h := h.symm
  write := by
    intro ws p old bytes hread _
    have hfile : ws.files.read p = .ok old := by
      have hfound : (ws.files.read p).mapError Failure.file = .ok old := hread
      cases hfile : ws.files.read p with
      | ok found =>
        rw [hfile] at hfound
        exact congrArg Except.ok (Except.ok.inj hfound)
      | error fault =>
        rw [hfile] at hfound
        cases hfound
    obtain ⟨after, hwrite, hsame, hothers⟩ := Tree.write_over hfile bytes
    refine ⟨{ ws with files := after }, ?_, ?_, ?_, rfl⟩
    · show Workspace.write p bytes ws = _
      rw [Workspace.write, hwrite]
    · show (after.read p).mapError Failure.file = _
      rw [hsame]
      rfl
    · intro q hq
      exact congrArg (Except.mapError Failure.file) (hothers q hq)
  locked := fun _ _ h => absurd trivial h
  take := take_keeps
  openBar _ := Host.calm_pure
  moveBar _ := Host.calm_pure
  closeBar := Host.calm_pure
  table _ _ _ := fun _ => ⟨_, rfl, ⟨fun _ => rfl, rfl⟩⟩

theorem host_says (verbosity : Verbosity) (user : Table) (timestamp : Text) (t : String) :
    (host verbosity user timestamp).Says Workspace.out plainText (t ++ "\n") :=
  ⟨plainText_line_ne_empty t, fun _ => ⟨_, rfl, rfl, fun _ => rfl⟩⟩

end Workspace

end CommandLine

end HardWrap
