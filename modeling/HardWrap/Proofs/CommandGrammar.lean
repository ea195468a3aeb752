import HardWrap.Line.Command
import HardWrap.Proofs.Words

/-! The grammar of command lines. A command is a backslash, a name, bracketed options and braced
arguments, each part with blanks after it; the inside of a group is any run of characters without
LF, so the same line can be cut into commands in many ways. The recogniser of command lines keeps a
set of places instead of one cut. It accepts a text exactly if some cut into commands exists: what
is left for a reader at a place is a grammatical rest of a line, and every such rest can be read. -/

namespace HardWrap

open Text

namespace Command

/-! ### The grammar -/

/-- A run of word characters, or one character that could not be a part of such a run. -/
def IsName (t : Text) : Prop :=
  (t ≠ [] ∧ ∀ c ∈ t, isWordChar c = true) ∨
    ∃ c, t = [c] ∧ isWordChar c = false ∧ isBlank c = false ∧ c ≠ '%'

/-- A group between two characters, with the blanks after it. -/
def IsGroup (opening closing : Char) (t : Text) : Prop :=
  ∃ inside blanks, t = opening :: (inside ++ closing :: blanks) ∧ '\n' ∉ inside ∧
    IsBlankText blanks

abbrev IsOption (t : Text) : Prop := IsGroup '[' ']' t

abbrev IsArgument (t : Text) : Prop := IsGroup '{' '}' t

inductive IsCommand : Text → Prop where
  | intro {name blanks : Text} {options arguments : List Text} (hname : IsName name)
      (hblanks : IsBlankText blanks) (hoptions : ∀ g ∈ options, IsOption g)
      (harguments : ∀ g ∈ arguments, IsArgument g) :
      IsCommand ('\\' :: (name ++ blanks ++ options.flatten ++ arguments.flatten))

/-- A cut of a text into one or more commands. -/
structure Divides (commands : List Text) (t : Text) : Prop where
  nonempty : commands ≠ []
  whole : t = commands.flatten
  command : ∀ s ∈ commands, IsCommand s

/-! ### Readers of a line -/

namespace Place

theorem ne_of_isBlank {c : Char} (h : isBlank c = true) : c ≠ '[' ∧ c ≠ '{' ∧ c ≠ '\\' := by
  refine ⟨?_, ?_, ?_⟩ <;> rintro rfl <;> cases h

theorem mem_afterArgument {c : Char} {q : Place} :
    q ∈ afterArgument c ↔
      isBlank c = true ∧ q = arguments ∨ c = '{' ∧ q = brace ∨ c = '\\' ∧ q = name := by
  by_cases hblank : isBlank c = true
  · simp [afterArgument, hblank, ne_of_isBlank hblank]
  · by_cases hbrace : c = '{'
    · subst hbrace
      simp [afterArgument, hblank]
    · simp [afterArgument, hblank, hbrace]

theorem mem_afterOption {c : Char} {q : Place} :
    q ∈ afterOption c ↔ isBlank c = true ∧ q = options ∨ c = '[' ∧ q = bracket ∨
      c = '{' ∧ q = brace ∨ c = '\\' ∧ q = name := by
  by_cases hblank : isBlank c = true
  · simp [afterOption, hblank, ne_of_isBlank hblank]
  · by_cases hbracket : c = '['
    · subst hbracket
      simp [afterOption, hblank]
    · simp [afterOption, hblank, hbracket, mem_afterArgument]

theorem mem_name {c : Char} {q : Place} :
    q ∈ name.next c ↔ isWordChar c = true ∧ q = word ∨
      (isWordChar c = false ∧ isBlank c = false ∧ c ≠ '%') ∧ q = options := by
  by_cases hword : isWordChar c = true
  · simp [next, hword]
  · by_cases hblank : isBlank c = true
    · simp [next, hword, hblank]
    · by_cases hsign : c = '%'
      · simp [next, hsign]
      · simp [next, hword, hblank, hsign]

theorem mem_word {c : Char} {q : Place} :
    q ∈ word.next c ↔ isWordChar c = true ∧ q = word ∨
      isWordChar c = false ∧ q ∈ afterOption c := by
  by_cases hword : isWordChar c = true <;> simp [next, hword]

theorem mem_bracket {c : Char} {q : Place} :
    q ∈ bracket.next c ↔ c ≠ '\n' ∧ (q = bracket ∨ c = ']' ∧ q = options) := by
  by_cases hlf : c = '\n'
  · simp [next, hlf]
  · by_cases hclose : c = ']' <;> simp [next, hlf, hclose]

theorem mem_brace {c : Char} {q : Place} :
    q ∈ brace.next c ↔ c ≠ '\n' ∧ (q = brace ∨ c = '}' ∧ q = arguments) := by
  by_cases hlf : c = '\n'
  · simp [next, hlf]
  · by_cases hclose : c = '}' <;> simp [next, hlf, hclose]

/-- Whether some reader at the place comes through the text. -/
def Accepts : Place → Text → Prop
  | p, [] => p.final = true
  | p, c :: t => ∃ q ∈ p.next c, q.Accepts t

theorem mem_advance {places : List Place} {c : Char} {q : Place} :
    q ∈ advance places c ↔ ∃ p ∈ places, q ∈ p.next c := by
  have hall : q ∈ all := by cases q <;> decide
  simp [advance, hall]

theorem any_final_foldl (places : List Place) (t : Text) :
    (t.foldl advance places).any final = true ↔ ∃ p ∈ places, p.Accepts t := by
  induction t generalizing places with
  | nil => simp [Accepts]
  | cons c t ih =>
    rw [List.foldl_cons, ih]
    constructor
    · rintro ⟨q, hq, ht⟩
      obtain ⟨p, hp, hnext⟩ := mem_advance.mp hq
      exact ⟨p, hp, q, hnext, ht⟩
    · rintro ⟨p, hp, q, hnext, ht⟩
      exact ⟨q, mem_advance.mpr ⟨p, hp, hnext⟩, ht⟩

end Place

theorem accepts_iff (t : Text) : accepts t = true ↔ Place.opening.Accepts t := by
  rw [accepts, Place.any_final_foldl]
  simp

/-! ### Every cut can be read -/

namespace Place

theorem accepts_run {p : Place} {run t : Text} (hrun : ∀ c ∈ run, p ∈ p.next c)
    (ht : p.Accepts t) : p.Accepts (run ++ t) := by
  induction run with
  | nil => exact ht
  | cons c run ih =>
    exact ⟨p, hrun c (by simp), ih fun d hd => hrun d (List.mem_cons_of_mem _ hd)⟩

/-- Options and arguments are read alike: into the group, through its inside, and back. -/
theorem accepts_groups {opening closing : Char} (inner outer : Place)
    (hopen : inner ∈ outer.next opening) (hinside : ∀ c, c ≠ '\n' → inner ∈ inner.next c)
    (hclose : outer ∈ inner.next closing) (hblank : ∀ c, isBlank c = true → outer ∈ outer.next c)
    {groups : List Text} (hgroups : ∀ g ∈ groups, IsGroup opening closing g) {t : Text}
    (ht : outer.Accepts t) : outer.Accepts (groups.flatten ++ t) := by
  induction groups with
  | nil => exact ht
  | cons g groups ih =>
    obtain ⟨inside, blanks, rfl, hlf, hblanks⟩ := hgroups g (by simp)
    have hrest : outer.Accepts (blanks ++ (groups.flatten ++ t)) :=
      accepts_run (fun c hc => hblank c (hblanks c hc))
        (ih fun g hg => hgroups g (List.mem_cons_of_mem _ hg))
    have hread : inner.Accepts (inside ++ closing :: (blanks ++ (groups.flatten ++ t))) :=
      accepts_run (fun c hc => hinside c (ne_of_mem_of_not_mem hc hlf)) ⟨outer, hclose, hrest⟩
    simpa using show outer.Accepts (opening :: (inside ++ closing :: _)) from ⟨inner, hopen, hread⟩

theorem arguments_of_opening {t : Text} (h : opening.Accepts t) : arguments.Accepts t := by
  cases t with
  | nil => cases h
  | cons c t =>
    obtain ⟨q, hq, ht⟩ := h
    obtain ⟨rfl, rfl⟩ : c = '\\' ∧ q = name := by simpa [next] using hq
    exact ⟨name, by decide, ht⟩

theorem options_of_arguments {t : Text} (h : arguments.Accepts t) : options.Accepts t := by
  induction t with
  | nil => rfl
  | cons c t ih =>
    obtain ⟨q, hq, ht⟩ := h
    rcases mem_afterArgument.mp hq with ⟨hblank, rfl⟩ | h | h
    · exact ⟨options, mem_afterOption.mpr (by simp [hblank]), ih ht⟩
    · exact ⟨q, mem_afterOption.mpr (by simp [h]), ht⟩
    · exact ⟨q, mem_afterOption.mpr (by simp [h]), ht⟩

theorem word_of_options {t : Text} (h : options.Accepts t) : word.Accepts t := by
  induction t with
  | nil => rfl
  | cons c t ih =>
    obtain ⟨q, hq, ht⟩ := h
    by_cases hword : isWordChar c = true
    · -- None of the characters that open a group or a command is a word character, and a blank that
      -- were one would only make the name longer.
      refine ⟨word, mem_word.mpr (.inl ⟨hword, rfl⟩), ?_⟩
      rcases mem_afterOption.mp hq with ⟨-, rfl⟩ | ⟨rfl, -⟩ | ⟨rfl, -⟩ | ⟨rfl, -⟩
      · exact ih ht
      all_goals cases hword
    · exact ⟨q, mem_word.mpr (.inr ⟨by simpa using hword, hq⟩), ht⟩

theorem accepts_name {name t : Text} (hname : IsName name) (ht : options.Accepts t) :
    Place.name.Accepts (name ++ t) := by
  rcases hname with ⟨hne, hwords⟩ | ⟨c, rfl, hword, hblank, hsign⟩
  · obtain ⟨c, run, rfl⟩ := List.exists_cons_of_ne_nil hne
    refine ⟨word, mem_name.mpr (.inl ⟨hwords c (by simp), rfl⟩),
      accepts_run ?_ (word_of_options ht)⟩
    intro d hd
    exact mem_word.mpr (.inl ⟨hwords d (List.mem_cons_of_mem _ hd), rfl⟩)
  · exact ⟨options, mem_name.mpr (.inr ⟨⟨hword, hblank, hsign⟩, rfl⟩), ht⟩

theorem accepts_options {groups : List Text} (h : ∀ g ∈ groups, IsOption g) {t : Text}
    (ht : options.Accepts t) : options.Accepts (groups.flatten ++ t) := by
  refine accepts_groups bracket options (by decide) ?_ (by decide) ?_ h ht
  · intro c hc
    exact mem_bracket.mpr ⟨hc, .inl rfl⟩
  · intro c hc
    exact mem_afterOption.mpr (.inl ⟨hc, rfl⟩)

theorem accepts_arguments {groups : List Text} (h : ∀ g ∈ groups, IsArgument g) {t : Text}
    (ht : arguments.Accepts t) : arguments.Accepts (groups.flatten ++ t) := by
  refine accepts_groups brace arguments (by decide) ?_ (by decide) ?_ h ht
  · intro c hc
    exact mem_brace.mpr ⟨hc, .inl rfl⟩
  · intro c hc
    exact mem_afterArgument.mpr (.inl ⟨hc, rfl⟩)

theorem accepts_command {command t : Text} (hcommand : IsCommand command)
    (ht : arguments.Accepts t) : opening.Accepts (command ++ t) := by
  obtain @⟨name, blanks, groups, braced, hname, hblanks, hoptions, harguments⟩ := hcommand
  have hrest := accepts_options hoptions (options_of_arguments (accepts_arguments harguments ht))
  have hread : ∀ c ∈ blanks, options ∈ options.next c := fun c hc =>
    mem_afterOption.mpr (.inl ⟨hblanks c hc, rfl⟩)
  have hall : opening.Accepts ('\\' :: _) :=
    ⟨.name, by decide, accepts_name hname (accepts_run hread hrest)⟩
  simpa using hall

theorem accepts_commands {commands : List Text} (h : ∀ s ∈ commands, IsCommand s) :
    arguments.Accepts commands.flatten := by
  induction commands with
  | nil => rfl
  | cons s commands ih =>
    exact arguments_of_opening (accepts_command (h s (by simp))
      (ih fun s hs => h s (List.mem_cons_of_mem _ hs)))

end Place

/-! ### What is read is a cut -/

def Spaced (Next : Text → Prop) (t : Text) : Prop :=
  ∃ blanks r, t = blanks ++ r ∧ IsBlankText blanks ∧ Next r

def Grouped (opening closing : Char) (Next : Text → Prop) (t : Text) : Prop :=
  ∃ (groups : List Text) (r : Text), t = groups.flatten ++ r ∧
    (∀ g ∈ groups, IsGroup opening closing g) ∧ Next r

def Commands (t : Text) : Prop :=
  ∃ commands : List Text, t = commands.flatten ∧ ∀ s ∈ commands, IsCommand s

/-- What may stand where arguments may begin, and where options may begin. -/
abbrev Arguments : Text → Prop := Grouped '{' '}' Commands

abbrev Options : Text → Prop := Grouped '[' ']' Arguments

section Rests

variable {Next : Text → Prop} {t : Text} {c : Char}

theorem Spaced.of_next (h : Next t) : Spaced Next t :=
  ⟨[], t, rfl, by simp [IsBlankText], h⟩

theorem Spaced.cons (hc : isBlank c = true) (h : Spaced Next t) : Spaced Next (c :: t) := by
  obtain ⟨blanks, r, rfl, hblanks, hr⟩ := h
  refine ⟨c :: blanks, r, rfl, ?_, hr⟩
  rintro d (_ | ⟨_, hd⟩)
  · exact hc
  · exact hblanks d hd

theorem Grouped.of_next {opening closing : Char} (h : Next t) : Grouped opening closing Next t :=
  ⟨[], t, rfl, by simp, h⟩

theorem Grouped.cons {opening closing : Char} {inside : Text} (hinside : '\n' ∉ inside)
    (h : Spaced (Grouped opening closing Next) t) :
    Grouped opening closing Next (opening :: (inside ++ closing :: t)) := by
  obtain ⟨blanks, _, rfl, hblanks, groups, r, rfl, hgroups, hr⟩ := h
  refine ⟨(opening :: (inside ++ closing :: blanks)) :: groups, r, by simp, ?_, hr⟩
  rintro g (_ | ⟨_, hg⟩)
  · exact ⟨inside, blanks, rfl, hinside, hblanks⟩
  · exact hgroups g hg

theorem exists_divides {name : Text} (hname : IsName name) (h : Spaced Options t) :
    ∃ commands, Divides commands ('\\' :: (name ++ t)) := by
  obtain ⟨blanks, _, rfl, hblanks, options, _, rfl, hoptions, arguments, _, rfl, harguments,
    commands, rfl, hcommands⟩ := h
  refine ⟨('\\' :: (name ++ blanks ++ options.flatten ++ arguments.flatten)) :: commands,
    by simp, by simp, ?_⟩
  rintro s (_ | ⟨_, hs⟩)
  · exact ⟨hname, hblanks, hoptions, harguments⟩
  · exact hcommands s hs

theorem Divides.commands {commands : List Text} (h : Divides commands t) : Commands t :=
  ⟨commands, h.whole, h.command⟩

end Rests

namespace Place

/-- What is left of a line for a reader at the place. -/
def Rest : Place → Text → Prop
  | opening, t => ∃ commands, Divides commands t
  | name, t => ∃ n r, t = n ++ r ∧ IsName n ∧ Spaced Options r
  | word, t => ∃ run r, t = run ++ r ∧ (∀ c ∈ run, isWordChar c = true) ∧ Spaced Options r
  | options, t => Spaced Options t
  | bracket, t => ∃ inside r, t = inside ++ ']' :: r ∧ '\n' ∉ inside ∧ Spaced Options r
  | arguments, t => Spaced Arguments t
  | brace, t => ∃ inside r, t = inside ++ '}' :: r ∧ '\n' ∉ inside ∧ Spaced Arguments r

theorem rest_nil {p : Place} (h : p.final = true) : p.Rest [] := by
  have hcommands : Commands [] := ⟨[], rfl, by simp⟩
  have hoptions : Spaced Options [] := .of_next (.of_next (.of_next hcommands))
  cases p with
  | word => exact ⟨[], [], rfl, by simp, hoptions⟩
  | options => exact hoptions
  | arguments => exact .of_next (.of_next hcommands)
  | _ => cases h

theorem commands_of_name {t : Text} (h : name.Rest t) :
    ∃ commands, Divides commands ('\\' :: t) := by
  obtain ⟨n, r, rfl, hname, hr⟩ := h
  exact exists_divides hname hr

theorem arguments_of_brace {t : Text} (h : brace.Rest t) : Arguments ('{' :: t) := by
  obtain ⟨inside, r, rfl, hinside, hr⟩ := h
  exact .cons hinside hr

theorem rest_afterArgument {c : Char} {q : Place} (hq : q ∈ afterArgument c) {t : Text}
    (h : q.Rest t) : Spaced Arguments (c :: t) := by
  rcases mem_afterArgument.mp hq with ⟨hblank, rfl⟩ | ⟨rfl, rfl⟩ | ⟨rfl, rfl⟩
  · exact .cons hblank h
  · exact .of_next (arguments_of_brace h)
  · obtain ⟨commands, hdiv⟩ := commands_of_name h
    exact .of_next (.of_next hdiv.commands)

theorem rest_afterOption {c : Char} {q : Place} (hq : q ∈ afterOption c) {t : Text}
    (h : q.Rest t) : Spaced Options (c :: t) := by
  rcases mem_afterOption.mp hq with ⟨hblank, rfl⟩ | ⟨rfl, rfl⟩ | ⟨rfl, rfl⟩ | ⟨rfl, rfl⟩
  · exact .cons hblank h
  · obtain ⟨inside, r, rfl, hinside, hr⟩ := h
    exact .of_next (.cons hinside hr)
  · exact .of_next (.of_next (arguments_of_brace h))
  · obtain ⟨commands, hdiv⟩ := commands_of_name h
    exact .of_next (.of_next (.of_next hdiv.commands))

/-- One more character in front of what is left inside a group. -/
theorem inside_cons {closing c : Char} {Next : Text → Prop} {t : Text} (hc : c ≠ '\n')
    (h : ∃ inside r, t = inside ++ closing :: r ∧ '\n' ∉ inside ∧ Next r) :
    ∃ inside r, c :: t = inside ++ closing :: r ∧ '\n' ∉ inside ∧ Next r := by
  obtain ⟨inside, r, rfl, hinside, hr⟩ := h
  exact ⟨c :: inside, r, rfl, by simp [hinside, hc.symm], hr⟩

/-- What is left after one more character, with that character in front, is left before it. -/
theorem rest_cons {p q : Place} {c : Char} (hq : q ∈ p.next c) {t : Text} (h : q.Rest t) :
    p.Rest (c :: t) := by
  cases p with
  | opening =>
    obtain ⟨rfl, rfl⟩ : c = '\\' ∧ q = name := by simpa [next] using hq
    exact commands_of_name h
  | name =>
    rcases mem_name.mp hq with ⟨hword, rfl⟩ | ⟨hother, rfl⟩
    · obtain ⟨run, r, rfl, hrun, hr⟩ := h
      exact ⟨c :: run, r, rfl, .inl ⟨by simp, by simpa [hword] using hrun⟩, hr⟩
    · exact ⟨[c], t, rfl, .inr ⟨c, rfl, hother⟩, h⟩
  | word =>
    rcases mem_word.mp hq with ⟨hword, rfl⟩ | ⟨-, hafter⟩
    · obtain ⟨run, r, rfl, hrun, hr⟩ := h
      exact ⟨c :: run, r, rfl, by simpa [hword] using hrun, hr⟩
    · exact ⟨[], c :: t, rfl, by simp, rest_afterOption hafter h⟩
  | options => exact rest_afterOption hq h
  | bracket =>
    obtain ⟨hlf, rfl | ⟨rfl, rfl⟩⟩ := mem_bracket.mp hq
    · exact inside_cons hlf h
    · exact ⟨[], t, rfl, by simp, h⟩
  | arguments => exact rest_afterArgument hq h
  | brace =>
    obtain ⟨hlf, rfl | ⟨rfl, rfl⟩⟩ := mem_brace.mp hq
    · exact inside_cons hlf h
    · exact ⟨[], t, rfl, by simp, h⟩

theorem rest_of_accepts {p : Place} {t : Text} (h : p.Accepts t) : p.Rest t := by
  induction t generalizing p with
  | nil => exact rest_nil h
  | cons c t ih =>
    obtain ⟨q, hq, ht⟩ := h
    exact rest_cons hq (ih ht)

end Place

theorem accepts_iff_divides (t : Text) : accepts t = true ↔ ∃ commands, Divides commands t := by
  rw [accepts_iff]
  constructor
  · exact Place.rest_of_accepts
  · rintro ⟨commands, hne, rfl, hcommands⟩
    obtain ⟨s, more, rfl⟩ := List.exists_cons_of_ne_nil hne
    exact Place.accepts_command (hcommands s (by simp))
      (Place.accepts_commands fun s hs => hcommands s (List.mem_cons_of_mem _ hs))

end Command

/-- A line is recognised as a command line exactly if, without the blanks around it, it is not
empty, does not open with an escaped percent sign and can be cut into commands in some way. -/
theorem command_line_iff_divides (line : Text) :
    isCommandLine line = true ↔
      strip line ≠ [] ∧ ¬ "\\%".toList <+: strip line ∧
        ∃ commands, Command.Divides commands (strip line) := by
  simp only [isCommandLine, startsWith, Bool.and_eq_true, Bool.not_eq_true', ← Bool.not_eq_true,
    List.isEmpty_iff, List.isPrefixOf_iff_prefix, Command.accepts_iff_divides, and_assoc, ne_eq]

/-- The inside of a group may reach over the text between two commands. -/
example : isCommandLine "\\emph\x7bx\x7d and \\emph\x7by\x7d".toList = true := by
  decide +kernel

end HardWrap
