import Mathlib.Data.List.Forall2
import Mathlib.Data.Nat.Notation

/-!
# The command language of `system`

A text is cut into simple commands, and each of these into words; a word is a pattern, and
stands for the paths it matches, or for itself if there is none. This is the part of the
shell's language that is described here. A text in which there is more to it, because a
character quotes, expands, redirects or groups, has no reading (`run`), and anything that
is to hold of a command has to do without it.

Words are what stands between the blanks (`runs`), and of a text that ends in a word
one can say what its last word is (`exists_last_run`). Paths are matched one name after
the other, so that a pattern with a directory in front of it matches what is in
directories that the directory's own pattern matches (`matches_slash`).
-/

namespace Tlm

namespace Shell

/-! ## Words -/

/-- What is between words. -/
def isBlank (c : Char) : Bool := c = ' ' || c = '\t'

/-- What is between commands. -/
def isSeparator (c : Char) : Bool := c = ';' || c = '&' || c = '|' || c = '\n'

/-- Quotes and the backslash, `$` and the backquote, redirections and parentheses. -/
def isSpecial (c : Char) : Bool :=
  c = '\x27' || c = '\x22' || c = '\x5c' || c = '$' || c = '\x60' || c = '<' || c = '>' ||
    c = '(' || c = ')'

/-- The longest parts of a text without separators. -/
def runs (sep : Char → Bool) : List Char → List (List Char)
  | [] => []
  | c :: cs =>
    if sep c then runs sep cs
    else if (cs.head?.all sep) then [c] :: runs sep cs
    else match runs sep cs with
      | [] => [[c]]
      | run :: rest => (c :: run) :: rest

/-- The simple commands of a text, as words. -/
def commands (text : List Char) : List (List (List Char)) :=
  (runs isSeparator text).map (runs isBlank)

/-- Words are all there is: nothing is special, also not by standing first in a word. -/
def plain (text : List Char) : Bool :=
  text.all (fun c => !isSpecial c) &&
    (commands text).all fun words =>
      words.all fun word => word.head? ≠ some '#' && word.head? ≠ some '~'

/-! ## Patterns -/

/-- What a bracket expression is depends on the locale: how many characters behind a `[` are
part of it, if it is one, and what it matches. -/
abbrev Brackets : Type := List Char → Option (ℕ × (Char → Bool))

/-- A part of a pattern. -/
inductive Elem : Type where
  | char (c : Char)
  /-- `?` -/
  | one
  /-- `*` -/
  | many
  /-- a bracket expression -/
  | oneOf (s : Char → Bool)

/-- The parts of a pattern, behind as many characters as are part of a bracket expression. -/
def elems (brackets : Brackets) : ℕ → List Char → List Elem
  | _, [] => []
  | skip + 1, _ :: cs => elems brackets skip cs
  | 0, c :: cs =>
    if c = '*' then .many :: elems brackets 0 cs
    else if c = '?' then .one :: elems brackets 0 cs
    else if c = '[' then
      match brackets cs with
      | some (n, s) => .oneOf s :: elems brackets n cs
      | none => .char c :: elems brackets 0 cs
    else .char c :: elems brackets 0 cs

/-- Is there an end of a text that `f` accepts? -/
def someSuffix (f : List Char → Bool) : List Char → Bool
  | [] => f []
  | c :: cs => f (c :: cs) || someSuffix f cs

/-- The parts of a pattern match a text. -/
def elemsMatch : List Elem → List Char → Bool
  | [], cs => cs.isEmpty
  | .many :: es, cs => someSuffix (elemsMatch es) cs
  | .char c :: es, cs => match cs with
    | [] => false
    | d :: ds => c = d && elemsMatch es ds
  | .one :: es, cs => match cs with
    | [] => false
    | _ :: ds => elemsMatch es ds
  | .oneOf s :: es, cs => match cs with
    | [] => false
    | d :: ds => s d && elemsMatch es ds

/-- A pattern matches the name of a file. A dot at its start has to be there in the
pattern; an empty pattern is what stands between two slashes. -/
def nameMatch (brackets : Brackets) (pattern name : List Char) : Bool :=
  if pattern = [] then name = []
  else name ≠ [] && (name.head? ≠ some '.' || pattern.head? = some '.') &&
    elemsMatch (elems brackets 0 pattern) name

/-- The names of a path. -/
def components : List Char → List (List Char)
  | [] => [[]]
  | c :: cs =>
    if c = '/' then [] :: components cs
    else match components cs with
      | [] => [[c]]
      | name :: names => (c :: name) :: names

/-- A pattern matches a path, name by name. -/
def Matches (brackets : Brackets) (pattern path : List Char) : Prop :=
  List.Forall₂ (fun p name => nameMatch brackets p name = true) (components pattern)
    (components path)

instance (brackets : Brackets) (pattern path : List Char) :
    Decidable (Matches brackets pattern path) :=
  inferInstanceAs (Decidable (List.Forall₂ _ _ _))

/-! ## Commands -/

/-- The paths that exist. -/
structure Files where
  paths : List (List Char)
  nodup : paths.Nodup

/-- What a word stands for. -/
def expand (brackets : Brackets) (files : Files) (word : List Char) : List (List Char) :=
  match files.paths.filter fun path => Matches brackets word path with
  | [] => [word]
  | found => found

/-- The simple commands that a text makes the shell run, with their arguments; none if the
text has no reading. -/
def run (brackets : Brackets) (files : Files) (text : List Char) :
    Option (List (List (List Char))) :=
  if plain text then some ((commands text).map fun words => words.flatMap (expand brackets files))
  else none

/-- An argument that is no option. -/
def isOperand (arg : List Char) : Bool := arg.head? ≠ some '-' || arg = ['-']

/-! ## Runs -/

/-- What is to be seen of a text by going through it. -/
theorem forall_mem_of_all {P : Char → Prop} [DecidablePred P] {cs : List Char}
    (h : cs.all (fun c => decide (P c)) = true) : ∀ c ∈ cs, P c := by
  simpa using h

section

variable {sep : Char → Bool} {cs a b tail : List Char} {s : Char}

theorem runs_cons_sep (h : sep s = true) (cs : List Char) : runs sep (s :: cs) = runs sep cs :=
  if_pos h

theorem runs_singleton_append (hs : sep s = false) (hcs : cs.head?.all sep = true) :
    runs sep (s :: cs) = [s] :: runs sep cs := by
  rw [runs, if_neg (by simp [hs]), if_pos hcs]

/-- A text without separators is one run. -/
theorem runs_of_none (hne : cs ≠ []) (h : ∀ c ∈ cs, sep c = false) : runs sep cs = [cs] := by
  induction cs with
  | nil => exact absurd rfl hne
  | cons c cs ih =>
    obtain ⟨hc, hcs⟩ := List.forall_mem_cons.mp h
    cases cs with
    | nil => exact runs_singleton_append hc rfl
    | cons d cs =>
      have hd : sep d = false := hcs d List.mem_cons_self
      rw [runs, if_neg (by simp [hc]), if_neg (by simp [hd]), ih nofun hcs]

theorem runs_ne_nil (hs : sep s = false) (cs : List Char) : runs sep (s :: cs) ≠ [] := by
  rw [runs, if_neg (by simp [hs])]
  split
  · exact nofun
  · split <;> exact nofun

/-- What is before a separator and what is behind it. -/
theorem runs_append (h : sep s = true) (a b : List Char) :
    runs sep (a ++ s :: b) = runs sep a ++ runs sep b := by
  induction a with
  | nil => exact runs_cons_sep h b
  | cons c a ih =>
    rw [List.cons_append]
    cases hc : sep c with
    | true => rw [runs_cons_sep hc, runs_cons_sep hc, ih]
    | false =>
      cases a with
      | nil =>
        rw [List.nil_append, runs_singleton_append hc (by simpa using h), runs_cons_sep h,
          runs_singleton_append hc rfl]
        rfl
      | cons d a =>
        rw [List.cons_append] at ih ⊢
        cases hd : sep d with
        | true =>
          rw [runs_singleton_append hc (by simpa using hd), ih,
            runs_singleton_append hc (by simpa using hd)]
          rfl
        | false =>
          obtain ⟨run, rest, hruns⟩ := List.exists_cons_of_ne_nil (runs_ne_nil hd a)
          rw [hruns] at ih
          rw [runs, if_neg (by simp [hc]), if_neg (by simp [hd]), ih, runs, if_neg (by simp [hc]),
            if_neg (by simp [hd]), hruns]
          rfl

/-- A run is not empty, and has no separators. -/
theorem mem_runs {r : List Char} (h : r ∈ runs sep cs) : r ≠ [] ∧ ∀ c ∈ r, sep c = false := by
  induction cs generalizing r with
  | nil => exact absurd h List.not_mem_nil
  | cons c cs ih =>
    cases hc : sep c with
    | true => exact ih (runs_cons_sep hc cs ▸ h)
    | false =>
      have hone : ∀ x ∈ [c], sep x = false := List.forall_mem_singleton.mpr hc
      rw [runs, if_neg (by simp [hc])] at h
      split at h
      · obtain rfl | h := List.mem_cons.mp h
        · exact ⟨nofun, hone⟩
        · exact ih h
      · split at h
        case h_1 =>
          rw [List.mem_singleton.mp h]
          exact ⟨nofun, hone⟩
        case h_2 run rest hruns =>
          rw [hruns] at ih
          obtain rfl | h := List.mem_cons.mp h
          · obtain ⟨-, hrun⟩ := ih List.mem_cons_self
            exact ⟨nofun, List.forall_mem_cons.mpr ⟨hc, hrun⟩⟩
          · exact ih (List.mem_cons_of_mem run h)

theorem mem_of_mem_runs {r : List Char} (h : r ∈ runs sep cs) {c : Char} (hc : c ∈ r) : c ∈ cs := by
  induction cs generalizing r with
  | nil => exact absurd h List.not_mem_nil
  | cons d cs ih =>
    rw [runs] at h
    split at h
    · exact List.mem_cons_of_mem d (ih h hc)
    · split at h
      · obtain rfl | h := List.mem_cons.mp h
        · rw [List.mem_singleton.mp hc]
          exact List.mem_cons_self
        · exact List.mem_cons_of_mem d (ih h hc)
      · split at h
        case h_1 =>
          rw [List.mem_singleton.mp h] at hc
          rw [List.mem_singleton.mp hc]
          exact List.mem_cons_self
        case h_2 run rest hruns =>
          rw [hruns] at ih
          obtain rfl | h := List.mem_cons.mp h
          · obtain rfl | hc := List.mem_cons.mp hc
            · exact List.mem_cons_self
            · exact List.mem_cons_of_mem d (ih List.mem_cons_self hc)
          · exact List.mem_cons_of_mem d (ih (List.mem_cons_of_mem run h) hc)

/-- The last separator of a text, if there is one. -/
theorem exists_last_sep (sep : Char → Bool) (cs : List Char) :
    (∀ c ∈ cs, sep c = false) ∨
      ∃ a s b, cs = a ++ s :: b ∧ sep s = true ∧ ∀ c ∈ b, sep c = false := by
  induction cs with
  | nil => exact .inl nofun
  | cons c cs ih =>
    obtain hnone | ⟨a, s, b, rfl, hs, hb⟩ := ih
    · cases hc : sep c with
      | true => exact .inr ⟨[], c, cs, rfl, hc, hnone⟩
      | false => exact .inl (List.forall_mem_cons.mpr ⟨hc, hnone⟩)
    · exact .inr ⟨c :: a, s, b, rfl, hs, hb⟩

/-- **The last run** of a text that does not end in a separator. -/
theorem exists_last_run (cs : List Char) (hne : tail ≠ []) (htail : ∀ c ∈ tail, sep c = false) :
    ∃ rest last, runs sep (cs ++ tail) = rest ++ [last ++ tail] ∧ last <:+ cs ∧
      ∀ c ∈ last, sep c = false := by
  obtain hnone | ⟨a, s, b, rfl, hs, hb⟩ := exists_last_sep sep cs
  · refine ⟨[], cs, ?_, List.suffix_refl cs, hnone⟩
    exact runs_of_none (by simp [hne]) (List.forall_mem_append.mpr ⟨hnone, htail⟩)
  · refine ⟨runs sep a, b, ?_, ⟨a ++ [s], by simp⟩, hb⟩
    rw [List.append_assoc, List.cons_append, runs_append hs,
      runs_of_none (by simp [hne]) (List.forall_mem_append.mpr ⟨hb, htail⟩)]

end

/-! ## A text that can be read -/

section

variable {text : List Char} {words : List (List Char)}

theorem not_special_of_plain (h : plain text = true) {c : Char} (hc : c ∈ text) :
    isSpecial c = false := by
  rw [plain, Bool.and_eq_true, List.all_eq_true] at h
  simpa using h.1 c hc

theorem start_of_plain (h : plain text = true) (hwords : words ∈ commands text)
    {word : List Char} (hword : word ∈ words) :
    word.head? ≠ some '#' ∧ word.head? ≠ some '~' := by
  rw [plain, Bool.and_eq_true, List.all_eq_true, List.all_eq_true] at h
  have hall := List.all_eq_true.mp (h.2 words hwords) word hword
  simpa using hall

theorem plain_of_commands (hspecial : ∀ c ∈ text, isSpecial c = false)
    (hcommands : commands text = [words])
    (hstart : ∀ word ∈ words, word.head? ≠ some '#' ∧ word.head? ≠ some '~') :
    plain text = true := by
  rw [plain, Bool.and_eq_true, List.all_eq_true, hcommands]
  refine ⟨fun c hc => by simp [hspecial c hc], ?_⟩
  simpa using hstart

/-- A text that has a reading is plain. -/
theorem run_eq_some {brackets : Brackets} {files : Files} {argvs : List (List (List Char))} :
    run brackets files text = some argvs ↔
      plain text = true ∧
        (commands text).map (fun words => words.flatMap (expand brackets files)) = argvs := by
  rw [run]
  split
  case isTrue h => simp [h]
  case isFalse h => simp [h]

end

/-! ## Paths, name by name -/

section

variable {a b path path' : List Char} {names names' : List (List Char)}

theorem components_ne_nil (path : List Char) : components path ≠ [] := by
  cases path with
  | nil => exact nofun
  | cons c cs =>
    rw [components]
    split
    · exact nofun
    · split <;> exact nofun

theorem components_slash (cs : List Char) : components ('/' :: cs) = [] :: components cs := rfl

/-- Any other character is part of the first name. -/
theorem components_cons {c : Char} (hc : c ≠ '/') (cs : List Char) :
    ∃ name names, components cs = name :: names ∧ components (c :: cs) = (c :: name) :: names := by
  obtain ⟨name, names, h⟩ := List.exists_cons_of_ne_nil (components_ne_nil cs)
  exact ⟨name, names, h, by rw [components, if_neg hc, h]⟩

theorem components_append (a b : List Char) :
    components (a ++ '/' :: b) = components a ++ components b := by
  induction a with
  | nil => rfl
  | cons c a ih =>
    by_cases hc : c = '/'
    · subst hc
      rw [List.cons_append, components_slash, components_slash, ih]
      rfl
    · obtain ⟨name, names, h, hcons⟩ := components_cons hc a
      rw [List.cons_append, components, if_neg hc, ih, h, hcons]
      rfl

/-- Names that come in two parts come from a path that does. -/
theorem exists_of_components_append (hnames : names ≠ []) (hnames' : names' ≠ [])
    (h : components path = names ++ names') :
    ∃ a b, path = a ++ '/' :: b ∧ components a = names ∧ components b = names' := by
  obtain ⟨name, names, rfl⟩ := List.exists_cons_of_ne_nil hnames
  induction path generalizing name names with
  | nil =>
    obtain ⟨-, hnil⟩ := List.cons_eq_cons.mp h
    exact absurd (List.append_eq_nil_iff.mp hnil.symm).2 hnames'
  | cons c cs ih =>
    by_cases hc : c = '/'
    · subst hc
      obtain ⟨rfl, hrest⟩ := List.cons_eq_cons.mp h
      cases names with
      | nil => exact ⟨[], cs, rfl, rfl, hrest⟩
      | cons name names =>
        obtain ⟨a, b, rfl, ha, hb⟩ := ih name names nofun hrest
        exact ⟨'/' :: a, b, rfl, congrArg ([] :: ·) ha, hb⟩
    · obtain ⟨first, others, hcs, hcons⟩ := components_cons hc cs
      rw [hcons] at h
      obtain ⟨rfl, rfl⟩ := List.cons_eq_cons.mp h
      obtain ⟨a, b, rfl, ha, hb⟩ := ih first names nofun hcs
      refine ⟨c :: a, b, rfl, ?_, hb⟩
      obtain ⟨first', others', ha', hcons'⟩ := components_cons hc a
      obtain ⟨rfl, rfl⟩ := List.cons_eq_cons.mp (ha.symm.trans ha')
      exact hcons'

/-- The path with these names. -/
def unite : List (List Char) → List Char
  | [] => []
  | [name] => name
  | name :: names => name ++ '/' :: unite names

theorem unite_components (path : List Char) : unite (components path) = path := by
  induction path with
  | nil => rfl
  | cons c cs ih =>
    by_cases hc : c = '/'
    · subst hc
      obtain ⟨name, names, h⟩ := List.exists_cons_of_ne_nil (components_ne_nil cs)
      rw [components_slash]
      rw [h] at ih ⊢
      exact congrArg ('/' :: ·) ih
    · obtain ⟨name, names, h, hcons⟩ := components_cons hc cs
      rw [h] at ih
      rw [hcons, ← ih]
      cases names <;> rfl

theorem components_inj (h : components path = components path') : path = path' := by
  rw [← unite_components path, h, unite_components]

/-! ## What a pattern matches -/

variable {brackets : Brackets} {files : Files} {word name : List Char}

/-- **A directory and what is in it**: the pattern of the directory matches the directory. -/
theorem matches_slash : Matches brackets (a ++ '/' :: b) path ↔
    ∃ dir rest, path = dir ++ '/' :: rest ∧ Matches brackets a dir ∧ Matches brackets b rest := by
  constructor
  · intro h
    rw [Matches, components_append] at h
    have hdir := List.forall₂_take (components a).length h
    have hrest := List.forall₂_drop (components a).length h
    rw [List.take_left] at hdir
    rw [List.drop_left] at hrest
    have hdir' : (components path).take (components a).length ≠ [] := fun hnil =>
      components_ne_nil a (List.forall₂_nil_right_iff.mp (hnil ▸ hdir))
    have hrest' : (components path).drop (components a).length ≠ [] := fun hnil =>
      components_ne_nil b (List.forall₂_nil_right_iff.mp (hnil ▸ hrest))
    obtain ⟨dir, rest, hpath, hdir'', hrest''⟩ :=
      exists_of_components_append hdir' hrest' (List.take_append_drop _ _).symm
    rw [← hdir''] at hdir
    rw [← hrest''] at hrest
    exact ⟨dir, rest, hpath, hdir, hrest⟩
  · rintro ⟨dir, rest, rfl, hdir, hrest⟩
    rw [Matches, components_append, components_append]
    exact List.rel_append hdir hrest

/-- What `*` matches is a name. -/
theorem ne_nil_of_matches_star (h : Matches brackets ['*'] path) : path ≠ [] := by
  rintro rfl
  cases h with
  | cons hname _ => exact absurd hname Bool.false_ne_true

theorem matches_star_x : Matches brackets ['*'] ['x'] := by
  refine List.Forall₂.cons ?_ List.Forall₂.nil
  rfl

/-- The parts of a pattern that has nothing but characters. -/
theorem elems_literal (h : ∀ c ∈ word, c ≠ '*' ∧ c ≠ '?' ∧ c ≠ '[') :
    elems brackets 0 word = word.map Elem.char := by
  induction word with
  | nil => rfl
  | cons c cs ih =>
    obtain ⟨⟨hmany, hone, hbracket⟩, hcs⟩ := List.forall_mem_cons.mp h
    rw [elems, if_neg hmany, if_neg hone, if_neg hbracket, ih hcs]
    rfl

theorem elemsMatch_literal : elemsMatch (word.map Elem.char) name = true ↔ word = name := by
  induction word generalizing name with
  | nil => cases name <;> simp [elemsMatch]
  | cons c cs ih =>
    cases name with
    | nil => simp [elemsMatch]
    | cons d ds => simp [elemsMatch, ih]

/-- It matches itself and nothing else. -/
theorem nameMatch_literal (h : ∀ c ∈ word, c ≠ '*' ∧ c ≠ '?' ∧ c ≠ '[') :
    nameMatch brackets word name = true ↔ word = name := by
  rw [nameMatch, elems_literal h]
  split
  case isTrue hnil => simp [hnil, eq_comm]
  case isFalse hne =>
    rw [Bool.and_eq_true, elemsMatch_literal]
    refine and_iff_right_of_imp ?_
    rintro rfl
    by_cases hdot : word.head? = some '.'
    · simp [hne, hdot]
    · simp [hne, hdot]

theorem mem_of_mem_components (h : name ∈ components path) {c : Char} (hc : c ∈ name) :
    c ∈ path := by
  induction path generalizing name with
  | nil =>
    rw [List.mem_singleton.mp h] at hc
    exact absurd hc List.not_mem_nil
  | cons d cs ih =>
    by_cases hd : d = '/'
    · subst hd
      rw [components_slash] at h
      obtain rfl | h := List.mem_cons.mp h
      · exact absurd hc List.not_mem_nil
      · exact List.mem_cons_of_mem _ (ih h hc)
    · obtain ⟨first, others, hcs, hcons⟩ := components_cons hd cs
      rw [hcons] at h
      rw [hcs] at ih
      obtain rfl | h := List.mem_cons.mp h
      · obtain rfl | hc := List.mem_cons.mp hc
        · exact List.mem_cons_self
        · exact List.mem_cons_of_mem _ (ih List.mem_cons_self hc)
      · exact List.mem_cons_of_mem _ (ih (List.mem_cons_of_mem first h) hc)

/-- A pattern without special characters matches its own path only. -/
theorem matches_literal (h : ∀ c ∈ word, c ≠ '*' ∧ c ≠ '?' ∧ c ≠ '[') :
    Matches brackets word path ↔ path = word := by
  have hnames : ∀ p ∈ components word, ∀ name, nameMatch brackets p name = true ↔ p = name :=
    fun p hp name => nameMatch_literal fun c hc => h c (mem_of_mem_components hp hc)
  constructor
  · intro hmatch
    refine components_inj ?_
    have hboth := (List.forall₂_and_left _ _).mpr ⟨hnames, hmatch⟩
    have heq : List.Forall₂ (· = ·) (components word) (components path) :=
      hboth.imp fun _ name h => (h.1 name).mp h.2
    rw [List.forall₂_eq_eq_eq] at heq
    exact heq.symm
  · rintro rfl
    exact List.forall₂_same.mpr fun p hp => (hnames p hp p).mpr rfl

/-! ## What a word stands for -/

theorem mem_found : path ∈ files.paths.filter (fun path => Matches brackets word path) ↔
    path ∈ files.paths ∧ Matches brackets word path := by
  rw [List.mem_filter, decide_eq_true_iff]

/-- A word that matches itself at most stands for itself. -/
theorem expand_eq_self (h : ∀ path ∈ files.paths, Matches brackets word path → path = word) :
    expand brackets files word = [word] := by
  have hnodup := files.nodup.filter fun path => decide (Matches brackets word path)
  have hfound : ∀ path ∈ files.paths.filter (fun path => Matches brackets word path), path = word := by
    intro path hpath
    obtain ⟨hmem, hmatch⟩ := mem_found.mp hpath
    exact h path hmem hmatch
  rw [expand]
  split
  · rfl
  · -- it cannot be there twice
    generalize files.paths.filter (fun path => Matches brackets word path) = found at *
    rcases found with _ | ⟨x, _ | ⟨y, found⟩⟩
    · contradiction
    · rw [hfound x List.mem_cons_self]
    · have hxy : x = y := by
        rw [hfound x List.mem_cons_self, hfound y (List.mem_cons_of_mem x List.mem_cons_self)]
      rw [hxy] at hnodup
      exact absurd List.mem_cons_self (List.nodup_cons.mp hnodup).1

/-- If there is only the path that the word is, the word stands for it. -/
theorem expand_only (brackets : Brackets) (word : List Char) :
    expand brackets ⟨[word], List.pairwise_singleton _ word⟩ word = [word] :=
  expand_eq_self fun _ hpath _ => List.mem_singleton.mp hpath

theorem expand_literal (h : ∀ c ∈ word, c ≠ '*' ∧ c ≠ '?' ∧ c ≠ '[') :
    expand brackets files word = [word] :=
  expand_eq_self fun _ _ => (matches_literal h).mp

/-- What a word stands for is what it matches, or the word. -/
theorem mem_expand (h : path ∈ expand brackets files word) :
    Matches brackets word path ∨ path = word := by
  rw [expand] at h
  split at h
  · exact .inr (List.mem_singleton.mp h)
  · exact .inl (mem_found.mp h).2

/-- A path that exists is among them, if it matches. -/
theorem mem_expand_of_matches (h : path ∈ files.paths) (hmatch : Matches brackets word path) :
    path ∈ expand brackets files word := by
  have hfound := mem_found.mpr ⟨h, hmatch⟩
  rw [expand]
  split
  case h_1 hnil =>
    rw [hnil] at hfound
    exact absurd hfound List.not_mem_nil
  case h_2 => exact hfound

end

end Shell

end Tlm
