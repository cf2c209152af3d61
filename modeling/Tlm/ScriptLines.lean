import Tlm.ScriptBuffer

/-!
# A script is read line by line

What a script means is said of its **lines**: a line that is not blank and not a comment
is a control character and a command. The launcher reads **pieces** of at most 1022
characters, and forgets at each what the line has been so far.

`parsesByLine_iff` says for which scripts this comes to the same. A line may be longer than
a piece, if it is blank elsewhere; a long comment has to go on as a comment wherever it
is cut; and a control character with nothing behind it, not even a newline, needs a
terminator to be where its command would be.
-/

namespace Tlm

namespace ScriptBuffer

open Blanks Script

/-! ## Lines -/

/-- The lines of a text, with their newlines. -/
def lines : List Char → List (List Char)
  | [] => []
  | c :: cs =>
    if c = '\n' then [c] :: lines cs
    else match lines cs with
      | [] => [[c]]
      | line :: rest => (c :: line) :: rest

/-- What a line says: its first character, and the text behind its second. -/
def parseLine (line : List Char) : Option (Char × List Char) :=
  match strip isSpace line with
  | [] => none
  | control :: cs => if control = '#' then none else some (control, strip isSpace (cs.drop 1))

/-- **What the script says is what is done**, whatever memory the array is in at first and
whenever the function is called again. -/
def ParsesByLine (script : List Char) : Prop :=
  ∀ again mem, process again 0 mem (readPieces script) = (lines script).filterMap parseLine

/-- The pieces of a line. -/
def chunks (line : List Char) : List (List Char) :=
  if line.length ≤ lineMax then [line] else line.take lineMax :: chunks (line.drop lineMax)
  termination_by line.length
  decreasing_by
    rw [List.length_drop]
    simp only [lineMax] at *
    omega

/-- A piece that is blank or a comment. -/
def Skipped (piece : List Char) : Prop := parseLine piece = none

/-- **A line that is read as one**, from its pieces. All of them are blank or comments; or
one has a control character `c`, and those before it are blank. Then those behind it are
blank too, and there are not two blanks or more before `c` if nothing is behind it.

Or the pieces happen to say what the line says: nothing is behind `c` in its piece, the
pieces that follow are comments, and what the line has two characters on is `c` again. -/
def ReadWhole (pieces : List (List Char)) : Prop :=
  (∀ p ∈ pieces, Skipped p) ∨
    ∃ before b c q after, pieces = before ++ (b ++ c :: q) :: after ∧
      (∀ p ∈ before, AllBlank isSpace p) ∧ AllBlank isSpace b ∧ isSpace c = false ∧ c ≠ '#' ∧
      (∀ p ∈ after, Skipped p) ∧
      ((AllBlank isSpace after.flatten ∧ (q = [] → b.length < 2)) ∨
        (q = [] ∧ strip isSpace (after.flatten.drop 1) = [c]))

/-- A control character and nothing else. -/
def Bare (piece : List Char) : Prop := ∃ c, piece = [c] ∧ isSpace c = false ∧ c ≠ '#'

/-- Behind these pieces there is no command in the array: the last of them that is not just
a newline has a text of at most two characters. -/
def Clean (pieces : List (List Char)) : Prop :=
  ∃ before p k, pieces = before ++ p :: List.replicate k ['\n'] ∧ p ≠ ['\n'] ∧
    loose p = false ∧ (strip isSpace p).length ≤ 2

/-! ## One piece after the other -/

/-- What a piece is taken for. -/
def outcome (stale piece : List Char) : Option (Char × List Char) :=
  match strip isSpace piece with
  | [] => none
  | control :: _ => if control = '#' then none else some (control, leaves stale piece)

/-- How many pairs there are, and what can be read as a command, behind a piece. -/
def next (again : ℕ → Option (List Char)) (s : ℕ × List Char) (piece : List Char) :
    ℕ × List Char :=
  match outcome s.2 piece with
  | none => (s.1, leaves s.2 piece)
  | some (control, cmd) =>
    (s.1 + 1, if control = 'W' ∧ cmd ≠ [] then (again s.1).getD cmd else cmd)

/-- A piece of one character is a newline, if it is not the last of all. -/
def Settled (piece : List Char) : Prop := piece.length = 1 → piece = ['\n']

section

variable {again : ℕ → Option (List Char)} {σ piece b q : List Char} {c : Char}

theorem run_cons (n : ℕ) (rest : List (List Char)) :
    run again n σ (piece :: rest) = (outcome σ piece).toList ++
      run again (next again (n, σ) piece).1 (next again (n, σ) piece).2 rest := by
  simp only [run, next, outcome]
  cases strip isSpace piece with
  | nil => rfl
  | cons control cs =>
    by_cases hcomment : control = '#'
    · simp [hcomment]
    · simp [hcomment]

/-- A command is what the piece leaves in the array. -/
theorem leaves_of_outcome {cmd : List Char} (h : outcome σ piece = some (c, cmd)) :
    cmd = leaves σ piece := by
  unfold outcome at h
  split at h
  · cases h
  · split at h
    · cases h
    · cases h
      rfl

theorem outcome_of_allBlank (h : AllBlank isSpace piece) : outcome σ piece = none := by
  rw [outcome, strip_of_allBlank h]

theorem outcome_first (hb : AllBlank isSpace b) (hc : isSpace c = false) :
    outcome σ (b ++ c :: q) =
      if c = '#' then none else some (c, leaves σ (b ++ c :: q)) := by
  rw [outcome, strip_first hb hc]

theorem parseLine_of_allBlank (h : AllBlank isSpace piece) : parseLine piece = none := by
  rw [parseLine, strip_of_allBlank h]

theorem parseLine_first (hb : AllBlank isSpace b) (hc : isSpace c = false) :
    parseLine (b ++ c :: q) = if c = '#' then none else some (c, strip isSpace (q.drop 1)) := by
  simp only [parseLine, strip_first hb hc, strip_drop_rdropWhile]

/-- A piece is skipped whatever can be read behind it. -/
theorem outcome_eq_none_iff : outcome σ piece = none ↔ Skipped piece := by
  rw [outcome, Skipped, parseLine]
  cases strip isSpace piece with
  | nil => exact iff_of_true rfl rfl
  | cons control cs =>
    by_cases hcomment : control = '#'
    · simp [hcomment]
    · simp [hcomment]

theorem Settled.outcome_eq (h : Settled piece) (σ σ' : List Char) :
    outcome σ piece = outcome σ' piece := by
  by_cases hlen : piece.length = 1
  · rw [h hlen]
    rfl
  · simp only [outcome, leaves_of_length hlen]

theorem filterMap_cons_toList {α β : Type} (f : α → Option β) (x : α) (xs : List α) :
    (x :: xs).filterMap f = (f x).toList ++ xs.filterMap f := by
  cases hx : f x with
  | none => rw [List.filterMap_cons_none hx]; rfl
  | some y => rw [List.filterMap_cons_some hx]; rfl

/-- **Only the last piece** can see what can be read as a command. -/
theorem run_eq (n : ℕ) {script : List (List Char)} (h : ∀ p ∈ script.dropLast, Settled p) :
    run again n σ script =
      script.filterMap (outcome (script.dropLast.foldl (next again) (n, σ)).2) := by
  induction script generalizing n σ with
  | nil => rfl
  | cons piece rest ih =>
    rw [run_cons, filterMap_cons_toList]
    cases rest with
    | nil => rfl
    | cons piece' rest =>
      have hpiece : Settled piece := h piece List.mem_cons_self
      rw [ih _ fun p hp => h p (List.mem_cons_of_mem _ hp), List.dropLast_cons_cons,
        List.foldl_cons, hpiece.outcome_eq σ]

/-! ## One line -/

/-- The first piece of a line that is not blank. -/
theorem exists_first_piece {pieces : List (List Char)} (h : ¬∀ p ∈ pieces, AllBlank isSpace p) :
    ∃ before b c q after, pieces = before ++ (b ++ c :: q) :: after ∧
      (∀ p ∈ before, AllBlank isSpace p) ∧ AllBlank isSpace b ∧ isSpace c = false := by
  induction pieces with
  | nil => exact absurd (fun _ => nofun) h
  | cons p pieces ih =>
    by_cases hp : AllBlank isSpace p
    · obtain ⟨before, b, c, q, after, rfl, hbefore, hb, hc⟩ := ih fun hall =>
        h (List.forall_mem_cons.mpr ⟨hp, hall⟩)
      exact ⟨p :: before, b, c, q, after, rfl, List.forall_mem_cons.mpr ⟨hp, hbefore⟩, hb, hc⟩
    · obtain ⟨b, c, q, rfl, hb, hc⟩ := exists_first hp
      exact ⟨[], b, c, q, pieces, rfl, nofun, hb, hc⟩

section

variable {before after pieces : List (List Char)}

/-- What a line says, with its first character that is not blank in view. -/
theorem parseLine_pieces (hbefore : ∀ p ∈ before, AllBlank isSpace p) (hb : AllBlank isSpace b)
    (hc : isSpace c = false) :
    parseLine (before ++ (b ++ c :: q) :: after).flatten =
      if c = '#' then none else some (c, strip isSpace ((q ++ after.flatten).drop 1)) := by
  have hblank : AllBlank isSpace (before.flatten ++ b) := (allBlank_flatten.mpr hbefore).append hb
  rw [← parseLine_first hblank hc]
  simp

/-- What its pieces are taken for. -/
theorem outcome_pieces (hbefore : ∀ p ∈ before, AllBlank isSpace p) (hb : AllBlank isSpace b)
    (hc : isSpace c = false) :
    (before ++ (b ++ c :: q) :: after).filterMap (outcome σ) =
      (if c = '#' then none else some (c, leaves σ (b ++ c :: q))).toList ++
        after.filterMap (outcome σ) := by
  have hnil : before.filterMap (outcome σ) = [] :=
    List.filterMap_eq_nil_iff.mpr fun p hp => outcome_of_allBlank (hbefore p hp)
  rw [List.filterMap_append, hnil, List.nil_append, filterMap_cons_toList, outcome_first hb hc]

theorem filterMap_outcome_eq_nil_iff :
    pieces.filterMap (outcome σ) = [] ↔ ∀ p ∈ pieces, Skipped p := by
  rw [List.filterMap_eq_nil_iff]
  exact forall₂_congr fun p _ => outcome_eq_none_iff

/-- A line is taken for no fewer pairs than it has. -/
theorem length_parseLine_le (pieces : List (List Char)) (σ : List Char) :
    (parseLine pieces.flatten).toList.length ≤ (pieces.filterMap (outcome σ)).length := by
  by_cases hblank : ∀ p ∈ pieces, AllBlank isSpace p
  · rw [parseLine_of_allBlank (allBlank_flatten.mpr hblank)]
    exact Nat.zero_le _
  · obtain ⟨before, b, c, q, after, rfl, hbefore, hb, hc⟩ := exists_first_piece hblank
    rw [parseLine_pieces hbefore hb hc, outcome_pieces hbefore hb hc]
    split
    · exact Nat.zero_le _
    · simp

/-- Nothing but blank pieces and comments: nothing is said. -/
theorem parseLine_of_skipped (h : ∀ p ∈ pieces, Skipped p) : parseLine pieces.flatten = none := by
  have hle := length_parseLine_le pieces []
  rw [filterMap_outcome_eq_nil_iff.mpr h] at hle
  exact Option.toList_eq_nil_iff.mp (List.length_eq_zero_iff.mp (Nat.le_zero.mp hle))

theorem Bare.not_skipped (h : Bare piece) : ¬Skipped piece := by
  obtain ⟨c, rfl, hc, hne⟩ := h
  have hnil : AllBlank isSpace [] := nofun
  rw [Skipped, ← List.nil_append [c], parseLine_first hnil hc, if_neg hne]
  exact nofun

/-- The command of a piece is that of the line. -/
theorem leaves_eq_iff (hb : AllBlank isSpace b) (hc : isSpace c = false) {rest : List Char}
    (hfull : rest ≠ [] → (b ++ c :: q).length = lineMax) :
    leaves σ (b ++ c :: q) = strip isSpace ((q ++ rest).drop 1) ↔
      ((AllBlank isSpace rest ∧ (q = [] → b.length < 2)) ∨
        (q = [] ∧ strip isSpace (rest.drop 1) = [c])) ∧ (b = [] → q = [] → σ = []) := by
  rw [leaves_first hb hc]
  by_cases hq : q = []
  · subst hq
    rw [if_pos rfl, List.nil_append]
    by_cases hlong : 2 ≤ b.length
    · have hb' : b ≠ [] := by
        rintro rfl
        exact absurd hlong (by simp)
      rw [if_neg hb', if_pos hlong]
      simp [hb', Nat.not_lt.mpr hlong, eq_comm]
    · -- a piece as short as this is the last
      have hrest : rest = [] := by
        by_contra hne
        have := hfull hne
        simp only [List.length_append, List.length_cons, List.length_nil, lineMax] at this
        omega
      have hnil : strip isSpace (rest.drop 1) = [] := by rw [hrest]; rfl
      have hblank : AllBlank isSpace rest := by rw [hrest]; exact nofun
      rw [if_neg hlong, hnil]
      by_cases hb' : b = []
      · simp [hb', hblank]
      · simp [hb', hblank, Nat.not_le.mp hlong]
  · obtain ⟨x, q, rfl⟩ := List.exists_cons_of_ne_nil hq
    simp only [if_neg hq, List.cons_append, List.drop_succ_cons, List.drop_zero]
    constructor
    · intro h
      refine ⟨.inl ⟨?_, fun hnil => absurd hnil hq⟩, fun _ hnil => absurd hnil hq⟩
      -- the line has more characters than the piece
      by_contra hnot
      have hcount := congrArg (List.countP fun c => !isSpace c) h
      rw [countP_strip, countP_strip, List.countP_append] at hcount
      have := countP_pos hnot
      omega
    · rintro ⟨⟨hblank, -⟩ | ⟨hnil, -⟩, -⟩
      · exact (strip_append_blank hblank).symm
      · exact absurd hnil hq

/-- A piece with another one behind it is as long as it can be. -/
theorem length_of_after (hfull : ∀ p ∈ pieces.dropLast, p.length = lineMax)
    {before after : List (List Char)} {p : List Char} (hpieces : pieces = before ++ p :: after)
    (hafter : after.flatten ≠ []) : p.length = lineMax := by
  subst hpieces
  refine hfull p ?_
  have hafter' : after ≠ [] := by
    rintro rfl
    exact hafter rfl
  rw [List.dropLast_append_of_ne_nil (List.cons_ne_nil p after),
    List.dropLast_cons_of_ne_nil hafter']
  simp

/-- The only piece that is not skipped, if it is bare, is its control character. -/
theorem nil_of_bare {before after : List (List Char)} (hbefore : ∀ p ∈ before, Skipped p)
    (hafter : ∀ p ∈ after, Skipped p) {p : List Char} (hp : p ∈ before ++ (b ++ c :: q) :: after)
    (hbare : Bare p) : b = [] ∧ q = [] := by
  obtain hp | hp := List.mem_append.mp hp
  · exact absurd (hbefore p hp) hbare.not_skipped
  · obtain rfl | hp := List.mem_cons.mp hp
    · obtain ⟨x, hx, -⟩ := hbare
      have hlen := congrArg List.length hx
      simp only [List.length_append, List.length_cons, List.length_nil] at hlen
      exact ⟨List.length_eq_zero_iff.mp (by omega), List.length_eq_zero_iff.mp (by omega)⟩
    · exact absurd (hafter p hp) hbare.not_skipped

/-- **A line is read as one** exactly if its pieces say so, given that all but the last are
as long as they can be. -/
theorem outcome_eq_parseLine_iff (hfull : ∀ p ∈ pieces.dropLast, p.length = lineMax) :
    pieces.filterMap (outcome σ) = (parseLine pieces.flatten).toList ↔
      ReadWhole pieces ∧ ((∃ p ∈ pieces, Bare p) → σ = []) := by
  have hall : (∀ p ∈ pieces, Skipped p) →
      ReadWhole pieces ∧ ((∃ p ∈ pieces, Bare p) → σ = []) := by
    intro hskipped
    refine ⟨.inl hskipped, ?_⟩
    rintro ⟨p, hp, hbare⟩
    exact absurd (hskipped p hp) hbare.not_skipped
  constructor
  · intro h
    by_cases hblank : ∀ p ∈ pieces, AllBlank isSpace p
    · exact hall fun p hp => parseLine_of_allBlank (hblank p hp)
    · obtain ⟨before, b, c, q, after, hpieces, hbefore, hb, hc⟩ := exists_first_piece hblank
      rw [hpieces, parseLine_pieces hbefore hb hc, outcome_pieces hbefore hb hc] at h
      have hbefore' : ∀ p ∈ before, Skipped p := fun p hp => parseLine_of_allBlank (hbefore p hp)
      by_cases hcomment : c = '#'
      · -- a comment, and no piece of it is taken for anything else
        rw [if_pos hcomment, if_pos hcomment] at h
        have hafter := filterMap_outcome_eq_nil_iff.mp h
        have hpiece : Skipped (b ++ c :: q) := (parseLine_first hb hc).trans (if_pos hcomment)
        refine hall ?_
        rw [hpieces]
        exact List.forall_mem_append.mpr ⟨hbefore', List.forall_mem_cons.mpr ⟨hpiece, hafter⟩⟩
      · rw [if_neg hcomment, if_neg hcomment] at h
        obtain ⟨hpair, hnil⟩ := List.cons_eq_cons.mp h
        have hafter := filterMap_outcome_eq_nil_iff.mp hnil
        have hfirst := length_of_after hfull hpieces
        obtain ⟨hcmd, hσ⟩ := (leaves_eq_iff hb hc hfirst).mp (congrArg Prod.snd hpair)
        refine ⟨.inr ⟨before, b, c, q, after, hpieces, hbefore, hb, hc, hcomment, hafter, hcmd⟩, ?_⟩
        rintro ⟨p, hp, hbare⟩
        rw [hpieces] at hp
        obtain ⟨hb', hq⟩ := nil_of_bare hbefore' hafter hp hbare
        exact hσ hb' hq
  · rintro ⟨hskipped | ⟨before, b, c, q, after, hpieces, hbefore, hb, hc, hcomment, hafter, hcmd⟩,
      hbare⟩
    · rw [filterMap_outcome_eq_nil_iff.mpr hskipped, parseLine_of_skipped hskipped]
      rfl
    · have hσ : b = [] → q = [] → σ = [] := by
        rintro rfl rfl
        refine hbare ⟨[c], ?_, c, rfl, hc, hcomment⟩
        rw [hpieces]
        simp
      rw [hpieces, parseLine_pieces hbefore hb hc, outcome_pieces hbefore hb hc,
        if_neg hcomment, if_neg hcomment, filterMap_outcome_eq_nil_iff.mpr hafter,
        (leaves_eq_iff hb hc (length_of_after hfull hpieces)).mpr ⟨hcmd, hσ⟩]
      rfl

end

/-! ## The pieces of a script are those of its lines -/

/-- The first line of a text, and the rest of the text: only the last line of all may be
without a newline. -/
def IsLine (line rest : List Char) : Prop :=
  (∃ body, line = body ++ ['\n'] ∧ '\n' ∉ body) ∨ ('\n' ∉ line ∧ rest = [])

section

variable {line rest cs : List Char}

theorem IsLine.tail (h : IsLine (c :: line) rest) (hc : c ≠ '\n') : IsLine line rest := by
  obtain ⟨body, hline, hbody⟩ | ⟨hline, hrest⟩ := h
  · cases body with
    | nil => exact absurd (List.cons_eq_cons.mp hline).1 hc
    | cons x body =>
      exact .inl ⟨body, (List.cons_eq_cons.mp hline).2, fun h => hbody (List.mem_cons_of_mem x h)⟩
  · exact .inr ⟨fun h => hline (List.mem_cons_of_mem c h), hrest⟩

theorem IsLine.newline (h : IsLine ('\n' :: line) rest) : line = [] := by
  obtain ⟨body, hline, hbody⟩ | ⟨hline, -⟩ := h
  · cases body with
    | nil => exact (List.cons_eq_cons.mp hline).2
    | cons x body =>
      rw [← (List.cons_eq_cons.mp hline).1] at hbody
      exact absurd List.mem_cons_self hbody
  · exact absurd List.mem_cons_self hline

theorem IsLine.drop (h : IsLine line rest) {n : ℕ} (hn : n < line.length) :
    IsLine (line.drop n) rest := by
  obtain ⟨body, rfl, hbody⟩ | ⟨hline, hrest⟩ := h
  · rw [List.length_append, List.length_singleton] at hn
    refine .inl ⟨body.drop n, ?_, fun h => hbody (List.mem_of_mem_drop h)⟩
    exact List.drop_append_of_le_length (Nat.le_of_lt_succ hn)
  · exact .inr ⟨fun h => hline (List.mem_of_mem_drop h), hrest⟩

/-- A text has a first line. -/
theorem exists_line (h : cs ≠ []) :
    ∃ line rest, cs = line ++ rest ∧ line ≠ [] ∧ IsLine line rest := by
  induction cs with
  | nil => exact absurd rfl h
  | cons c cs ih =>
    by_cases hc : c = '\n'
    · subst hc
      exact ⟨['\n'], cs, rfl, nofun, .inl ⟨[], rfl, nofun⟩⟩
    · by_cases hcs : cs = []
      · subst hcs
        exact ⟨[c], [], rfl, nofun, .inr ⟨by simpa using fun h => hc h.symm, rfl⟩⟩
      · obtain ⟨line, rest, rfl, -, hline⟩ := ih hcs
        refine ⟨c :: line, rest, rfl, nofun, ?_⟩
        obtain ⟨body, rfl, hbody⟩ | ⟨hline, hrest⟩ := hline
        · refine .inl ⟨c :: body, rfl, ?_⟩
          simpa using ⟨fun h => hc h.symm, hbody⟩
        · refine .inr ⟨?_, hrest⟩
          simpa using ⟨fun h => hc h.symm, hline⟩

theorem lines_append (hne : line ≠ []) (h : IsLine line rest) :
    lines (line ++ rest) = line :: lines rest := by
  induction line with
  | nil => exact absurd rfl hne
  | cons c line ih =>
    rw [List.cons_append, lines]
    by_cases hc : c = '\n'
    · subst hc
      rw [if_pos rfl, h.newline]
      rfl
    · rw [if_neg hc]
      by_cases hline : line = []
      · subst hline
        obtain ⟨body, hbody, -⟩ | ⟨-, rfl⟩ := h
        · cases body with
          | nil => exact absurd (List.cons_eq_cons.mp hbody).1 hc
          | cons x body => exact absurd (congrArg List.length hbody) (by simp)
        · rfl
      · rw [ih hline (h.tail hc)]

/-- What is read is the start of the line, as much as fits. -/
theorem takeLine_line {n : ℕ} {t : List Chr} (h : IsLine line rest)
    (ht : t.map Prod.fst = line ++ rest) :
    (takeLine n t).1.map Prod.fst = line.take n ∧
      (takeLine n t).2.map Prod.fst = line.drop n ++ rest := by
  induction n generalizing t line with
  | zero => exact ⟨rfl, ht⟩
  | succ n ih =>
    cases line with
    | nil =>
      obtain ⟨body, hbody, -⟩ | ⟨-, rfl⟩ := h
      · exact absurd (congrArg List.length hbody) (by simp)
      · rw [List.map_eq_nil_iff.mp ht]
        exact ⟨rfl, rfl⟩
    | cons c line =>
      obtain ⟨x, t, rfl, rfl, ht'⟩ := List.map_eq_cons_iff.mp ht
      rw [takeLine_cons]
      by_cases hc : x.1 = '\n'
      · rw [if_pos hc]
        have hline : line = [] := IsLine.newline (hc ▸ h)
        subst hline
        exact ⟨by simp, by simpa using ht'⟩
      · rw [if_neg hc]
        obtain ⟨hfst, hsnd⟩ := ih (h.tail hc) ht'
        exact ⟨congrArg (x.1 :: ·) hfst, hsnd⟩

theorem pieces_map_eq (t : List Chr) :
    (pieces t).map (List.map Prod.fst) = (lines (t.map Prod.fst)).flatMap chunks := by
  induction hlen : t.length using Nat.strong_induction_on generalizing t with
  | _ len ih =>
    by_cases ht : t = []
    · subst ht
      rfl
    · obtain ⟨line, rest, hcs, hne, hline⟩ := exists_line (mt List.map_eq_nil_iff.mp ht)
      obtain ⟨hfst, hsnd⟩ := takeLine_line (n := lineMax) hline hcs
      rw [pieces_eq]
      cases htake : takeLine lineMax t with
      | mk piece t' =>
        rw [htake] at hfst hsnd
        cases piece with
        | nil =>
          have hnil := List.take_eq_nil_iff.mp hfst.symm
          exact absurd (hnil.resolve_left (by decide)) hne
        | cons x piece =>
          have hlt := takeLine_length htake
          simp only [List.map_cons, ih _ (hlen ▸ hlt) t' rfl, hcs, hsnd, lines_append hne hline]
          rw [List.flatMap_cons, chunks]
          have hfst : x.1 :: piece.map Prod.fst = line.take lineMax := hfst
          by_cases hshort : line.length ≤ lineMax
          · rw [if_pos hshort, hfst, List.take_of_length_le hshort, List.drop_of_length_le hshort]
            rfl
          · rw [if_neg hshort, hfst]
            have hlong := Nat.not_le.mp hshort
            have hdrop : line.drop lineMax ≠ [] := fun h => hshort (List.drop_eq_nil_iff.mp h)
            rw [lines_append hdrop (hline.drop hlong)]
            rfl

theorem readPieces_eq (script : List Char) :
    readPieces script = (lines script).flatMap chunks := by
  have htext : (text script).map Prod.fst = script := by simp [text]
  rw [← htext, ← pieces_map_eq, htext]
  rfl

theorem flatten_chunks (line : List Char) : (chunks line).flatten = line := by
  fun_induction chunks line with
  | case1 line hshort => simp
  | case2 line hlong ih => rw [List.flatten_cons, ih, List.take_append_drop]

theorem chunks_ne_nil (line : List Char) : chunks line ≠ [] := by
  rw [chunks]
  split <;> exact nofun

/-- All pieces of a line but the last are as long as they can be. -/
theorem length_chunks (line : List Char) : ∀ p ∈ (chunks line).dropLast, p.length = lineMax := by
  fun_induction chunks line with
  | case1 line hshort => exact nofun
  | case2 line hlong ih =>
    rw [List.dropLast_cons_of_ne_nil (chunks_ne_nil _)]
    refine List.forall_mem_cons.mpr ⟨?_, ih⟩
    exact List.length_take_of_le (Nat.le_of_not_le hlong)

/-- In a line that has its newline, no other piece is as short as that. -/
theorem settled_chunks {body : List Char} (hline : line = body ++ ['\n']) :
    ∀ p ∈ chunks line, Settled p := by
  fun_induction chunks line generalizing body with
  | case1 line hshort =>
    intro p hp hlen
    obtain rfl := List.mem_singleton.mp hp
    rw [hline] at hlen ⊢
    rw [List.length_append, List.length_singleton] at hlen
    rw [List.length_eq_zero_iff.mp (Nat.succ.inj hlen)]
    rfl
  | case2 line hlong ih =>
    have hlen : lineMax ≤ body.length := by
      rw [hline, List.length_append, List.length_singleton] at hlong
      omega
    have hdrop : line.drop lineMax = body.drop lineMax ++ ['\n'] := by
      rw [hline, List.drop_append_of_le_length hlen]
    refine List.forall_mem_cons.mpr ⟨fun hp => ?_, ih hdrop⟩
    rw [List.length_take_of_le (Nat.le_of_not_le hlong)] at hp
    exact absurd hp (by decide)

/-- Only the last piece of all can be a single character and no newline. -/
theorem settled_readPieces (script : List Char) :
    ∀ p ∈ (readPieces script).dropLast, Settled p := by
  rw [readPieces_eq]
  induction hlen : script.length using Nat.strong_induction_on generalizing script with
  | _ len ih =>
    by_cases hscript : script = []
    · subst hscript
      exact nofun
    · obtain ⟨line, rest, rfl, hne, hline⟩ := exists_line hscript
      have hlt : rest.length < len := by
        have := List.length_pos_iff.mpr hne
        rw [← hlen, List.length_append]
        omega
      rw [lines_append hne hline, List.flatMap_cons]
      obtain ⟨body, hbody, -⟩ | ⟨-, rfl⟩ := hline
      · have hchunks := settled_chunks hbody
        rw [List.dropLast_append]
        split
        · exact fun p hp => hchunks p ((List.dropLast_sublist _).subset hp)
        · exact List.forall_mem_append.mpr ⟨hchunks, ih _ hlt rest rfl⟩
      · intro p hp hone
        have hp : p ∈ (chunks line).dropLast := by simpa [lines] using hp
        rw [length_chunks line p hp] at hone
        exact absurd hone (by decide)

end

/-! ## What is behind the last piece -/

section

variable {init : List (List Char)}

theorem next_of_leaves_nil {s : ℕ × List Char} (h : leaves s.2 piece = []) :
    (next again s piece).2 = [] := by
  rw [next]
  cases hout : outcome s.2 piece with
  | none => exact h
  | some o =>
    obtain ⟨control, cmd⟩ := o
    obtain rfl : cmd = [] := (leaves_of_outcome hout).trans h
    simp

/-- With no call again, what can be read is what the piece has left. -/
theorem next_none (s : ℕ × List Char) (piece : List Char) :
    (next (fun _ => none) s piece).2 = leaves s.2 piece := by
  rw [next]
  cases hout : outcome s.2 piece with
  | none => rfl
  | some o =>
    obtain ⟨control, cmd⟩ := o
    simp [leaves_of_outcome hout]

/-- A piece leaves nothing if its text ends with its second character. -/
theorem leaves_eq_nil_iff (hlen : piece.length ≠ 1) :
    leaves σ piece = [] ↔ loose piece = false ∧ (strip isSpace piece).length ≤ 2 := by
  rw [leaves_of_length hlen]
  cases hloose : loose piece with
  | true =>
    -- then the character is there to be read
    have hnot : ¬AllBlank isSpace piece := by
      intro h
      rw [loose, List.dropWhile_eq_nil_iff.mpr h, List.length_nil, Bool.and_eq_true] at hloose
      exact absurd hloose.2 (by decide)
    simpa using mt strip_eq_nil_iff.mp hnot
  | false =>
    have hdrop : AllBlank isSpace ((strip isSpace piece).drop 2) ↔
        (strip isSpace piece).length ≤ 2 := allBlank_drop_rdropWhile_iff isSpace _ 2
    simpa [strip_eq_nil_iff] using hdrop

/-- If nothing can be read as a command behind some pieces, although there was something
before, they are clean. -/
theorem clean_of_leaves_nil (h : ∀ p ∈ init, Settled p)
    (hnil : (init.foldl (next fun _ => none) (0, ['x'])).2 = []) : Clean init := by
  induction init using List.reverseRecOn with
  | nil => exact absurd hnil (by decide)
  | append_singleton init p ih =>
    rw [List.foldl_append, List.foldl_cons, List.foldl_nil, next_none] at hnil
    by_cases hp : p = ['\n']
    · -- a newline leaves what was there before
      subst hp
      obtain ⟨before, p, k, rfl, hp, hloose, hlen⟩ :=
        ih (fun p hp => h p (List.mem_append_left _ hp)) hnil
      refine ⟨before, p, k + 1, ?_, hp, hloose, hlen⟩
      rw [List.append_assoc, List.cons_append, ← List.replicate_succ']
    · have hlen : p.length ≠ 1 := fun hlen =>
        hp (h p (List.mem_append_right _ (List.mem_singleton_self p)) hlen)
      obtain ⟨hloose, hshort⟩ := (leaves_eq_nil_iff hlen).mp hnil
      exact ⟨init, p, 0, rfl, hp, hloose, hshort⟩

/-- Behind clean pieces nothing can be read as a command, whatever the array was. -/
theorem Clean.leaves_nil (hclean : Clean init) (h : ∀ p ∈ init, Settled p)
    (again : ℕ → Option (List Char)) (σ : List Char) :
    (init.foldl (next again) (0, σ)).2 = [] := by
  obtain ⟨before, p, k, rfl, hp, hloose, hshort⟩ := hclean
  have hlen : p.length ≠ 1 := fun hlen => hp (h p (by simp) hlen)
  rw [List.foldl_append, List.foldl_cons]
  have hnil : (next again (before.foldl (next again) (0, σ)) p).2 = [] :=
    next_of_leaves_nil ((leaves_eq_nil_iff hlen).mpr ⟨hloose, hshort⟩)
  generalize next again (before.foldl (next again) (0, σ)) p = s at hnil
  clear h
  induction k with
  | zero => exact hnil
  | succ k ih => exact ih

end

/-! ## The script -/

/-- A piece is not empty, and has no other characters than the text. -/
theorem mem_piecesUpTo {n : ℕ} {t piece : List Chr} (h : piece ∈ piecesUpTo n t) :
    piece ≠ [] ∧ ∀ c ∈ piece, c ∈ t := by
  induction n generalizing t with
  | zero => exact absurd h List.not_mem_nil
  | succ n ih =>
    rw [piecesUpTo] at h
    have happ := takeLine_append lineMax t
    cases htake : takeLine lineMax t with
    | mk line rest =>
      rw [htake] at h happ
      cases line with
      | nil => exact absurd h List.not_mem_nil
      | cons c line =>
        obtain rfl | h := List.mem_cons.mp h
        · exact ⟨by simp, fun c hc => happ ▸ List.mem_append_left _ hc⟩
        · obtain ⟨hne, hmem⟩ := ih h
          exact ⟨hne, fun c hc => happ ▸ List.mem_append_right _ (hmem c hc)⟩

theorem mem_readPieces {script piece : List Char} (hnul : '\x00' ∉ script)
    (h : piece ∈ readPieces script) : piece ≠ [] ∧ '\x00' ∉ piece := by
  obtain ⟨p, hp, rfl⟩ := List.mem_map.mp h
  obtain ⟨hne, hmem⟩ := mem_piecesUpTo hp
  refine ⟨mt List.map_eq_nil_iff.mp hne, fun h => hnul ?_⟩
  obtain ⟨c, hc, hc'⟩ := List.mem_map.mp h
  have htext : (text script).map Prod.fst = script := by simp [text]
  rw [← htext, ← hc']
  exact List.mem_map_of_mem (hmem c hc)

/-- Two ways to take lists apart that come to the same altogether are the same for each of
them, if one never gives less. -/
theorem flatMap_eq_iff {α β : Type} {f g : α → List β} {xs : List α}
    (hle : ∀ x ∈ xs, (g x).length ≤ (f x).length) :
    xs.flatMap f = xs.flatMap g ↔ ∀ x ∈ xs, f x = g x := by
  refine ⟨fun h => ?_, List.flatMap_congr⟩
  have hsum : ∀ ys : List α, (∀ y ∈ ys, (g y).length ≤ (f y).length) →
      (ys.flatMap g).length ≤ (ys.flatMap f).length := by
    intro ys hys
    induction ys with
    | nil => exact Nat.le_refl _
    | cons y ys ih =>
      have hy := hys y List.mem_cons_self
      have hrest := ih fun z hz => hys z (List.mem_cons_of_mem y hz)
      simp only [List.flatMap_cons, List.length_append]
      omega
  induction xs with
  | nil => exact nofun
  | cons x xs ih =>
    have hx := hle x List.mem_cons_self
    have hxs : ∀ y ∈ xs, (g y).length ≤ (f y).length := fun y hy => hle y (List.mem_cons_of_mem x hy)
    have hrest := hsum xs hxs
    have hlen := congrArg List.length h
    simp only [List.flatMap_cons, List.length_append] at hlen h
    obtain ⟨hfst, hsnd⟩ := List.append_inj h (by omega)
    exact List.forall_mem_cons.mpr ⟨hfst, ih hxs hsnd⟩

theorem filterMap_eq_flatMap {α β : Type} (f : α → Option β) (xs : List α) :
    xs.filterMap f = xs.flatMap fun x => (f x).toList := by
  induction xs with
  | nil => rfl
  | cons x xs ih => rw [filterMap_cons_toList, ih, List.flatMap_cons]

/-- What the loop does, piece by piece. -/
theorem process_readPieces {script : List Char} (hnul : '\x00' ∉ script)
    (again : ℕ → Option (List Char)) (mem : List Char) :
    process again 0 mem (readPieces script) = (readPieces script).filterMap (outcome
      ((readPieces script).dropLast.foldl (next fun n => (again n).map stale) (0, stale mem)).2) := by
  rw [process_eq _ _ _ fun p hp => mem_readPieces hnul hp, run_eq _ (settled_readPieces script)]

/-- **When a script is read line by line**: when each line is read as one, and a control
character at its very end, with nothing in its piece but itself, comes behind pieces that
leave nothing to be read as its command. -/
theorem parsesByLine_iff {script : List Char} (hnul : '\x00' ∉ script) :
    ParsesByLine script ↔ (∀ line ∈ lines script, ReadWhole (chunks line)) ∧
      ((∃ p ∈ readPieces script, Bare p) → Clean (readPieces script).dropLast) := by
  have hsettled := settled_readPieces script
  have hiff : ∀ σ, (readPieces script).filterMap (outcome σ) = (lines script).filterMap parseLine ↔
      ∀ line ∈ lines script, ReadWhole (chunks line) ∧ ((∃ p ∈ chunks line, Bare p) → σ = []) := by
    intro σ
    rw [readPieces_eq, List.filterMap_flatMap, filterMap_eq_flatMap parseLine, flatMap_eq_iff]
    · refine forall₂_congr fun line _ => ?_
      rw [← outcome_eq_parseLine_iff (length_chunks line), flatten_chunks]
    · intro line _
      rw [← flatten_chunks line]
      exact (flatten_chunks line).symm ▸ length_parseLine_le (chunks line) σ
  constructor
  · intro h
    have hread := (hiff _).mp ((process_readPieces hnul (fun _ => none) "..x".toList).symm.trans
      (h (fun _ => none) "..x".toList))
    refine ⟨fun line hline => (hread line hline).1, ?_⟩
    rintro ⟨p, hp, hbare⟩
    rw [readPieces_eq] at hp
    obtain ⟨line, hline, hp⟩ := List.mem_flatMap.mp hp
    exact clean_of_leaves_nil hsettled ((hread line hline).2 ⟨p, hp, hbare⟩)
  · rintro ⟨hread, hclean⟩ again mem
    rw [process_readPieces hnul, hiff]
    refine fun line hline => ⟨hread line hline, ?_⟩
    rintro ⟨p, hp, hbare⟩
    refine (hclean ⟨p, ?_, hbare⟩).leaves_nil hsettled _ _
    rw [readPieces_eq]
    exact List.mem_flatMap.mpr ⟨line, hline, hp⟩

end

/-- A comment, a blank line and two commands. -/
def westonScript : List Char := "# weston\n\nL: weston\nM: xterm\n".toList

theorem parsesByLine_weston : ParsesByLine westonScript := by
  have hlines : lines westonScript = ["# weston\n".toList, "\n".toList, "L: weston\n".toList,
    "M: xterm\n".toList] := by decide
  have hpieces : readPieces westonScript = lines westonScript := by decide
  have hskipped : ∀ line, line.length ≤ lineMax → Skipped line → ReadWhole (chunks line) := by
    intro line hlen hline
    rw [chunks, if_pos hlen]
    exact .inl (List.forall_mem_singleton.mpr hline)
  have hcommand : ∀ c q, (c :: q).length ≤ lineMax → isSpace c = false → c ≠ '#' → q ≠ [] →
      ReadWhole (chunks (c :: q)) := by
    intro c q hlen hc hcomment hq
    rw [chunks, if_pos hlen]
    exact .inr ⟨[], [], c, q, [], rfl, List.forall_mem_nil _, List.forall_mem_nil _, hc, hcomment,
      List.forall_mem_nil _, .inl ⟨List.forall_mem_nil _, fun h => absurd h hq⟩⟩
  refine (parsesByLine_iff (by decide)).mpr ⟨fun line hline => ?_, ?_⟩
  · rw [hlines] at hline
    simp only [List.mem_cons, List.not_mem_nil, or_false] at hline
    rcases hline with rfl | rfl | rfl | rfl
    · exact hskipped _ (by decide) (show parseLine _ = none by decide)
    · exact hskipped _ (by decide) (show parseLine _ = none by decide)
    · exact hcommand 'L' _ (by decide) (by decide) (by decide) (by decide)
    · exact hcommand 'M' _ (by decide) (by decide) (by decide) (by decide)
  · rw [hpieces, hlines]
    rintro ⟨p, hp, c, rfl, hc, -⟩
    simp only [List.mem_cons, List.not_mem_nil, or_false] at hp
    rcases hp with hp | hp | hp | hp
    · exact absurd (List.cons.inj hp).2 (by decide)
    · rw [(List.cons.inj hp).1] at hc
      exact absurd hc (by decide)
    · exact absurd (List.cons.inj hp).2 (by decide)
    · exact absurd (List.cons.inj hp).2 (by decide)

/-- The last line is `M` and has no newline: its command is that of the line before. -/
theorem weston_is_run_again :
    ¬ParsesByLine "L: weston\nM".toList ∧
      process (fun _ => none) 0 [] (readPieces "L: weston\nM".toList) =
        [('L', "weston".toList), ('M', "weston".toList)] := by
  refine ⟨fun h => ?_, by decide⟩
  exact absurd (h (fun _ => none) []) (by decide)

/-! ## The launcher's script -/

section

variable {σ piece : List Char}

/-- A piece is taken for the line it is, if its command is where it should be. -/
theorem outcome_eq_parseLine (hloose : loose piece = false) (hbare : Bare piece → σ = []) :
    outcome σ piece = parseLine piece := by
  by_cases hblank : AllBlank isSpace piece
  · rw [outcome_of_allBlank hblank, parseLine_of_allBlank hblank]
  · obtain ⟨b, c, q, rfl, hb, hc⟩ := exists_first hblank
    rw [outcome_first hb hc, parseLine_first hb hc]
    by_cases hcomment : c = '#'
    · rw [if_pos hcomment, if_pos hcomment]
    · rw [if_neg hcomment, if_neg hcomment, leaves_first hb hc]
      by_cases hq : q = []
      · subst hq
        have hshort : ¬2 ≤ b.length := fun hlong => by
          rw [(loose_first hb hc).mpr ⟨hlong, rfl⟩] at hloose
          exact absurd hloose (by decide)
        rw [if_pos rfl, if_neg hshort]
        by_cases hb' : b = []
        · subst hb'
          rw [if_pos rfl, hbare ⟨c, rfl, hc, hcomment⟩]
          rfl
        · rw [if_neg hb']
          rfl
      · rw [if_neg hq]

/-- **Where no piece has its control character loose**, the pairs are those of the script
that the launcher is given. -/
theorem process_eq_parse {script : List Char} (hnul : '\x00' ∉ script)
    (hloose : ∀ p ∈ readPieces script, loose p = false)
    (hclean : (∃ p ∈ readPieces script, Bare p) → Clean (readPieces script).dropLast)
    (again : ℕ → Option (List Char)) (mem : List Char) :
    process again 0 mem (readPieces script) = (pieces (text script)).filterMap parse := by
  have hparse : ∀ p ∈ pieces (text script), parse p = parseLine (p.map Prod.fst) := by
    intro p hp
    obtain ⟨-, hp⟩ := mem_readPieces hnul (List.mem_map_of_mem hp)
    rw [parse, parseLine, cString, List.takeWhile_eq_self_iff.mpr]
    · rfl
    · intro c hc
      have hne : c ≠ '\x00' := fun h => hp (h ▸ hc)
      simpa using hne
  rw [process_readPieces hnul, List.filterMap_congr hparse, readPieces, List.filterMap_map]
  refine List.filterMap_congr fun p hp => ?_
  have hp' : p.map Prod.fst ∈ readPieces script := List.mem_map_of_mem hp
  refine outcome_eq_parseLine (hloose _ hp') fun hbare => ?_
  exact (hclean ⟨_, hp', hbare⟩).leaves_nil (settled_readPieces script) _ _

end

end ScriptBuffer

end Tlm
